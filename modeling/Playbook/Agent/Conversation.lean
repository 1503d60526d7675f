import Playbook.World
import Playbook.Script.Builtin

/- How an agent's programs speak and listen. -/
namespace Playbook

def human : AgentId := "human"

def isUser (target : String) : Bool := target = "user" || target = human

namespace AgentState

/-- Speaks to the user, to the current meeting or to an agent. Only what is said to an agent in so
    many words closes the turn. -/
def speak (a : AgentState) (target content : String) (closeTurn : Bool) (w : World) :
    Except String Value × World :=
  if isUser target then
    let (m, w) := w.assembled (·.write (.direct a.id a.klass human content))
    (.ok .null, w.note a.id m)
  else if target = "meeting" then
    match a.stack.currentMeeting? with
    | none => (.error MeetingError.notInMeeting.message, w)
    | some id =>
      let (r, w) := w.assembled (Assembly.sayToMeeting a.signature id content)
      ((r.map fun _ => .null).mapError MeetingError.message, w)
  else match checkId .agent target with
    | .error e => (.error e.message, w)
    | .ok addressee =>
      let (m, w) := w.assembled (·.write (.direct a.id a.klass addressee content))
      let (r, w) := w.assembled fun s => if closeTurn then s.deliverTurn m else s.deliver m
      ((r.map fun _ => .null).mapError PostError.message, w)

def currentRoom (a : AgentState) (w : World) : Except MeetingError (MeetingId × Nat) :=
  match a.stack.currentMeeting? with
  | none => .error .notInMeeting
  | some id => (w.house.roomOf a.id id).map (id, ·)

end AgentState

inductive Source where
  | anyone
  | sender (agent : AgentId)
  /-- The members are those at the time when the waiting began. -/
  | meeting (id : MeetingId) (members : List AgentId)
deriving DecidableEq, Repr

namespace Source

/-- Control messages are not for programs. The markers that members send belong to the meeting. -/
def accepts (s : Source) (m : Message) : Bool :=
  !m.kind.isControl &&
    match s with
    | .anyone => true
    | .sender agent => m.sender = agent
    | .meeting id members => m.meeting = some id || (m.isMarker && members.contains m.sender)

def render (s : Source) (batch : List Message) : String :=
  "\n".intercalate (batch.map fun m =>
    match s with
    | .sender _ => m.content
    | .anyone | .meeting .. => m.display)

def ofName (a : AgentState) (name : String) (w : World) : Except String Source :=
  if name = "*" then .ok .anyone
  else if isUser name then .ok (.sender human)
  else if name = "meeting" then
    match a.currentRoom w with
    | .error e => .error e.message
    | .ok (id, n) => .ok (.meeting id ((w.house.room? n).map (·.members)).toList.flatten)
  else ((checkId .agent name).map .sender).mapError IdError.message

end Source

/-- Collects from an inbox until there is a message or the time is over; a batch that has been
    closed before it had a message does not count. -/
def awaitBatch (inbox : Nat) (accepts : Message → Bool) (timeout most : Nat) :
    Activity World (List Message) := do
  let started ← Activity.now
  Activity.iterate () fun () => do
    let left := timeout - ((← Activity.now) - started)
    let batch ← collectBatch inbox ⟨accepts, left, 1, some most⟩
    let elapsed := (← Activity.now) - started
    return if batch.isEmpty && elapsed < timeout then .inl () else .inr batch

end Playbook
