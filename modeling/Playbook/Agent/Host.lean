import Playbook.Agent.Conversation
import Playbook.Agent.Error
import Playbook.Repertoire

/- What the programs of an agent can ask for: to speak and to listen, to run other playbooks, to
   hold meetings and to share state in them. A playbook called by another one is performed in the
   same way, so performing is built up level by level, as deep as frames may be nested. -/
namespace Playbook
open Script

/-- The surroundings of one agent. -/
structure Host where
  inbox : Nat
  repertoire : Repertoire
  engine : Engine
  batchTimeout : Nat
  maxBatchMessages : Nat
  meetingTimeout : Nat

structure Invocation where
  playbook : String
  args : List Value
  /-- The meeting that the new frame belongs to. -/
  meeting : Option MeetingId
  /-- The messages that led to it. -/
  messages : List Message

def Invocation.plain (playbook : String) (args : List Value) : Invocation :=
  ⟨playbook, args, none, []⟩

def Invocation.request (i : Invocation) (a : AgentState) : GenerationRequest :=
  ⟨a.id, a.klass, i.playbook, i.args, a.stack.pointers, i.messages⟩

def Message.toValue (m : Message) : Value :=
  .map (Dict.ofList [("from", .str m.sender), ("klass", .str m.senderKlass),
    ("content", .str m.content), ("meeting_id", (m.meeting.map Value.str).getD .null)])

def Invocation.names (i : Invocation) : Namespace :=
  let names : Namespace := [("args", .list i.args)]
  if i.messages.isEmpty then names
  else names.insert "messages" (.list (i.messages.map Message.toValue))

abbrev Performed := Except AgentError Summary × AgentState

abbrev Performer := Invocation → AgentState → Activity World Performed

namespace Host
variable (host : Host)

def generate (r : GenerationRequest) : Activity World (Except AgentError Generation) :=
  Activity.change fun w =>
    ((host.engine r).mapError .engine, { w with requests := w.requests ++ [r] })

def call (perform : Performer) (i : Invocation) (a : AgentState) :
    Activity World (Except String Value × AgentState) := do
  match ← perform i a with
  | (.error e, a) => return (.error e.message, a)
  | (.ok s, a) =>
    match s.fault with
    | none => return (.ok (s.returned.getD .null), a)
    | some f => return (.error s!"{i.playbook} failed: {f.message}", a)

def waitForMessage (a : AgentState) (name : String) : Activity World (Except String Value) := do
  match ← Activity.ask (Source.ofName a name) with
  | .error text => return .error text
  | .ok source =>
    let batch ← awaitBatch host.inbox source.accepts host.batchTimeout host.maxBatchMessages
    return .ok (if batch.isEmpty then .null else .str (source.render batch))

/-- Brings a meeting about and performs its playbook, if the agent knows it; the meeting is closed
    afterwards. A meeting that fails to come about is reported in words. -/
def holdMeeting (perform : Performer) (a : AgentState) (playbook topic : String)
    (required optional : List String) : Activity World (Except String Value × AgentState) := do
  let created ← match MeetingRequest.ofNames playbook topic required optional with
    | .error e => pure (.error e)
    | .ok r => convene a.signature host.inbox host.meetingTimeout r
  match created with
  | .error e => return (.ok (.str s!"Meeting initialization failed: {e.message}"), a)
  | .ok id =>
    if !host.repertoire.contains playbook then return (.ok (.str id), a)
    else
      let (outcome, a) ← call perform ⟨playbook, [], some id, []⟩ a
      let _ ← Activity.change (World.assembled (Assembly.closeMeeting a.id id))
      return (outcome.map fun
        | .null => .str id
        | v => v, a)

def suspend (perform : Performer) (a : AgentState) :
    SuspendCall → Activity World (Except String Value × AgentState)
  | .say target content => do return (← Activity.change (a.speak target content true), a)
  | .sendMessage target content => do return (← Activity.change (a.speak target content false), a)
  | .waitForMessage source => do return (← host.waitForMessage a source, a)
  | .call playbook args => call perform (.plain playbook args) a
  | .createMeeting playbook topic required optional =>
    host.holdMeeting perform a playbook topic required optional

def keyArgument (function : String) : List Value → Except String String
  | [] => .error s!"{function}() missing required argument 'key'"
  | .str key :: _ => .ok key
  | v :: _ => .error s!"{function}() key must be a str, not {v.typeName}"

def stateAccess (a : AgentState) (function : String) (args : List Value) (w : World) :
    Except String (String × Nat) := do
  let key ← keyArgument function args
  let (_, room) ← (a.currentRoom w).mapError MeetingError.message
  return (key, room)

def getState (a : AgentState) (function : String) (args : List Value) (w : World) :
    Except String Value := do
  let (key, n) ← stateAccess a function args w
  let found := (w.house.room? n).bind (·.state.get? key)
  return found.getD (args.getD 1 .null)

def setState (a : AgentState) (function : String) (args : List Value) (w : World) :
    Except String Value × World :=
  match stateAccess a function args w with
  | .error text => (.error text, w)
  | .ok (key, n) =>
    let value := args.getD 1 .null
    (.ok .null, { w with house := w.house.modifyRoom n (·.set key value) })

def members (a : AgentState) (w : World) : Except String Value :=
  match a.currentRoom w with
  | .error e => .error e.message
  | .ok (_, n) => .ok (.list (((w.house.room? n).map (·.members)).toList.flatten.map .str))

def hostFunction (a : AgentState) (name : String) (args : List Value) :
    Activity World (Option (Except String Value) × AgentState) := do
  match name with
  | "MeetingStateGet" => return (some (← Activity.ask (getState a name args)), a)
  | "MeetingStateSet" => return (some (← Activity.change (setState a name args)), a)
  | "MeetingMembers" => return (some (← Activity.ask (members a)), a)
  | _ => return (none, a)

def reserved (a : AgentState) (name : String) (w : World) : Option Value :=
  match name with
  | "agent" => some (.map [("id", .str a.id), ("klass", .str a.klass)])
  | "state" => some (.map a.vars)
  | "call_stack" => some (.list (a.stack.pointers.map .str))
  | "meetings" => some (w.house.toValue a.id)
  | "owned_meetings" => some (.list ((w.house.book a.id).owned.keys.map .str))
  | "joined_meetings" => some (.list ((w.house.book a.id).joined.keys.map .str))
  | _ => none

def handlerOver (perform : Performer) : Handler (Activity World) where
  suspend a c := host.suspend perform a c
  hostFunction := hostFunction
  reserved a name := Activity.ask (reserved a name)

def feed (h : Handler (Activity World)) (save : Saver (Activity World)) (p : Progress)
    (broken : Option String) : List String → Activity World (Except AgentError Unit × Progress)
  | [] =>
    match broken with
    | some text => return (.error (.engine text), p)
    | none => return (.ok (), p)
  | chunk :: rest => do
    match ← Progress.addChunk h save p chunk with
    | (.error e, p) => return (.error (.execution e), p)
    | (.ok (), p) =>
      if p.execution.fault.isSome || p.execution.returned.isSome then return (.ok (), p)
      else feed h save p broken rest

def drive (h : Handler (Activity World)) (save : Saver (Activity World)) (execution : ExecutionId)
    (i : Invocation) (a : AgentState) : Activity World Performed := do
  match ← host.generate (i.request a) with
  | .error e => return (.error e, a)
  | .ok g =>
    match ← feed h save ⟨Execution.start execution i.names, a⟩ g.broken g.chunks with
    | (.error e, p) => return (.error e, p.agent)
    | (.ok (), p) =>
      let (r, p) ← Progress.finalize h save p
      return (r.mapError .execution, p.agent)

def frame (execution : ExecutionId) (i : Invocation) : Frame :=
  ⟨⟨i.playbook, "01", none⟩, [], i.meeting, some execution⟩

/-- Performs a playbook in a new frame, which is left in any case. -/
def execute (h : Handler (Activity World)) (save : Saver (Activity World))
    (execution : ExecutionId) : Performer := fun i a => do
  if !host.repertoire.contains i.playbook then return (.error (.unknownPlaybook i.playbook), a)
  else if maxDepth ≤ a.stack.length then return (.error .tooDeep, a)
  else
    let a := { a with stack := a.stack.push (frame execution i) }
    let (r, a) ← host.drive h save execution i a
    return (r, { a with stack := a.stack.pop })

/-- Performs playbooks called by others, under an execution of their own and without checkpoints;
    so many levels below it may call again. -/
def performer : Nat → Performer
  | 0 => fun _ a => return (.error .tooDeep, a)
  | levels + 1 => fun i a => do
    let execution ← Activity.change (World.assembled Assembly.mint)
    host.execute (host.handlerOver (performer levels)) none execution i a

/-- Every call adds a frame, so there are never more levels than frames. -/
def handler : Handler (Activity World) := host.handlerOver (host.performer (maxDepth + 1))

end Host
end Playbook
