import Playbook.Assembly
import Playbook.Checkpoint.Manager
import Playbook.Engine
import Playbook.Meeting.Attendance
import Playbook.Schedule

/- What all agents act on: inboxes and meetings, what each has said to the user, the stores of
   checkpoints, and what the engine has been asked. -/
namespace Playbook

structure World extends Assembly where
  /-- What each agent has said to the user. -/
  transcripts : Dict (List Message)
  /-- Who numbers the checkpoints of each agent. -/
  managers : Dict CheckpointManager
  memory : MemoryStore
  files : FileSystem
  requests : List GenerationRequest

namespace World

def start (nextId : Nat) (date : String) (files : FileSystem) : World :=
  ⟨Assembly.start nextId date, [], [], [], files, []⟩

instance : Signals World where
  collect w := (w.post.arrivals, { w with post := { w.post with arrivals := [] } })

def assembled (f : Assembly → α × Assembly) (w : World) : α × World :=
  let (a, assembly) := f w.toAssembly
  (a, { w with toAssembly := assembly })

def transcript (w : World) (agent : AgentId) : List Message :=
  (w.transcripts.get? agent).getD []

def note (w : World) (agent : AgentId) (m : Message) : World :=
  { w with transcripts := w.transcripts.insert agent (w.transcript agent ++ [m]) }

def collect (n : Nat) (r : BatchRequest) (batch : List Message) (w : World) :
    (List Message × Bool) × World :=
  let (batch, left, complete) := r.collect batch (w.post.box n)
  ((batch, complete), { w with post := w.post.setBox n left })

def giveUp (n : Nat) (r : BatchRequest) (batch : List Message) (w : World) :
    List Message × World :=
  let (batch, left) := r.giveUp batch (w.post.box n)
  (batch, { w with post := w.post.setBox n left })

/-- New surroundings over the same stores. Of the rooms, those live on that somebody holds. -/
def restart (w : World) : World :=
  { w with
    post := PostOffice.start w.post.nextId w.post.date
    house := { MeetingHouse.empty with rooms := w.house.rooms, held := w.house.held }
    transcripts := []
    managers := [] }

end World

/-- Collects a batch from an inbox. Every arrival leads to another look, until the batch is complete
    or the time is over. -/
def collectBatch (n : Nat) (r : BatchRequest) : Activity World (List Message) := do
  let deadline := (← Activity.now) + r.timeout
  Activity.iterate ([] : List Message) fun batch => do
    let (batch, complete) ← Activity.change (World.collect n r batch)
    if complete then return .inr batch
    else if ← Activity.wait n deadline then return .inl batch
    else return .inr (← Activity.change (World.giveUp n r batch))

/-- Brings a meeting about and notes it in the book of its owner, or says why it has failed. The
    owner's inbox is searched for the answers to this meeting only. -/
def convene (owner : Signature) (inbox timeout : Nat) (r : MeetingRequest) :
    Activity World (Except MeetingError MeetingId) := do
  let c ← Activity.change (World.assembled (Convening.start owner r))
  let deadline := (← Activity.now) + timeout
  let c ← Activity.iterate c fun c => do
    let now ← Activity.now
    if c.pending.isEmpty || deadline ≤ now then return .inr c
    else
      let batch ← collectBatch inbox ⟨Convening.isAnswer c.meeting, deadline - now, 1, none⟩
      return .inl (← Activity.change (World.assembled (c.hearAll · batch)))
  Activity.change (World.assembled (c.settle owner r))

end Playbook
