import Playbook.Agent.Host

/- An agent: its state, its surroundings, and how it runs playbooks, serves its inbox and goes on
   from a checkpoint. It runs one playbook at a time. -/
namespace Playbook
open Script

structure Agent where
  state : AgentState
  host : Host
  /-- The execution that its own runs belong to. -/
  execution : ExecutionId
  /-- Where its runs are saved, if they are. -/
  store : Option (CheckpointStore World)

/-- Conversation by meeting: what belongs to none, then the meetings in rising order. -/
structure Conversations where
  direct : List Message
  meetings : Dict (List Message)

namespace Conversations

def empty : Conversations := ⟨[], []⟩

def add (c : Conversations) (m : Message) : Conversations :=
  match m.meeting with
  | none => { c with direct := c.direct ++ [m] }
  | some id =>
    { c with meetings := c.meetings.insert id ((c.meetings.get? id).getD [] ++ [m]) }

def groups (c : Conversations) : List (Option MeetingId × List Message) :=
  (if c.direct.isEmpty then [] else [(none, c.direct)]) ++
    c.meetings.map fun e => (some e.1, e.2)

end Conversations

namespace Agent

def save (a : Agent) (store : CheckpointStore World) (r : SaveRequest) (w : World) :
    Except StoreError CheckpointId × World :=
  match w.managers.get? a.state.id with
  | none => (.error (.noCheckpoint a.state.id), w)
  | some m =>
    let (result, m, w) := m.save store w.post.date r w
    (result, { w with managers := w.managers.insert a.state.id m })

def saver (a : Agent) : Saver (Activity World) :=
  a.store.map fun store r => Activity.change (a.save store r)

def perform (a : Agent) (i : Invocation) : Activity World (Except AgentError Summary × Agent) := do
  let (r, state) ← a.host.execute a.host.handler a.saver a.execution i a.state
  return (r, { a with state })

def run (a : Agent) (playbook : String) (args : List Value) :
    Activity World (Except AgentError Summary × Agent) :=
  a.perform (.plain playbook args)

structure Handling where
  agent : Agent
  /-- The runs that have come to an end. -/
  runs : Nat
  conversations : Conversations

def Handling.perform (h : Handling) (i : Invocation) : Activity World Handling := do
  match ← h.agent.perform i with
  | (.ok _, agent) => return { h with agent, runs := h.runs + 1 }
  | (.error _, agent) => return { h with agent }

def Handling.attend (h : Handling) (m : Message) : Activity World Handling := do
  let a := h.agent
  let answer := Assembly.handleInvitation a.state.signature a.host.repertoire.contains m
  match ← Activity.change (World.assembled answer) with
  | .ok (.joined joined invitation) =>
    let h ← h.perform ⟨invitation.playbook, [], some joined.id, []⟩
    let _ ← Activity.change (World.assembled (Assembly.leaveMeeting a.state.id joined.id))
    return h
  | _ => return h

def Handling.receive (h : Handling) (m : Message) : Activity World Handling := do
  match m.kind with
  | .invitation => h.attend m
  | .response =>
    let _ ← Activity.change (World.assembled (Assembly.recordResponse m))
    return h
  | .direct | .broadcast =>
    return if m.isMarker then h else { h with conversations := h.conversations.add m }

def Handling.converse (h : Handling) (handler : String) :
    List (Option MeetingId × List Message) → Activity World Handling
  | [] => return h
  | (meeting, messages) :: rest => do
    let h ← h.perform ⟨handler, [], meeting, messages⟩
    h.converse handler rest

def Handling.receiveAll (h : Handling) : List Message → Activity World Handling
  | [] => return h
  | m :: rest => do
    let h ← h.receive m
    h.receiveAll rest

/-- Handles a batch: control messages one by one, then the conversation of each meeting in one run
    of the message handler. Counts the runs that have come to an end. -/
def handleBatch (a : Agent) (batch : List Message) : Activity World (Nat × Agent) := do
  let h ← Handling.receiveAll ⟨a, 0, .empty⟩ batch
  match a.host.repertoire.messageHandler with
  | none => return (h.runs, h.agent)
  | some handler =>
    let h ← h.converse handler h.conversations.groups
    return (h.runs, h.agent)

def serve (a : Agent) (idle : Nat) : Activity World (Nat × Agent) :=
  Activity.iterate (0, a) fun (handled, a) => do
    let started ← Activity.now
    let accepts (_ : Message) : Bool := true
    let batch ← collectBatch a.host.inbox ⟨accepts, idle, 1, some a.host.maxBatchMessages⟩
    if batch.isEmpty then
      let elapsed := (← Activity.now) - started
      return if idle ≤ elapsed then .inr (handled, a) else .inl (handled, a)
    else
      let (_, a) ← a.handleBatch batch
      return .inl (handled + batch.length, a)

def storedArgs (names : Namespace) : List Value :=
  match names.get? "args" with
  | some (.list args) => args
  | _ => []

def regenerate (a : Agent) (state : AgentState) (playbook : String) (args : List Value) :
    Activity World (Except AgentError String) := do
  match ← a.host.generate ((Invocation.plain playbook args).request state) with
  | .error e => return .error e
  | .ok g =>
    match g.broken with
    | some text => return .error (.engine text)
    | none => return .ok (String.join g.chunks)

/-- Goes on with the code asked for again, or with the stored code if the two do not agree. -/
def catchUp (a : Agent) (c : Checkpoint) (p : Progress) :
    Activity World (Except AgentError Unit × Progress) := do
  match c.data.state.stack.getLast? with
  | none => return (.ok (), p)
  | some frame =>
    let args := storedArgs c.data.namespace_
    match ← a.regenerate p.agent frame.pointer.playbook args with
    | .error e => return (.error e, p)
    | .ok response =>
      match ← Progress.continueWith a.host.handler a.saver p response with
      | (.ok (), p) => return (.ok (), p)
      | (.error (.divergent _), p) => return (.ok (), p)
      | (.error e, p) => return (.error (.execution e), p)

def continueFrom (a : Agent) (c : Checkpoint) (state : AgentState) :
    Activity World (Except AgentError Summary × AgentState) := do
  match Execution.resume state c with
  | .error e => return (.error (.execution e), state)
  | .ok p =>
    match ← a.catchUp c p with
    | (.error e, p) => return (.error e, p.agent)
    | (.ok (), p) =>
      let (r, p) ← Progress.finalize a.host.handler a.saver p
      return (r.mapError .execution, p.agent)

/-- Goes on from the newest checkpoint, if there is one. Frames that were not there before are left
    in the end. -/
def resume (a : Agent) : Activity World (Except AgentError (Option Summary) × Agent) := do
  match a.store with
  | none => return (.error .notDurable, a)
  | some store =>
    let recovery (w : World) :=
      CheckpointManager.recover store (w.managers.get? a.state.id) a.state w
    match ← Activity.ask recovery with
    | .error (.noCheckpoint _) => return (.ok none, a)
    | .error e => return (.error (.store e), a)
    | .ok (c, state) =>
      let (r, state) ← a.continueFrom c state
      let state := { state with stack := state.stack.take a.state.stack.length }
      return (r.map some, { a with state })

end Agent
end Playbook
