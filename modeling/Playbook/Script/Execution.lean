import Playbook.Checkpoint.Manager
import Playbook.Script.Eval
import Playbook.Script.Parser
import Playbook.Script.Segment

/- Code run while it arrives. The code received so far is kept in two parts, what has been run and
   what is pending; every statement that becomes complete moves from the second to the first. After
   a statement that suspended, a checkpoint records the names, the agent and the executed part. -/
namespace Playbook.Script
universe v

inductive CodeFault where
  | malformed (e : SyntaxError)
  /-- The statement that failed, its line in the whole code, and where the agent stood. -/
  | failed (fault : Fault) (statement : String) (line : Nat) (pointers : List String)
deriving DecidableEq, Repr

namespace CodeFault

def message : CodeFault → String
  | .malformed e => e.display
  | .failed fault .. => fault.display

def traceback : CodeFault → String
  | .malformed e => s!"Generated code, line {e.line}\n{e.display}"
  | .failed fault statement line pointers =>
    let frames := pointers.map fun p => s!"  in {p}\n"
    let text := (Text.lines statement.toList).map fun l =>
      "    " ++ String.ofList (Text.trimEnd l) ++ "\n"
    "Traceback:\n" ++ String.join frames ++ s!"  Generated code, line {line}\n" ++
      String.join text ++ fault.display

end CodeFault

inductive ExecutionError where
  | checkpoint (e : StoreError)
  | inconsistent (id : CheckpointId)
  | divergent (bytes : Nat)
  | finalized
deriving DecidableEq, Repr

def ExecutionError.message : ExecutionError → String
  | .checkpoint e => "Checkpoint failed: " ++ e.message
  | .inconsistent id =>
    s!"Checkpoint {id.display} is inconsistent: " ++
      "executed code is not a prefix of the generated code"
  | .divergent bytes =>
    s!"Regenerated response diverges from the executed code after {bytes} bytes"
  | .finalized => "Executor has already been finalized"

structure Execution where
  id : ExecutionId
  names : Namespace
  executed : String
  pending : String
  last : Option Value
  returned : Option Value
  fault : Option CodeFault
  statements : Nat
  checkpoints : List CheckpointId
  finalized : Bool

structure Summary where
  value : Option Value
  returned : Option Value
  fault : Option CodeFault
  statements : Nat
  checkpoints : List CheckpointId

def Summary.success (s : Summary) : Bool := s.fault.isNone

structure Progress where
  execution : Execution
  agent : AgentState

abbrev Saver (m : Type → Type v) := Option (SaveRequest → m (Except StoreError CheckpointId))

namespace Execution

def start (id : ExecutionId) (names : Namespace) : Execution :=
  ⟨id, names, "", "", none, none, none, 0, [], false⟩

def full (e : Execution) : String := e.executed ++ e.pending

def summary (e : Execution) : Summary :=
  ⟨e.last, e.returned, e.fault, e.statements, e.checkpoints⟩

def remainder? (e : Execution) (response : String) : Option String :=
  (Text.dropStart? e.executed.toList response.toList).map String.ofList

def advance (e : Execution) (text : List Char) : Execution :=
  { e with
    executed := e.executed ++ String.ofList text
    pending := String.ofList (e.pending.toList.drop text.length) }

def line (e : Execution) : Nat := 1 + Text.newlines e.executed.toList

def absorb (e : Execution) (s : Machine) : Execution :=
  { e with
    names := s.names
    last := s.last.or e.last
    returned := s.returned.or e.returned }

def request (e : Execution) (agent : AgentState) (text : List Char) : SaveRequest :=
  ⟨String.ofList (Text.trim text), e.names, agent, e.full, e.executed⟩

end Execution

namespace Progress
variable {m : Type → Type v} [Monad m]

def withFault (p : Progress) (f : CodeFault) : Progress :=
  { p with execution := { p.execution with fault := some f } }

def record (save : Saver m) (p : Progress) (text : List Char) (suspended : Bool) :
    m (Except StoreError Unit × Progress) :=
  match save, suspended with
  | some save, true => do
    match ← save (p.execution.request p.agent text) with
    | .error e => return (.error e, p)
    | .ok id =>
      let checkpoints := p.execution.checkpoints ++ [id]
      return (.ok (), { p with execution := { p.execution with checkpoints } })
  | _, _ => return (.ok (), p)

/-- Runs one segment; tells whether the next one may run. After a return, code is only passed
    over. -/
def runSegment (h : Handler m) (save : Saver m) (p : Progress) (segment : Segment) :
    m (Except StoreError Bool × Progress) := do
  let e := p.execution
  if !segment.hasCode || e.returned.isSome then
    return (.ok true, { p with execution := e.advance segment.text })
  else match parseProgram (String.ofList segment.text) with
    | .error err =>
      return (.ok false, p.withFault (.malformed { err with line := err.line + e.line - 1 }))
    | .ok body => do
      let (outcome, s) ← runBlock h e.names p.agent body
      let p : Progress := ⟨e.absorb s, s.agent⟩
      match outcome with
      | .error fault =>
        let statement := String.ofList (Text.trim segment.text)
        return (.ok false, p.withFault (.failed fault statement e.line s.agent.stack.pointers))
      | .ok () => do
        let e := p.execution.advance segment.text
        let e := { e with statements := e.statements + body.length }
        let (saved, p) ← record save { p with execution := e } segment.text s.suspended
        return (saved.map fun _ => true, p)

def runSegments (h : Handler m) (save : Saver m) (p : Progress) :
    List Segment → m (Except StoreError Unit × Progress)
  | [] => return (.ok (), p)
  | segment :: rest => do
    match ← runSegment h save p segment with
    | (.error e, p) => return (.error e, p)
    | (.ok false, p) => return (.ok (), p)
    | (.ok true, p) => runSegments h save p rest

def run (h : Handler m) (save : Saver m) (p : Progress) (finished : Bool) :
    m (Except ExecutionError Unit × Progress) := do
  if p.execution.fault.isSome then return (.ok (), p)
  else do
    let (r, p) ← runSegments h save p (segments finished p.execution.pending.toList)
    return (r.mapError .checkpoint, p)

def addChunk (h : Handler m) (save : Saver m) (p : Progress) (chunk : String) :
    m (Except ExecutionError Unit × Progress) :=
  if p.execution.finalized then return (.error .finalized, p)
  else
    let e := { p.execution with pending := p.execution.pending ++ chunk }
    run h save { p with execution := e } false

/-- Replaces the pending code by the rest of a whole response, which has to start with the executed
    code. -/
def continueWith (h : Handler m) (save : Saver m) (p : Progress) (response : String) :
    m (Except ExecutionError Unit × Progress) :=
  if p.execution.finalized then return (.error .finalized, p)
  else match p.execution.remainder? response with
    | none => return (.error (.divergent p.execution.executed.utf8ByteSize), p)
    | some rest => run h save { p with execution := { p.execution with pending := rest } } false

def finalize (h : Handler m) (save : Saver m) (p : Progress) :
    m (Except ExecutionError Summary × Progress) := do
  if p.execution.finalized then return (.error .finalized, p)
  else match ← run h save p true with
    | (.error e, p) => return (.error e, p)
    | (.ok (), p) =>
      let e := { p.execution with finalized := true }
      return (.ok e.summary, { p with execution := e })

end Progress

/-- Goes on from a checkpoint: its state is written back to the agent, its names are the namespace,
    and its executed code counts as run. -/
def Execution.resume (agent : AgentState) (c : Checkpoint) : Except ExecutionError Progress :=
  match Text.dropStart? c.data.executed.toList c.data.response.toList with
  | none => .error (.inconsistent c.id)
  | some rest =>
    let e := Execution.start c.id.execution c.data.namespace_
    .ok ⟨{ e with executed := c.data.executed, pending := String.ofList rest },
      agent.restore c.data.state⟩

end Playbook.Script
