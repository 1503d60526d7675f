import Playbook.AgentState
import Playbook.Checkpoint.Id
import Playbook.Checkpoint.Timestamp
import Playbook.Json.Reader
import Playbook.Json.Writer

/- What a checkpoint records, and its stored form. -/
namespace Playbook

structure CheckpointData where
  state : Snapshot
  names : Dict Json
  /-- The statement after which the checkpoint was taken. -/
  statement : String
  /-- The code run so far. -/
  executed : String
  /-- All code received so far; the executed code is the start of it. -/
  response : String
  timestamp : String
  number : Nat

structure Checkpoint where
  id : CheckpointId
  data : CheckpointData

namespace CheckpointData

def namespace_ (d : CheckpointData) : Namespace := Namespace.ofJson d.names

def size (d : CheckpointData) : Nat := (Json.obj d.names).compress.utf8ByteSize

end CheckpointData

def storedNames (ns : Namespace) : Dict Json :=
  Dict.filterMapValues
    (fun name v => if name.startsWith "_" || isReserved name then none else v.toJson?) ns

namespace Pointer

def toJson (p : Pointer) : Json :=
  .obj ([("playbook", .str p.playbook), ("step", .str p.step)] ++
    match p.session with
    | some s => [("session_id", .str s)]
    | none => [])

def ofRaw? (r : RawJson) : Option Pointer := do
  match ← r.fields? ["playbook", "step", "session_id"] with
  | [some playbook, some step, session] =>
    return ⟨← playbook.string?, ← step.string?, ← (session.getD .null).optionalString?⟩
  | _ => none

end Pointer

namespace FrameSnapshot

def toJson (f : FrameSnapshot) : Json :=
  .obj ([("instruction_pointer", f.pointer.toJson)] ++
    (match f.meeting with
      | some m => [("meeting_id", .str m)]
      | none => []) ++
    [("locals", .obj f.locals)])

def ofRaw? (r : RawJson) : Option FrameSnapshot := do
  match ← r.fields? ["instruction_pointer", "meeting_id", "locals"] with
  | [some pointer, meeting, locals] =>
    let meeting ← (meeting.getD .null).optionalString?
    if meeting.any fun m => (idFault? .meeting m).isSome then none
    return ⟨← Pointer.ofRaw? pointer, meeting, ← (locals.getD (.obj [])).map?⟩
  | _ => none

def listOfRaw? (r : RawJson) : Option (List FrameSnapshot) := do (← r.items?).mapM ofRaw?

end FrameSnapshot

namespace Snapshot

def toJson (s : Snapshot) : Json :=
  .obj [("call_stack", .arr (s.stack.map FrameSnapshot.toJson)),
    ("variables", .obj s.vars), ("agents", Json.strings s.agents)]

def ofRaw? (r : RawJson) : Option Snapshot := do
  match ← r.fields? ["call_stack", "variables", "agents"] with
  | [stack, vars, agents] =>
    return ⟨← FrameSnapshot.listOfRaw? (stack.getD (.arr [])),
      ← (vars.getD (.obj [])).map?, ← (agents.getD (.arr [])).strings?⟩
  | _ => none

def parse? (text : String) : Option Snapshot := (RawJson.parse? text).bind ofRaw?

end Snapshot

namespace CheckpointData

def metadataToJson (d : CheckpointData) : Json :=
  .obj [("statement", .str d.statement), ("executed_code", .str d.executed),
    ("llm_response", .str d.response), ("timestamp", .str d.timestamp), ("counter", .int d.number)]

def toJson (d : CheckpointData) : Json :=
  .obj [("execution_state", d.state.toJson), ("namespace", .obj d.names),
    ("metadata", d.metadataToJson)]

def ofRaw? (r : RawJson) : Option CheckpointData := do
  match ← r.fields? ["execution_state", "namespace", "metadata"] with
  | [some state, some names, some metadata] =>
    let state ← Snapshot.ofRaw? state
    let names ← names.map?
    match ← metadata.fields?
      ["statement", "executed_code", "llm_response", "timestamp", "counter"] with
    | [some statement, some executed, some response, some timestamp, some number] =>
      let timestamp ← timestamp.string?
      if !Timestamp.valid timestamp then none
      return ⟨state, names, ← statement.string?, ← executed.string?, ← response.string?, timestamp,
        ← number.count?⟩
    | _ => none
  | _ => none

def parse? (text : String) : Option CheckpointData := (RawJson.parse? text).bind ofRaw?

end CheckpointData
end Playbook
