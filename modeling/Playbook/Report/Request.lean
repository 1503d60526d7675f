import Playbook.Ensemble
import Playbook.Json.Lenient
import Playbook.Message.Filter
import Playbook.Report.Value
import Playbook.Script.Prepared

/- What tools ask for, read from documents. Missing members take their defaults. -/
namespace Playbook
open Json

namespace Json

def value (j : Json) (k : Key) : Value := .ofReport (j.field k)

def values (j : Json) (k : Key) : List Value := Value.itemsOfReport (j.items k)

def names (j : Json) (k : Key) : Namespace := .ofReport (j.field k)

def milliseconds (j : Json) (k : Key) : Nat := Duration.milliseconds (j.nat k)

end Json

def Frame.ofRequest (j : Json) : Frame :=
  ⟨⟨j.text "playbook", j.textOr "step" "01", j.text? "session"⟩, j.names "locals",
    j.text? "meeting", j.text? "execution"⟩

def AgentState.ofRequest (j : Json) : AgentState :=
  ⟨j.textOr "id" "agent", j.textOr "klass" "Agent", (j.items "stack").map .ofRequest,
    j.names "vars", j.texts "agents"⟩

namespace Script

def Reply.ofRequest (j : Json) : Reply :=
  ⟨j.text? "err", j.names "set", j.nat? "arg", j.value "ok"⟩

def Prepared.ofRequest (j : Json) : Prepared :=
  ⟨(j.items "replies").map .ofRequest,
    Dict.ofList ((j.members "host").map fun (name, r) => (name, .ofRequest r)),
    j.names "reserved", []⟩

end Script

def MessageKind.ofRequest (word : String) : MessageKind := (ofWord? word).getD .direct

def Draft.ofRequest (j : Json) : Draft :=
  ⟨j.text "from", j.textOr "klass" "Sender", j.text? "to", j.text? "meeting", j.text "content",
    .ofRequest (j.text "type")⟩

def MessageFilter.ofRequest (j : Json) : MessageFilter :=
  ⟨j.text? "from", j.text? "type", j.text? "meeting", j.text? "contains",
    (j.at? "not_control").isSome⟩

def Config.set (c : Config) (name : String) (j : Json) : Config :=
  match name with
  | "enabled" => { c with durable := j.asFlag c.durable }
  | "path" => { c with storagePath := j.asText }
  | "max_bytes" => { c with maxCheckpointBytes := j.asNat }
  | "keep" => { c with keepLast := j.asNat? }
  | "batch_ms" => { c with batchTimeout := Duration.milliseconds j.asNat }
  | "max_messages" => { c with maxBatchMessages := j.asNat }
  | "meeting_ms" => { c with meetingTimeout := Duration.milliseconds j.asNat }
  | _ => c

def Config.setAll (c : Config) (members : List (String × Json)) : Config :=
  members.foldl (fun c (name, j) => c.set name j) c

def Repertoire.take (r : Repertoire) (j : Json) : Repertoire :=
  match j.text 0 with
  | "playbook" => r.addPlaybook (j.text 1)
  | "meeting" => r.addMeeting (j.text 1)
  | "handler" => r.handleWith (j.text 1)
  | kind => r.add ⟨j.text 1, kind = "meeting_spec", j.text 2⟩

def Repertoire.ofRequest (entries : List Json) : Repertoire := entries.foldl take .empty

def ScriptBook.ofRequest (j : Json) : ScriptBook :=
  let b := (j.members "scripts").foldl (fun b (name, code) => b.add name code.asText) empty
  let b := (j.items "class_scripts").foldl
    (fun b c => b.addFor (c.text 0) (c.text 1) (c.text 2)) b
  { b with chunkSize := j.natOr "chunk_size" b.chunkSize }

/-- The engine of a script book, with streams that break after so many pieces. -/
def Engine.ofRequest (j : Json) : Engine := fun r => do
  let g ← (ScriptBook.ofRequest j).engine r
  return match (j.field "fail").nat? r.playbook with
    | some n => ⟨g.chunks.take n, some "stream broke"⟩
    | none => g

def Ensemble.ofRequest (j : Json) : Ensemble :=
  let config := Config.setAll
    { Config.default with
      durable := j.text "provider" = "fs"
      storagePath := "store"
      batchTimeout := Duration.milliseconds 100
      meetingTimeout := Duration.milliseconds 500 } (j.members "config")
  let e := ofConfig config (.ofRequest j)
  if j.text "provider" = "memory" then
    { e with store := some (memoryStore config.maxCheckpointBytes) }
  else e

namespace CheckpointData

def ofRequest? (number : Nat) (date : String) (j : Json) : Option CheckpointData := do
  let state ← match j.at? "state" with
    | some s => Snapshot.ofRaw? (.ofJson s)
    | none => some ⟨[], [], []⟩
  let names ← match j.at? "namespace" with
    | some m => (RawJson.ofJson m).map?
    | none => some []
  return ⟨state, names, j.text "statement", j.text "executed", j.text "response", date, number⟩

end CheckpointData

def FileSystem.ofRequest (here : FileTree.Path) (files : List (String × Json)) : FileSystem :=
  files.foldl (fun fs (name, text) =>
    let above := "/".intercalate (FilePath.names name).dropLast
    let fs := if above = "" then fs else (fs.makeDirs (.ofText above)).2
    (fs.write (.ofText name) text.asText).toOption.getD fs) ⟨.graft .empty here .empty, here⟩

end Playbook
