import Playbook.Checkpoint.Data
import Playbook.Storage.FileSystem

/- Stores of checkpoints. Two of them offer the same operations: one keeps the data in memory, the
   other keeps one directory per execution with a document in it for each checkpoint. -/
namespace Playbook

inductive StoreError where
  | invalidId (text : String) (fault : CheckpointIdFault)
  | sizeLimit (size limit : Nat)
  | io (path : String) (fault : FileFault)
  | corrupted (id : CheckpointId)
  | noCheckpoint (agent : AgentId)
deriving DecidableEq, Repr

def StoreError.message : StoreError → String
  | .invalidId text fault => s!"Invalid checkpoint id '{text}': {fault.message}"
  | .sizeLimit size limit => s!"Checkpoint namespace is {size} bytes, limit is {limit} bytes"
  | .io path fault => s!"I/O error at {path}: {fault.message}"
  | .corrupted id => s!"Corrupted checkpoint {id.display}"
  | .noCheckpoint agent => s!"No checkpoint available for execution {agent}"

def CheckpointId.read (text : String) : Except StoreError CheckpointId :=
  (CheckpointId.parse text).mapError (.invalidId text)

/-- The operations of a store with states of type σ. A missing checkpoint is no error. -/
structure CheckpointStore (σ : Type) where
  save : CheckpointId → CheckpointData → σ → Except StoreError Unit × σ
  load : CheckpointId → σ → Except StoreError (Option CheckpointData)
  /-- In rising order. -/
  list : ExecutionId → σ → Except StoreError (List CheckpointId)
  /-- Whether there was something to delete. -/
  delete : CheckpointId → σ → Except StoreError Bool × σ
  /-- Executions with at least one checkpoint, in rising order. -/
  executions : σ → Except StoreError (List ExecutionId)

namespace CheckpointStore
variable {σ τ : Type}

def deleteAll (store : CheckpointStore σ) (count : Nat) (s : σ) :
    List CheckpointId → Except StoreError Nat × σ
  | [] => (.ok count, s)
  | id :: rest =>
    match store.delete id s with
    | (.error e, s) => (.error e, s)
    | (.ok true, s) => store.deleteAll (count + 1) s rest
    | (.ok false, s) => store.deleteAll count s rest

def cleanup (store : CheckpointStore σ) (execution : ExecutionId) (keep : Nat) (s : σ) :
    Except StoreError Nat × σ :=
  match store.list execution s with
  | .error e => (.error e, s)
  | .ok ids => store.deleteAll 0 s (ids.take (ids.length - keep))

def focus (store : CheckpointStore σ) (get : τ → σ) (set : σ → τ → τ) : CheckpointStore τ where
  save id data t := let (r, s) := store.save id data (get t); (r, set s t)
  load id t := store.load id (get t)
  list execution t := store.list execution (get t)
  delete id t := let (r, s) := store.delete id (get t); (r, set s t)
  executions t := store.executions (get t)

end CheckpointStore

def checkSize (limit : Nat) (data : CheckpointData) : Except StoreError Unit :=
  if limit < data.size then .error (.sizeLimit data.size limit) else .ok ()

/-- The checkpoints of each execution, rising by number. -/
abbrev MemoryStore := Dict (List (Nat × CheckpointData))

namespace MemoryStore

def insertNumber (n : Nat) (data : CheckpointData) :
    List (Nat × CheckpointData) → List (Nat × CheckpointData)
  | [] => [(n, data)]
  | (k, d) :: rest =>
    if k = n then (n, data) :: rest
    else if n < k then (n, data) :: (k, d) :: rest
    else (k, d) :: insertNumber n data rest

def of (s : MemoryStore) (execution : ExecutionId) : List (Nat × CheckpointData) :=
  (s.get? execution).getD []

def store (limit : Nat) : CheckpointStore MemoryStore where
  save id data s :=
    match checkSize limit data with
    | .error e => (.error e, s)
    | .ok () =>
      let kept := insertNumber id.number data (s.of id.execution)
      (.ok (), Dict.insert s id.execution kept)
  load id s := .ok (((s.of id.execution).find? (·.1 = id.number)).map Prod.snd)
  list execution s := .ok ((s.of execution).map fun e => ⟨execution, e.1⟩)
  delete id s :=
    let old := s.of id.execution
    let new := old.filter (·.1 ≠ id.number)
    if new.length = old.length then (.ok false, s)
    else if new.isEmpty then (.ok true, Dict.erase s id.execution)
    else (.ok true, Dict.insert s id.execution new)
  executions s := .ok (Dict.keys s)

end MemoryStore

namespace FileStore

def directory (root : FilePath) (execution : ExecutionId) : FilePath := root.child execution

def document (root : FilePath) (id : CheckpointId) : FilePath :=
  (directory root id.execution).child (id.display ++ ".json")

def draft (root : FilePath) (id : CheckpointId) : FilePath :=
  (directory root id.execution).child (id.display ++ ".json.tmp")

/-- Writes a draft first and then gives it its name, so that no document is ever half written. -/
def save (root : FilePath) (limit : Nat) (id : CheckpointId) (data : CheckpointData)
    (fs : FileSystem) : Except StoreError Unit × FileSystem :=
  match checkSize limit data with
  | .error e => (.error e, fs)
  | .ok () =>
    let dir := directory root id.execution
    match fs.makeDirs dir with
    | (.error e, fs) => (.error (.io dir.text e), fs)
    | (.ok (), fs) =>
      let draft := draft root id
      match fs.write draft (data.toJson.pretty 0) with
      | .error e => (.error (.io draft.text e), fs)
      | .ok fs =>
        let document := document root id
        match fs.rename draft document with
        | .error e => (.error (.io document.text e), fs)
        | .ok fs => (.ok (), fs)

def load (root : FilePath) (id : CheckpointId) (fs : FileSystem) :
    Except StoreError (Option CheckpointData) :=
  let document := document root id
  match fs.read document with
  | .error .notFound => .ok none
  | .error e => .error (.io document.text e)
  | .ok text =>
    match CheckpointData.parse? text with
    | some data => .ok (some data)
    | none => .error (.corrupted id)

def stem? (name : String) : Option String :=
  if name.endsWith ".json" then some (String.ofList (name.toList.take (name.length - 5))) else none

def listed (execution : ExecutionId) (names : List String) : List CheckpointId :=
  CheckpointId.sort (names.filterMap fun name =>
    match (stem? name).map CheckpointId.parse with
    | some (.ok id) => if id.execution = execution then some id else none
    | _ => none)

def list (root : FilePath) (execution : ExecutionId) (fs : FileSystem) :
    Except StoreError (List CheckpointId) :=
  let dir := directory root execution
  match fs.entries dir with
  | .error .notFound => .ok []
  | .error e => .error (.io dir.text e)
  | .ok entries => .ok (listed execution entries.keys)

def delete (root : FilePath) (id : CheckpointId) (fs : FileSystem) :
    Except StoreError Bool × FileSystem :=
  let document := document root id
  match fs.remove document with
  | .ok fs => (.ok true, fs)
  | .error .notFound => (.ok false, fs)
  | .error e => (.error (.io document.text e), fs)

def executions (root : FilePath) (fs : FileSystem) : Except StoreError (List ExecutionId) :=
  match fs.entries root with
  | .error .notFound => .ok []
  | .error e => .error (.io root.text e)
  | .ok entries => do
    let candidates := entries.filter fun e => e.2.isDir && (idFault? .execution e.1).isNone
    let found ← candidates.filterMapM fun e => do
      let ids ← list root e.1 fs
      return if ids.isEmpty then none else some e.1
    return found

def store (root : FilePath) (limit : Nat) : CheckpointStore FileSystem where
  save := save root limit
  load := load root
  list := list root
  delete := delete root
  executions := executions root

end FileStore
end Playbook
