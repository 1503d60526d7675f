import Playbook.Checkpoint.Store

/- Checkpoints of one execution under rising numbers, and recovery from the newest of them. -/
namespace Playbook

structure CheckpointManager where
  execution : ExecutionId
  /-- The number given out last. -/
  last : Nat
  /-- How many checkpoints are kept after a save; all, if not given. -/
  keep : Option Nat
deriving DecidableEq, Repr

structure SaveRequest where
  statement : String
  names : Namespace
  agent : AgentState
  response : String
  executed : String

namespace CheckpointManager
variable {σ : Type} (store : CheckpointStore σ)

def start (execution : ExecutionId) (s : σ) : Except StoreError CheckpointManager :=
  match store.list execution s with
  | .error e => .error e
  | .ok ids => .ok ⟨execution, (ids.getLast?.map (·.number)).getD 0, none⟩

def dataFor (r : SaveRequest) (now : String) (number : Nat) : CheckpointData :=
  ⟨r.agent.snapshot, storedNames r.names, r.statement, r.executed, r.response, now, number⟩

/-- A save that fails uses up no number; after the largest 64-bit number comes 0. Old checkpoints
are removed after the save. -/
def save (m : CheckpointManager) (now : String) (r : SaveRequest) (s : σ) :
    Except StoreError CheckpointId × CheckpointManager × σ :=
  let number := (m.last + 1) % UInt64.size
  let id : CheckpointId := ⟨m.execution, number⟩
  match store.save id (dataFor r now number) s with
  | (.error e, s) => (.error e, m, s)
  | (.ok (), s) =>
    let m := { m with last := number }
    match m.keep with
    | none => (.ok id, m, s)
    | some keep =>
      match store.cleanup m.execution keep s with
      | (.error e, s) => (.error e, m, s)
      | (.ok _, s) => (.ok id, m, s)

def load (id : CheckpointId) (s : σ) : Except StoreError (Option Checkpoint) :=
  (store.load id s).map fun data => data.map (⟨id, ·⟩)

def list (m : CheckpointManager) (s : σ) : Except StoreError (List CheckpointId) :=
  store.list m.execution s

def loadAll (m : CheckpointManager) (s : σ) : Except StoreError (List Checkpoint) := do
  let ids ← m.list store s
  ids.filterMapM fun id => load store id s

def latest (m : CheckpointManager) (s : σ) : Except StoreError (Option Checkpoint) :=
  match store.list m.execution s with
  | .error e => .error e
  | .ok ids => match ids.getLast? with
    | none => .ok none
    | some id => load store id s

def canRecover (m : Option CheckpointManager) (s : σ) : Bool :=
  match m with
  | none => false
  | some m => match m.list store s with
    | .ok ids => !ids.isEmpty
    | .error _ => false

def recover (m : Option CheckpointManager) (agent : AgentState) (s : σ) :
    Except StoreError (Checkpoint × AgentState) :=
  match m with
  | none => .error (.noCheckpoint agent.id)
  | some m => match m.latest store s with
    | .error e => .error e
    | .ok none => .error (.noCheckpoint agent.id)
    | .ok (some c) => .ok (c, agent.restore c.data.state)

end CheckpointManager
end Playbook
