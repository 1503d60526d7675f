import Playbook.Proofs.Checkpoint.Manager
import Playbook.Proofs.Execution.Stream

/- What a stream acts on: a handler in a state of its own, whose calls are noted, and a store of
   checkpoints, whose answers are noted. -/
namespace Playbook.Script

structure Surroundings (σ τ : Type) where
  /-- Whatever the handler acts on. -/
  outside : σ
  /-- What has been asked of the handler, oldest first. -/
  calls : List NotedCall
  manager : CheckpointManager
  contents : τ
  /-- The checkpoints that have been saved, oldest first. -/
  saved : List Checkpoint
  /-- The failures to save. -/
  refused : List StoreError

namespace Surroundings
variable {σ τ : Type}

def start (outside : σ) (manager : CheckpointManager) (contents : τ) : Surroundings σ τ :=
  ⟨outside, [], manager, contents, [], []⟩

def answered (w : Surroundings σ τ) (outside : σ) (c : NotedCall) : Surroundings σ τ :=
  { w with outside, calls := w.calls ++ [c] }

/-- A handler whose calls are noted. -/
def noting (h : Handler (StateM σ)) : Handler (StateM (Surroundings σ τ)) where
  suspend a c := fun w =>
    let (r, outside) := h.suspend a c w.outside
    (r, w.answered outside (.suspended c))
  hostFunction a name args := fun w =>
    let (r, outside) := h.hostFunction a name args w.outside
    (r, w.answered outside (.function name args))
  reserved a name := fun w =>
    let (v, outside) := h.reserved a name w.outside
    (v, { w with outside })

section Noting
variable (h : Handler (StateM σ)) (a : AgentState) (w : Surroundings σ τ)

theorem noting_suspend (c : SuspendCall) :
    (noting h).suspend a c w = ((h.suspend a c w.outside).1,
      w.answered (h.suspend a c w.outside).2 (.suspended c)) := rfl

theorem noting_hostFunction (name : String) (args : List Value) :
    (noting h).hostFunction a name args w = ((h.hostFunction a name args w.outside).1,
      w.answered (h.hostFunction a name args w.outside).2 (.function name args)) := rfl

theorem noting_reserved (name : String) :
    (noting h).reserved a name w =
      ((h.reserved a name w.outside).1, { w with outside := (h.reserved a name w.outside).2 }) :=
  rfl

end Noting

def save (store : CheckpointStore τ) (clock : Nat → String) (r : SaveRequest)
    (w : Surroundings σ τ) : Except StoreError CheckpointId × Surroundings σ τ :=
  let now := clock w.saved.length
  match w.manager.save store now r w.contents with
  | (.ok id, manager, contents) =>
    let c : Checkpoint := ⟨id, CheckpointManager.dataFor r now id.number⟩
    (.ok id, { w with manager, contents, saved := w.saved ++ [c] })
  | (.error e, manager, contents) =>
    (.error e, { w with manager, contents, refused := w.refused ++ [e] })

def keeping (store : Option (CheckpointStore τ)) (clock : Nat → String) :
    Saver (StateM (Surroundings σ τ)) :=
  store.map fun store => save store clock

theorem save_of_ok {store : CheckpointStore τ} {clock : Nat → String} {r : SaveRequest}
    {w w' : Surroundings σ τ} {id : CheckpointId}
    (saved : save store clock r w = (.ok id, w')) :
    id = ⟨w.manager.execution, (w.manager.last + 1) % UInt64.size⟩ ∧
      w'.outside = w.outside ∧ w'.calls = w.calls ∧
      w'.manager = { w.manager with last := (w.manager.last + 1) % UInt64.size } ∧
      w'.saved = w.saved ++
        [⟨id, CheckpointManager.dataFor r (clock w.saved.length) id.number⟩] := by
  simp only [save] at saved
  rcases asked : w.manager.save store (clock w.saved.length) r w.contents with ⟨r', m, s⟩
  rw [asked] at saved
  cases r' with
  | error e => cases saved
  | ok id' =>
    cases saved
    obtain ⟨number, manager⟩ := CheckpointManager.save_of_ok asked
    exact ⟨number, rfl, rfl, manager, rfl⟩

theorem save_refused {store : CheckpointStore τ} {clock : Nat → String} {r : SaveRequest}
    {w w' : Surroundings σ τ} {id : CheckpointId}
    (saved : save store clock r w = (.ok id, w')) : w'.refused = w.refused := by
  simp only [save] at saved
  split at saved <;> cases saved
  rfl

theorem refused_of_asked (store : Option (CheckpointStore τ)) (clock : Nat → String)
    (f : SaveRequest → StateM (Surroundings σ τ) (Except StoreError CheckpointId))
    (r : SaveRequest) (w : Surroundings σ τ) (e : StoreError) (w' : Surroundings σ τ)
    (known : keeping store clock = some f) (asked : f r w = (.error e, w')) :
    w'.refused ≠ [] := by
  obtain ⟨store, rfl, rfl⟩ := Option.map_eq_some_iff.1 known
  simp only [save] at asked
  split at asked
  · cases asked
  · cases asked
    simp

theorem refused_of_error (h : Handler (StateM σ)) (store : Option (CheckpointStore τ))
    (clock : Nat → String) {p : Progress} (opened : p.execution.finalized = false)
    (chunks : List String) (w : Surroundings σ τ) {e : ExecutionError}
    (ran : (p.stream (noting h) (keeping store clock) chunks w).1.1 = .error e) :
    (p.stream (noting h) (keeping store clock) chunks w).2.refused ≠ [] := by
  exact (Progress.stream_refused (refused_of_asked store clock) (noting h) opened chunks w ran).2

end Surroundings

/-- Everything that a new execution starts from. -/
structure Setting (σ τ : Type) where
  handler : Handler (StateM σ)
  store : Option (CheckpointStore τ)
  clock : Nat → String
  id : ExecutionId
  names : Namespace
  agent : AgentState
  outside : σ
  manager : CheckpointManager
  contents : τ

def Setting.prepared : Setting Prepared MemoryStore where
  handler := Prepared.handler (fun p => p) fun p _ => p
  store := some (MemoryStore.store 4096)
  clock _ := "monday"
  id := "main"
  names := []
  agent := .fresh "a" "A"
  outside := ⟨[⟨none, [], none, .str "hi"⟩], [], [], []⟩
  manager := ⟨"main", 0, none⟩
  contents := []

namespace Setting
variable {σ τ : Type} (x : Setting σ τ)

def surroundings : Surroundings σ τ := .start x.outside x.manager x.contents

def saver : Saver (StateM (Surroundings σ τ)) := Surroundings.keeping x.store x.clock

/-- What the code comes to that arrives in the given pieces. -/
def stream (chunks : List String) :
    (Except ExecutionError Summary × Progress) × Surroundings σ τ :=
  Progress.stream (Surroundings.noting x.handler) x.saver ⟨.start x.id x.names, x.agent⟩ chunks
    x.surroundings

end Setting

namespace Coupling
variable {S T : Type}

/-- Equal agents with an invariant that programs keep by themselves. -/
def equal (worlds : S → T → Prop) (inv : AgentState → Prop)
    (set : ∀ {a}, inv a → ∀ name v, inv (a.set name v))
    (advance : ∀ {a}, inv a → ∀ step, inv { a with stack := a.stack.advance step }) :
    Coupling S T where
  agents a b := a = b ∧ inv a
  worlds := worlds
  vars h _ := by rw [h.1]
  pointers h := by rw [h.1]
  set h name v := ⟨by rw [h.1], set h.2 name v⟩
  advance h step := ⟨by rw [h.1], advance h.2 step⟩

end Coupling
end Playbook.Script
