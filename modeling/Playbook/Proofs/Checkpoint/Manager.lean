import Mathlib.Data.List.Forall2
import Playbook.Checkpoint.Manager

/- The manager of checkpoints. The numbers that it gives out depend on nothing but how many have been
   given out before, as long as every save succeeds; what every operation on its store keeps, it
   keeps as well. -/
namespace Playbook

def CheckpointStore.boundless : CheckpointStore Unit where
  save _ _ s := (.ok (), s)
  load _ _ := .ok none
  list _ _ := .ok []
  delete _ s := (.ok false, s)
  executions _ := .ok []

/-- Checkpoints that record the same, up to their time and to what had come in when they were
    taken. -/
structure Checkpoint.Agrees (c d : Checkpoint) : Prop where
  id : c.id = d.id
  statement : c.data.statement = d.data.statement
  executed : c.data.executed = d.data.executed
  names : c.data.names = d.data.names
  state : c.data.state = d.data.state
  number : c.data.number = d.data.number

theorem Checkpoint.Agrees.through {b c d : Checkpoint} (first : b.Agrees d)
    (second : c.Agrees d) : b.Agrees c :=
  ⟨first.id.trans second.id.symm, first.statement.trans second.statement.symm,
    first.executed.trans second.executed.symm, first.names.trans second.names.symm,
    first.state.trans second.state.symm, first.number.trans second.number.symm⟩

theorem agrees_through {a b c : List Checkpoint} (first : List.Forall₂ Checkpoint.Agrees a c)
    (second : List.Forall₂ Checkpoint.Agrees b c) : List.Forall₂ Checkpoint.Agrees a b := by
  induction first generalizing b with
  | nil =>
    cases second
    exact .nil
  | cons agrees _ ih =>
    cases second with
    | cons agrees' rest => exact .cons (agrees.through agrees') (ih rest)

theorem CheckpointManager.save_of_ok {τ : Type} {store : CheckpointStore τ}
    {m m' : CheckpointManager} {now : String} {r : SaveRequest} {s s' : τ} {id : CheckpointId}
    (saved : m.save store now r s = (.ok id, m', s')) :
    id = ⟨m.execution, (m.last + 1) % UInt64.size⟩ ∧
      m' = { m with last := (m.last + 1) % UInt64.size } := by
  simp only [CheckpointManager.save] at saved
  split at saved
  · cases saved
  · split at saved
    · cases saved
      exact ⟨rfl, rfl⟩
    · split at saved
      · cases saved
      · cases saved
        exact ⟨rfl, rfl⟩

theorem CheckpointManager.save_boundless (m : CheckpointManager) (now : String) (r : SaveRequest)
    (s : Unit) :
    m.save .boundless now r s = (.ok ⟨m.execution, (m.last + 1) % UInt64.size⟩,
      { m with last := (m.last + 1) % UInt64.size }, s) := by
  simp only [CheckpointManager.save, CheckpointStore.boundless]
  cases m.keep with
  | none => rfl
  | some keep => simp [CheckpointStore.cleanup, CheckpointStore.deleteAll]

section Upkeep
variable {σ : Type} {store : CheckpointStore σ} {kept : σ → Prop}
  (deleted : ∀ id s, kept s → kept (store.delete id s).2)
include deleted

theorem CheckpointStore.deleteAll_keeps (ids : List CheckpointId) (count : Nat) {s : σ}
    (here : kept s) : kept (store.deleteAll count s ids).2 := by
  induction ids generalizing count s with
  | nil => exact here
  | cons id rest ih =>
    have gone := deleted id s here
    rw [CheckpointStore.deleteAll]
    rcases answer : store.delete id s with ⟨_ | _ | _, s'⟩ <;> rw [answer] at gone
    · exact gone
    · exact ih count gone
    · exact ih (count + 1) gone

theorem CheckpointStore.cleanup_keeps (execution : ExecutionId) (keep : Nat) {s : σ}
    (here : kept s) : kept (store.cleanup execution keep s).2 := by
  unfold CheckpointStore.cleanup
  cases store.list execution s with
  | error fault => exact here
  | ok ids => exact CheckpointStore.deleteAll_keeps deleted _ _ here

theorem CheckpointManager.save_keeps (m : CheckpointManager) (now : String) (r : SaveRequest)
    {s : σ} (saved : ∀ number < UInt64.size,
      kept (store.save ⟨m.execution, number⟩ (CheckpointManager.dataFor r now number) s).2) :
    kept (m.save store now r s).2.2 := by
  let number := (m.last + 1) % UInt64.size
  have saved := saved number (Nat.mod_lt _ (by decide))
  simp only [CheckpointManager.save]
  rcases stored : store.save ⟨m.execution, number⟩ (CheckpointManager.dataFor r now number) s with
    ⟨fault | ⟨⟩, s'⟩ <;> rw [stored] at saved
  · exact saved
  · cases m.keep with
    | none => exact saved
    | some keep =>
      have cleaned := CheckpointStore.cleanup_keeps deleted m.execution keep saved
      rcases left : store.cleanup m.execution keep s' with ⟨fault | count, s''⟩ <;>
        rw [left] at cleaned <;> simp only [left] <;> exact cleaned

end Upkeep
end Playbook
