import Mathlib.Data.Finmap
import Mathlib.Data.Finset.Sort
import Mathlib.Data.String.Basic
import Playbook.Proofs.Checkpoint.Naming

/- What a store of checkpoints can be asked, and what a finite map from ids to checkpoints answers. A
   store that realizes such a map operation by operation gives its answers over every history. -/
namespace Playbook

inductive StoreCall where
  | save (id : CheckpointId) (data : CheckpointData)
  | load (id : CheckpointId)
  | list (execution : ExecutionId)
  | delete (id : CheckpointId)
  | cleanup (execution : ExecutionId) (keep : Nat)
  | executions

inductive StoreAnswer where
  | saved (r : Except StoreError Unit)
  | loaded (r : Except StoreError (Option CheckpointData))
  | listed (r : Except StoreError (List CheckpointId))
  | deleted (r : Except StoreError Bool)
  | cleaned (r : Except StoreError Nat)
  | executions (r : Except StoreError (List ExecutionId))

def CheckpointData.Readable (data : CheckpointData) : Prop :=
  CheckpointData.parse? (data.toJson.pretty 0) = some data

/-- All ids are valid, and what is saved can be read back. -/
def StoreCall.Sound : StoreCall → Prop
  | .save id data => id.Valid ∧ data.Readable
  | .load id | .delete id => id.Valid
  | .list execution | .cleanup execution _ => ValidId .execution execution
  | .executions => True

namespace CheckpointStore
variable {σ : Type} (store : CheckpointStore σ)

def answer : StoreCall → σ → StoreAnswer × σ
  | .save id data, s => let (r, s) := store.save id data s; (.saved r, s)
  | .load id, s => (.loaded (store.load id s), s)
  | .list execution, s => (.listed (store.list execution s), s)
  | .delete id, s => let (r, s) := store.delete id s; (.deleted r, s)
  | .cleanup execution keep, s => let (r, s) := store.cleanup execution keep s; (.cleaned r, s)
  | .executions, s => (.executions (store.executions s), s)

/-- The answers to one call after the other. -/
def answers : List StoreCall → σ → List StoreAnswer
  | [], _ => []
  | call :: rest, s =>
    let (a, s) := store.answer call s
    a :: answers rest s

end CheckpointStore

theorem CheckpointId.distinct_of_rising {ids : List CheckpointId}
    (rising : ids.Pairwise (·.number < ·.number)) : ids.Nodup :=
  rising.imp fun less same => Nat.ne_of_lt less (congrArg CheckpointId.number same)

theorem CheckpointId.eq_of_rising {ids ids' : List CheckpointId}
    (rising : ids.Pairwise (·.number < ·.number)) (rising' : ids'.Pairwise (·.number < ·.number))
    (same : ∀ id, id ∈ ids ↔ id ∈ ids') : ids = ids' := by
  have perm : ids.Perm ids' :=
    (List.perm_ext_iff_of_nodup (distinct_of_rising rising) (distinct_of_rising rising')).2 same
  refine perm.eq_of_pairwise ?_ rising rising'
  intro a b _ _ less more
  exact absurd less (Nat.lt_asymm more)

theorem mem_drop_iff {α : Type} {l : List α} (distinct : l.Nodup) (n : Nat) {a : α} :
    a ∈ l.drop n ↔ a ∈ l ∧ a ∉ l.take n := by
  rw [← List.take_append_drop n l] at distinct
  obtain ⟨_, _, apart⟩ := List.nodup_append.1 distinct
  constructor
  · intro behind
    exact ⟨List.mem_of_mem_drop behind, fun front => apart a front a behind rfl⟩
  · rintro ⟨mem, notFront⟩
    rw [← List.take_append_drop n l] at mem
    exact (List.mem_append.1 mem).resolve_left notFront

abbrev Ledger := Finmap fun _ : CheckpointId => CheckpointData

namespace Ledger

def list (m : Ledger) (execution : ExecutionId) : List CheckpointId :=
  ((m.keys.filter (·.execution = execution)).image (·.number)).sort.map (⟨execution, ·⟩)

def oldest (m : Ledger) (execution : ExecutionId) (keep : Nat) : List CheckpointId :=
  (m.list execution).take ((m.list execution).length - keep)

def without (m : Ledger) (ids : List CheckpointId) : Ledger := ids.foldl (fun m id => m.erase id) m

def executions (m : Ledger) : List ExecutionId := (m.keys.image (·.execution)).sort

def answer (limit : Nat) : StoreCall → Ledger → StoreAnswer × Ledger
  | .save id data, m =>
    if limit < data.size then (.saved (.error (.sizeLimit data.size limit)), m)
    else (.saved (.ok ()), m.insert id data)
  | .load id, m => (.loaded (.ok (m.lookup id)), m)
  | .list execution, m => (.listed (.ok (m.list execution)), m)
  | .delete id, m => (.deleted (.ok (m.lookup id).isSome), m.erase id)
  | .cleanup execution keep, m =>
    (.cleaned (.ok (m.oldest execution keep).length), m.without (m.oldest execution keep))
  | .executions, m => (.executions (.ok m.executions), m)

def answers (limit : Nat) : List StoreCall → Ledger → List StoreAnswer
  | [], _ => []
  | call :: rest, m =>
    let (a, m) := answer limit call m
    a :: answers limit rest m

variable {m : Ledger} {execution : ExecutionId} {id : CheckpointId}

theorem mem_list : id ∈ m.list execution ↔ id ∈ m ∧ id.execution = execution := by
  obtain ⟨e, n⟩ := id
  simp only [list, List.mem_map, Finset.mem_sort, Finset.mem_image, Finset.mem_filter,
    Finmap.mem_keys]
  constructor
  · rintro ⟨_, ⟨⟨e', n'⟩, ⟨mem, rfl⟩, rfl⟩, same⟩
    cases same
    exact ⟨mem, rfl⟩
  · rintro ⟨mem, rfl⟩
    exact ⟨n, ⟨⟨e, n⟩, ⟨mem, rfl⟩, rfl⟩, rfl⟩

theorem list_pairwise (m : Ledger) (execution : ExecutionId) :
    (m.list execution).Pairwise (·.number < ·.number) := by
  rw [list, List.pairwise_map]
  exact (Finset.sortedLT_sort _).pairwise

theorem erase_of_notMem (absent : id ∉ m) : m.erase id = m := by
  apply Finmap.ext_lookup
  intro other
  by_cases same : other = id
  · rw [same, Finmap.lookup_erase, Finmap.lookup_eq_none.2 absent]
  · exact Finmap.lookup_erase_ne same

theorem eq_list {ids : List CheckpointId} (rising : ids.Pairwise (·.number < ·.number))
    (same : ∀ id, id ∈ ids ↔ id ∈ m ∧ id.execution = execution) : ids = m.list execution := by
  apply CheckpointId.eq_of_rising rising (m.list_pairwise execution)
  intro id
  rw [same, mem_list]

theorem lookup_without (m : Ledger) (ids : List CheckpointId) (id : CheckpointId) :
    (m.without ids).lookup id = if id ∈ ids then none else m.lookup id := by
  induction ids generalizing m with
  | nil => rfl
  | cons gone rest ih =>
    rw [without, List.foldl_cons, ← without, ih]
    by_cases later : id ∈ rest
    · rw [if_pos later, if_pos (.tail gone later)]
    · by_cases same : id = gone
      · subst same
        rw [if_neg later, if_pos List.mem_cons_self, Finmap.lookup_erase]
      · rw [if_neg later, if_neg (by simp [same, later]), Finmap.lookup_erase_ne same]

theorem list_without_oldest (m : Ledger) (execution : ExecutionId) (keep : Nat) :
    (m.without (m.oldest execution keep)).list execution =
      (m.list execution).drop ((m.list execution).length - keep) := by
  symm
  apply eq_list
  · exact (m.list_pairwise execution).drop
  intro id
  have distinct := CheckpointId.distinct_of_rising (m.list_pairwise execution)
  rw [mem_drop_iff distinct, mem_list, ← Finmap.lookup_isSome, ← Finmap.lookup_isSome,
    lookup_without]
  constructor
  · rintro ⟨⟨mem, same⟩, new⟩
    exact ⟨by rwa [oldest, if_neg new], same⟩
  · rintro ⟨left, same⟩
    split at left
    · cases left
    · rename_i new
      exact ⟨⟨left, same⟩, new⟩

theorem mem_executions : execution ∈ m.executions ↔ m.list execution ≠ [] := by
  simp only [executions, Finset.mem_sort, Finset.mem_image, Finmap.mem_keys,
    ne_eq, List.eq_nil_iff_forall_not_mem, mem_list, not_forall, not_not]

theorem eq_executions {found : List ExecutionId} (rising : found.Pairwise (· < ·))
    (same : ∀ e, e ∈ found ↔ m.list e ≠ []) : found = m.executions := by
  have rising' : m.executions.Pairwise (· < ·) := (Finset.sortedLT_sort _).pairwise
  have perm : found.Perm m.executions := by
    apply (List.perm_ext_iff_of_nodup _ _).2
    · intro e
      rw [same, mem_executions]
    · exact rising.imp fun less => ne_of_lt less
    · exact rising'.imp fun less => ne_of_lt less
  refine perm.eq_of_pairwise ?_ rising rising'
  intro a b _ _ less more
  exact absurd less (lt_asymm more)

end Ledger

namespace CheckpointStore
variable {σ : Type} (store : CheckpointStore σ) {stands : σ → Ledger → Prop} {s : σ} {m : Ledger}
  {execution : ExecutionId}

section
variable (deleted : ∀ {s m id}, stands s m → id ∈ m.list execution →
  ∃ s', store.delete id s = (.ok true, s') ∧ stands s' (m.erase id))
include deleted

theorem deletedAll (here : stands s m) (count : Nat) {ids : List CheckpointId}
    (known : ∀ id ∈ ids, id ∈ m.list execution) (distinct : ids.Nodup) :
    ∃ s', store.deleteAll count s ids = (.ok (count + ids.length), s') ∧
      stands s' (m.without ids) := by
  induction ids generalizing s m count with
  | nil => exact ⟨s, rfl, here⟩
  | cons id rest ih =>
    obtain ⟨other, distinct'⟩ := List.nodup_cons.1 distinct
    obtain ⟨s₁, gone, here₁⟩ := deleted here (known id List.mem_cons_self)
    have left : ∀ later ∈ rest, later ∈ Ledger.list (m.erase id) execution := by
      intro later among
      obtain ⟨mem, same⟩ := Ledger.mem_list.1 (known later (.tail id among))
      have different : later ≠ id := fun same => other (same ▸ among)
      exact Ledger.mem_list.2 ⟨Finmap.mem_erase.2 ⟨different, mem⟩, same⟩
    obtain ⟨s', all, there⟩ := ih here₁ (count + 1) left distinct'
    refine ⟨s', ?_, there⟩
    simp only [deleteAll, gone, all, List.length_cons]
    congr 2
    omega

theorem cleaned_of_deleted (here : stands s m)
    (listed : store.list execution s = .ok (m.list execution)) (keep : Nat) :
    ∃ s', store.cleanup execution keep s = (.ok (m.oldest execution keep).length, s') ∧
      stands s' (m.without (m.oldest execution keep)) := by
  have old : (m.oldest execution keep).Sublist (m.list execution) := List.take_sublist ..
  have distinct := old.nodup (CheckpointId.distinct_of_rising (m.list_pairwise execution))
  obtain ⟨s', all, there⟩ :=
    store.deletedAll deleted here 0 (fun id among => old.subset among) distinct
  rw [Nat.zero_add] at all
  refine ⟨s', ?_, there⟩
  simp only [cleanup, listed]
  exact all

end
end CheckpointStore

/-- A store stands for a finite map, and every operation keeps to it. -/
structure CheckpointStore.Realizes {σ : Type} (store : CheckpointStore σ) (limit : Nat)
    (stands : σ → Ledger → Prop) : Prop where
  valid : ∀ {s m id}, stands s m → id ∈ m → id.Valid
  refused : ∀ {s m id} {data : CheckpointData}, stands s m → limit < data.size →
    store.save id data s = (.error (.sizeLimit data.size limit), s)
  saved : ∀ {s m id} {data : CheckpointData}, stands s m → id.Valid → data.Readable →
    data.size ≤ limit → ∃ s', store.save id data s = (.ok (), s') ∧ stands s' (m.insert id data)
  loaded : ∀ {s m id}, stands s m → id.Valid → store.load id s = .ok (m.lookup id)
  listed : ∀ {s m execution}, stands s m → ValidId .execution execution →
    store.list execution s = .ok (m.list execution)
  deleted : ∀ {s m id}, stands s m → id.Valid →
    ∃ s', store.delete id s = (.ok (m.lookup id).isSome, s') ∧ stands s' (m.erase id)
  executions : ∀ {s m}, stands s m → store.executions s = .ok m.executions

namespace CheckpointStore.Realizes
variable {σ : Type} {store : CheckpointStore σ} {limit : Nat} {stands : σ → Ledger → Prop}
  {s : σ} {m : Ledger}

theorem cleaned (realizes : store.Realizes limit stands) (here : stands s m)
    {execution : ExecutionId} (valid : ValidId .execution execution) (keep : Nat) :
    ∃ s', store.cleanup execution keep s = (.ok (m.oldest execution keep).length, s') ∧
      stands s' (m.without (m.oldest execution keep)) := by
  apply store.cleaned_of_deleted _ here (realizes.listed here valid)
  intro s m id here listed
  have mem := (Ledger.mem_list.1 listed).1
  obtain ⟨s', gone, there⟩ := realizes.deleted here (realizes.valid here mem)
  exact ⟨s', by rw [gone, Finmap.lookup_isSome.2 mem], there⟩

theorem answer (realizes : store.Realizes limit stands) (here : stands s m) {call : StoreCall}
    (sound : call.Sound) :
    ∃ s', store.answer call s = ((m.answer limit call).1, s') ∧
      stands s' (m.answer limit call).2 := by
  cases call with
  | save id data =>
    by_cases large : limit < data.size
    · exact ⟨s, by simp only [CheckpointStore.answer, realizes.refused here large, Ledger.answer,
        if_pos large], by simpa only [Ledger.answer, if_pos large] using here⟩
    · obtain ⟨s', saved, there⟩ := realizes.saved here sound.1 sound.2 (Nat.le_of_not_lt large)
      exact ⟨s', by simp only [CheckpointStore.answer, saved, Ledger.answer, if_neg large],
        by simpa only [Ledger.answer, if_neg large] using there⟩
  | load id =>
    exact ⟨s, by simp only [CheckpointStore.answer, realizes.loaded here sound, Ledger.answer], here⟩
  | list execution =>
    exact ⟨s, by simp only [CheckpointStore.answer, realizes.listed here sound, Ledger.answer], here⟩
  | delete id =>
    obtain ⟨s', gone, there⟩ := realizes.deleted here sound
    exact ⟨s', by simp only [CheckpointStore.answer, gone, Ledger.answer], there⟩
  | cleanup execution keep =>
    obtain ⟨s', cleaned, there⟩ := realizes.cleaned here sound keep
    exact ⟨s', by simp only [CheckpointStore.answer, cleaned, Ledger.answer], there⟩
  | executions =>
    exact ⟨s, by simp only [CheckpointStore.answer, realizes.executions here, Ledger.answer], here⟩

/-- A store that realizes a finite map gives its answers, whatever it is asked. -/
theorem answers (realizes : store.Realizes limit stands) (here : stands s m)
    {calls : List StoreCall} (sound : ∀ call ∈ calls, call.Sound) :
    store.answers calls s = m.answers limit calls := by
  induction calls generalizing s m with
  | nil => rfl
  | cons call rest ih =>
    obtain ⟨s', answered, there⟩ := realizes.answer here (sound call List.mem_cons_self)
    simp only [CheckpointStore.answers, Ledger.answers, answered]
    rw [ih there fun later among => sound later (.tail call among)]

end CheckpointStore.Realizes
end Playbook
