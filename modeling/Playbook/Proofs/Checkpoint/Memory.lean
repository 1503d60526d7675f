import Playbook.Proofs.Checkpoint.Ledger
import Playbook.Proofs.Dict

/- The store in memory keeps a finite map: under each execution the data rise by number, and no
   execution is kept without data. -/
namespace Playbook
namespace MemoryStore

variable {kept : List (Nat × CheckpointData)} {n : Nat} {data : CheckpointData}

def numbered (kept : List (Nat × CheckpointData)) (n : Nat) : Option CheckpointData :=
  (kept.find? (·.1 = n)).map Prod.snd

theorem numbered_cons (k : Nat) (d : CheckpointData) (rest : List (Nat × CheckpointData))
    (n : Nat) : numbered ((k, d) :: rest) n = if k = n then some d else numbered rest n := by
  by_cases same : k = n
  · simp [numbered, same]
  · simp [numbered, same]

theorem numbered_insertNumber (kept : List (Nat × CheckpointData)) (n : Nat)
    (data : CheckpointData) (other : Nat) : numbered (insertNumber n data kept) other =
      if n = other then some data else numbered kept other := by
  induction kept with
  | nil => exact numbered_cons n data [] other
  | cons e rest ih =>
    obtain ⟨k, d⟩ := e
    unfold insertNumber
    split
    · rename_i same
      subst same
      simp only [numbered_cons]
      split <;> rfl
    split
    · exact numbered_cons n data _ other
    · rename_i different _
      rw [numbered_cons, ih, numbered_cons]
      by_cases here : k = other
      · rw [if_pos here, if_pos here, if_neg fun same => different (here.trans same.symm)]
      · rw [if_neg here, if_neg here]

theorem numbered_filter (kept : List (Nat × CheckpointData)) (n other : Nat) :
    numbered (kept.filter (·.1 ≠ n)) other = if n = other then none else numbered kept other := by
  induction kept with
  | nil => simp [numbered]
  | cons e rest ih =>
    obtain ⟨k, d⟩ := e
    by_cases gone : k = n
    · subst gone
      simp only [ne_eq, decide_not, decide_true, Bool.not_true, Bool.false_eq_true,
        not_false_eq_true, List.filter_cons_of_neg, numbered_cons] at ih ⊢
      rw [ih]
      split <;> rfl
    · have stays : ((k, d) :: rest).filter (·.1 ≠ n) = (k, d) :: rest.filter (·.1 ≠ n) := by
        simp [gone]
      rw [stays, numbered_cons, ih, numbered_cons]
      by_cases here : k = other
      · rw [if_pos here, if_pos here, if_neg fun same => gone (here.trans same.symm)]
      · rw [if_neg here, if_neg here]

theorem numbered_isSome_iff : (numbered kept n).isSome ↔ n ∈ kept.map Prod.fst := by
  induction kept with
  | nil => simp [numbered]
  | cons e rest ih =>
    obtain ⟨k, d⟩ := e
    rw [numbered_cons]
    by_cases here : k = n
    · simp [here]
    · simp [here, ih, Ne.symm here]

def Rising (kept : List (Nat × CheckpointData)) : Prop := kept.Pairwise (·.1 < ·.1)

theorem eq_or_mem_of_mem_insertNumber {e : Nat × CheckpointData}
    (mem : e ∈ insertNumber n data kept) : e.1 = n ∨ e ∈ kept := by
  induction kept with
  | nil =>
    simp only [insertNumber, List.mem_singleton] at mem
    exact .inl (congrArg Prod.fst mem)
  | cons p rest ih =>
    obtain ⟨k, d⟩ := p
    unfold insertNumber at mem
    grind

theorem rising_insertNumber (rising : Rising kept) (n : Nat) (data : CheckpointData) :
    Rising (insertNumber n data kept) := by
  induction kept with
  | nil => exact List.pairwise_singleton ..
  | cons p rest ih =>
    obtain ⟨k, d⟩ := p
    obtain ⟨above, rising'⟩ := List.pairwise_cons.1 rising
    unfold insertNumber
    split
    · rename_i same
      exact List.pairwise_cons.2 ⟨same ▸ above, rising'⟩
    split
    · rename_i before
      apply List.pairwise_cons.2
      constructor
      · intro e mem
        rcases List.mem_cons.1 mem with rfl | later
        · exact before
        · exact Nat.lt_trans before (above e later)
      · exact rising
    · rename_i different behind
      apply List.pairwise_cons.2
      constructor
      · intro e mem
        rcases eq_or_mem_of_mem_insertNumber mem with same | old
        · show k < e.1
          omega
        · exact above e old
      · exact ih rising'

theorem insertNumber_ne_nil : insertNumber n data kept ≠ [] := by
  cases kept with
  | nil => simp [insertNumber]
  | cons e rest =>
    unfold insertNumber
    split
    · exact List.cons_ne_nil _ _
    split <;> exact List.cons_ne_nil _ _

structure Stands (s : MemoryStore) (m : Ledger) : Prop where
  valid : ∀ id ∈ m, id.Valid
  sorted : Dict.Sorted s
  rising : ∀ e, Rising (s.of e)
  nonempty : ∀ e, Dict.get? s e ≠ some []
  same : ∀ id, m.lookup id = numbered (s.of id.execution) id.number

theorem of_insert (s : MemoryStore) (e e' : ExecutionId) (kept : List (Nat × CheckpointData)) :
    of (Dict.insert s e kept) e' = if e = e' then kept else s.of e' := by
  unfold of
  split
  · rename_i same
    rw [← same, Dict.get?_insert_self]
    rfl
  · rename_i different
    rw [Dict.get?_insert_of_ne s kept different]

theorem of_erase (s : MemoryStore) (e e' : ExecutionId) :
    of (Dict.erase s e) e' = if e = e' then [] else s.of e' := by
  unfold of
  split
  · rename_i same
    rw [← same, Dict.get?_erase_self]
    rfl
  · rename_i different
    rw [Dict.get?_erase_of_ne s different]

namespace Stands
variable {s : MemoryStore} {m : Ledger} {id : CheckpointId}

theorem empty : Stands [] ∅ where
  valid id mem := absurd mem (Finmap.notMem_empty)
  sorted := List.Pairwise.nil
  rising _ := List.Pairwise.nil
  nonempty _ := by simp [Dict.get?]
  same id := by simp [of, Dict.get?, numbered]

theorem mem_iff (stands : Stands s m) :
    id ∈ m ↔ id.number ∈ (s.of id.execution).map Prod.fst := by
  rw [← Finmap.lookup_isSome, stands.same, numbered_isSome_iff]

theorem insert (stands : Stands s m) {e : ExecutionId} {kept : List (Nat × CheckpointData)}
    {m' : Ledger} (valid : ∀ id ∈ m', id.Valid) (rising : Rising kept) (some : kept ≠ [])
    (here : ∀ n, m'.lookup ⟨e, n⟩ = numbered kept n)
    (other : ∀ id, id.execution ≠ e → m'.lookup id = m.lookup id) :
    Stands (Dict.insert s e kept) m' where
  valid := valid
  sorted := Dict.sorted_insert stands.sorted e kept
  rising e' := by
    rw [of_insert]
    split
    · exact rising
    · exact stands.rising e'
  nonempty e' := by
    by_cases same : e = e'
    · rw [← same, Dict.get?_insert_self]
      exact fun none => some (Option.some.inj none)
    · rw [Dict.get?_insert_of_ne s kept same]
      exact stands.nonempty e'
  same id := by
    rw [of_insert]
    by_cases same : e = id.execution
    · subst same
      rw [if_pos rfl]
      exact here id.number
    · rw [if_neg same, other id (Ne.symm same), stands.same]

theorem erase (stands : Stands s m) {e : ExecutionId} {m' : Ledger}
    (valid : ∀ id ∈ m', id.Valid) (here : ∀ n, m'.lookup ⟨e, n⟩ = none)
    (other : ∀ id, id.execution ≠ e → m'.lookup id = m.lookup id) :
    Stands (Dict.erase s e) m' where
  valid := valid
  sorted := Dict.sorted_erase stands.sorted e
  rising e' := by
    rw [of_erase]
    split
    · exact List.Pairwise.nil
    · exact stands.rising e'
  nonempty e' := by
    by_cases same : e = e'
    · rw [← same, Dict.get?_erase_self]
      exact fun none => nomatch none
    · rw [Dict.get?_erase_of_ne s same]
      exact stands.nonempty e'
  same id := by
    rw [of_erase]
    by_cases same : e = id.execution
    · subst same
      rw [if_pos rfl]
      exact here id.number
    · rw [if_neg same, other id (Ne.symm same), stands.same]

theorem mem_keys (stands : Stands s m) (e : ExecutionId) : e ∈ Dict.keys s ↔ s.of e ≠ [] := by
  rw [Dict.mem_keys_iff, of]
  cases found : Dict.get? s e with
  | none => simp
  | some kept =>
    have nonempty := stands.nonempty e
    rw [found] at nonempty
    simpa using nonempty

theorem listed (stands : Stands s m) (e : ExecutionId) :
    (s.of e).map (fun p => (⟨e, p.1⟩ : CheckpointId)) = m.list e := by
  apply Ledger.eq_list
  · rw [List.pairwise_map]
    exact stands.rising e
  · intro id
    constructor
    · intro mem
      obtain ⟨p, among, rfl⟩ := List.mem_map.1 mem
      exact ⟨stands.mem_iff.2 (List.mem_map_of_mem among), rfl⟩
    · rintro ⟨mem, rfl⟩
      obtain ⟨p, among, number⟩ := List.mem_map.1 (stands.mem_iff.1 mem)
      exact List.mem_map.2 ⟨p, among, by rw [number]⟩

end Stands

theorem deleted (limit : Nat) {s : MemoryStore} {m : Ledger} (stands : Stands s m)
    (id : CheckpointId) : ∃ s', (store limit).delete id s = (.ok (m.lookup id).isSome, s') ∧
      Stands s' (m.erase id) := by
  have valid : ∀ id' ∈ m.erase id, id'.Valid :=
    fun id' mem => stands.valid id' (Finmap.mem_erase.1 mem).2
  have here : ∀ n, (m.erase id).lookup ⟨id.execution, n⟩ =
      numbered ((s.of id.execution).filter (·.1 ≠ id.number)) n := by
    intro n
    rw [numbered_filter]
    split
    · rename_i same
      rw [← same]
      exact Finmap.lookup_erase id m
    · rename_i different
      rw [Finmap.lookup_erase_ne, stands.same]
      exact fun same => different (congrArg CheckpointId.number same).symm
  have other : ∀ id', id'.execution ≠ id.execution → (m.erase id).lookup id' = m.lookup id' :=
    fun id' different => Finmap.lookup_erase_ne fun same =>
      different (congrArg CheckpointId.execution same)
  simp only [store]
  split
  · rename_i same
    have all := List.length_filter_eq_length_iff.1 same
    have absent : id ∉ m := by
      rw [stands.mem_iff]
      intro mem
      obtain ⟨p, among, number⟩ := List.mem_map.1 mem
      simpa [number] using all p among
    refine ⟨s, ?_, ?_⟩
    · rw [Finmap.lookup_eq_none.2 absent]
      rfl
    · rwa [Ledger.erase_of_notMem absent]
  · rename_i fewer
    have present : id ∈ m := by
      rw [stands.mem_iff]
      by_contra absent
      apply fewer
      apply List.length_filter_eq_length_iff.2
      intro p among
      simpa using fun number => absent (List.mem_map.2 ⟨p, among, number⟩)
    rw [Finmap.lookup_isSome.2 present]
    split
    · rename_i none
      rw [List.isEmpty_iff] at none
      refine ⟨_, rfl, stands.erase valid ?_ other⟩
      intro n
      rw [here, none]
      rfl
    · rename_i some
      rw [List.isEmpty_iff] at some
      exact ⟨_, rfl, stands.insert valid ((stands.rising _).filter _) some here other⟩

theorem saved (limit : Nat) {s : MemoryStore} {m : Ledger} (stands : Stands s m)
    {id : CheckpointId} (valid : id.Valid) {data : CheckpointData} (fits : data.size ≤ limit) :
    ∃ s', (store limit).save id data s = (.ok (), s') ∧ Stands s' (m.insert id data) := by
  simp only [store, checkSize, if_neg (Nat.not_lt.2 fits)]
  refine ⟨_, rfl, ?_⟩
  apply stands.insert
  · intro id' mem
    rcases Finmap.mem_insert.1 mem with rfl | old
    · exact valid
    · exact stands.valid id' old
  · exact rising_insertNumber (stands.rising _) _ _
  · exact insertNumber_ne_nil
  · intro n
    rw [numbered_insertNumber]
    split
    · rename_i same
      rw [← same]
      exact Finmap.lookup_insert m
    · rename_i different
      rw [Finmap.lookup_insert_of_ne, stands.same]
      exact fun same => different (congrArg CheckpointId.number same).symm
  · intro id' different
    exact Finmap.lookup_insert_of_ne m fun same => different (congrArg CheckpointId.execution same)

theorem executions (limit : Nat) {s : MemoryStore} {m : Ledger} (stands : Stands s m) :
    (store limit).executions s = .ok m.executions := by
  apply congrArg Except.ok
  apply Ledger.eq_executions stands.sorted
  intro e
  rw [← stands.listed, ne_eq, List.map_eq_nil_iff]
  exact stands.mem_keys e

theorem realizes (limit : Nat) : (store limit).Realizes limit Stands where
  valid stands mem := stands.valid _ mem
  refused stands large := by simp only [store, checkSize, if_pos large]
  saved stands valid _ fits := saved limit stands valid fits
  loaded stands _ := by rw [stands.same]; rfl
  listed stands _ := congrArg Except.ok (stands.listed _)
  deleted stands _ := deleted limit stands _
  executions stands := executions limit stands

end MemoryStore
end Playbook
