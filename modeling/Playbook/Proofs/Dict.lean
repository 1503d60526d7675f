import Playbook.Dict

/- The laws of sorted dictionaries. -/
namespace Playbook

namespace Dict
variable {α : Type}

theorem mem_of_mem_insert {d : Dict α} {key : String} {value : α} {e : String × α}
    (mem : e ∈ d.insert key value) : e = (key, value) ∨ e ∈ d := by
  induction d with
  | nil => exact .inl (List.mem_singleton.1 mem)
  | cons p rest ih =>
    obtain ⟨k, v⟩ := p
    unfold insert at mem
    split at mem
    · exact (List.mem_cons.1 mem).imp id (List.mem_cons_of_mem _)
    split at mem
    · exact List.mem_cons.1 mem
    · rcases List.mem_cons.1 mem with rfl | later
      · exact .inr List.mem_cons_self
      · exact (ih later).imp id (List.mem_cons_of_mem _)

theorem sorted_cons {p : String × α} {d : Dict α} :
    Sorted (p :: d) ↔ (∀ e ∈ d, p.1 < e.1) ∧ Sorted d := by
  simp only [Sorted, List.map_cons, List.pairwise_cons, List.forall_mem_map]

theorem sorted_insert {d : Dict α} (sorted : d.Sorted) (key : String) (value : α) :
    (d.insert key value).Sorted := by
  induction d with
  | nil => simp [insert, Sorted]
  | cons p rest ih =>
    obtain ⟨k, v⟩ := p
    obtain ⟨above, sorted'⟩ := sorted_cons.1 sorted
    unfold insert
    split
    · rename_i same
      exact sorted_cons.2 ⟨same ▸ above, sorted'⟩
    split
    · rename_i before
      refine sorted_cons.2 ⟨fun e mem => ?_, sorted⟩
      rcases List.mem_cons.1 mem with rfl | later
      · exact before
      · exact String.lt_trans before (above e later)
    · rename_i different behind
      refine sorted_cons.2 ⟨fun e mem => ?_, ih sorted'⟩
      rcases mem_of_mem_insert mem with rfl | old
      · exact Decidable.by_contra fun not_before =>
          different (String.le_antisymm (String.not_lt.1 behind) (String.not_lt.1 not_before))
      · exact above e old

theorem sorted_union {d : Dict α} (sorted : d.Sorted) (e : Dict α) : (d.union e).Sorted := by
  induction e generalizing d with
  | nil => exact sorted
  | cons p rest ih => exact ih (sorted_insert sorted p.1 p.2)

theorem insert_of_last {d : Dict α} {key : String} (value : α) (last : ∀ e ∈ d, e.1 < key) :
    d.insert key value = d ++ [(key, value)] := by
  induction d with
  | nil => rfl
  | cons e rest ih =>
    obtain ⟨k, v⟩ := e
    have before : k < key := last (k, v) List.mem_cons_self
    have different : k ≠ key := String.ne_of_lt before
    have behind : ¬ key < k := String.lt_asymm before
    rw [insert, if_neg different, if_neg behind, List.cons_append,
      ih fun e mem => last e (List.mem_cons_of_mem _ mem)]

theorem union_of_sorted {d e : Dict α} (sorted : Sorted (d ++ e)) : d.union e = d ++ e := by
  induction e generalizing d with
  | nil => simp [union]
  | cons p rest ih =>
    have last : ∀ e ∈ d, e.1 < p.1 := by
      intro e mem
      simp only [Sorted, List.map_append, List.pairwise_append] at sorted
      exact sorted.2.2 e.1 (List.mem_map_of_mem mem) p.1 (by simp)
    have joined : d ++ p :: rest = d ++ [p] ++ rest := by simp
    rw [joined] at sorted ⊢
    rw [← ih sorted, union, union, List.foldl_cons, insert_of_last p.2 last]

theorem insert_insert (d : Dict α) (key : String) (old new : α) :
    (d.insert key old).insert key new = d.insert key new := by
  induction d with
  | nil => simp [insert]
  | cons e rest ih =>
    obtain ⟨k, v⟩ := e
    by_cases same : k = key
    · simp [insert, same]
    · by_cases before : key < k
      · simp [insert, same, before]
      · simp [insert, same, before, ih]

theorem get?_erase_self (d : Dict α) (key : String) : (d.erase key).get? key = none := by
  induction d with
  | nil => rfl
  | cons p rest ih =>
    obtain ⟨k, v⟩ := p
    by_cases same : k = key
    · simpa [erase, same] using ih
    · simpa [erase, same, get?] using ih

theorem get?_erase_of_ne (d : Dict α) {key other : String} (different : key ≠ other) :
    (d.erase key).get? other = d.get? other := by
  induction d with
  | nil => rfl
  | cons p rest ih =>
    obtain ⟨k, v⟩ := p
    by_cases same : k = key
    · subst same
      simpa [erase, get?, different] using ih
    · have stays : erase ((k, v) :: rest) key = (k, v) :: erase rest key := by simp [erase, same]
      rw [stays, get?, get?, ih]

theorem erase_of_absent {d : Dict α} {key : String} (absent : d.get? key = none) :
    d.erase key = d := by
  induction d with
  | nil => rfl
  | cons p rest ih =>
    obtain ⟨k, v⟩ := p
    have different : k ≠ key := by
      rintro rfl
      simp [get?] at absent
    have later : get? rest key = none := by rwa [get?, if_neg different] at absent
    have stays : erase ((k, v) :: rest) key = (k, v) :: erase rest key := by simp [erase, different]
    rw [stays, ih later]

theorem erase_insert (d : Dict α) (key : String) (value : α) :
    (d.insert key value).erase key = d.erase key := by
  induction d with
  | nil => simp [insert, erase]
  | cons p rest ih =>
    obtain ⟨k, v⟩ := p
    unfold insert
    split
    · rename_i same
      simp [erase, same]
    · rename_i different
      split
      · simp [erase]
      · have stays (rest : Dict α) : erase ((k, v) :: rest) key = (k, v) :: erase rest key := by
          simp [erase, different]
        rw [stays, stays, ih]

theorem sorted_erase {d : Dict α} (sorted : d.Sorted) (key : String) : (d.erase key).Sorted :=
  List.Pairwise.sublist ((List.filter_sublist).map Prod.fst) sorted

theorem mem_of_get? {d : Dict α} {key : String} {value : α} (found : d.get? key = some value) :
    (key, value) ∈ d := by
  induction d with
  | nil => cases found
  | cons p rest ih =>
    obtain ⟨k, v⟩ := p
    by_cases same : k = key
    · simp only [get?, same, if_true, Option.some.injEq] at found
      simp [same, found]
    · simp only [get?, same, if_false] at found
      exact .tail _ (ih found)

theorem get?_of_mem {d : Dict α} (sorted : d.Sorted) {key : String} {value : α}
    (mem : (key, value) ∈ d) : d.get? key = some value := by
  induction d with
  | nil => cases mem
  | cons p rest ih =>
    obtain ⟨k, v⟩ := p
    obtain ⟨above, sorted'⟩ := sorted_cons.1 sorted
    rcases List.mem_cons.1 mem with same | later
    · cases same
      simp [get?]
    · have different : k ≠ key := String.ne_of_lt (above _ later)
      simp [get?, different, ih sorted' later]

theorem mem_keys_iff {d : Dict α} {key : String} : key ∈ d.keys ↔ ∃ value, d.get? key = some value := by
  constructor
  · intro mem
    induction d with
    | nil => cases mem
    | cons p rest ih =>
      obtain ⟨k, v⟩ := p
      by_cases same : k = key
      · exact ⟨v, by simp [get?, same]⟩
      · have later : key ∈ keys rest := by simpa [keys, Ne.symm same] using mem
        simpa [get?, same] using ih later
  · rintro ⟨value, found⟩
    exact List.mem_map_of_mem (mem_of_get? found)

theorem mem_keys_erase {d : Dict α} {key name : String} :
    name ∈ (d.erase key).keys ↔ name ∈ d.keys ∧ name ≠ key := by
  constructor
  · intro mem
    obtain ⟨p, among, rfl⟩ := List.mem_map.1 mem
    obtain ⟨old, different⟩ := List.mem_filter.1 among
    exact ⟨List.mem_map_of_mem old, of_decide_eq_true different⟩
  · rintro ⟨mem, different⟩
    obtain ⟨p, among, rfl⟩ := List.mem_map.1 mem
    exact List.mem_map_of_mem (List.mem_filter.2 ⟨among, decide_eq_true different⟩)

def eraseAll (d : Dict α) (keys : List String) : Dict α := keys.foldl erase d

theorem mem_keys_eraseAll {d : Dict α} {keys : List String} {name : String} :
    name ∈ (d.eraseAll keys).keys ↔ name ∈ d.keys ∧ name ∉ keys := by
  induction keys generalizing d with
  | nil => simp [eraseAll]
  | cons key rest ih =>
    rw [eraseAll, List.foldl_cons, ← eraseAll, ih, mem_keys_erase, List.mem_cons, not_or, and_assoc]

theorem sorted_eraseAll {d : Dict α} (sorted : d.Sorted) (keys : List String) :
    (d.eraseAll keys).Sorted := by
  induction keys generalizing d with
  | nil => exact sorted
  | cons key rest ih => exact ih (sorted_erase sorted key)

theorem keys_filterMapValues {β : Type} (f : String → α → Option β) (d : Dict α) :
    ((filterMapValues f d).map Prod.fst).Sublist (d.map Prod.fst) := by
  induction d with
  | nil => exact List.Sublist.slnil
  | cons e rest ih =>
    rw [filterMapValues, List.filterMap_cons]
    cases f e.1 e.2 with
    | none => exact ih.cons e.1
    | some v => exact ih.cons_cons e.1

theorem sorted_filter {d : Dict α} (sorted : d.Sorted) (keep : String × α → Bool) :
    Sorted (d.filter keep) :=
  List.Pairwise.sublist (List.filter_sublist.map Prod.fst) sorted

theorem sorted_mapValues {β : Type} {d : Dict α} (sorted : d.Sorted) (f : α → β) :
    (d.mapValues f).Sorted := by
  rw [Sorted, mapValues, List.map_map]
  exact sorted

theorem get?_of_sorted_cons {p : String × α} {d : Dict α} (sorted : Sorted (p :: d)) :
    d.get? p.1 = none := by
  cases found : d.get? p.1 with
  | none => rfl
  | some v => exact absurd ((sorted_cons.1 sorted).1 _ (mem_of_get? found)) (String.lt_irrefl p.1)

theorem get?_filter_of_sorted {d : Dict α} (sorted : d.Sorted) (keep : String × α → Bool)
    (name : String) :
    get? (d.filter keep) name = (d.get? name).filter fun v => keep (name, v) := by
  induction d with
  | nil => rfl
  | cons p rest ih =>
    obtain ⟨k, v⟩ := p
    have later := ih (sorted_cons.1 sorted).2
    by_cases same : k = name
    · subst same
      have alone : get? rest k = none := get?_of_sorted_cons sorted
      cases kept : keep (k, v) with
      | true => simp [get?, kept, Option.filter]
      | false => simp [get?, kept, later, alone, Option.filter]
    · cases kept : keep (k, v) with
      | true => simp [get?, same, kept, later]
      | false => simp [get?, same, kept, later]

theorem get?_union {d e : Dict α} (rising : e.Sorted) (name : String) :
    (d.union e).get? name = (e.get? name).or (d.get? name) := by
  induction e generalizing d with
  | nil => rfl
  | cons p rest ih =>
    obtain ⟨k, v⟩ := p
    have later : (d.union ((k, v) :: rest)).get? name = _ := ih (sorted_cons.1 rising).2
    rw [later]
    by_cases same : k = name
    · subst same
      have alone : get? rest k = none := get?_of_sorted_cons rising
      simp [get?, alone, get?_insert_self]
    · rw [get?_insert_of_ne _ _ same, get?, if_neg same]

theorem insert_of_get? {d : Dict α} (sorted : d.Sorted) {key : String} {value : α}
    (here : d.get? key = some value) : d.insert key value = d := by
  induction d with
  | nil => cases here
  | cons p rest ih =>
    obtain ⟨k, v⟩ := p
    obtain ⟨above, sorted'⟩ := sorted_cons.1 sorted
    by_cases same : k = key
    · simp only [get?, if_pos same, Option.some.injEq] at here
      rw [insert, if_pos same, same, here]
    · simp only [get?, if_neg same] at here
      have behind : ¬ key < k := String.lt_asymm (above _ (mem_of_get? here))
      rw [insert, if_neg same, if_neg behind, ih sorted' here]

theorem union_of_present {d e : Dict α} (sorted : d.Sorted)
    (present : ∀ p ∈ e, d.get? p.1 = some p.2) : d.union e = d := by
  induction e with
  | nil => rfl
  | cons p rest ih =>
    have first := insert_of_get? sorted (present p List.mem_cons_self)
    rw [union, List.foldl_cons, first]
    exact ih fun q mem => present q (List.mem_cons_of_mem _ mem)

end Dict
end Playbook
