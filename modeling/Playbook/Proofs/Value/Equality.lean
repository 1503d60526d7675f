import Playbook.Proofs.Value.Comparison

/- Equal values are equal to the same values, though not everything is equal to itself: a double that
   is not a number is not. Numbers can be equal without being the same value, and only they can. -/
namespace Playbook.Script
open Float.Model

/-- Only the two zeros are different and equal. -/
theorem eq_or_zeros_of_compare {x y : UnpackedFloat} (equal : x.compare y = some .eq) :
    x = y ∨ ∃ s t, x = .zero s ∧ y = .zero t := by
  rcases x with ⟨_ | _⟩ | _ | s | ⟨_ | _, m, e, h⟩ <;>
    rcases y with ⟨_ | _⟩ | _ | t | ⟨_ | _, m', e', h'⟩ <;> try cases equal
  case zero.zero => exact .inr ⟨s, t, rfl, rfl⟩
  case infinity.positive.infinity.positive | infinity.negative.infinity.negative => exact .inl rfl
  all_goals
    simp only [UnpackedFloat.compare, Option.some.injEq, Ordering.swap_eq_eq, Ordering.then_eq_eq,
      Int.compare_eq_eq, Nat.compare_eq_eq] at equal
    obtain ⟨rfl, rfl⟩ := equal
    exact .inl rfl

theorem compare_congr {x y : UnpackedFloat} (equal : x.compare y = some .eq) (z : UnpackedFloat) :
    x.compare z = y.compare z := by
  rcases eq_or_zeros_of_compare equal with rfl | ⟨s, t, rfl, rfl⟩
  · rfl
  · rcases z with ⟨_ | _⟩ | _ | _ | ⟨_ | _, m, e, h⟩ <;> rfl

theorem number_symm {a b : Float} (equal : (a == b) = true) : (b == a) = true := by
  rw [beq_iff_compare, Float.Model.compare] at equal ⊢
  rw [compare_swap, equal]
  rfl

theorem number_congr {a b : Float} (equal : (a == b) = true) (c : Float) : (a == c) = (b == c) := by
  rw [beq_iff_compare, Float.Model.compare] at equal
  rw [Bool.eq_iff_iff, beq_iff_compare, beq_iff_compare, Float.Model.compare, Float.Model.compare,
    compare_congr equal]

theorem number_refl {a : Float} (number : a.isNaN = false) : (a == a) = true := by
  obtain ⟨o, compared⟩ := (compare_isSome_iff a a).2 ⟨number, number⟩
  have turned := compare_swap a.toModel.unpack a.toModel.unpack
  rw [beq_iff_compare, compared]
  rw [Float.Model.compare] at compared
  rw [compared] at turned
  cases o with
  | eq => rfl
  | lt | gt => cases turned

end Playbook.Script

namespace Playbook.Value
open Script

def plain : Value → Bool
  | .float _ | .list _ | .map _ => false
  | .null | .bool _ | .int _ | .str _ | .builtin _ | .module _ | .handle _ => true

theorem eq_of_same {a b : Value} (plain : a.plain = true) (same : a.same b = true) : a = b := by
  cases a <;> cases plain <;> cases b <;>
    first | rfl | cases same | simpa [Value.same] using same

theorem float_of_same {x : Float} {b : Value} (same : (Value.float x).same b = true) :
    ∃ y, b = .float y ∧ (x == y) = true := by
  cases b with
  | float y => exact ⟨y, rfl, by simpa [Value.same] using same⟩
  | _ => cases same

theorem list_of_same {as : List Value} {b : Value} (same : (Value.list as).same b = true) :
    ∃ bs, b = .list bs ∧ sameItems as bs = true := by
  cases b with
  | list bs => exact ⟨bs, rfl, by simpa [Value.same] using same⟩
  | _ => cases same

theorem map_of_same {as : List (String × Value)} {b : Value}
    (same : (Value.map as).same b = true) : ∃ bs, b = .map bs ∧ sameEntries as bs = true := by
  cases b with
  | map bs => exact ⟨bs, rfl, by simpa [Value.same] using same⟩
  | _ => cases same

mutual
theorem same_symm : ∀ {a b : Value}, a.same b = true → b.same a = true
  | .null, b, same | .bool _, b, same | .int _, b, same | .str _, b, same | .builtin _, b, same
  | .module _, b, same | .handle _, b, same => by
    obtain rfl := eq_of_same rfl same
    exact same
  | .float x, b, same => by
    obtain ⟨y, rfl, equal⟩ := float_of_same same
    exact number_symm equal
  | .list as, b, same => by
    obtain ⟨bs, rfl, items⟩ := list_of_same same
    exact sameItems_symm items
  | .map as, b, same => by
    obtain ⟨bs, rfl, entries⟩ := map_of_same same
    exact sameEntries_symm entries

theorem sameItems_symm : ∀ {as bs : List Value}, sameItems as bs = true → sameItems bs as = true
  | [], [], same => same
  | a :: as, b :: bs, same => by
    simp only [sameItems, Bool.and_eq_true] at same ⊢
    exact ⟨same_symm same.1, sameItems_symm same.2⟩
  | [], _ :: _, same | _ :: _, [], same => by cases same

theorem sameEntries_symm : ∀ {as bs : List (String × Value)}, sameEntries as bs = true →
    sameEntries bs as = true
  | [], [], same => same
  | (k, a) :: as, (l, b) :: bs, same => by
    simp only [sameEntries, Bool.and_eq_true, beq_iff_eq] at same ⊢
    exact ⟨⟨same.1.1.symm, same_symm same.1.2⟩, sameEntries_symm same.2⟩
  | [], _ :: _, same | _ :: _, [], same => by cases same
end

theorem same_comm (a b : Value) : a.same b = b.same a :=
  Bool.eq_iff_iff.2 ⟨same_symm, same_symm⟩

mutual
theorem same_congr : ∀ {a b : Value}, a.same b = true → ∀ c, a.same c = b.same c
  | .null, b, same, c | .bool _, b, same, c | .int _, b, same, c | .str _, b, same, c
  | .builtin _, b, same, c | .module _, b, same, c | .handle _, b, same, c => by
    rw [eq_of_same rfl same]
  | .float x, b, same, c => by
    obtain ⟨y, rfl, equal⟩ := float_of_same same
    cases c with
    | float z => exact number_congr equal z
    | _ => rfl
  | .list as, b, same, c => by
    obtain ⟨bs, rfl, items⟩ := list_of_same same
    cases c with
    | list cs => exact sameItems_congr items cs
    | _ => rfl
  | .map as, b, same, c => by
    obtain ⟨bs, rfl, entries⟩ := map_of_same same
    cases c with
    | map cs => exact sameEntries_congr entries cs
    | _ => rfl

theorem sameItems_congr : ∀ {as bs : List Value}, sameItems as bs = true →
    ∀ cs, sameItems as cs = sameItems bs cs
  | [], [], _, _ => rfl
  | a :: as, b :: bs, same, cs => by
    simp only [sameItems, Bool.and_eq_true] at same
    cases cs with
    | nil => rfl
    | cons c cs => rw [sameItems, sameItems, same_congr same.1 c, sameItems_congr same.2 cs]
  | [], _ :: _, same, _ | _ :: _, [], same, _ => by cases same

theorem sameEntries_congr : ∀ {as bs : List (String × Value)}, sameEntries as bs = true →
    ∀ cs, sameEntries as cs = sameEntries bs cs
  | [], [], _, _ => rfl
  | (k, a) :: as, (l, b) :: bs, same, cs => by
    simp only [sameEntries, Bool.and_eq_true, beq_iff_eq] at same
    cases cs with
    | nil => rfl
    | cons c cs =>
      obtain ⟨m, c⟩ := c
      rw [sameEntries, sameEntries, same.1.1, same_congr same.1.2 c, sameEntries_congr same.2 cs]
  | [], _ :: _, same, _ | _ :: _, [], same, _ => by cases same
end

mutual
/-- Whether a double that is not a number is anywhere in a value. -/
def hasNaN : Value → Bool
  | .float x => x.isNaN
  | .list items => itemsHaveNaN items
  | .map entries => entriesHaveNaN entries
  | .null | .bool _ | .int _ | .str _ | .builtin _ | .module _ | .handle _ => false

def itemsHaveNaN : List Value → Bool
  | [] => false
  | v :: rest => v.hasNaN || itemsHaveNaN rest

def entriesHaveNaN : List (String × Value) → Bool
  | [] => false
  | (_, v) :: rest => v.hasNaN || entriesHaveNaN rest
end

mutual
theorem same_refl : ∀ {v : Value}, v.hasNaN = false → v.same v = true
  | .null, _ => rfl
  | .bool _, _ | .int _, _ | .str _, _ | .builtin _, _ | .module _, _ | .handle _, _ => by
    simp [Value.same]
  | .float x, numbers => number_refl numbers
  | .list items, numbers => sameItems_refl numbers
  | .map entries, numbers => sameEntries_refl numbers

theorem sameItems_refl : ∀ {items : List Value}, itemsHaveNaN items = false →
    sameItems items items = true
  | [], _ => rfl
  | v :: rest, numbers => by
    rw [itemsHaveNaN, Bool.or_eq_false_iff] at numbers
    rw [sameItems, same_refl numbers.1, sameItems_refl numbers.2]
    rfl

theorem sameEntries_refl : ∀ {entries : List (String × Value)}, entriesHaveNaN entries = false →
    sameEntries entries entries = true
  | [], _ => rfl
  | (k, v) :: rest, numbers => by
    rw [entriesHaveNaN, Bool.or_eq_false_iff] at numbers
    rw [sameEntries, same_refl numbers.1, sameEntries_refl numbers.2]
    simp
end

end Playbook.Value

namespace Playbook.Script

/-- Values that `==` calls equal though they are not the same. -/
def Loose (a b : Value) : Prop := valuesEqual a b = true ∧ a.same b = false

theorem valuesEqual_of_numbers {a b : Value} {x y : Float} (left : asNumber? a = some x)
    (right : asNumber? b = some y) : valuesEqual a b = (x == y) := by
  rw [valuesEqual, left, right]

theorem valuesEqual_of_other {a b : Value} (other : asNumber? a = none ∨ asNumber? b = none) :
    valuesEqual a b = a.same b := by
  unfold valuesEqual
  split
  · rename_i left right
    rcases other with none | none
    · exact nomatch left.symm.trans none
    · exact nomatch right.symm.trans none
  · rfl

theorem same_of_mixed {a b : Value} (mixed : (asNumber? a).isSome ≠ (asNumber? b).isSome) :
    a.same b = false := by
  rw [← Bool.not_eq_true]
  intro same
  apply mixed
  cases a with
  | float x =>
    obtain ⟨y, rfl, -⟩ := Value.float_of_same same
    rfl
  | list as =>
    obtain ⟨bs, rfl, -⟩ := Value.list_of_same same
    rfl
  | map as =>
    obtain ⟨bs, rfl, -⟩ := Value.map_of_same same
    rfl
  | _ => rw [Value.eq_of_same rfl same]

theorem isSome_of_valuesEqual {a b : Value} (equal : valuesEqual a b = true) :
    (asNumber? a).isSome = (asNumber? b).isSome := by
  by_contra mixed
  have other : asNumber? a = none ∨ asNumber? b = none := by
    cases left : asNumber? a with
    | none => exact .inl rfl
    | some x =>
      cases right : asNumber? b with
      | none => exact .inr rfl
      | some y =>
        rw [left, right] at mixed
        exact absurd rfl mixed
  rw [valuesEqual_of_other other, same_of_mixed mixed] at equal
  cases equal

theorem valuesEqual_congr {a b : Value} (equal : valuesEqual a b = true) (c : Value) :
    valuesEqual a c = valuesEqual b c := by
  have kinds := isSome_of_valuesEqual equal
  cases left : asNumber? a with
  | none =>
    have right : asNumber? b = none := by simpa [left] using kinds.symm
    rw [valuesEqual_of_other (.inl left)] at equal
    rw [valuesEqual_of_other (.inl left), valuesEqual_of_other (.inl right),
      Value.same_congr equal c]
  | some x =>
    obtain ⟨y, right⟩ : ∃ y, asNumber? b = some y := by
      rw [← Option.isSome_iff_exists, ← kinds, left]
      rfl
    rw [valuesEqual_of_numbers left right] at equal
    cases other : asNumber? c with
    | none =>
      rw [valuesEqual_of_other (.inr other), valuesEqual_of_other (.inr other),
        same_of_mixed (by simp [left, other]), same_of_mixed (by simp [right, other])]
    | some z =>
      rw [valuesEqual_of_numbers left other, valuesEqual_of_numbers right other,
        number_congr equal z]

theorem valuesEqual_of_same {a b : Value} (same : a.same b = true) : valuesEqual a b = true := by
  cases left : asNumber? a with
  | none => rw [valuesEqual_of_other (.inl left), same]
  | some x =>
    cases a with
    | int i =>
      obtain rfl := Value.eq_of_same rfl same
      rw [valuesEqual_of_numbers left left, ← Option.some.inj left]
      exact number_refl (Word.rounded_toFloat i).isNaN
    | float x =>
      obtain ⟨y, rfl, equal⟩ := Value.float_of_same same
      exact equal
    | _ => cases left

theorem valuesEqual_iff {a b : Value} :
    valuesEqual a b = true ↔ a.same b = true ∨ Loose a b := by
  constructor
  · intro equal
    cases same : a.same b with
    | true => exact .inl rfl
    | false => exact .inr ⟨equal, same⟩
  · rintro (same | loose)
    · exact valuesEqual_of_same same
    · exact loose.1

theorem same_iff {a b : Value} :
    a.same b = true ↔ valuesEqual a b = true ∧ ¬ Loose a b := by
  constructor
  · intro same
    refine ⟨valuesEqual_of_same same, fun loose => ?_⟩
    exact nomatch same.symm.trans loose.2
  · rintro ⟨equal, tight⟩
    exact (valuesEqual_iff.1 equal).resolve_right tight

theorem holds_eq_iff {a b : Value} : Holds .eq a b ↔ valuesEqual a b = true := by
  simp [Holds, BinaryOp.apply]

/-- Loosely equal are a whole number and a double of that value, and two whole numbers with one
    nearest double. -/
theorem loose_iff {a b : Value} : Loose a b ↔ RoundedAlike a b ∨
    (∃ i x, a = .int i ∧ b = .float x ∧ (Word.toFloat i == x) = true) ∨
    ∃ x j, a = .float x ∧ b = .int j ∧ (x == Word.toFloat j) = true := by
  constructor
  · rintro ⟨equal, apart⟩
    have kinds := isSome_of_valuesEqual equal
    cases a with
    | int i =>
      cases b with
      | int j =>
        have different : i ≠ j := by
          rintro rfl
          simp [Value.same] at apart
        exact .inl ⟨i, j, rfl, rfl, different, (toFloat_beq_iff i j).1 equal⟩
      | float y => exact .inr (.inl ⟨i, y, rfl, rfl, equal⟩)
      | _ => cases kinds
    | float x =>
      cases b with
      | int j => exact .inr (.inr ⟨x, j, rfl, rfl, equal⟩)
      | float y => exact nomatch apart.symm.trans equal
      | _ => cases kinds
    | _ => exact nomatch apart.symm.trans ((valuesEqual_of_other (.inl rfl)).symm.trans equal)
  · rintro (⟨i, j, rfl, rfl, different, alike⟩ | ⟨i, x, rfl, rfl, equal⟩ | ⟨x, j, rfl, rfl, equal⟩)
    · exact ⟨(toFloat_beq_iff i j).2 alike, by simpa [Value.same] using different⟩
    · exact ⟨equal, rfl⟩
    · exact ⟨equal, rfl⟩

end Playbook.Script
