import Playbook.Script.Operator
import Playbook.Proofs.Decimal.Nearest

/- How the comparison operators agree. Order looks at two whole numbers as they are, equality at the
   doubles nearest to them; so two different whole numbers that are rounded to the same double are
   equal and in order at once, and that is the only disagreement. -/
namespace Playbook.Script
open Float.Model

theorem compare_swap (x y : UnpackedFloat) : y.compare x = (x.compare y).map Ordering.swap := by
  rcases x with ⟨_ | _⟩ | _ | ⟨_ | _⟩ | ⟨_ | _, m, e, h⟩ <;>
    rcases y with ⟨_ | _⟩ | _ | ⟨_ | _⟩ | ⟨_ | _, m', e', h'⟩ <;> try rfl
  -- Two numbers of one sign go by their exponents and then by their significands.
  all_goals
    rw [UnpackedFloat.compare, UnpackedFloat.compare, Std.OrientedOrd.eq_swap (a := e') (b := e),
      Std.OrientedOrd.eq_swap (a := m') (b := m)]
    simp [Ordering.swap_then]

theorem compare_eq_none_iff (x y : UnpackedFloat) :
    x.compare y = none ↔ x.isNaN = true ∨ y.isNaN = true := by
  rcases x with ⟨_ | _⟩ | _ | ⟨_ | _⟩ | ⟨_ | _, m, e, h⟩ <;>
    rcases y with ⟨_ | _⟩ | _ | ⟨_ | _⟩ | ⟨_ | _, m', e', h'⟩ <;>
    simp [UnpackedFloat.compare, UnpackedFloat.isNaN]

theorem compare_isSome_iff (a b : Float) :
    (∃ o, a.toModel.compare b.toModel = some o) ↔ a.isNaN = false ∧ b.isNaN = false := by
  rw [← Option.isSome_iff_exists, ← Bool.not_eq_false, Option.isSome_eq_false_iff,
    Option.isNone_iff_eq_none]
  refine (not_congr (compare_eq_none_iff ..)).trans ?_
  rw [not_or, Bool.not_eq_true, Bool.not_eq_true]
  rfl

theorem lt_iff_compare (a b : Float) : a < b ↔ a.toModel.compare b.toModel = some .lt := by
  change decide (a.toModel.lt b.toModel = true) = true ↔ _
  simp [Float.Model.lt, Float.Model.compare, UnpackedFloat.lt]

theorem beq_iff_compare (a b : Float) :
    (a == b) = true ↔ a.toModel.compare b.toModel = some .eq := by
  change (a.toModel.unpack.compare b.toModel.unpack == some .eq) = true ↔ _
  simp [Float.Model.compare]

theorem gt_iff_compare (a b : Float) : b < a ↔ a.toModel.compare b.toModel = some .gt := by
  rw [lt_iff_compare, Float.Model.compare, Float.Model.compare, compare_swap]
  rcases a.toModel.unpack.compare b.toModel.unpack with _ | _ | _ | _ <;> simp

theorem floatOrdering?_eq (a b : Float) : floatOrdering? a b = a.toModel.compare b.toModel := by
  unfold floatOrdering?
  simp only [lt_iff_compare a b, beq_iff_compare a b, gt_iff_compare a b]
  rcases a.toModel.compare b.toModel with _ | _ | _ | _ <;> rfl

/-- Two different whole numbers with one nearest double. -/
def RoundedAlike (a b : Value) : Prop :=
  ∃ i j : Int64, a = .int i ∧ b = .int j ∧ i ≠ j ∧
    Word.nearestInt i.toInt = Word.nearestInt j.toInt

theorem toFloat_beq_iff (i j : Int64) :
    (Word.toFloat i == Word.toFloat j) = true ↔
      Word.nearestInt i.toInt = Word.nearestInt j.toInt :=
  (beq_iff_compare ..).trans
    (Word.compare_eq_of_rounded (Word.rounded_toFloat i) (Word.rounded_toFloat j))

/-- How two values come to be in order: as whole numbers, as texts, or as doubles. -/
inductive Ordered : Value → Value → Ordering → Prop
  | ints (i j : Int64) : Ordered (.int i) (.int j) (compare i.toInt j.toInt)
  | texts (s t : String) : Ordered (.str s) (.str t) (compare s t)
  | doubles {a b : Value} {x y : Float} {o : Ordering} (left : asNumber? a = some x)
    (right : asNumber? b = some y) (mixed : ¬ ∃ i j, a = .int i ∧ b = .int j)
    (compared : x.toModel.compare y.toModel = some o) : Ordered a b o

theorem valueOrdering?_eq_some_iff {a b : Value} {o : Ordering} :
    valueOrdering? a b = some o ↔ Ordered a b o := by
  constructor
  · intro ordered
    unfold valueOrdering? at ordered
    split at ordered
    · cases ordered
      exact .ints ..
    · cases ordered
      exact .texts ..
    · rename_i not_ints not_texts
      split at ordered
      · rename_i left right
        rw [floatOrdering?_eq] at ordered
        refine .doubles left right ?_ ordered
        rintro ⟨i, j, rfl, rfl⟩
        exact not_ints i j rfl rfl
      · cases ordered
  · intro ordered
    cases ordered with
    | ints => rfl
    | texts => rfl
    | doubles left right mixed compared =>
      unfold valueOrdering?
      split
      · exact absurd ⟨_, _, rfl, rfl⟩ mixed
      · cases left
      · simp only [left, right, floatOrdering?_eq, compared]

theorem Ordered.swap {a b : Value} {o : Ordering} (ordered : Ordered a b o) :
    Ordered b a o.swap := by
  cases ordered with
  | ints i j =>
    rw [← Std.OrientedOrd.eq_swap]
    exact .ints j i
  | texts s t =>
    rw [← Std.OrientedOrd.eq_swap]
    exact .texts t s
  | doubles left right mixed compared =>
    refine .doubles right left (fun ⟨i, j, hi, hj⟩ => mixed ⟨j, i, hj, hi⟩) ?_
    rw [Float.Model.compare] at compared ⊢
    rw [compare_swap, compared]
    rfl

theorem RoundedAlike.symm {a b : Value} : RoundedAlike a b → RoundedAlike b a :=
  fun ⟨i, j, hi, hj, different, alike⟩ => ⟨j, i, hj, hi, different.symm, alike.symm⟩

theorem roundedAlike_ints (i j : Int64) :
    RoundedAlike (.int i) (.int j) ↔
      i ≠ j ∧ Word.nearestInt i.toInt = Word.nearestInt j.toInt := by
  constructor
  · rintro ⟨_, _, hi, hj, alike⟩
    cases hi
    cases hj
    exact alike
  · exact fun alike => ⟨i, j, rfl, rfl, alike⟩

/-- Equality goes with the order, unless two whole numbers are rounded to one double. -/
theorem Ordered.valuesEqual_iff {a b : Value} {o : Ordering} (ordered : Ordered a b o) :
    valuesEqual a b = true ↔ o = .eq ∨ RoundedAlike a b := by
  cases ordered with
  | ints i j =>
    rw [roundedAlike_ints, Int.compare_eq_eq, Int64.toInt_inj]
    refine (toFloat_beq_iff i j).trans ?_
    by_cases same : i = j <;> simp [same]
  | texts s t =>
    have texts : ¬ RoundedAlike (.str s) (.str t) := fun ⟨_, _, hs, _⟩ => nomatch hs
    simp [valuesEqual, asNumber?, Value.same, texts]
  | doubles left right mixed compared =>
    have mixed : ¬ RoundedAlike a b := fun ⟨i, j, hi, hj, _⟩ => mixed ⟨i, j, hi, hj⟩
    simp [valuesEqual, left, right, beq_iff_compare, compared, mixed]

theorem ordering_eq {op : BinaryOp} {a b : Value} {o : Ordering} (ordered : Ordered a b o) :
    ordering op a b = .ok o := by
  rw [ordering, valueOrdering?_eq_some_iff.2 ordered]

def Holds (op : BinaryOp) (a b : Value) : Prop := op.apply a b = .ok (.bool true)

theorem Ordered.orders {a b : Value} {o : Ordering} (ordered : Ordered a b o) :
    (Holds .lt a b ↔ o = .lt) ∧ (Holds .le a b ↔ o ≠ .gt) ∧
      (Holds .gt a b ↔ o = .gt) ∧ (Holds .ge a b ↔ o ≠ .lt) := by
  simp only [Holds, BinaryOp.apply, ordering_eq ordered]
  cases o <;> simp [Except.map]

theorem Ordered.equals {a b : Value} {o : Ordering} (ordered : Ordered a b o) :
    (Holds .eq a b ↔ o = .eq ∨ RoundedAlike a b) ∧
      (Holds .ne a b ↔ ¬ (o = .eq ∨ RoundedAlike a b)) ∧
      (Holds .in_ a (.list [b]) ↔ o = .eq ∨ RoundedAlike a b) := by
  have turned : o.swap = .eq ∨ RoundedAlike b a ↔ o = .eq ∨ RoundedAlike a b :=
    or_congr (by cases o <;> simp) ⟨.symm, .symm⟩
  rw [← ordered.valuesEqual_iff, ← ordered.swap.valuesEqual_iff] at turned
  rw [← ordered.valuesEqual_iff]
  simp [Holds, BinaryOp.apply, contains, Except.map, turned]

/-- `<` is defined on two values. -/
def Comparable (a b : Value) : Prop := ∃ r, BinaryOp.lt.apply a b = .ok r

theorem comparable_iff {a b : Value} : Comparable a b ↔ ∃ o, Ordered a b o := by
  constructor
  · rintro ⟨r, went⟩
    cases known : valueOrdering? a b with
    | none => simp [BinaryOp.apply, ordering, known, Except.map] at went
    | some o => exact ⟨o, valueOrdering?_eq_some_iff.1 known⟩
  · rintro ⟨o, ordered⟩
    exact ⟨_, by rw [BinaryOp.apply, ordering_eq ordered]; rfl⟩

def Number (v : Value) : Prop := ∃ x, asNumber? v = some x ∧ x.isNaN = false

theorem number_int (i : Int64) : Number (.int i) := ⟨_, rfl, (Word.rounded_toFloat i).isNaN⟩

theorem comparable_iff_texts_or_numbers {a b : Value} :
    Comparable a b ↔ (∃ s t, a = .str s ∧ b = .str t) ∨ Number a ∧ Number b := by
  rw [comparable_iff]
  constructor
  · rintro ⟨o, ordered⟩
    cases ordered with
    | ints i j => exact .inr ⟨number_int i, number_int j⟩
    | texts s t => exact .inl ⟨s, t, rfl, rfl⟩
    | @doubles _ _ x y _ left right mixed compared =>
      obtain ⟨hx, hy⟩ := (compare_isSome_iff x y).1 ⟨o, compared⟩
      exact .inr ⟨⟨x, left, hx⟩, y, right, hy⟩
  · rintro (⟨s, t, rfl, rfl⟩ | ⟨⟨x, left, hx⟩, y, right, hy⟩)
    · exact ⟨_, .texts s t⟩
    · by_cases ints : ∃ i j, a = .int i ∧ b = .int j
      · obtain ⟨i, j, rfl, rfl⟩ := ints
        exact ⟨_, .ints i j⟩
      · obtain ⟨o, compared⟩ := (compare_isSome_iff x y).2 ⟨hx, hy⟩
        exact ⟨o, .doubles left right ints compared⟩

def comparisons : List BinaryOp := [.lt, .le, .gt, .ge, .eq, .ne]

theorem Ordered.decided {a b : Value} {o : Ordering} (ordered : Ordered a b o) :
    ∀ op ∈ comparisons, ∃ t, op.apply a b = .ok (.bool t) := by
  simp only [comparisons, BinaryOp.apply, ordering_eq ordered, Except.map]
  cases o <;> simp

def ExactlyOne (p q r : Prop) : Prop := p ∧ ¬ q ∧ ¬ r ∨ ¬ p ∧ q ∧ ¬ r ∨ ¬ p ∧ ¬ q ∧ r

/-- Equality and order agree. -/
structure Coherent (a b : Value) : Prop where
  one : ExactlyOne (Holds .lt a b) (Holds .eq a b) (Holds .gt a b)
  le : Holds .le a b ↔ Holds .lt a b ∨ Holds .eq a b
  ge : Holds .ge a b ↔ Holds .gt a b ∨ Holds .eq a b
  ne : Holds .ne a b ↔ ¬ Holds .eq a b
  in_ : Holds .in_ a (.list [b]) ↔ Holds .eq a b

/-- Two values are equal and in order at once. -/
structure Torn (a b : Value) : Prop where
  eq : Holds .eq a b
  one : Holds .lt a b ↔ ¬ Holds .gt a b
  le : Holds .le a b ↔ Holds .lt a b
  ge : Holds .ge a b ↔ Holds .gt a b
  ne : ¬ Holds .ne a b
  in_ : Holds .in_ a (.list [b])

theorem Ordered.coherent {a b : Value} {o : Ordering} (ordered : Ordered a b o)
    (apart : ¬ RoundedAlike a b) : Coherent a b := by
  obtain ⟨lt, le, gt, ge⟩ := ordered.orders
  obtain ⟨eq, ne, in_⟩ := ordered.equals
  constructor <;> simp only [ExactlyOne, lt, le, gt, ge, eq, ne, in_, apart] <;> cases o <;> simp

theorem RoundedAlike.torn {a b : Value} (alike : RoundedAlike a b) : Torn a b := by
  obtain ⟨i, j, rfl, rfl, different, -⟩ := id alike
  have ordered := Ordered.ints i j
  obtain ⟨lt, le, gt, ge⟩ := ordered.orders
  obtain ⟨eq, ne, in_⟩ := ordered.equals
  have apart : compare i.toInt j.toInt ≠ .eq := by
    rw [Ne, Int.compare_eq_eq, Int64.toInt_inj]
    exact different
  constructor <;> simp only [lt, le, gt, ge, eq, ne, in_, alike] <;>
    revert apart <;> cases compare i.toInt j.toInt <;> simp

theorem Torn.not_coherent {a b : Value} (torn : Torn a b) : ¬ Coherent a b := by
  intro coherent
  have one := coherent.one
  simp only [ExactlyOne, torn.eq, not_true_eq_false, false_and, and_false, true_and, or_false,
    false_or] at one
  exact one.1 (torn.one.2 one.2)

/-- Where `<` is defined all comparisons are, and they agree but for two different whole numbers with
    one nearest double: these are equal and in order at once. -/
theorem comparisons_cohere_unless_rounded_alike (a b : Value) :
    (Comparable a b ↔ (∃ s t, a = .str s ∧ b = .str t) ∨ Number a ∧ Number b) ∧
      (Comparable a b → ∀ op ∈ comparisons, ∃ t, op.apply a b = .ok (.bool t)) ∧
      (Comparable a b → (Coherent a b ↔ ¬ RoundedAlike a b)) ∧
      (RoundedAlike a b → Comparable a b ∧ Torn a b) ∧
      ∀ i j : Int64,
        (Holds .eq (.int i) (.int j) ↔ Word.nearestInt i.toInt = Word.nearestInt j.toInt) ∧
          (i.toInt.natAbs ≤ 2 ^ 53 → j.toInt.natAbs ≤ 2 ^ 53 →
            (Holds .eq (.int i) (.int j) ↔ i = j)) := by
  refine ⟨comparable_iff_texts_or_numbers, fun comparable => ?_, fun comparable => ?_,
    fun alike => ⟨?_, alike.torn⟩, fun i j => ?_⟩
  · obtain ⟨o, ordered⟩ := comparable_iff.1 comparable
    exact ordered.decided
  · obtain ⟨o, ordered⟩ := comparable_iff.1 comparable
    exact ⟨fun coherent alike => alike.torn.not_coherent coherent, ordered.coherent⟩
  · obtain ⟨i, j, rfl, rfl, -⟩ := alike
    exact comparable_iff.2 ⟨_, .ints i j⟩
  · have alike : Holds .eq (.int i) (.int j) ↔
        Word.nearestInt i.toInt = Word.nearestInt j.toInt := by
      rw [← toFloat_beq_iff]
      simp [Holds, BinaryOp.apply, valuesEqual, asNumber?]
    refine ⟨alike, fun hi hj => ?_⟩
    rw [alike, Word.nearestInt_of_le hi, Word.nearestInt_of_le hj, Int64.toInt_inj]

/-- The first whole number that is no double is equal to the one before it, and greater. -/
theorem comparisons_cohere_unless_rounded_alike_past_53_bits :
    Coherent (.int 9007199254740993) (.float 1.5) ∧
      RoundedAlike (.int 9007199254740993) (.int 9007199254740992) ∧
      Torn (.int 9007199254740993) (.int 9007199254740992) ∧
      ¬ Coherent (.int 9007199254740993) (.int 9007199254740992) ∧
      (Holds .eq (.int 9007199254740992) (.int (-3)) ↔ (9007199254740992 : Int64) = -3) := by
  have alike : RoundedAlike (.int 9007199254740993) (.int 9007199254740992) :=
    ⟨_, _, rfl, rfl, by decide, by decide +kernel⟩
  have apart : ¬ RoundedAlike (.int 9007199254740993) (.float 1.5) :=
    fun ⟨_, _, _, other, _⟩ => nomatch other
  have numbers : Number (.int 9007199254740993) ∧ Number (.float 1.5) :=
    ⟨number_int _, _, rfl, by decide +kernel⟩
  have law := fun b => comparisons_cohere_unless_rounded_alike (.int 9007199254740993) b
  obtain ⟨comparable, torn⟩ := (law _).2.2.2.1 alike
  exact ⟨((law _).2.2.1 ((law _).1.2 (.inr numbers))).2 apart, alike, torn,
    fun coherent => ((law _).2.2.1 comparable).1 coherent alike,
    ((law .null).2.2.2.2 9007199254740992 (-3)).2 (by decide) (by decide)⟩

end Playbook.Script
