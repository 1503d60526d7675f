import Mathlib.Data.List.Forall2
import Playbook.Proofs.Dict
import Playbook.Proofs.Value.Equality

/- Equality of lists and maps. They are compared element by element, but by sameness and not by the
   equality of numbers; so a whole number in one and the double of that value at the same place in the
   other make them different. Without such a pair equality goes by the elements at every depth, and
   what is equal can be replaced inside a list or a map. -/
namespace Playbook

theorem forall₂_iff_getElem? {α β : Type} {R : α → β → Prop} {as : List α} {bs : List β} :
    List.Forall₂ R as bs ↔ as.length = bs.length ∧
      ∀ (i : Nat) a b, as[i]? = some a → bs[i]? = some b → R a b := by
  rw [List.forall₂_iff_get]
  refine and_congr_right fun _ => ⟨fun each i a b left right => ?_, fun each i inLeft inRight => ?_⟩
  · obtain ⟨inLeft, rfl⟩ := List.getElem?_eq_some_iff.1 left
    obtain ⟨inRight, rfl⟩ := List.getElem?_eq_some_iff.1 right
    exact each i inLeft inRight
  · exact each i _ _ (List.getElem?_eq_getElem inLeft) (List.getElem?_eq_getElem inRight)

theorem Dict.contains_of_keys {α β : Type} {d : Dict α} {e : Dict β} (keys : d.keys = e.keys) :
    d.contains = e.contains := by
  funext key
  rw [contains, contains, Bool.eq_iff_iff, Option.isSome_iff_exists, Option.isSome_iff_exists,
    ← mem_keys_iff, ← mem_keys_iff, keys]

theorem Dict.forall₂_values {α β : Type} {R : α → β → Prop} {d : Dict α} {e : Dict β}
    (sorted : Sorted d) (keys : d.keys = e.keys) :
    List.Forall₂ R (d.map Prod.snd) (e.map Prod.snd) ↔
      ∀ key a b, d.get? key = some a → e.get? key = some b → R a b := by
  induction d generalizing e with
  | nil =>
    cases e with
    | nil => simp [get?]
    | cons q e => cases keys
  | cons p d ih =>
    obtain ⟨k, a⟩ := p
    cases e with
    | nil => cases keys
    | cons q e =>
      obtain ⟨l, b⟩ := q
      obtain ⟨rfl, rest⟩ := List.cons.inj keys
      have sorted' := (sorted_cons.1 sorted).2
      rw [List.map_cons, List.map_cons, List.forall₂_cons, ih sorted' rest]
      constructor
      · rintro ⟨first, later⟩ key x y left right
        by_cases here : k = key
        · rw [get?, if_pos here] at left right
          cases left
          cases right
          exact first
        · rw [get?, if_neg here] at left right
          exact later key x y left right
      · intro each
        refine ⟨each k a b (by rw [get?, if_pos rfl]) (by rw [get?, if_pos rfl]), ?_⟩
        intro key x y left right
        have above : k ≠ key := by
          rintro rfl
          cases (get?_of_sorted_cons sorted).symm.trans left
        exact each key x y (by rw [get?, if_neg above, left]) (by rw [get?, if_neg above, right])

namespace Value
open Script

def isContainer : Value → Bool
  | .list _ | .map _ => true
  | .null | .bool _ | .int _ | .float _ | .str _ | .builtin _ | .module _ | .handle _ => false

/-- The elements of a list, or those of a map in the order of their keys. -/
def children : Value → List Value
  | .list items => items
  | .map entries => entries.map Prod.snd
  | .null | .bool _ | .int _ | .float _ | .str _ | .builtin _ | .module _ | .handle _ => []

/-- Two lists, or two maps with the same keys. -/
inductive Outline : Value → Value → Prop where
  | lists (as bs : List Value) : Outline (.list as) (.list bs)
  | maps {as bs : List (String × Value)} (keys : Dict.keys as = Dict.keys bs) :
    Outline (.map as) (.map bs)

theorem Outline.containers {a b : Value} (outline : Outline a b) :
    a.isContainer = true ∧ b.isContainer = true := by
  cases outline <;> exact ⟨rfl, rfl⟩

theorem asNumber?_of_container {a : Value} (container : a.isContainer = true) :
    asNumber? a = none := by
  cases a <;> first | rfl | cases container

theorem children_of_scalar {a : Value} (scalar : a.isContainer = false) : a.children = [] := by
  cases a <;> first | rfl | cases scalar

theorem sizeOf_of_mem_children {a x : Value} (mem : x ∈ a.children) : sizeOf x < sizeOf a := by
  cases a with
  | list items =>
    have smaller := List.sizeOf_lt_of_mem (show x ∈ items from mem)
    simp only [Value.list.sizeOf_spec]
    omega
  | map entries =>
    obtain ⟨⟨key, y⟩, among, rfl⟩ := List.mem_map.1 (show x ∈ entries.map Prod.snd from mem)
    have smaller := List.sizeOf_lt_of_mem among
    simp only [Prod.mk.sizeOf_spec, Value.map.sizeOf_spec] at smaller ⊢
    omega
  | _ => cases mem

def Same (a b : Value) : Prop := a.same b = true

theorem sameItems_iff {as bs : List Value} :
    sameItems as bs = true ↔ List.Forall₂ Same as bs := by
  induction as generalizing bs with
  | nil => cases bs <;> simp [sameItems]
  | cons a as ih => cases bs <;> simp [sameItems, ih, Same]

theorem sameEntries_iff {as bs : List (String × Value)} :
    sameEntries as bs = true ↔ Dict.keys as = Dict.keys bs ∧
      List.Forall₂ Same (as.map Prod.snd) (bs.map Prod.snd) := by
  induction as generalizing bs with
  | nil => cases bs <;> simp [sameEntries, Dict.keys]
  | cons p as ih =>
    cases bs with
    | nil => simp [sameEntries, Dict.keys]
    | cons q bs =>
      simp only [sameEntries, Bool.and_eq_true, beq_iff_eq, ih, Same, Dict.keys, List.map_cons,
        List.cons.injEq, List.forall₂_cons]
      exact and_and_and_comm

def Levelwise (R inner : Value → Value → Prop) : Prop :=
  ∀ {a b : Value}, a.isContainer = true → b.isContainer = true →
    (R a b ↔ Outline a b ∧ List.Forall₂ inner a.children b.children)

theorem levelwise_same : Levelwise Same Same := by
  intro a b left right
  cases a with
  | list as =>
    cases b with
    | list bs =>
      refine sameItems_iff.trans ⟨fun items => ⟨.lists as bs, items⟩, And.right⟩
    | map bs => exact ⟨nofun, fun same => nomatch same.1⟩
    | _ => cases right
  | map as =>
    cases b with
    | list bs => exact ⟨nofun, fun same => nomatch same.1⟩
    | map bs =>
      refine sameEntries_iff.trans ⟨fun entries => ⟨.maps entries.1, entries.2⟩, fun same => ?_⟩
      obtain ⟨⟨⟩ | ⟨keys⟩, entries⟩ := same
      exact ⟨keys, entries⟩
    | _ => cases right
  | _ => cases left

end Value

namespace Script
open Value

/-- Lists are related when their elements are at every position, and maps when they have the same
    keys and their elements are related at every key. -/
structure Elementwise (R inner : Value → Value → Prop) : Prop where
  lists : ∀ as bs : List Value, R (.list as) (.list bs) ↔ as.length = bs.length ∧
    ∀ (i : Nat) a b, as[i]? = some a → bs[i]? = some b → inner a b
  maps : ∀ as bs : Dict Value, Dict.Sorted as →
    (R (.map as) (.map bs) ↔ Dict.keys as = Dict.keys bs ∧
      ∀ key a b, Dict.get? as key = some a → Dict.get? bs key = some b → inner a b)
  apart : ∀ as bs, ¬ R (.list as) (.map bs) ∧ ¬ R (.map bs) (.list as)

theorem elementwise_of_levelwise {R inner : Value → Value → Prop}
    (levelwise : Levelwise R inner) : Elementwise R inner where
  lists as bs := by
    rw [← forall₂_iff_getElem?, levelwise (a := .list as) (b := .list bs) rfl rfl]
    exact and_iff_right (.lists as bs)
  maps as bs sorted := by
    refine (levelwise (a := .map as) (b := .map bs) rfl rfl).trans ?_
    constructor
    · rintro ⟨⟨⟩ | ⟨keys⟩, entries⟩
      exact ⟨keys, (Dict.forall₂_values sorted keys).1 entries⟩
    · rintro ⟨keys, entries⟩
      exact ⟨.maps keys, (Dict.forall₂_values sorted keys).2 entries⟩
  apart as bs := by
    rw [levelwise (a := .list as) (b := .map bs) rfl rfl,
      levelwise (a := .map bs) (b := .list as) rfl rfl]
    constructor
    · rintro ⟨⟨⟩, -⟩
    · rintro ⟨⟨⟩, -⟩

/-- Equality taken element by element down to the scalars, which are compared by `==`. -/
inductive Agrees : Value → Value → Prop where
  | scalars {a b : Value} (scalar : a.isContainer = false ∨ b.isContainer = false)
    (equal : valuesEqual a b = true) : Agrees a b
  | containers {a b : Value} (outline : Outline a b)
    (inside : List.Forall₂ Agrees a.children b.children) : Agrees a b

theorem levelwise_agrees : Levelwise Agrees Agrees := by
  intro a b left right
  constructor
  · intro agrees
    cases agrees with
    | scalars scalar =>
      rw [left, right] at scalar
      exact scalar.elim nofun nofun
    | containers outline inside => exact ⟨outline, inside⟩
  · exact fun ⟨outline, inside⟩ => .containers outline inside

theorem agrees_of_scalar {a b : Value} (scalar : a.isContainer = false ∨ b.isContainer = false) :
    Agrees a b ↔ valuesEqual a b = true := by
  constructor
  · intro agrees
    cases agrees with
    | scalars _ equal => exact equal
    | containers outline =>
      rw [outline.containers.1, outline.containers.2] at scalar
      exact scalar.elim nofun nofun
  · exact .scalars scalar

/-- Two values stand at the same place inside two others, at any depth. -/
inductive Inside : Value → Value → Value → Value → Prop where
  | here {a b x y : Value} {i : Nat} (left : a.children[i]? = some x)
    (right : b.children[i]? = some y) : Inside a b x y
  | deeper {a b c d x y : Value} {i : Nat} (left : a.children[i]? = some c)
    (right : b.children[i]? = some d) (more : Inside c d x y) : Inside a b x y

theorem inside_iff {a b x y : Value} : Inside a b x y ↔
    ∃ (i : Nat) (c d : Value), a.children[i]? = some c ∧ b.children[i]? = some d ∧
      ((x = c ∧ y = d) ∨ Inside c d x y) := by
  constructor
  · intro inside
    cases inside with
    | here left right => exact ⟨_, _, _, left, right, .inl ⟨rfl, rfl⟩⟩
    | deeper left right more => exact ⟨_, _, _, left, right, .inr more⟩
  · rintro ⟨i, c, d, left, right, ⟨rfl, rfl⟩ | more⟩
    · exact .here left right
    · exact .deeper left right more

/-- No two numbers at the same place are equal without being the same. -/
def Tight (a b : Value) : Prop := ∀ x y, Inside a b x y → ¬ Loose x y

theorem tight_iff {a b : Value} : Tight a b ↔ ∀ (i : Nat) x y, a.children[i]? = some x →
    b.children[i]? = some y → ¬ Loose x y ∧ Tight x y := by
  constructor
  · intro tight i x y left right
    exact ⟨tight x y (.here left right), fun u v more => tight u v (.deeper left right more)⟩
  · intro each x y inside
    obtain ⟨i, c, d, left, right, ⟨rfl, rfl⟩ | more⟩ := inside_iff.1 inside
    · exact (each i x y left right).1
    · exact (each i c d left right).2 x y more

theorem tight_of_scalar {a b : Value} (scalar : a.isContainer = false ∨ b.isContainer = false) :
    Tight a b := by
  rw [tight_iff]
  intro i x y left right
  rcases scalar with scalar | scalar
  · rw [children_of_scalar scalar] at left
    cases left
  · rw [children_of_scalar scalar] at right
    cases right

theorem valuesEqual_iff_agrees {a b : Value} :
    valuesEqual a b = true ↔ Agrees a b ∧ Tight a b := by
  induction size : sizeOf a using Nat.strongRecOn generalizing a b with
  | _ n ih =>
    by_cases both : a.isContainer = true ∧ b.isContainer = true
    case neg =>
      have scalar : a.isContainer = false ∨ b.isContainer = false := by
        rw [← Bool.not_eq_true, ← Bool.not_eq_true]
        exact Decidable.not_and_iff_not_or_not.1 both
      rw [agrees_of_scalar scalar]
      exact (and_iff_left (tight_of_scalar scalar)).symm
    case pos =>
      obtain ⟨left, right⟩ := both
      -- Each pair of elements is the same when it agrees and nothing in it or about it is loose.
      have each (i : Nat) (x y : Value) (here : a.children[i]? = some x) :
          Same x y ↔ Agrees x y ∧ ¬ Loose x y ∧ Tight x y := by
        have smaller := sizeOf_of_mem_children (List.mem_of_getElem? here)
        rw [Same, same_iff, ih (sizeOf x) (by omega) rfl]
        exact ⟨fun ⟨⟨agrees, tight⟩, apart⟩ => ⟨agrees, apart, tight⟩,
          fun ⟨agrees, apart, tight⟩ => ⟨⟨agrees, tight⟩, apart⟩⟩
      have same : a.same b = true ↔ Outline a b ∧ List.Forall₂ Same a.children b.children :=
        levelwise_same left right
      rw [valuesEqual_of_other (.inl (asNumber?_of_container left)), same,
        levelwise_agrees left right, tight_iff, forall₂_iff_getElem?, forall₂_iff_getElem?]
      constructor
      · rintro ⟨outline, long, same⟩
        refine ⟨⟨outline, long, fun i x y here there => ?_⟩, fun i x y here there => ?_⟩
        · exact ((each i x y here).1 (same i x y here there)).1
        · exact ((each i x y here).1 (same i x y here there)).2
      · rintro ⟨⟨outline, long, agrees⟩, tight⟩
        refine ⟨outline, long, fun i x y here there => ?_⟩
        exact (each i x y here).2 ⟨agrees i x y here there, tight i x y here there⟩

/-- An element of a list, or of a map under some key, in the place of another. -/
inductive Swapped (c c' : Value) : Value → Value → Prop where
  | item (before after : List Value) :
    Swapped c c' (.list (before ++ c :: after)) (.list (before ++ c' :: after))
  | entry (before after : List (String × Value)) (key : String) :
    Swapped c c' (.map (before ++ (key, c) :: after)) (.map (before ++ (key, c') :: after))

/-- One element has been replaced, at some depth. -/
inductive Replaced (e e' : Value) : Value → Value → Prop where
  | here {l l' : Value} (swapped : Swapped e e' l l') : Replaced e e' l l'
  | deeper {c c' l l' : Value} (inside : Replaced e e' c c') (swapped : Swapped c c' l l') :
    Replaced e e' l l'

def Alike (a b : Value) : Prop := ∀ v, a.same v = b.same v

/-- Neither equality nor membership tells the two apart. -/
def Interchangeable (a b : Value) : Prop :=
  ∀ op ∈ [BinaryOp.eq, .ne, .in_, .notIn], ∀ v,
    op.apply a v = op.apply b v ∧ op.apply v a = op.apply v b

variable {c c' e e' l l' : Value}

theorem sameItems_swapped (alike : Alike c c') (before after vs : List Value) :
    sameItems (before ++ c :: after) vs = sameItems (before ++ c' :: after) vs := by
  induction before generalizing vs with
  | nil =>
    cases vs with
    | nil => rfl
    | cons v vs => rw [List.nil_append, List.nil_append, sameItems, sameItems, alike v]
  | cons a before ih =>
    cases vs with
    | nil => rfl
    | cons v vs => rw [List.cons_append, List.cons_append, sameItems, sameItems, ih]

theorem sameEntries_swapped (alike : Alike c c') (before after vs : List (String × Value))
    (key : String) :
    sameEntries (before ++ (key, c) :: after) vs =
      sameEntries (before ++ (key, c') :: after) vs := by
  induction before generalizing vs with
  | nil =>
    cases vs with
    | nil => rfl
    | cons v vs => rw [List.nil_append, List.nil_append, sameEntries, sameEntries, alike v.2]
  | cons a before ih =>
    cases vs with
    | nil => rfl
    | cons v vs => rw [List.cons_append, List.cons_append, sameEntries, sameEntries, ih]

theorem Swapped.alike (swapped : Swapped c c' l l') (alike : Alike c c') : Alike l l' := by
  intro v
  cases swapped with
  | item before after =>
    cases v with
    | list vs => exact sameItems_swapped alike before after vs
    | _ => rfl
  | entry before after key =>
    cases v with
    | map vs => exact sameEntries_swapped alike before after vs key
    | _ => rfl

theorem Swapped.same (swapped : Swapped c c' l l') (same : Same l l') : Same c c' := by
  cases swapped with
  | item before after =>
    have items := forall₂_iff_getElem?.1 (sameItems_iff.1 same)
    exact items.2 before.length c c' (by simp) (by simp)
  | entry before after key =>
    have entries := forall₂_iff_getElem?.1 (sameEntries_iff.1 same).2
    exact entries.2 before.length c c' (by simp) (by simp)

theorem Swapped.containers (swapped : Swapped c c' l l') :
    asNumber? l = none ∧ asNumber? l' = none := by
  cases swapped <;> exact ⟨rfl, rfl⟩

theorem Replaced.containers (replaced : Replaced e e' l l') :
    asNumber? l = none ∧ asNumber? l' = none := by
  cases replaced with
  | here swapped | deeper _ swapped => exact swapped.containers

theorem Replaced.alike (replaced : Replaced e e' l l') (same : Same e e') : Alike l l' := by
  induction replaced with
  | here swapped => exact swapped.alike (same_congr same)
  | deeper _ swapped ih => exact swapped.alike ih

theorem Replaced.same (replaced : Replaced e e' l l') (same : Same l l') : Same e e' := by
  induction replaced with
  | here swapped => exact swapped.same same
  | deeper _ swapped ih => exact ih (swapped.same same)

theorem Replaced.equal (replaced : Replaced e e' l l') (same : Same e e') (v : Value) :
    valuesEqual l v = valuesEqual l' v ∧ valuesEqual v l = valuesEqual v l' := by
  obtain ⟨left, right⟩ := replaced.containers
  have alike := replaced.alike same v
  rw [valuesEqual_of_other (.inl left), valuesEqual_of_other (.inl right),
    valuesEqual_of_other (.inr left), valuesEqual_of_other (.inr right), same_comm v, same_comm v]
  exact ⟨alike, alike⟩

theorem contains_swapped (swapped : Swapped c c' l l')
    (equal : ∀ v, valuesEqual c v = valuesEqual c' v) (v : Value) :
    contains l v = contains l' v := by
  cases swapped with
  | item before after => simp only [contains, List.any_append, List.any_cons, equal v]
  | entry before after key =>
    rw [contains, contains, Dict.contains_of_keys]
    simp [Dict.keys]

theorem Replaced.contains_left (replaced : Replaced e e' l l') (same : Same e e') (v : Value) :
    contains l v = contains l' v := by
  cases replaced with
  | here swapped =>
    exact contains_swapped swapped (valuesEqual_congr (valuesEqual_of_same same)) v
  | deeper inside swapped =>
    exact contains_swapped swapped (fun v => (inside.equal same v).1) v

theorem Swapped.contains_right (swapped : Swapped c c' l l') {v : Value}
    (equal : ∀ w, valuesEqual w l = valuesEqual w l') : contains v l = contains v l' := by
  cases v with
  | list items => simp only [contains, equal]
  | _ => cases swapped <;> rfl

theorem Replaced.interchangeable (replaced : Replaced e e' l l') (same : Same e e') :
    Interchangeable l l' := by
  intro op mem v
  have equal := replaced.equal same
  have left := replaced.contains_left same v
  have right : contains v l = contains v l' := by
    cases replaced with
    | here swapped | deeper _ swapped => exact swapped.contains_right fun w => (equal w).2
  simp only [List.mem_cons, List.not_mem_nil, or_false] at mem
  rcases mem with rfl | rfl | rfl | rfl <;>
    simp only [BinaryOp.apply, (equal v).1, (equal v).2, left, right, and_self]

theorem levelwise_equal : Levelwise (Holds .eq) fun a b => Holds .eq a b ∧ ¬ Loose a b := by
  intro a b left right
  have inner (as bs : List Value) : List.Forall₂ Same as bs ↔
      List.Forall₂ (fun a b => Holds .eq a b ∧ ¬ Loose a b) as bs := by
    simp only [forall₂_iff_getElem?, Same, same_iff, holds_eq_iff]
  rw [holds_eq_iff, valuesEqual_of_other (.inl (asNumber?_of_container left)), ← inner]
  exact levelwise_same left right

theorem Replaced.not_equal (replaced : Replaced e e' l l') (loose : Loose e e') :
    ¬ Holds .eq l l' := by
  rw [holds_eq_iff, valuesEqual_of_other (.inl replaced.containers.1)]
  intro same
  exact (same_iff.1 (replaced.same same)).2 loose

theorem holds_eq_refl {v : Value} (numbers : v.hasNaN = false) : Holds .eq v v :=
  holds_eq_iff.2 (valuesEqual_of_same (same_refl numbers))

theorem Replaced.not_interchangeable (replaced : Replaced e e' l l') (loose : Loose e e')
    (numbers : l.hasNaN = false) : ¬ Interchangeable l l' := by
  intro interchangeable
  have alike := (interchangeable .eq (by simp) l).2
  exact replaced.not_equal loose (alike.symm.trans (holds_eq_refl numbers))

/-- Lists and maps are equal element by element, at every depth, but where a whole number meets the
    double it is equal to, or another whole number with the same nearest double. By such a number an
    element cannot be replaced without a difference, though membership in a list does not see it; by
    any other that is equal to it, it can. -/
theorem containers_equal_elementwise_unless_loose (a b : Value) :
    Elementwise (Holds .eq) (fun a b => Holds .eq a b ∧ ¬ Loose a b) ∧
      Elementwise Agrees Agrees ∧
      (a.isContainer = false ∨ b.isContainer = false → (Agrees a b ↔ Holds .eq a b)) ∧
      (Holds .eq a b ↔ Agrees a b ∧ ∀ x y, Inside a b x y → ¬ Loose x y) ∧
      (Loose a b ↔ RoundedAlike a b ∨
        (∃ i x, a = .int i ∧ b = .float x ∧ (Word.toFloat i == x) = true) ∨
        ∃ x j, a = .float x ∧ b = .int j ∧ (x == Word.toFloat j) = true) ∧
      (Holds .eq a b → ∀ l l', Replaced a b l l' →
        (¬ Loose a b → Interchangeable l l') ∧
          (Loose a b → ¬ Holds .eq l l' ∧ (l.hasNaN = false → ¬ Interchangeable l l'))) ∧
      (Holds .eq a b → ∀ before after v,
        BinaryOp.in_.apply v (.list (before ++ a :: after)) =
          BinaryOp.in_.apply v (.list (before ++ b :: after))) := by
  refine ⟨elementwise_of_levelwise levelwise_equal, elementwise_of_levelwise levelwise_agrees,
    fun scalar => ?_, ?_, loose_iff,
    fun equal l l' replaced => ⟨fun tight => ?_, fun loose => ?_⟩,
    fun equal before after v => ?_⟩
  · rw [agrees_of_scalar scalar, holds_eq_iff]
  · rw [holds_eq_iff]
    exact valuesEqual_iff_agrees
  · exact replaced.interchangeable (same_iff.2 ⟨holds_eq_iff.1 equal, tight⟩)
  · exact ⟨replaced.not_equal loose, replaced.not_interchangeable loose⟩
  · have alike := contains_swapped (.item before after) (valuesEqual_congr (holds_eq_iff.1 equal)) v
    rw [BinaryOp.apply, BinaryOp.apply, alike]

/-- One is equal to `1.0`, but a list of the one is not equal to a list of the other; the two zeros
    can stand for each other. -/
theorem containers_equal_elementwise_unless_loose_for_one :
    Holds .eq (.int 1) (.float 1.0) ∧ Agrees (.list [.int 1]) (.list [.float 1.0]) ∧
      ¬ Holds .eq (.list [.int 1]) (.list [.float 1.0]) ∧
      ¬ Interchangeable (.list [.int 1]) (.list [.float 1.0]) ∧
      BinaryOp.in_.apply (.int 1) (.list [.int 1]) =
        BinaryOp.in_.apply (.int 1) (.list [.float 1.0]) ∧
      Interchangeable (.map [("k", .list [.float 0.0])]) (.map [("k", .list [.float (-0.0)])]) := by
  have one : Holds .eq (.int 1) (.float 1.0) := holds_eq_iff.2 (by decide +kernel)
  have zero : Holds .eq (.float 0.0) (.float (-0.0)) := holds_eq_iff.2 (by decide +kernel)
  obtain ⟨-, agrees, scalars, -, loose, replacing, member⟩ :=
    containers_equal_elementwise_unless_loose (.int 1) (.float 1.0)
  obtain ⟨-, -, -, -, loose', replacing', -⟩ :=
    containers_equal_elementwise_unless_loose (.float 0.0) (.float (-0.0))
  have apart : Loose (.int 1) (.float 1.0) :=
    loose.2 (.inr (.inl ⟨1, 1.0, rfl, rfl, by decide +kernel⟩))
  have tight : ¬ Loose (.float 0.0) (.float (-0.0)) := by
    rw [loose']
    rintro (⟨_, _, ⟨⟩, -⟩ | ⟨_, _, ⟨⟩, -⟩ | ⟨_, _, -, ⟨⟩, -⟩)
  have listed : Agrees (.list [.int 1]) (.list [.float 1.0]) := by
    rw [agrees.lists, ← forall₂_iff_getElem?]
    exact .cons ((scalars (.inl rfl)).2 one) .nil
  have swapped : Replaced (.int 1) (.float 1.0) (.list [.int 1]) (.list [.float 1.0]) :=
    .here (.item [] [])
  have zeros : Replaced (.float 0.0) (.float (-0.0)) (.map [("k", .list [.float 0.0])])
      (.map [("k", .list [.float (-0.0)])]) := .deeper (.here (.item [] [])) (.entry [] [] "k")
  obtain ⟨unequal, told⟩ := (replacing one _ _ swapped).2 apart
  exact ⟨one, listed, unequal, told rfl, member one [] [] _, (replacing' zero _ _ zeros).1 tight⟩

end Script
end Playbook
