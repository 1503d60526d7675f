import Mathlib.Algebra.Group.Nat.Defs
import Playbook.Identifier
import Playbook.Proofs.Text.CharClass
import Playbook.Uuid

/- Random ids name meetings, and ids made from different free bits are different. -/
namespace Playbook.Uuid

theorem toList_hex (width n : Nat) : (hex width n).toList =
    (List.range width).map fun i => Nat.digitChar (n / 16 ^ (width - 1 - i) % 16) := by
  rw [hex, String.toList_ofList]
  rfl

theorem length_hex (width n : Nat) : (hex width n).toList.length = width := by
  rw [toList_hex, List.length_map, List.length_range]

theorem digitChar_injective : ∀ a, a < 16 → ∀ b, b < 16 → Nat.digitChar a = Nat.digitChar b → a = b := by
  decide

theorem getElem?_hex {width n place : Nat} (inside : place < width) :
    (hex width n).toList[width - 1 - place]? = some (Nat.digitChar (n / 16 ^ place % 16)) := by
  have index : width - 1 - (width - 1 - place) = place := by omega
  rw [toList_hex, List.getElem?_map, List.getElem?_range (by omega), Option.map_some, index]

theorem mod_eq_of_digits {m n : Nat} (width : Nat)
    (same : ∀ place < width, m / 16 ^ place % 16 = n / 16 ^ place % 16) :
    m % 16 ^ width = n % 16 ^ width := by
  induction width with
  | zero => rw [Nat.pow_zero, Nat.mod_one, Nat.mod_one]
  | succ width ih =>
    rw [Nat.mod_pow_succ, Nat.mod_pow_succ, ih fun place less => same place (Nat.lt_succ_of_lt less),
      same width (Nat.lt_succ_self width)]

theorem hex_injective {width m n : Nat} (same : hex width m = hex width n) :
    m % 16 ^ width = n % 16 ^ width := by
  apply mod_eq_of_digits
  intro place inside
  have digit := getElem?_hex (n := m) inside
  rw [same, getElem?_hex inside] at digit
  have small : ∀ k, k % 16 < 16 := fun k => Nat.mod_lt k (by decide)
  exact (digitChar_injective _ (small _) _ (small _) (Option.some.inj digit)).symm

theorem toList_ofBits (n : Nat) : (ofBits n).toList =
    (hex 8 (n / 2 ^ 90 % 2 ^ 32)).toList ++ ('-' :: ((hex 4 (n / 2 ^ 74 % 2 ^ 16)).toList ++
      ('-' :: ((hex 4 (0x4000 + n / 2 ^ 62 % 2 ^ 12)).toList ++
        ('-' :: ((hex 4 (0x8000 + n / 2 ^ 48 % 2 ^ 14)).toList ++
          ('-' :: (hex 12 (n % 2 ^ 48)).toList))))))) := by
  simp only [ofBits, String.toList_append]
  simp

theorem ofBits_injective {m n : Nat} (same : ofBits m = ofBits n) : m % 2 ^ 122 = n % 2 ^ 122 := by
  have lists := congrArg String.toList same
  rw [toList_ofBits, toList_ofBits] at lists
  have cut : ∀ {width a b : Nat} {rest rest' : List Char},
      (hex width a).toList ++ '-' :: rest = (hex width b).toList ++ '-' :: rest' →
        a % 16 ^ width = b % 16 ^ width ∧ rest = rest' := by
    intro width a b rest rest' equal
    obtain ⟨first, tail⟩ := List.append_inj equal (by rw [length_hex, length_hex])
    exact ⟨hex_injective (String.toList_injective first), (List.cons.inj tail).2⟩
  obtain ⟨low, lists⟩ := cut lists
  obtain ⟨middle, lists⟩ := cut lists
  obtain ⟨high, lists⟩ := cut lists
  obtain ⟨clock, lists⟩ := cut lists
  have node := hex_injective (String.toList_injective lists)
  omega

theorem ofBits_ne {first m n : Nat} (low : first ≤ m) (less : m < n) (high : n < first + 2 ^ 122) :
    ofBits m ≠ ofBits n := by
  intro same
  have residue := ofBits_injective same
  omega

theorem mem_hex {width n : Nat} {c : Char} (mem : c ∈ (hex width n).toList) :
    isIdChar c = true ∧ Text.isAsciiAlphanumeric c = true ∧ Text.isAscii c = true := by
  have each : ∀ d, d < 16 → isIdChar (Nat.digitChar d) = true ∧
      Text.isAsciiAlphanumeric (Nat.digitChar d) = true ∧ Text.isAscii (Nat.digitChar d) = true := by
    decide
  rw [toList_hex] at mem
  obtain ⟨i, _, rfl⟩ := List.mem_map.1 mem
  exact each _ (Nat.mod_lt _ (by decide))

theorem valid_ofBits (n : Nat) : ValidId .meeting (ofBits n) := by
  have chars : ∀ c ∈ (ofBits n).toList, isIdChar c = true ∧ Text.isAscii c = true := by
    have dash : isIdChar '-' = true ∧ Text.isAscii '-' = true := by decide
    intro c mem
    rw [toList_ofBits] at mem
    simp only [List.mem_append, List.mem_cons] at mem
    rcases mem with digit | rfl | digit | rfl | digit | rfl | digit | rfl | digit
    all_goals first
      | exact dash
      | exact ⟨(mem_hex digit).1, (mem_hex digit).2.2⟩
  have length : (ofBits n).toList.length = 36 := by
    rw [toList_ofBits]
    simp only [List.length_append, List.length_cons, length_hex]
  have bytes : (ofBits n).utf8ByteSize = 36 := by
    rw [← String.ofList_toList (s := ofBits n), Text.utf8ByteSize_of_ascii fun c mem => (chars c mem).2,
      length]
  unfold ValidId idFault?
  cases written : (ofBits n).toList with
  | nil =>
    rw [written] at length
    cases length
  | cons first rest =>
    rw [written] at chars
    have alphanumeric : Text.isAsciiAlphanumeric first = true := by
      have lists := toList_ofBits n
      have some := length_hex 8 (n / 2 ^ 90 % 2 ^ 32)
      rw [written] at lists
      cases digits : (hex 8 (n / 2 ^ 90 % 2 ^ 32)).toList with
      | nil =>
        rw [digits] at some
        cases some
      | cons d ds =>
        rw [digits, List.cons_append] at lists
        cases lists
        exact (mem_hex (by rw [digits]; exact List.mem_cons_self)).2.1
    have clean : (first :: rest).find? (!isIdChar ·) = none := by
      apply List.find?_eq_none.2
      intro c mem
      simp [(chars c mem).1]
    simp only [bytes, alphanumeric, clean]
    rfl

end Playbook.Uuid
