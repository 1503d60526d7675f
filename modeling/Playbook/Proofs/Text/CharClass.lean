import Playbook.Script.Segment
import Playbook.Script.Token

/- Character classes by code point, and natural numbers in decimal digits. -/
namespace Playbook
namespace Text

theorem le_iff_toNat {c d : Char} : c ≤ d ↔ c.toNat ≤ d.toNat := by
  rw [Char.le_def, UInt32.le_iff_toNat_le]
  rfl

theorem isAsciiDigit_iff {c : Char} :
    isAsciiDigit c = true ↔ 48 ≤ c.toNat ∧ c.toNat ≤ 57 := by
  simp only [isAsciiDigit, Bool.and_eq_true, decide_eq_true_eq, le_iff_toNat]
  rfl

theorem isAsciiLetter_iff {c : Char} : isAsciiLetter c = true ↔
    (97 ≤ c.toNat ∧ c.toNat ≤ 122) ∨ (65 ≤ c.toNat ∧ c.toNat ≤ 90) := by
  simp only [isAsciiLetter, Bool.or_eq_true, Bool.and_eq_true, decide_eq_true_eq, le_iff_toNat]
  rfl

theorem isAscii_iff {c : Char} : isAscii c = true ↔ c.toNat < 128 := by
  simp [isAscii]

theorem isAlphanumeric_of_ascii {c : Char} (ascii : isAscii c = true) :
    isAlphanumeric c = isAsciiAlphanumeric c := by
  simp only [isAlphanumeric, isAlphabetic, isNumeric, ascii, if_true, isAsciiAlphanumeric]

theorem utf8ByteSize_of_ascii {cs : List Char} (ascii : ∀ c ∈ cs, isAscii c = true) :
    (String.ofList cs).utf8ByteSize = cs.length := by
  induction cs with
  | nil => rfl
  | cons c cs ih =>
    have small := isAscii_iff.1 (ascii c List.mem_cons_self)
    have one : c.utf8Size = 1 := Char.utf8Size_eq_one_iff.2 (UInt32.le_iff_toNat_le.2 (by
      change c.toNat ≤ 127
      omega))
    have cut : String.ofList (c :: cs) = String.singleton c ++ String.ofList cs := by
      rw [String.singleton_eq_ofList, ← String.ofList_append, List.singleton_append]
    rw [cut, String.utf8ByteSize_append, String.utf8ByteSize_singleton, one,
      ih fun d later => ascii d (.tail c later), List.length_cons, Nat.add_comm]

theorem le_ofDigitChars (n : Nat) (cs : List Char) : n ≤ Nat.ofDigitChars 10 cs n := by
  rw [Nat.ofDigitChars_eq_ofDigitChars_zero]
  have : 0 < 10 ^ cs.length := Nat.pow_pos (by decide)
  have := Nat.le_mul_of_pos_left n this
  omega

theorem isAsciiDigit_of_mem_toDigits {n : Nat} {c : Char} (mem : c ∈ Nat.toDigits 10 n) :
    isAsciiDigit c = true := by
  have digit := Nat.isDigit_of_mem_toDigits (by decide) (by decide) mem
  simp only [Char.isDigit, Bool.and_eq_true, decide_eq_true_eq] at digit
  exact isAsciiDigit_iff.2 digit

theorem head?_toDigits_ne_zero {n : Nat} (positive : 0 < n) :
    (Nat.toDigits 10 n).head? ≠ some '0' := by
  induction n using Nat.strongRecOn with
  | _ n ih =>
    by_cases small : n < 10
    · have first : ∀ n, n < 10 → 0 < n → [Nat.digitChar n].head? ≠ some '0' := by decide
      rw [Nat.toDigits_of_lt_base small]
      exact first n small positive
    · have first := ih (n / 10) (by omega) (by omega)
      rw [Nat.toDigits_of_base_le (by decide) (by omega)]
      cases digits : Nat.toDigits 10 (n / 10) with
      | nil => exact absurd digits Nat.toDigits_ne_nil
      | cons c rest =>
        rw [digits] at first
        exact first

end Text

namespace Script
open Text

theorem isWordChar_of_isWordStart {c : Char} (start : isWordStart c = true) :
    isWordChar c = true := by
  simp only [isWordStart, isWordChar, isAlphanumeric, Bool.or_eq_true] at start ⊢
  exact start.imp .inl id

theorem isWordChar_of_ascii {c : Char} (ascii : isAscii c = true) :
    isWordChar c = mayContinueWord c := by
  simp only [isWordChar, isAlphanumeric_of_ascii ascii, mayContinueWord, ascii, Bool.not_true,
    Bool.or_false]

theorem mayContinueWord_of_isWordChar {c : Char} (word : isWordChar c = true) :
    mayContinueWord c = true := by
  by_cases ascii : isAscii c = true
  · rwa [← isWordChar_of_ascii ascii]
  · simp [mayContinueWord, ascii]

theorem isAsciiDigit_of_isWordStart {c : Char} (start : isWordStart c = true) :
    isAsciiDigit c = false := by
  cases digit : isAsciiDigit c with
  | false => rfl
  | true =>
    have range := isAsciiDigit_iff.1 digit
    have ascii : isAscii c = true := isAscii_iff.2 (by omega)
    simp only [isWordStart, isAlphabetic, ascii, if_true, Bool.or_eq_true, decide_eq_true_eq,
      isAsciiLetter_iff] at start
    rcases start with letter | rfl
    · omega
    · exact absurd digit (by decide)

theorem eq_of_isQuote {c : Char} (quote : isQuote c = true) : c = '"' ∨ c = '\'' := by
  simpa [isQuote] using quote

theorem eq_of_blank {c : Char} (blank : (c = ' ' || c = '\t' || c = '\r') = true) :
    c = ' ' ∨ c = '\t' ∨ c = '\r' := by
  simpa [or_assoc] using blank

theorem eq_of_isSeparator {c : Char} (separator : isSeparator c = true) :
    c = ' ' ∨ c = '\t' ∨ c = '\r' ∨ c = '\n' ∨ c = ';' := by
  simpa [isSeparator, or_assoc] using separator

theorem not_isQuote {p : Char → Bool} (double : p '"' = false) (single : p '\'' = false)
    {c : Char} (passes : p c = true) : isQuote c = false := by
  cases quote : isQuote c with
  | false => rfl
  | true =>
    rcases eq_of_isQuote quote with rfl | rfl
    · rw [double] at passes
      cases passes
    · rw [single] at passes
      cases passes

theorem isQuote_of_isWordStart {c : Char} (start : isWordStart c = true) : isQuote c = false :=
  not_isQuote (by decide) (by decide) start

theorem isQuote_of_isAsciiDigit {c : Char} (digit : isAsciiDigit c = true) :
    isQuote c = false :=
  not_isQuote (by decide) (by decide) digit

end Script
end Playbook
