import Playbook.Checkpoint.Store
import Playbook.Proofs.Text.CharClass

/- A checkpoint is found again by its name. Whatever stands in an execution id, the last separator in
   the name is the one in front of the number. -/
namespace Playbook
open Text

namespace Config

theorem countTail_of_digits {cs : List Char} (digits : ∀ c ∈ cs, isAsciiDigit c = true) {n : Nat}
    (fits : Nat.ofDigitChars 10 cs n < UInt64.size) :
    countTail n cs = .ok (Nat.ofDigitChars 10 cs n) := by
  induction cs generalizing n with
  | nil => rfl
  | cons c cs ih =>
    rw [Nat.ofDigitChars_cons] at fits ⊢
    have small : 10 * n + (c.toNat - '0'.toNat) < UInt64.size :=
      Nat.lt_of_le_of_lt (le_ofDigitChars _ cs) fits
    simp only [countTail, digits c List.mem_cons_self, Bool.not_true, Bool.false_eq_true, if_false,
      if_pos small]
    exact ih (fun d later => digits d (.tail c later)) fits

theorem readCount_of_digits {cs : List Char} (some : cs ≠ [])
    (digits : ∀ c ∈ cs, isAsciiDigit c = true) :
    readCount (String.ofList cs) = countTail 0 cs := by
  rw [readCount, String.toList_ofList]
  split
  case h_1 => exact absurd rfl some
  case h_2 => exact absurd (digits '+' List.mem_cons_self) (by decide)
  case h_3 => exact absurd (digits '+' List.mem_cons_self) (by decide)
  case h_4 => rfl

theorem readCount_toDigits {n : Nat} (fits : n < UInt64.size) :
    readCount (String.ofList (Nat.toDigits 10 n)) = .ok n := by
  have digits : ∀ c ∈ Nat.toDigits 10 n, isAsciiDigit c = true :=
    fun c mem => isAsciiDigit_of_mem_toDigits mem
  have value : Nat.ofDigitChars 10 (Nat.toDigits 10 n) 0 = n := Nat.ofDigitChars_ten_toDigits
  have read := countTail_of_digits digits (by rwa [value])
  rw [readCount_of_digits Nat.toDigits_ne_nil digits, read, value]

end Config

namespace Text

theorem splitLast?_append {needle cs before after : List Char}
    (found : splitLast? needle cs = some (before, after)) (front : List Char) :
    splitLast? needle (front ++ cs) = some (front ++ before, after) := by
  induction front with
  | nil => exact found
  | cons c front ih => rw [List.cons_append, splitLast?, ih, List.cons_append]

theorem splitLast?_of_notMem {c : Char} {needle cs : List Char} (free : c ∉ cs) :
    splitLast? (c :: needle) cs = none := by
  induction cs with
  | nil => rfl
  | cons d cs ih =>
    rw [splitLast?, ih fun later => free (.tail d later)]
    have different : c ≠ d := fun same => free (same ▸ List.mem_cons_self)
    simp [dropStart?, different]

theorem splitLast?_separator {number : List Char} (free : '_' ∉ number) (free' : 'c' ∉ number) :
    splitLast? checkpointSeparator.toList (checkpointSeparator.toList ++ number) =
      some ([], number) := by
  have separator : checkpointSeparator.toList = ['_', 'c', 'k', 'p', 't', '_'] := by decide
  have next : dropStart? ['c', 'k', 'p', 't', '_'] number = none := by
    cases number with
    | nil => rfl
    | cons d rest =>
      have different : 'c' ≠ d := by
        rintro rfl
        exact free' List.mem_cons_self
      simp [dropStart?, different]
  have whole : dropStart? checkpointSeparator.toList (checkpointSeparator.toList ++ number) =
      some number := dropStart?_eq_some_iff.2 rfl
  rw [separator] at whole ⊢
  simp only [List.cons_append, List.nil_append] at whole ⊢
  simp [splitLast?, splitLast?_of_notMem free, dropStart?, next]

end Text

/-- What the rules ask of an id, the one about the separator apart. -/
structure Spelled (kind : IdKind) (id : String) : Prop where
  starts : ∃ first, id.toList.head? = some first ∧ isAsciiAlphanumeric first = true
  characters : ∀ c ∈ id.toList, isIdChar c = true
  bytes : id.utf8ByteSize ≤ kind.maxBytes

theorem spelled_of_valid {kind : IdKind} {id : String} (valid : ValidId kind id) :
    Spelled kind id := by
  unfold ValidId idFault? at valid
  split at valid
  case h_1 => cases valid
  case h_2 first rest written =>
    split at valid
    · cases valid
    rename_i fits
    split at valid
    · cases valid
    rename_i alphanumeric
    split at valid
    · cases valid
    rename_i clean
    constructor
    · exact ⟨first, by rw [written, List.head?_cons], by simpa using alphanumeric⟩
    · intro c mem
      rw [written] at mem
      simpa using List.find?_eq_none.1 clean c mem
    · exact Nat.le_of_not_lt fits

theorem valid_ne_empty {kind : IdKind} {id : String} (valid : ValidId kind id) : id ≠ "" := by
  rintro rfl
  exact absurd valid (by cases kind <;> decide)

namespace CheckpointId

theorem toList_display (id : CheckpointId) : id.display.toList =
    id.execution.toList ++ (checkpointSeparator.toList ++ Nat.toDigits 10 id.number) := by
  rw [display, Nat.toString_eq_ofList_toDigits]
  simp

/-- An execution id and a 64-bit number, as checkpoints have them. -/
def Valid (id : CheckpointId) : Prop := ValidId .execution id.execution ∧ id.number < UInt64.size

theorem parse_display {id : CheckpointId} (valid : id.Valid) : parse id.display = .ok id := by
  have digits : ∀ c ∈ Nat.toDigits 10 id.number, isAsciiDigit c = true :=
    fun c mem => isAsciiDigit_of_mem_toDigits mem
  have separated := splitLast?_separator (fun mem => absurd (digits _ mem) (by decide))
    fun mem => absurd (digits _ mem) (by decide)
  have last := splitLast?_append separated id.execution.toList
  have sound : checkId .execution id.execution = .ok id.execution := by
    rw [checkId, valid.1]
  simp only [parse, toList_display, last, Config.readCount_toDigits valid.2, List.append_nil,
    String.ofList_toList, sound]

theorem display_injective {a b : CheckpointId} (valid : a.Valid) (valid' : b.Valid)
    (same : a.display = b.display) : a = b := by
  have read := parse_display valid
  rw [same, parse_display valid'] at read
  exact (Except.ok.inj read).symm

theorem before_total (a b : CheckpointId) : before a b || before b a := by
  unfold before
  by_cases same : a.execution = b.execution
  · simp only [if_pos same, if_pos same.symm, Bool.or_eq_true, decide_eq_true_eq]
    exact Nat.le_total a.number b.number
  · simp only [if_neg same, if_neg (Ne.symm same), Bool.or_eq_true, decide_eq_true_eq]
    rcases Decidable.em (a.execution < b.execution) with less | not_less
    · exact .inl less
    · right
      have le := String.not_lt.1 not_less
      exact Decidable.by_contra fun not_more =>
        same (String.le_antisymm (String.not_lt.1 not_more) le)

theorem before_trans (a b c : CheckpointId) (first : before a b) (second : before b c) :
    before a c := by
  unfold before at *
  by_cases left : a.execution = b.execution
  · by_cases right : b.execution = c.execution
    · simp only [if_pos left, if_pos right, if_pos (left.trans right), decide_eq_true_eq] at *
      exact Nat.le_trans first second
    · simp only [left, if_neg right, decide_eq_true_eq] at *
      exact second
  · by_cases right : b.execution = c.execution
    · simp only [← right, if_neg left, decide_eq_true_eq] at *
      exact first
    · simp only [if_neg left, if_neg right, decide_eq_true_eq] at *
      have less := String.lt_trans first second
      rw [if_neg (String.ne_of_lt less)]
      exact decide_eq_true less

/-- The name of a checkpoint fits in a file name, whatever ending is added to it. -/
theorem display_bytes {id : CheckpointId} (valid : id.Valid) :
    id.display.utf8ByteSize ≤ 122 := by
  have digits : (toString id.number).utf8ByteSize ≤ 20 := by
    rw [Nat.toString_eq_ofList_toDigits, utf8ByteSize_of_ascii]
    · exact (Nat.length_toDigits_le_iff (by decide) (by decide)).2
        (Nat.lt_of_lt_of_le valid.2 (by decide))
    · intro c mem
      have digit := isAsciiDigit_iff.1 (isAsciiDigit_of_mem_toDigits mem)
      exact isAscii_iff.2 (by omega)
  have execution := (spelled_of_valid valid.1).bytes
  have separator : checkpointSeparator.utf8ByteSize = 6 := by decide
  simp only [display, String.utf8ByteSize_append, separator]
  simp only [IdKind.maxBytes] at execution
  omega

end CheckpointId
end Playbook
