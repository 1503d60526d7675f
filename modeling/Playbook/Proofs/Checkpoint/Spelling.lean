import Playbook.Proofs.Checkpoint.Files

/- Which names of documents are read as checkpoints. A number is also read with a sign and with zeros
   before it, so a checkpoint has more spellings than the one that its document gets. -/
namespace Playbook
open Text

namespace Config

theorem digit_of_countTail {c : Char} {cs : List Char} {n m : Nat}
    (read : countTail n (c :: cs) = .ok m) : ∃ d, d < 10 ∧ c = Nat.digitChar d ∧
      10 * n + d < UInt64.size ∧ countTail (10 * n + d) cs = .ok m := by
  simp only [countTail] at read
  split at read
  · cases read
  rename_i digit
  split at read
  · rename_i small
    rw [Bool.not_eq_true, Bool.not_eq_false'] at digit
    obtain ⟨low, high⟩ := isAsciiDigit_iff.1 digit
    have zero : '0'.toNat = 48 := rfl
    refine ⟨c.toNat - '0'.toNat, by omega, ?_, small, read⟩
    apply Char.toNat_inj.1
    rw [Nat.toNat_digitChar_of_lt_ten (by omega)]
    omega
  · cases read

theorem lt_of_countTail {cs : List Char} {n m : Nat} (fits : n < UInt64.size)
    (read : countTail n cs = .ok m) : m < UInt64.size := by
  induction cs generalizing n with
  | nil =>
    cases read
    exact fits
  | cons c cs ih =>
    obtain ⟨d, -, -, small, rest⟩ := digit_of_countTail read
    exact ih small rest

theorem toDigits_of_countTail {cs : List Char} {n m : Nat} (positive : 0 < n)
    (read : countTail n cs = .ok m) : Nat.toDigits 10 n ++ cs = Nat.toDigits 10 m := by
  induction cs generalizing n with
  | nil =>
    cases read
    exact List.append_nil _
  | cons c cs ih =>
    obtain ⟨d, small, rfl, -, rest⟩ := digit_of_countTail read
    calc Nat.toDigits 10 n ++ Nat.digitChar d :: cs
        = (Nat.toDigits 10 n ++ Nat.toDigits 10 d) ++ cs := by
          rw [Nat.toDigits_of_lt_base small, List.append_assoc, List.singleton_append]
      _ = Nat.toDigits 10 (10 * n + d) ++ cs := by
          rw [Nat.toDigits_append_toDigits (by decide) positive small]
      _ = Nat.toDigits 10 m := ih (by omega) rest

theorem zeros_of_countTail {cs : List Char} {n : Nat} (some : cs ≠ [])
    (read : countTail 0 cs = .ok n) :
    ∃ zeros, cs = List.replicate zeros '0' ++ Nat.toDigits 10 n := by
  induction cs with
  | nil => exact absurd rfl some
  | cons c cs ih =>
    obtain ⟨d, small, rfl, -, rest⟩ := digit_of_countTail read
    rw [Nat.mul_zero, Nat.zero_add] at rest
    rcases Nat.eq_zero_or_pos d with rfl | positive
    · rcases cs with _ | ⟨next, later⟩
      · cases rest
        exact ⟨0, rfl⟩
      · obtain ⟨zeros, same⟩ := ih (List.cons_ne_nil next later) rest
        exact ⟨zeros + 1, by rw [same]; rfl⟩
    · have digits := toDigits_of_countTail positive rest
      rw [Nat.toDigits_of_lt_base small] at digits
      exact ⟨0, digits⟩

theorem countTail_zeros (zeros : Nat) (cs : List Char) :
    countTail 0 (List.replicate zeros '0' ++ cs) = countTail 0 cs := by
  induction zeros with
  | zero => rfl
  | succ zeros ih => exact ih

theorem countTail_toDigits {n : Nat} (fits : n < UInt64.size) (zeros : Nat) :
    countTail 0 (List.replicate zeros '0' ++ Nat.toDigits 10 n) = .ok n := by
  have value : Nat.ofDigitChars 10 (Nat.toDigits 10 n) 0 = n := Nat.ofDigitChars_ten_toDigits
  have read := countTail_of_digits (n := 0) (fun c mem => isAsciiDigit_of_mem_toDigits mem)
    (value.symm ▸ fits)
  rw [countTail_zeros, read, value]

theorem isAsciiDigit_of_mem_zeros {zeros n : Nat} {c : Char}
    (mem : c ∈ List.replicate zeros '0' ++ Nat.toDigits 10 n) : isAsciiDigit c = true := by
  rcases List.mem_append.1 mem with nought | digit
  · rw [List.eq_of_mem_replicate nought]
    decide
  · exact isAsciiDigit_of_mem_toDigits digit

theorem readCount_plus {cs : List Char} (some : cs ≠ []) :
    readCount (String.ofList ('+' :: cs)) = countTail 0 cs := by
  rw [readCount, String.toList_ofList]
  cases cs with
  | nil => exact absurd rfl some
  | cons c rest => rfl

def numeral (n : Nat) (plus : Bool) (zeros : Nat) : List Char :=
  (if plus then ['+'] else []) ++ (List.replicate zeros '0' ++ Nat.toDigits 10 n)

theorem mem_numeral {n zeros : Nat} {plus : Bool} {c : Char} (mem : c ∈ numeral n plus zeros) :
    c = '+' ∨ isAsciiDigit c = true := by
  rcases List.mem_append.1 mem with sign | digit
  · cases plus with
    | false => cases sign
    | true => exact .inl (List.mem_singleton.1 sign)
  · exact .inr (isAsciiDigit_of_mem_zeros digit)

theorem readCount_eq_ok {cs : List Char} {n : Nat} : readCount (String.ofList cs) = .ok n ↔
    n < UInt64.size ∧ ∃ plus zeros, cs = numeral n plus zeros := by
  constructor
  · intro read
    rw [readCount, String.toList_ofList] at read
    split at read
    case h_1 => cases read
    case h_2 => cases read
    case h_3 rest lone =>
      have some : rest ≠ [] := fun none => lone (by rw [none])
      obtain ⟨zeros, same⟩ := zeros_of_countTail some read
      exact ⟨lt_of_countTail (by decide) read, true, zeros, by rw [same]; rfl⟩
    case h_4 rest none _ _ =>
      obtain ⟨zeros, same⟩ := zeros_of_countTail none read
      exact ⟨lt_of_countTail (by decide) read, false, zeros, by rw [same]; rfl⟩
  · rintro ⟨fits, plus, zeros, rfl⟩
    have some : List.replicate zeros '0' ++ Nat.toDigits 10 n ≠ [] := by
      simp [Nat.toDigits_ne_nil]
    have digits : ∀ c ∈ List.replicate zeros '0' ++ Nat.toDigits 10 n, isAsciiDigit c = true :=
      fun _ => isAsciiDigit_of_mem_zeros
    have read := countTail_toDigits fits zeros
    cases plus with
    | false => exact (readCount_of_digits some digits).trans read
    | true => exact (readCount_plus some).trans read

end Config

namespace Text

theorem append_of_splitLast? {needle cs before after : List Char}
    (found : splitLast? needle cs = some (before, after)) : cs = before ++ (needle ++ after) := by
  induction cs generalizing before with
  | nil => cases found
  | cons c rest ih =>
    rw [splitLast?] at found
    cases later : splitLast? needle rest with
    | some pair =>
      rw [later] at found
      cases found
      rw [ih later, List.cons_append]
    | none =>
      rw [later] at found
      obtain ⟨after', dropped, same⟩ := Option.map_eq_some_iff.1 found
      cases same
      have joined : c :: rest = needle ++ after := dropStart?_eq_some_iff.1 dropped
      exact joined

end Text

theorem checkId_eq_ok {kind : IdKind} {text id : String} :
    checkId kind text = .ok id ↔ id = text ∧ ValidId kind text := by
  unfold checkId ValidId
  split
  · rename_i faulty
    simp [faulty]
  · rename_i sound
    simp [sound, eq_comm]

namespace CheckpointId

def spelling (id : CheckpointId) (plus : Bool) (zeros : Nat) : String :=
  id.execution ++ checkpointSeparator ++ String.ofList (Config.numeral id.number plus zeros)

theorem toList_spelling (id : CheckpointId) (plus : Bool) (zeros : Nat) :
    (id.spelling plus zeros).toList = id.execution.toList ++
      (checkpointSeparator.toList ++ Config.numeral id.number plus zeros) := by
  rw [spelling, String.toList_append, String.toList_append, String.toList_ofList, List.append_assoc]

/-- All spellings of a checkpoint, and nothing else, are read as it. -/
theorem parse_eq_ok {text : String} {id : CheckpointId} : parse text = .ok id ↔
    id.Valid ∧ ∃ plus zeros, text = id.spelling plus zeros := by
  constructor
  · intro read
    simp only [parse] at read
    split at read
    · cases read
    rename_i before number found
    split at read
    · cases read
    rename_i n counted
    split at read
    · cases read
    rename_i execution checked
    cases read
    obtain ⟨fits, plus, zeros, rfl⟩ := Config.readCount_eq_ok.1 counted
    obtain ⟨rfl, valid⟩ := checkId_eq_ok.1 checked
    refine ⟨⟨valid, fits⟩, plus, zeros, String.toList_inj.1 ?_⟩
    rw [append_of_splitLast? found, toList_spelling, String.toList_ofList]
  · rintro ⟨valid, plus, zeros, rfl⟩
    have free : '_' ∉ Config.numeral id.number plus zeros :=
      fun mem => (Config.mem_numeral mem).elim (by decide) (by decide)
    have free' : 'c' ∉ Config.numeral id.number plus zeros :=
      fun mem => (Config.mem_numeral mem).elim (by decide) (by decide)
    have last := splitLast?_append (splitLast?_separator free free') id.execution.toList
    have counted := Config.readCount_eq_ok.2 ⟨valid.2, plus, zeros, rfl⟩
    have checked := checkId_eq_ok.2 ⟨rfl, valid.1⟩
    simp only [parse, toList_spelling, last, List.append_nil, String.ofList_toList, counted, checked]

end CheckpointId

end Playbook
