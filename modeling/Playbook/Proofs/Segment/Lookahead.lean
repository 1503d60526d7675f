import Mathlib.Data.List.TakeWhile
import Playbook.Proofs.Parser.Statements
import Playbook.Proofs.Segment.Passing

/- What the splitter finds out about words without reading tokens: whether a segment starts with an
   if, and whether another branch follows. -/
namespace Playbook.Script

theorem skipSeparators_comment (cs : List Char) :
    skipSeparators true cs = skipSeparators false (cs.dropWhile (· ≠ '\n')) := by
  induction cs with
  | nil => rfl
  | cons c cs ih =>
    by_cases broken : c = '\n'
    · subst broken
      rfl
    · rw [List.dropWhile_cons_of_pos (by simpa using broken), ← ih]
      simp [skipSeparators, broken]

theorem skipSeparators_blank {c : Char} (separator : isSeparator c = true) (cs : List Char) :
    skipSeparators false (c :: cs) = skipSeparators false cs := by
  simp [skipSeparators, separator]

theorem skipSeparators_code {c : Char} (comment : c ≠ '#') (code : isSeparator c = false)
    (cs : List Char) : skipSeparators false (c :: cs) = c :: cs := by
  simp [skipSeparators, comment, code]

theorem punctuation?_plain {c : Char} {rest after : List Char} {t : Token}
    (mark : punctuation? c rest = some (t, after)) :
    t.isBranch = false ∧ t ≠ .if_ ∧ t ≠ .newline ∧ t ≠ .eof := by
  unfold punctuation? at mark
  split at mark
  case h_24 => cases mark
  all_goals
    cases mark
    exact ⟨rfl, Token.noConfusion, Token.noConfusion, Token.noConfusion⟩

theorem TokenAt.visible {c : Char} {rest after : List Char} {t : Token}
    (found : TokenAt c rest t after) :
    (c ≠ '#' ∧ isSeparator c = false) ∧ t ≠ .newline ∧ t ≠ .eof := by
  cases found with
  | string quote =>
    refine ⟨?_, Token.noConfusion, Token.noConfusion⟩
    rcases eq_of_isQuote quote with rfl | rfl <;> decide
  | template letter =>
    refine ⟨?_, Token.noConfusion, Token.noConfusion⟩
    simp only [Bool.or_eq_true, decide_eq_true_eq] at letter
    rcases letter with rfl | rfl <;> decide
  | dollar sign =>
    subst sign
    exact ⟨by decide, Token.noConfusion, Token.noConfusion⟩
  | number digit read =>
    have ordinary := ordinary_of_isAsciiDigit digit
    exact ⟨⟨ordinary.1, ordinary.2.2.1⟩, (number_plain read).2.2⟩
  | word letter =>
    have ordinary := ordinary_of_isWordChar (isWordChar_of_isWordStart letter)
    exact ⟨⟨ordinary.1, ordinary.2.2.1⟩, (wordToken_plain _).2.2⟩
  | punctuation mark =>
    have apart := of_marks (fun c => c ≠ '#' ∧ isSeparator c = false) (by decide) mark
    exact ⟨apart, (punctuation?_plain mark).2.2⟩

theorem isAscii_of_ne_wordChar {c : Char} {rest after : List Char} {t : Token}
    (found : TokenAt c rest t after) (other : isWordChar c = false) : Text.isAscii c = true := by
  cases found with
  | string quote => rcases eq_of_isQuote quote with rfl | rfl <;> decide
  | template letter =>
    simp only [Bool.or_eq_true, decide_eq_true_eq] at letter
    rcases letter with rfl | rfl <;> decide
  | dollar sign =>
    subst sign
    decide
  | number digit =>
    have := Text.isAsciiDigit_iff.1 digit
    exact Text.isAscii_iff.2 (by omega)
  | word letter =>
    rw [isWordChar_of_isWordStart letter] at other
    cases other
  | punctuation mark => exact of_marks (Text.isAscii · = true) (by decide) mark

theorem word_ends {p : Nat} {cs : List Char} {ts : List Token} (scans : Scans p cs ts)
    (other : ∀ c ∈ cs.head?, isWordChar c = false) :
    ∀ c ∈ cs.head?, mayContinueWord c = false := by
  intro c mem
  have plain := other c mem
  match cs with
  | d :: rest =>
    cases mem
    have ascii : Text.isAscii c = true := by
      obtain ⟨emitted, q, after, more, step, -⟩ := scans_cons scans
      cases stepAt_of_lexStep? step with
      | blank skipped => rcases eq_of_blank skipped with rfl | rfl | rfl <;> decide
      | inside same | outside same | separator same | comment same =>
        subst same
        decide
      | token found => exact isAscii_of_ne_wordChar (tokenAt_of_nextToken found) plain
    rw [← isWordChar_of_ascii ascii]
    exact plain

theorem takeWhile_mayContinueWord {p : Nat} {cs : List Char} {ts : List Token}
    (scans : Scans p (cs.dropWhile isWordChar) ts) :
    cs.takeWhile mayContinueWord = cs.takeWhile isWordChar := by
  have ends := word_ends scans fun c mem => by
    have := List.head?_dropWhile_not isWordChar cs
    rw [mem] at this
    simpa using this
  have split := List.takeWhile_append_dropWhile (p := isWordChar) (l := cs)
  have all : ∀ c ∈ cs.takeWhile isWordChar, mayContinueWord c = true := fun c mem =>
    mayContinueWord_of_isWordChar (List.mem_takeWhile_imp mem)
  have none : (cs.dropWhile isWordChar).takeWhile mayContinueWord = [] := by
    cases rest : cs.dropWhile isWordChar with
    | nil => rfl
    | cons c more =>
      rw [rest] at ends
      exact List.takeWhile_cons_of_neg (by simp [ends c rfl])
  conv => lhs; rw [← split]
  rw [List.takeWhile_append_of_pos all, none, List.append_nil]

theorem ofList_eq {cs : List Char} {s : String} (same : String.ofList cs = s) : cs = s.toList := by
  rw [← same, String.toList_ofList]

theorem wordToken_if {cs : List Char} (same : wordToken (String.ofList cs) = .if_) :
    cs = ['i', 'f'] := by
  unfold wordToken at same
  split at same
  case h_1 word => exact ofList_eq word
  all_goals cases same

theorem wordToken_isBranch (cs : List Char) : (wordToken (String.ofList cs)).isBranch =
    (cs == ['e', 'l', 's', 'e'] || cs == ['e', 'l', 'i', 'f']) := by
  by_cases last : cs = ['e', 'l', 's', 'e']
  · subst last
    decide
  by_cases further : cs = ['e', 'l', 'i', 'f']
  · subst further
    decide
  have other : (wordToken (String.ofList cs)).isBranch = false := by
    unfold wordToken
    split
    case h_2 word => exact absurd (ofList_eq word) further
    case h_3 word => exact absurd (ofList_eq word) last
    all_goals rfl
  simp [other, last, further]

def opensBranch (cs : List Char) : Bool :=
  cs.takeWhile mayContinueWord == ['e', 'l', 's', 'e'] ||
    cs.takeWhile mayContinueWord == ['e', 'l', 'i', 'f']

theorem continuesWithElse?_finished (cs : List Char) :
    continuesWithElse? true cs = some (opensBranch (skipSeparators false cs)) := by
  simp only [continuesWithElse?, opensBranch, if_true, ite_self]

theorem opensBranch_of_ne {c : Char} (other : c ≠ 'e') (cs : List Char) :
    opensBranch (c :: cs) = false := by
  by_cases continues : mayContinueWord c = true
  · rw [opensBranch, List.takeWhile_cons_of_pos continues]
    simp [other]
  · rw [opensBranch, List.takeWhile_cons_of_neg continues]
    rfl

/-- The splitter finds a branch exactly where the lexer finds its word. -/
theorem opensBranch_of_tokenAt {p : Nat} {c : Char} {rest after : List Char} {t : Token}
    {ts : List Token} (found : TokenAt c rest t after) (scans : Scans p after ts) :
    opensBranch (c :: rest) = t.isBranch := by
  cases found with
  | string quote =>
    refine opensBranch_of_ne ?_ rest
    rintro rfl
    exact absurd quote (by decide)
  | template letter =>
    refine opensBranch_of_ne ?_ rest
    rintro rfl
    exact absurd letter (by decide)
  | dollar sign =>
    subst sign
    exact opensBranch_of_ne (by decide) rest
  | number digit read =>
    have none : t.isBranch = false := by
      rcases number_elim read with ⟨n, rfl⟩ | ⟨x, rfl⟩ <;> rfl
    rw [none]
    refine opensBranch_of_ne ?_ rest
    rintro rfl
    exact absurd digit (by decide)
  | word letter =>
    have continues : mayContinueWord c = true :=
      mayContinueWord_of_isWordChar (isWordChar_of_isWordStart letter)
    rw [wordToken_isBranch, opensBranch, List.takeWhile_cons_of_pos continues,
      takeWhile_mayContinueWord scans]
  | punctuation mark =>
    have other := of_marks (· ≠ 'e') (by decide) mark
    rw [(punctuation?_plain mark).1]
    exact opensBranch_of_ne other rest

theorem opensBranch_of_scans {cs : List Char} {ts : List Token} (scans : Scans 0 cs ts) :
    opensBranch (skipSeparators false cs) = goesOn ts := by
  generalize zero : 0 = p at scans
  induction p, cs, ts, scans using Scans.induction with
  | nil => rfl
  | @step p q c rest after emitted more first later ih =>
    subst zero
    cases stepAt_of_lexStep? first with
    | blank skipped =>
      have separator : isSeparator c = true := by
        rcases eq_of_blank skipped with rfl | rfl | rfl <;> rfl
      rw [skipSeparators_blank separator]
      exact ih rfl
    | inside broken opened => exact absurd opened (Nat.lt_irrefl 0)
    | outside same | separator same =>
      subst same
      rw [skipSeparators_blank rfl]
      exact ih rfl
    | comment starts =>
      subst starts
      have comment : skipSeparators false ('#' :: rest) = skipSeparators true rest := rfl
      rw [comment, skipSeparators_comment]
      exact ih rfl
    | @token t breaks after found =>
      have found' := tokenAt_of_nextToken found
      obtain ⟨⟨comment, code⟩, visible, -⟩ := found'.visible
      rw [skipSeparators_code comment code, opensBranch_of_tokenAt found' later]
      exact (goesOn_cons visible more).symm

theorem continuesWithElse?_of_scans {cs : List Char} {ts : List Token} (scans : Scans 0 cs ts) :
    continuesWithElse? true cs = some (goesOn ts) := by
  rw [continuesWithElse?_finished, opensBranch_of_scans scans]

theorem scans_after_comment {cs : List Char} {t : Token} {ts : List Token}
    (scans : Scans 0 (cs.dropWhile (· ≠ '\n')) (t :: ts)) : t = .newline ∨ t = .eof := by
  cases rest : cs.dropWhile (· ≠ '\n') with
  | nil =>
    rw [rest] at scans
    cases scans_unique scans (scans_nil 0)
    exact .inr rfl
  | cons c more =>
    have broken : c = '\n' := by
      have := List.head?_dropWhile_not (fun c => decide (c ≠ '\n')) cs
      rw [rest] at this
      simpa using this
    subst broken
    rw [rest] at scans
    obtain ⟨emitted, q, after, later, step, -, tokens⟩ := scans_cons scans
    cases stepAt_of_lexStep? step with
    | blank skipped => exact absurd skipped (by decide)
    | inside _ opened => exact absurd opened (Nat.lt_irrefl 0)
    | outside =>
      cases tokens
      exact .inl rfl
    | separator same | comment same => exact absurd same (by decide)
    | token found => exact absurd (tokenAt_of_nextToken found).visible.1.2 (by decide)

theorem startsWithIf_cons (rest : List Char) :
    startsWithIf ('i' :: 'f' :: rest) = !rest.head?.any mayContinueWord := by
  have visible : Text.isBlank 'i' = false := by decide
  simp [startsWithIf, Text.trimStart, visible]

theorem eq_cons_of_takeWhile {p : Char → Bool} {c : Char} {cs : List Char}
    (word : cs.takeWhile p = [c]) : ∃ rest, cs = c :: rest ∧ rest.head?.any p = false := by
  match cs with
  | d :: rest =>
    by_cases passes : p d = true
    · rw [List.takeWhile_cons_of_pos passes] at word
      obtain ⟨rfl, none⟩ := List.cons.inj word
      refine ⟨rest, rfl, ?_⟩
      match rest with
      | [] => rfl
      | e :: rest =>
        by_cases passes : p e = true
        · rw [List.takeWhile_cons_of_pos passes] at none
          cases none
        · simpa using passes
    · rw [List.takeWhile_cons_of_neg passes] at word
      cases word

theorem wordToken_of_tokenAt {c : Char} {rest after : List Char}
    (found : TokenAt c rest .if_ after) :
    after = rest.dropWhile isWordChar ∧ c = 'i' ∧ rest.takeWhile isWordChar = ['f'] := by
  generalize same : Token.if_ = t at found
  cases found with
  | string | template | dollar => cases same
  | number digit read => rcases number_elim read with ⟨n, rfl⟩ | ⟨x, rfl⟩ <;> cases same
  | word letter =>
    obtain ⟨first, word⟩ := List.cons.inj (wordToken_if same.symm)
    exact ⟨rfl, first, word⟩
  | punctuation mark => exact absurd same.symm (punctuation?_plain mark).2.1

theorem startsWithIf_of_scans {cs : List Char} {ts : List Token}
    (scans : Scans 0 cs (.if_ :: ts)) : startsWithIf cs = true := by
  generalize zero : 0 = p at scans
  generalize front : Token.if_ :: ts = us at scans
  induction p, cs, us, scans using Scans.induction with
  | nil => cases front
  | @step p q c rest after emitted more first later ih =>
    subst zero
    cases stepAt_of_lexStep? first with
    | blank skipped =>
      have blank : Text.isBlank c = true := by
        rcases eq_of_blank skipped with rfl | rfl | rfl <;> decide
      rw [startsWithIf, Text.trimStart, List.dropWhile_cons_of_pos blank]
      exact ih rfl front
    | inside broken opened => exact absurd opened (Nat.lt_irrefl 0)
    | outside | separator => cases front
    | comment =>
      rw [List.nil_append] at front
      subst front
      rcases scans_after_comment later with same | same <;> cases same
    | @token t breaks after found =>
      obtain ⟨rfl, rfl⟩ := List.cons.inj front
      obtain ⟨rfl, rfl, word⟩ := wordToken_of_tokenAt (tokenAt_of_nextToken found)
      have continues := takeWhile_mayContinueWord later
      rw [word] at continues
      obtain ⟨rest, rfl, ends⟩ := eq_cons_of_takeWhile continues
      rw [startsWithIf_cons, ends]
      rfl

end Playbook.Script
