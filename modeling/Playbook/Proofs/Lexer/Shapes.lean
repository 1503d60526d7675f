import Playbook.Proofs.Text.CharClass

/- The six shapes that a token can have in the text, told apart by its first characters. -/
namespace Playbook.Script

inductive TokenAt (c : Char) (rest : List Char) : Token → List Char → Prop where
  | string (quote : isQuote c = true) {b : StringBody} (body : quotedString c rest = some b) :
    TokenAt c rest (.str (String.ofList b.text)) b.rest
  | template (letter : (c = 'f' || c = 'F') = true) {q : Char} {more : List Char}
    (starts : rest = q :: more) (quote : isQuote q = true) {b : StringBody}
    (body : quotedString q more = some b) :
    TokenAt c rest (.template (String.ofList b.text)) b.rest
  | dollar (sign : c = '$') (named : rest.head?.any isWordStart = true) :
    TokenAt c rest (.var (String.ofList (rest.takeWhile isWordChar))) (rest.dropWhile isWordChar)
  | number (digit : Text.isAsciiDigit c = true) {t : Token} {after : List Char}
    (read : number (c :: rest) = .ok (t, after)) : TokenAt c rest t after
  | word (letter : isWordStart c = true)
    (unquoted : ((c = 'f' || c = 'F') && rest.head?.any isQuote) = false) :
    TokenAt c rest (wordToken (String.ofList (c :: rest.takeWhile isWordChar)))
      (rest.dropWhile isWordChar)
  | punctuation {t : Token} {after : List Char} (mark : punctuation? c rest = some (t, after)) :
    TokenAt c rest t after

theorem number_elim {cs after : List Char} {t : Token} (read : number cs = .ok (t, after)) :
    (∃ n, t = .int n) ∨ ∃ x, t = .float x := by
  unfold number at read
  simp only at read
  split at read
  · split at read <;> cases read
    exact .inl ⟨_, rfl⟩
  · cases read
    exact .inr ⟨_, rfl⟩

def marks : List Char :=
  ['=', '!', '<', '>', '+', '-', '*', '/', '%', '(', ')', '[', ']', '\x7b', '\x7d', ',', ':', '.']

theorem mem_marks {c : Char} {rest after : List Char} {t : Token}
    (mark : punctuation? c rest = some (t, after)) : c ∈ marks := by
  unfold punctuation? at mark
  split at mark
  case h_24 => cases mark
  all_goals decide

theorem of_marks (P : Char → Prop) [DecidablePred P]
    (all : marks.all (fun c => decide (P c)) = true) {c : Char} {rest after : List Char}
    {t : Token} (mark : punctuation? c rest = some (t, after)) : P c :=
  of_decide_eq_true (List.all_eq_true.1 all c (mem_marks mark))

theorem tokenAt_of_nextToken {c : Char} {rest after : List Char} {t : Token} {n : Nat}
    (found : nextToken c rest = .ok (t, n, after)) : TokenAt c rest t after := by
  unfold nextToken at found
  split at found
  · rename_i quote
    split at found
    · rename_i b body
      cases found
      exact .string quote body
    · cases found
  split at found
  · rename_i letter
    simp only [Bool.and_eq_true] at letter
    split at found
    · rename_i q more
      split at found
      · rename_i b body
        cases found
        exact .template letter.1 rfl (by simpa using letter.2) body
      · cases found
    · cases found
  rename_i unquoted
  split at found
  · rename_i dollar
    split at found
    · rename_i named
      cases found
      exact .dollar dollar named
    · cases found
  split at found
  · rename_i digit
    cases read : number (c :: rest) with
    | error e =>
      rw [read] at found
      cases found
    | ok r =>
      rw [read] at found
      cases found
      exact .number digit read
  split at found
  · rename_i letter
    cases found
    exact .word letter (by simpa only [Bool.not_eq_true] using unquoted)
  split at found
  · rename_i mark
    cases found
    exact .punctuation mark
  · cases found

theorem nextToken_of_tokenAt {c : Char} {rest after : List Char} {t : Token}
    (found : TokenAt c rest t after) : ∃ n, nextToken c rest = .ok (t, n, after) := by
  unfold nextToken
  cases found with
  | string quote body =>
    rw [if_pos quote, body]
    exact ⟨_, rfl⟩
  | @template letter q more starts quote b body =>
    have unquoted : isQuote c = false := by
      simp only [Bool.or_eq_true, decide_eq_true_eq] at letter
      rcases letter with rfl | rfl <;> decide
    subst starts
    have both : ((c = 'f' || c = 'F') && (q :: more).head?.any isQuote) = true := by
      rw [letter, List.head?_cons, Option.any_some, quote, Bool.and_self]
    rw [unquoted, if_neg Bool.false_ne_true, if_pos both]
    simp only [body]
    exact ⟨_, rfl⟩
  | dollar sign named =>
    subst sign
    rw [if_neg (by decide), if_neg (by simp), if_pos rfl, if_pos named]
    exact ⟨_, rfl⟩
  | number digit read =>
    have letter : (c = 'f' || c = 'F') = false := by
      cases letter : (c = 'f' || c = 'F') with
      | false => rfl
      | true =>
        simp only [Bool.or_eq_true, decide_eq_true_eq] at letter
        rcases letter with rfl | rfl <;> exact absurd digit (by decide)
    have sign : c ≠ '$' := by
      rintro rfl
      exact absurd digit (by decide)
    rw [isQuote_of_isAsciiDigit digit, if_neg Bool.false_ne_true, letter, Bool.false_and,
      if_neg Bool.false_ne_true, if_neg sign, if_pos digit, read]
    exact ⟨_, rfl⟩
  | word letter unquoted =>
    have sign : c ≠ '$' := by
      rintro rfl
      exact absurd letter (by decide)
    rw [isQuote_of_isWordStart letter, if_neg Bool.false_ne_true, unquoted,
      if_neg Bool.false_ne_true, if_neg sign, isAsciiDigit_of_isWordStart letter,
      if_neg Bool.false_ne_true, if_pos letter]
    exact ⟨_, rfl⟩
  | punctuation mark =>
    obtain ⟨quote, letter, sign, digit, start⟩ := of_marks (fun c => isQuote c = false ∧
      (c = 'f' || c = 'F') = false ∧ c ≠ '$' ∧ Text.isAsciiDigit c = false ∧
        isWordStart c = false) (by decide) mark
    rw [quote, if_neg Bool.false_ne_true, letter, Bool.false_and, if_neg Bool.false_ne_true,
      if_neg sign, digit, if_neg Bool.false_ne_true, start, if_neg Bool.false_ne_true, mark]
    exact ⟨_, rfl⟩

end Playbook.Script
