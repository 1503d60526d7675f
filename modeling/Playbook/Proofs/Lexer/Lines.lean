import Mathlib.Data.List.TakeWhile
import Playbook.Proofs.Lexer.Course

/- The lines of tokens. Line breaks are counted where they are passed: between tokens, inside
   brackets, inside strings and after a backslash. A comment leaves the line break after it, and no
   other token has one in it, so that the line of a token tells how many there are before it. -/
namespace Playbook
namespace Text

@[simp] theorem newlines_nil : newlines [] = 0 := rfl

@[simp] theorem newlines_append (cs ds : List Char) :
    newlines (cs ++ ds) = newlines cs + newlines ds := List.count_append

@[simp] theorem newlines_break (cs : List Char) : newlines ('\n' :: cs) = newlines cs + 1 :=
  List.count_cons_self

theorem newlines_cons {c : Char} (within : c ≠ '\n') (cs : List Char) :
    newlines (c :: cs) = newlines cs := List.count_cons_of_ne within

theorem newlines_eq_zero {cs : List Char} (within : ∀ c ∈ cs, c ≠ '\n') : newlines cs = 0 :=
  List.count_eq_zero.2 fun mem => within '\n' mem rfl

theorem newlines_dropWhile {p : Char → Bool} (stops : p '\n' = false) (cs : List Char) :
    newlines (cs.dropWhile p) = newlines cs := by
  induction cs with
  | nil => rfl
  | cons c cs ih =>
    by_cases passes : p c = true
    · have within : c ≠ '\n' := by
        rintro rfl
        rw [stops] at passes
        cases passes
      rw [List.dropWhile_cons_of_pos passes, ih, newlines_cons within]
    · rw [List.dropWhile_cons_of_neg passes]

end Text

namespace Script
open Text

theorem escape_breaks (c : Char) (b : StringBody) :
    (b.escape c).breaks = newlines [c] + b.breaks := by
  by_cases broken : c = '\n'
  · subst broken
    simp [StringBody.escape, StringBody.broken, isQuote, Nat.add_comm]
  · rw [newlines_cons broken, newlines_nil, Nat.zero_add]
    unfold StringBody.escape
    repeat' split
    all_goals rfl

theorem escaped_breaks {c : Char} {rest : List Char} {b : StringBody}
    (passed : newlines rest = b.breaks + newlines b.rest) :
    newlines ('\\' :: c :: rest) = (b.escape c).breaks + newlines (b.escape c).rest := by
  have split : newlines ('\\' :: c :: rest) = newlines [c] + newlines rest := by
    rw [newlines_cons (by decide), ← List.singleton_append, newlines_append]
  rw [split, passed, escape_breaks, (escape_length c b).2, Nat.add_assoc]

theorem singleQuoted_breaks {q : Char} (quote : q ≠ '\n') {cs : List Char} {b : StringBody}
    (found : singleQuoted q cs = some b) : newlines cs = b.breaks + newlines b.rest := by
  fun_induction singleQuoted q cs generalizing b with
  | case1 => cases found
  | case2 c rest ih =>
    obtain ⟨b', found', rfl⟩ := Option.map_eq_some_iff.1 found
    exact escaped_breaks (ih found')
  | case3 c rest =>
    cases found
    rw [newlines_cons quote, Nat.zero_add]
  | case4 => cases found
  | case5 c rest _ _ plain ih =>
    obtain ⟨b', found', rfl⟩ := Option.map_eq_some_iff.1 found
    have within : c ≠ '\n' := by
      rintro rfl
      exact plain rfl
    have passed := ih found'
    rw [newlines_cons within]
    exact passed

theorem tripleQuoted_breaks {q : Char} (quote : q ≠ '\n') {cs : List Char} {b : StringBody}
    (found : tripleQuoted q cs = some b) : newlines cs = b.breaks + newlines b.rest := by
  fun_induction tripleQuoted q cs generalizing b with
  | case1 => cases found
  | case2 c rest ih =>
    obtain ⟨b', found', rfl⟩ := Option.map_eq_some_iff.1 found
    exact escaped_breaks (ih found')
  | case3 => cases found
  | case4 c rest _ _ closes =>
    cases found
    simp only [Bool.and_eq_true, decide_eq_true_eq, beq_iff_eq] at closes
    obtain ⟨rfl, two⟩ := closes
    match rest, two with
    | a :: d :: rest, two =>
      obtain ⟨rfl, rfl⟩ : a = c ∧ d = c := by simpa using two
      simp [newlines_cons quote]
  | case5 rest _ _ _ ih =>
    obtain ⟨b', found', rfl⟩ := Option.map_eq_some_iff.1 found
    have passed := ih found'
    simp only [newlines_break, StringBody.cons, StringBody.broken]
    omega
  | case6 c rest _ _ _ within ih =>
    obtain ⟨b', found', rfl⟩ := Option.map_eq_some_iff.1 found
    have passed := ih found'
    rw [newlines_cons within]
    exact passed

theorem within_of_isQuote {q : Char} (quote : isQuote q = true) : q ≠ '\n' := by
  rintro rfl
  cases quote

theorem quotedString_breaks {q : Char} (quote : isQuote q = true) {cs : List Char} {b : StringBody}
    (found : quotedString q cs = some b) : newlines cs = b.breaks + newlines b.rest := by
  have within := within_of_isQuote quote
  unfold quotedString at found
  split at found
  · rename_i two
    match cs, two with
    | a :: d :: cs, two =>
      obtain ⟨rfl, rfl⟩ : a = q ∧ d = q := by simpa using two
      rw [newlines_cons within, newlines_cons within]
      exact tripleQuoted_breaks within found
  · exact singleQuoted_breaks within found

theorem newlines_afterFraction (cs : List Char) :
    newlines (afterPart (fractionPart cs) cs) = newlines cs := by
  by_cases none : fractionPart cs = []
  · rw [none]
    rfl
  · obtain ⟨rest, rfl, -, after⟩ := fractionPart_elim none
    rw [after, newlines_dropWhile rfl, newlines_cons (by decide)]

theorem newlines_unsigned (cs : List Char) : newlines (unsigned cs) = newlines cs := by
  unfold unsigned signOf
  split
  · rw [newlines_cons (by decide)]
    rfl
  · rw [newlines_cons (by decide)]
    rfl
  · rfl

theorem newlines_afterExponent (cs : List Char) :
    newlines (afterPart (exponentPart cs) cs) = newlines cs := by
  by_cases none : exponentPart cs = []
  · rw [none]
    rfl
  · obtain ⟨e, rest, rfl, mark, -, -, after⟩ := exponentPart_elim none
    have within : e ≠ '\n' := by rcases mark with rfl | rfl <;> decide
    rw [after, newlines_dropWhile rfl, newlines_unsigned, newlines_cons within]

theorem number_unbroken {cs after : List Char} {t : Token} (read : number cs = .ok (t, after)) :
    newlines cs = newlines after := by
  rw [number_eq] at read
  rw [← (numberOf_rest read).1, afterExponent, newlines_afterExponent, afterFraction,
    newlines_afterFraction, afterWhole, newlines_dropWhile rfl]

theorem punctuation?_unbroken {c : Char} {rest after : List Char} {t : Token}
    (mark : punctuation? c rest = some (t, after)) : newlines (c :: rest) = newlines after := by
  have within : c ≠ '\n' := of_marks (· ≠ '\n') (by decide) mark
  rw [newlines_cons within]
  rcases punctuation?_elim mark with ⟨rfl, -⟩ | ⟨rfl, -⟩
  · exact newlines_cons (by decide) after
  · rfl

theorem nextToken_breaks {c : Char} {rest after : List Char} {t : Token} {n : Nat}
    (found : nextToken c rest = .ok (t, n, after)) :
    newlines (c :: rest) = n + newlines after := by
  have word : isWordChar '\n' = false := by decide
  unfold nextToken at found
  split at found
  · rename_i quote
    split at found
    · rename_i b body
      cases found
      rw [newlines_cons (within_of_isQuote quote)]
      exact quotedString_breaks quote body
    · cases found
  split at found
  · rename_i letter
    simp only [Bool.and_eq_true, Bool.or_eq_true, decide_eq_true_eq] at letter
    have within : c ≠ '\n' := by rcases letter.1 with rfl | rfl <;> decide
    split at found
    · rename_i q more
      have quote : isQuote q = true := by simpa using letter.2
      split at found
      · rename_i b body
        cases found
        rw [newlines_cons within, newlines_cons (within_of_isQuote quote)]
        exact quotedString_breaks quote body
      · cases found
    · cases found
  split at found
  · rename_i dollar
    split at found
    · cases found
      rw [newlines_cons (by rw [dollar]; decide), newlines_dropWhile word, Nat.zero_add]
    · cases found
  split at found
  · cases read : number (c :: rest) with
    | error e =>
      rw [read] at found
      cases found
    | ok r =>
      rw [read] at found
      cases found
      rw [number_unbroken read, Nat.zero_add]
  split at found
  · rename_i letter
    have within : c ≠ '\n' := by
      rintro rfl
      exact absurd letter (by decide)
    cases found
    rw [newlines_cons within, newlines_dropWhile word, Nat.zero_add]
  split at found
  · rename_i mark
    cases found
    rw [punctuation?_unbroken mark, Nat.zero_add]
  · cases found

theorem scan_step_lines {line p : Nat} {c : Char} {rest : List Char} {lexemes : List Lexeme}
    (ran : scan line p (c :: rest) = .ok lexemes) : ∃ emitted q text after more,
      StepAt p c rest emitted q after ∧ rest = text ++ after ∧
      scan (line + newlines (c :: text)) q after = .ok more ∧
      lexemes = emitted.map (⟨·, line⟩) ++ more := by
  have mapped {r : Except SyntaxError (List Lexeme)} {t : Token}
      (ran : r.map (⟨t, line⟩ :: ·) = .ok lexemes) :
      ∃ more, r = .ok more ∧ lexemes = [t].map (⟨·, line⟩) ++ more := by
    cases r with
    | error e => cases ran
    | ok more =>
      cases ran
      exact ⟨more, rfl, rfl⟩
  rw [scan_cons] at ran
  split at ran
  · rename_i skipped
    have within : c ≠ '\n' := by rcases eq_of_blank skipped with rfl | rfl | rfl <;> decide
    refine ⟨[], p, [], rest, lexemes, .blank skipped, rfl, ?_, rfl⟩
    rw [newlines_cons within]
    exact ran
  split at ran
  · rename_i broken
    subst broken
    split at ran
    · rename_i opened
      exact ⟨[], p, [], rest, lexemes, .inside rfl opened, rfl, ran, rfl⟩
    · rename_i closed
      obtain ⟨more, ran', same⟩ := mapped ran
      exact ⟨[.newline], p, [], rest, more, .outside rfl (Nat.eq_zero_of_not_pos closed), rfl, ran',
        same⟩
  split at ran
  · rename_i separates
    obtain ⟨more, ran', same⟩ := mapped ran
    refine ⟨[.newline], p, [], rest, more, .separator separates, rfl, ?_, same⟩
    rw [newlines_cons (by rw [separates]; decide)]
    exact ran'
  split at ran
  · rename_i starts
    have unbroken : newlines (rest.takeWhile (· ≠ '\n')) = 0 :=
      newlines_eq_zero fun d mem => by simpa using List.mem_takeWhile_imp mem
    refine ⟨[], p, rest.takeWhile (· ≠ '\n'), _, lexemes, .comment starts,
      List.takeWhile_append_dropWhile.symm, ?_, rfl⟩
    rw [newlines_cons (by rw [starts]; decide), unbroken]
    exact ran
  split at ran
  · cases ran
  · rename_i t n after found
    obtain ⟨more, ran', same⟩ := mapped ran
    obtain ⟨text, rfl⟩ := (tokenAt_of_nextToken found).suffix
    have passed := nextToken_breaks found
    rw [← List.cons_append, newlines_append] at passed
    refine ⟨[t], t.nesting p, text, after, more, .token found, rfl, ?_, same⟩
    rw [Nat.add_right_cancel passed]
    exact ran'

/-- How the tokens of a text follow one another, each with what stands before its first character.
    The end of the text is the last of them. -/
inductive Marked : List Char → Nat → List Char → List (List Char × Token) → Prop where
  | eof (front : List Char) (p : Nat) : Marked front p [] [(front, .eof)]
  | step {front : List Char} {p q : Nat} {c : Char} {rest text after : List Char}
    {emitted : List Token} {later : List (List Char × Token)}
    (first : StepAt p c rest emitted q after) (passed : rest = text ++ after)
    (more : Marked (front ++ c :: text) q after later) :
    Marked front p (c :: rest) (emitted.map (front, ·) ++ later)

/-- Tokens are on the lines on which they stand, if the first line is the one after as many line
    breaks as there are in front of the text. -/
theorem marked_of_scan {p : Nat} {front cs : List Char} {lexemes : List Lexeme}
    (ran : scan (1 + newlines front) p cs = .ok lexemes) :
    ∃ marks, Marked front p cs marks ∧
      lexemes = marks.map fun mark => ⟨mark.2, 1 + newlines mark.1⟩ := by
  induction h : cs.length using Nat.strongRecOn generalizing cs p front lexemes with
  | _ n ih =>
    cases cs with
    | nil =>
      rw [scan] at ran
      cases ran
      exact ⟨_, .eof front p, rfl⟩
    | cons c rest =>
      obtain ⟨emitted, q, text, after, more, first, rfl, ran', rfl⟩ := scan_step_lines ran
      rw [Nat.add_assoc, ← newlines_append] at ran'
      have shorter : after.length < n := by
        rw [← h, List.length_cons, List.length_append]
        omega
      obtain ⟨later, marked, rfl⟩ := ih after.length shorter ran' rfl
      refine ⟨_, .step first rfl marked, ?_⟩
      rw [List.map_append, List.map_map]
      rfl

end Script
end Playbook
