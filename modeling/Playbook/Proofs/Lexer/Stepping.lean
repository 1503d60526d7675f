import Playbook.Proofs.Parser.Reading

/- Tokens one step at a time. A step passes over a blank, a separator or a comment, or takes one
   token; lines only matter to messages. -/
namespace Playbook.Script

/-- One step from a character on, with so many brackets open: what it emits, how many brackets are
    open then, and what is left. None where there is no token. -/
def lexStep? (p : Nat) (c : Char) (rest : List Char) : Option (List Token × Nat × List Char) :=
  if c = ' ' || c = '\t' || c = '\r' then some ([], p, rest)
  else if c = '\n' then some (if 0 < p then [] else [.newline], p, rest)
  else if c = ';' then some ([.newline], p, rest)
  else if c = '#' then some ([], p, rest.dropWhile (· ≠ '\n'))
  else match nextToken c rest with
    | .error _ => none
    | .ok (t, _, after) => some ([t], t.nesting p, after)

inductive StepAt (p : Nat) (c : Char) (rest : List Char) : List Token → Nat → List Char → Prop where
  | blank (skipped : (c = ' ' || c = '\t' || c = '\r') = true) : StepAt p c rest [] p rest
  | inside (broken : c = '\n') (opened : 0 < p) : StepAt p c rest [] p rest
  | outside (broken : c = '\n') (closed : p = 0) : StepAt p c rest [.newline] p rest
  | separator (separates : c = ';') : StepAt p c rest [.newline] p rest
  | comment (starts : c = '#') : StepAt p c rest [] p (rest.dropWhile (· ≠ '\n'))
  | token {t : Token} {breaks : Nat} {after : List Char}
    (found : nextToken c rest = .ok (t, breaks, after)) :
    StepAt p c rest [t] (t.nesting p) after

theorem stepAt_of_lexStep? {p q : Nat} {c : Char} {rest after : List Char} {emitted : List Token}
    (step : lexStep? p c rest = some (emitted, q, after)) : StepAt p c rest emitted q after := by
  unfold lexStep? at step
  split at step
  · rename_i skipped
    cases step
    exact .blank skipped
  split at step
  · rename_i broken
    cases step
    split
    · rename_i opened
      exact .inside broken opened
    · rename_i closed
      exact .outside broken (Nat.eq_zero_of_not_pos closed)
  split at step
  · rename_i separates
    cases step
    exact .separator separates
  split at step
  · rename_i starts
    cases step
    exact .comment starts
  split at step
  · cases step
  · rename_i found
    cases step
    exact .token found

theorem scan_cons (line p : Nat) (c : Char) (rest : List Char) :
    scan line p (c :: rest) =
      if c = ' ' || c = '\t' || c = '\r' then scan line p rest
      else if c = '\n' then
        if 0 < p then scan (line + 1) p rest
        else (scan (line + 1) p rest).map (⟨.newline, line⟩ :: ·)
      else if c = ';' then (scan line p rest).map (⟨.newline, line⟩ :: ·)
      else if c = '#' then scan line p (rest.dropWhile (· ≠ '\n'))
      else match nextToken c rest with
        | .error fault => .error ⟨line, fault⟩
        | .ok (t, breaks, after) =>
          (scan (line + breaks) (t.nesting p) after).map (⟨t, line⟩ :: ·) := by
  rw [scan]
  cases nextToken c rest <;> rfl

theorem scan_of_lexStep? {p q : Nat} {c : Char} {rest after : List Char} {emitted : List Token}
    (step : lexStep? p c rest = some (emitted, q, after)) (line : Nat) :
    ∃ line' lexemes, tokensOf lexemes = emitted ∧
      scan line p (c :: rest) = (scan line' q after).map (lexemes ++ ·) := by
  have unchanged (r : Except SyntaxError (List Lexeme)) : r = r.map ([] ++ ·) := by
    cases r <;> rfl
  rw [scan_cons]
  unfold lexStep? at step
  split at step
  · rename_i blank
    cases step
    rw [if_pos blank]
    exact ⟨line, [], rfl, unchanged _⟩
  rename_i visible
  rw [if_neg visible]
  split at step
  · rename_i broken
    cases step
    rw [if_pos broken]
    by_cases inside : 0 < p
    · simp only [if_pos inside]
      exact ⟨line + 1, [], rfl, unchanged _⟩
    · simp only [if_neg inside]
      exact ⟨line + 1, [⟨.newline, line⟩], rfl, rfl⟩
  rename_i unbroken
  rw [if_neg unbroken]
  split at step
  · rename_i separated
    cases step
    rw [if_pos separated]
    exact ⟨line, [⟨.newline, line⟩], rfl, rfl⟩
  rename_i joined
  rw [if_neg joined]
  split at step
  · rename_i comment
    cases step
    rw [if_pos comment]
    exact ⟨line, [], rfl, unchanged _⟩
  rename_i code
  rw [if_neg code]
  split at step
  · cases step
  · rename_i t breaks after' found
    cases step
    exact ⟨line + breaks, [⟨t, line⟩], rfl, rfl⟩

theorem scan_of_no_lexStep {p : Nat} {c : Char} {rest : List Char}
    (stuck : lexStep? p c rest = none) (line : Nat) : ∃ e, scan line p (c :: rest) = .error e := by
  rw [scan_cons]
  unfold lexStep? at stuck
  split at stuck
  · cases stuck
  rename_i visible
  rw [if_neg visible]
  split at stuck
  · cases stuck
  rename_i unbroken
  rw [if_neg unbroken]
  split at stuck
  · cases stuck
  rename_i joined
  rw [if_neg joined]
  split at stuck
  · cases stuck
  rename_i code
  rw [if_neg code]
  split at stuck
  · exact ⟨_, rfl⟩
  · cases stuck

def Scans (p : Nat) (cs : List Char) (ts : List Token) : Prop :=
  ∀ line, ∃ lexemes, scan line p cs = .ok lexemes ∧ tokensOf lexemes = ts

theorem scans_nil (p : Nat) : Scans p [] [.eof] := by
  intro line
  rw [scan]
  exact ⟨_, rfl, rfl⟩

theorem scans_step {p q : Nat} {c : Char} {rest after : List Char} {emitted ts : List Token}
    (step : lexStep? p c rest = some (emitted, q, after)) (scans : Scans q after ts) :
    Scans p (c :: rest) (emitted ++ ts) := by
  intro line
  obtain ⟨line', lexemes, tokens, ran⟩ := scan_of_lexStep? step line
  obtain ⟨more, ran', tokens'⟩ := scans line'
  exact ⟨lexemes ++ more, by rw [ran, ran']; rfl, by rw [tokensOf_append, tokens, tokens']⟩

theorem lexStep?_lt {p q : Nat} {c : Char} {rest after : List Char} {emitted : List Token}
    (step : lexStep? p c rest = some (emitted, q, after)) : after.length ≤ rest.length := by
  cases stepAt_of_lexStep? step with
  | blank | inside | outside | separator => exact Nat.le_refl _
  | comment => exact (List.dropWhile_suffix _).length_le
  | token found => exact nextToken_rest_le c rest found

theorem scans_elim {p line : Nat} {c : Char} {rest : List Char} {lexemes : List Lexeme}
    (ran : scan line p (c :: rest) = .ok lexemes) :
    ∃ emitted q after line' more, lexStep? p c rest = some (emitted, q, after) ∧
      scan line' q after = .ok more ∧ tokensOf lexemes = emitted ++ tokensOf more := by
  cases step : lexStep? p c rest with
  | none =>
    obtain ⟨e, failed⟩ := scan_of_no_lexStep step line
    rw [failed] at ran
    cases ran
  | some r =>
    obtain ⟨emitted, q, after⟩ := r
    obtain ⟨line', first, tokens, split⟩ := scan_of_lexStep? step line
    rw [split] at ran
    cases later : scan line' q after with
    | error e =>
      rw [later] at ran
      cases ran
    | ok more =>
      rw [later] at ran
      cases ran
      exact ⟨emitted, q, after, line', more, rfl, later, by rw [tokensOf_append, tokens]⟩

theorem scans_of_scan {p line : Nat} {cs : List Char} {lexemes : List Lexeme}
    (ran : scan line p cs = .ok lexemes) : Scans p cs (tokensOf lexemes) := by
  induction h : cs.length using Nat.strongRecOn generalizing cs p line lexemes with
  | _ n ih =>
    cases cs with
    | nil =>
      rw [scan] at ran
      cases ran
      exact scans_nil p
    | cons c rest =>
      obtain ⟨emitted, q, after, line', more, step, ran', tokens⟩ := scans_elim ran
      have shorter := lexStep?_lt step
      rw [tokens]
      refine scans_step step (ih after.length ?_ ran' rfl)
      simp only [List.length_cons] at h
      omega

theorem scans_cons {p : Nat} {c : Char} {rest : List Char} {ts : List Token}
    (scans : Scans p (c :: rest) ts) :
    ∃ emitted q after more, lexStep? p c rest = some (emitted, q, after) ∧ Scans q after more ∧
      ts = emitted ++ more := by
  obtain ⟨lexemes, ran, rfl⟩ := scans 1
  obtain ⟨emitted, q, after, line, more, step, ran', tokens⟩ := scans_elim ran
  exact ⟨emitted, q, after, tokensOf more, step, scans_of_scan ran', tokens⟩

theorem scans_unique {p : Nat} {cs : List Char} {ts us : List Token} (first : Scans p cs ts)
    (second : Scans p cs us) : ts = us := by
  obtain ⟨lexemes, ran, rfl⟩ := first 1
  obtain ⟨lexemes', ran', rfl⟩ := second 1
  rw [ran] at ran'
  cases ran'
  rfl

theorem Scans.induction {motive : ∀ p cs ts, Scans p cs ts → Prop}
    (nil : ∀ p, motive p [] [.eof] (scans_nil p))
    (step : ∀ {p q c rest after emitted more}
      (first : lexStep? p c rest = some (emitted, q, after)) (later : Scans q after more),
      motive q after more later → motive p (c :: rest) (emitted ++ more) (scans_step first later))
    (p : Nat) (cs : List Char) (ts : List Token) (scans : Scans p cs ts) :
    motive p cs ts scans := by
  induction h : cs.length using Nat.strongRecOn generalizing cs p ts with
  | _ n ih =>
    match cs with
    | [] =>
      cases scans_unique scans (scans_nil p)
      exact nil p
    | c :: rest =>
      obtain ⟨emitted, q, after, more, first, later, rfl⟩ := scans_cons scans
      have short := lexStep?_lt first
      simp only [List.length_cons] at h
      exact step first later (ih after.length (by omega) q after more later rfl)

end Playbook.Script
