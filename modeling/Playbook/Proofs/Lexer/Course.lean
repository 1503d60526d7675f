import Playbook.Proofs.Lexer.Cut

/- Several steps of reading tokens. They follow one another, and the part of a text that has been
   read can be cut off from the rest. -/
namespace Playbook.Script

theorem singleQuoted_suffix {q : Char} {cs : List Char} {b : StringBody}
    (found : singleQuoted q cs = some b) : b.rest <:+ cs := by
  fun_induction singleQuoted q cs generalizing b with
  | case1 => cases found
  | case2 c rest ih =>
    obtain ⟨b', found', rfl⟩ := Option.map_eq_some_iff.1 found
    rw [(escape_length c b').2]
    exact (ih found').trans ((List.suffix_cons c rest).trans (List.suffix_cons _ _))
  | case3 =>
    cases found
    exact List.suffix_cons _ _
  | case4 => cases found
  | case5 c rest _ _ _ ih =>
    obtain ⟨b', found', rfl⟩ := Option.map_eq_some_iff.1 found
    exact (ih found').trans (List.suffix_cons c rest)

theorem tripleQuoted_suffix {q : Char} {cs : List Char} {b : StringBody}
    (found : tripleQuoted q cs = some b) : b.rest <:+ cs := by
  fun_induction tripleQuoted q cs generalizing b with
  | case1 => cases found
  | case2 c rest ih =>
    obtain ⟨b', found', rfl⟩ := Option.map_eq_some_iff.1 found
    rw [(escape_length c b').2]
    exact (ih found').trans ((List.suffix_cons c rest).trans (List.suffix_cons _ _))
  | case3 => cases found
  | case4 c rest =>
    cases found
    exact (List.drop_suffix 2 rest).trans (List.suffix_cons c rest)
  | case5 rest _ _ _ ih | case6 _ rest _ _ _ _ ih =>
    obtain ⟨b', found', rfl⟩ := Option.map_eq_some_iff.1 found
    exact (ih found').trans (List.suffix_cons _ rest)

theorem quotedString_suffix {q : Char} {cs : List Char} {b : StringBody}
    (found : quotedString q cs = some b) : b.rest <:+ cs := by
  unfold quotedString at found
  split at found
  · exact (tripleQuoted_suffix found).trans (List.drop_suffix 2 cs)
  · exact singleQuoted_suffix found

theorem number_suffix {c : Char} {rest after : List Char} {t : Token}
    (digit : Text.isAsciiDigit c = true) (read : number (c :: rest) = .ok (t, after)) :
    after <:+ rest := by
  rw [number_eq] at read
  obtain ⟨left, -⟩ := numberOf_rest read
  have whole : afterWhole (c :: rest) <:+ rest := by
    rw [afterWhole, List.dropWhile_cons_of_pos digit]
    exact List.dropWhile_suffix _
  rw [← left]
  exact (afterPart_suffix _ _).trans ((afterPart_suffix _ _).trans whole)

theorem TokenAt.suffix {c : Char} {rest after : List Char} {t : Token}
    (found : TokenAt c rest t after) : after <:+ rest := by
  cases found with
  | string quote body => exact quotedString_suffix body
  | @template letter q more starts quote b body =>
    subst starts
    exact (quotedString_suffix body).trans (List.suffix_cons q more)
  | dollar | word => exact List.dropWhile_suffix _
  | number digit read => exact number_suffix digit read
  | punctuation mark =>
    rcases punctuation?_elim mark with ⟨rfl, -⟩ | ⟨rfl, -⟩
    · exact List.suffix_cons _ _
    · exact List.suffix_refl _

theorem lexStep?_suffix {p q : Nat} {c : Char} {rest after : List Char} {emitted : List Token}
    (step : lexStep? p c rest = some (emitted, q, after)) : after <:+ rest := by
  cases stepAt_of_lexStep? step with
  | blank | inside | outside | separator => exact List.suffix_refl _
  | comment => exact List.dropWhile_suffix _
  | token found => exact (tokenAt_of_nextToken found).suffix

/-- Steps from one place of a text to another: the tokens emitted, and how many brackets are open
    before and after them. -/
inductive Lexes : Nat → List Char → List Token → Nat → List Char → Prop where
  | refl (p : Nat) (cs : List Char) : Lexes p cs [] p cs
  | step {p q r : Nat} {c : Char} {rest mid after : List Char} {emitted ts : List Token}
    (first : lexStep? p c rest = some (emitted, q, mid)) (more : Lexes q mid ts r after) :
    Lexes p (c :: rest) (emitted ++ ts) r after

theorem Lexes.append {p q r : Nat} {cs mid after : List Char} {ts us : List Token}
    (first : Lexes p cs ts q mid) (second : Lexes q mid us r after) :
    Lexes p cs (ts ++ us) r after := by
  induction first with
  | refl => exact second
  | step first _ ih =>
    rw [List.append_assoc]
    exact .step first (ih second)

theorem Lexes.scans {p q : Nat} {cs mid : List Char} {ts us : List Token}
    (lexes : Lexes p cs ts q mid) (rest : Scans q mid us) : Scans p cs (ts ++ us) := by
  induction lexes with
  | refl => exact rest
  | step first _ ih =>
    rw [List.append_assoc]
    exact scans_step first (ih rest)

theorem Lexes.suffix {p q : Nat} {cs after : List Char} {ts : List Token}
    (lexes : Lexes p cs ts q after) : after <:+ cs := by
  induction lexes with
  | refl => exact List.suffix_refl _
  | step first _ ih =>
    exact ih.trans ((lexStep?_suffix first).trans (List.suffix_cons _ _))

theorem Lexes.cut {p q : Nat} {u v z : List Char} {ts : List Token}
    (lexes : Lexes p (u ++ z) ts q (v ++ z)) : Lexes p u ts q v := by
  generalize whole : u ++ z = cs at lexes
  generalize left : v ++ z = after at lexes
  induction lexes generalizing u with
  | refl p cs =>
    subst left
    rw [List.append_cancel_right whole]
    exact .refl p v
  | @step p q r c rest mid after emitted ts first more ih =>
    -- What a step leaves still ends in the text that is cut off.
    obtain ⟨w, rfl⟩ := append_of_suffix (left ▸ more.suffix)
    have short := (lexStep?_suffix first).length_le
    match u with
    | [] =>
      have lengths := congrArg List.length whole
      simp only [List.nil_append, List.length_cons, List.length_append] at lengths short
      omega
    | d :: u =>
      obtain ⟨rfl, rfl⟩ := List.cons.inj whole
      exact .step (lexStep?_cut first) (ih rfl left)

end Playbook.Script
