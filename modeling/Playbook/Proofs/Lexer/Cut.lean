import Playbook.Proofs.Lexer.Cost
import Playbook.Proofs.Lexer.Shapes
import Playbook.Proofs.Lexer.Stepping

/- Tokens of a text that is cut off behind them. What has been read without the rest of a text is
   read the same way when the rest is not there. -/
namespace Playbook.Script

theorem eq_nil_of_append_suffix {u z : List Char} (suffix : u ++ z <:+ z) : u = [] := by
  have := suffix.length_le
  rw [List.length_append] at this
  exact List.length_eq_zero_iff.1 (by omega)

theorem dropWhile_cut {p : Char → Bool} {u v z : List Char}
    (left : (u ++ z).dropWhile p = v ++ z) :
    u.dropWhile p = v ∧ (u ++ z).takeWhile p = u.takeWhile p := by
  induction u with
  | nil =>
    have none : v = [] := eq_nil_of_append_suffix (left ▸ List.dropWhile_suffix p)
    subst none
    refine ⟨rfl, ?_⟩
    have split := List.takeWhile_append_dropWhile (p := p) (l := z)
    rw [show z.dropWhile p = z from left] at split
    exact List.append_left_eq_self.1 split
  | cons c u ih =>
    by_cases passes : p c = true
    · rw [List.cons_append, List.dropWhile_cons_of_pos passes] at left
      rw [List.cons_append, List.dropWhile_cons_of_pos passes, List.takeWhile_cons_of_pos passes,
        List.takeWhile_cons_of_pos passes, (ih left).2]
      exact ⟨(ih left).1, rfl⟩
    · rw [List.cons_append, List.dropWhile_cons_of_neg passes] at left
      rw [List.cons_append, List.dropWhile_cons_of_neg passes, List.takeWhile_cons_of_neg passes,
        List.takeWhile_cons_of_neg passes]
      exact ⟨List.append_cancel_right left, rfl⟩

theorem escape_with_rest (c : Char) (b : StringBody) (v : List Char) :
    ({ b with rest := v } : StringBody).escape c = { b.escape c with rest := v } := by
  unfold StringBody.escape
  repeat' split
  all_goals rfl

theorem singleQuoted_cons {q c : Char} (plain : c ≠ '\\') (rest : List Char) :
    singleQuoted q (c :: rest) = if c = q then some ⟨[], 0, rest⟩
      else if c = '\n' then none else (singleQuoted q rest).map (·.cons c) := by
  rw [singleQuoted]
  · simp [plain]
  · exact fun _ _ same _ => plain same

theorem tripleQuoted_cons {q c : Char} (plain : c ≠ '\\') (rest : List Char) :
    tripleQuoted q (c :: rest) =
      if c = q && rest.take 2 == [q, q] then some ⟨[], 0, rest.drop 2⟩
      else if c = '\n' then (tripleQuoted q rest).map fun b => b.broken.cons c
      else (tripleQuoted q rest).map (·.cons c) := by
  rw [tripleQuoted]
  · simp [plain]
  · exact fun _ _ same _ => plain same

structure Quoted (f : List Char → Option StringBody) : Prop where
  shorter : ∀ cs b, f cs = some b → b.rest.length < cs.length
  escaped : ∀ c rest, f ('\\' :: c :: rest) = (f rest).map (·.escape c)

/-- A string that has been closed is there without what follows it. -/
def CutShort (f : List Char → Option StringBody) (u : List Char) : Prop :=
  ∀ b v z, f (u ++ z) = some b → b.rest = v ++ z → f u = some { b with rest := v }

theorem cutShort_nil {f : List Char → Option StringBody} (quoted : Quoted f) : CutShort f [] := by
  intro b v z found left
  have := quoted.shorter z b found
  rw [left, List.length_append] at this
  omega

theorem cutShort_escape {f : List Char → Option StringBody} (quoted : Quoted f) {u : List Char}
    (shorter : ∀ w, w.length ≤ u.length → CutShort f w) : CutShort f ('\\' :: u) := by
  intro b v z found left
  match u, z with
  | [], [] =>
    rw [List.append_nil] at found left
    rw [← left]
    exact found
  | [], c :: z =>
    have short := quoted.shorter
    rw [List.cons_append, List.nil_append, quoted.escaped] at found
    obtain ⟨b', found', rfl⟩ := Option.map_eq_some_iff.1 found
    have := quoted.shorter z b' found'
    rw [(escape_length c b').2] at left
    rw [left, List.length_append, List.length_cons] at this
    omega
  | c :: u, z =>
    rw [List.cons_append, List.cons_append, quoted.escaped] at found
    obtain ⟨b', found', rfl⟩ := Option.map_eq_some_iff.1 found
    rw [(escape_length c b').2] at left
    rw [quoted.escaped, shorter u (Nat.le_succ _) b' v z found' left, Option.map_some,
      escape_with_rest]

theorem quoted_singleQuoted (q : Char) : Quoted (singleQuoted q) :=
  ⟨fun cs _ => singleQuoted_rest_le q cs, fun _ _ => rfl⟩

theorem quoted_tripleQuoted (q : Char) : Quoted (tripleQuoted q) :=
  ⟨fun cs _ => tripleQuoted_rest_le q cs, fun _ _ => rfl⟩

theorem singleQuoted_cut (q : Char) (u : List Char) : CutShort (singleQuoted q) u := by
  induction h : u.length using Nat.strongRecOn generalizing u with
  | _ n ih =>
    match u with
    | [] => exact cutShort_nil (quoted_singleQuoted q)
    | c :: u =>
      simp only [List.length_cons] at h
      by_cases slash : c = '\\'
      · subst slash
        exact cutShort_escape (quoted_singleQuoted q) fun w short => ih w.length (by omega) w rfl
      intro b v z found left
      rw [List.cons_append, singleQuoted_cons slash] at found
      rw [singleQuoted_cons slash]
      by_cases closes : c = q
      · rw [if_pos closes] at found ⊢
        cases found
        rw [List.append_cancel_right left]
      rw [if_neg closes] at found ⊢
      by_cases broken : c = '\n'
      · rw [if_pos broken] at found
        cases found
      rw [if_neg broken] at found ⊢
      obtain ⟨b', found', rfl⟩ := Option.map_eq_some_iff.1 found
      rw [ih u.length (by omega) u rfl b' v z found' left]
      rfl

theorem take_cut {u z : List Char} {q : Char} (two : u.take 2 = [q, q]) :
    (u ++ z).take 2 = [q, q] := by
  match u with
  | a :: b :: u => exact two

theorem two_of_cut {u v z : List Char} {q : Char} (two : (u ++ z).take 2 = [q, q])
    (left : v.length + z.length + 2 ≤ (u ++ z).length) : ∃ w, u = q :: q :: w := by
  match u with
  | [] =>
    rw [List.nil_append] at left
    omega
  | [_] =>
    rw [List.length_append, List.length_singleton] at left
    omega
  | a :: b :: w =>
    simp only [List.cons_append, List.take_succ_cons, List.take_zero, List.cons.injEq] at two
    obtain ⟨rfl, rfl, -⟩ := two
    exact ⟨w, rfl⟩

theorem tripleQuoted_cut (q : Char) (u : List Char) : CutShort (tripleQuoted q) u := by
  induction h : u.length using Nat.strongRecOn generalizing u with
  | _ n ih =>
    match u with
    | [] => exact cutShort_nil (quoted_tripleQuoted q)
    | c :: u =>
      simp only [List.length_cons] at h
      by_cases slash : c = '\\'
      · subst slash
        exact cutShort_escape (quoted_tripleQuoted q) fun w short => ih w.length (by omega) w rfl
      intro b v z found left
      rw [List.cons_append, tripleQuoted_cons slash] at found
      rw [tripleQuoted_cons slash]
      by_cases closes : (c = q && (u ++ z).take 2 == [q, q]) = true
      · rw [if_pos closes] at found
        cases found
        simp only [Bool.and_eq_true, decide_eq_true_eq, beq_iff_eq] at closes
        -- The three quotes are in the text, as what is left comes after them.
        have lengths := congrArg List.length closes.2
        have same := congrArg List.length left
        simp only [List.length_take, List.length_drop, List.length_append, List.length_cons,
          List.length_nil] at lengths same
        obtain ⟨w, rfl⟩ := two_of_cut (v := v) closes.2 (by rw [List.length_append]; omega)
        rw [List.append_cancel_right (left : w ++ z = v ++ z)]
        simp [closes.1]
      rw [if_neg closes] at found
      have opened : ¬(c = q && u.take 2 == [q, q]) = true := by
        intro now
        simp only [Bool.and_eq_true, decide_eq_true_eq, beq_iff_eq] at now closes
        exact closes ⟨now.1, take_cut now.2⟩
      rw [if_neg opened]
      have step (b' : StringBody) (found' : tripleQuoted q (u ++ z) = some b')
          (left : b'.rest = v ++ z) : tripleQuoted q u = some { b' with rest := v } :=
        ih u.length (by omega) u rfl b' v z found' left
      by_cases broken : c = '\n'
      · rw [if_pos broken] at found ⊢
        obtain ⟨b', found', rfl⟩ := Option.map_eq_some_iff.1 found
        rw [step b' found' left]
        rfl
      · rw [if_neg broken] at found ⊢
        obtain ⟨b', found', rfl⟩ := Option.map_eq_some_iff.1 found
        rw [step b' found' left]
        rfl

theorem quotedString_cut (q : Char) (u : List Char) : CutShort (quotedString q) u := by
  intro b v z found left
  unfold quotedString at found ⊢
  by_cases triple : ((u ++ z).take 2 == [q, q]) = true
  · rw [if_pos triple] at found
    have short := tripleQuoted_rest_le q _ found
    rw [left, List.length_drop, List.length_append] at short
    obtain ⟨w, rfl⟩ := two_of_cut (v := v) (eq_of_beq triple) (by omega)
    rw [if_pos (by simp)]
    exact tripleQuoted_cut q w b v z found left
  · rw [if_neg triple] at found
    have single : ¬(u.take 2 == [q, q]) = true := by
      intro two
      exact triple (by rw [take_cut (eq_of_beq two)]; exact beq_self_eq_true _)
    rw [if_neg single]
    exact singleQuoted_cut q u b v z found left

theorem drop_takeWhile (p : Char → Bool) (cs : List Char) :
    cs.drop (cs.takeWhile p).length = cs.dropWhile p := by
  have split := List.takeWhile_append_dropWhile (p := p) (l := cs)
  conv => lhs; rhs; rw [← split]
  exact List.drop_left

theorem takeWhile_append_ne_nil {p : Char → Bool} {u : List Char} (some : u.takeWhile p ≠ [])
    (z : List Char) : (u ++ z).takeWhile p ≠ [] := by
  match u with
  | c :: u =>
    by_cases passes : p c = true
    · rw [List.cons_append, List.takeWhile_cons_of_pos passes]
      exact List.cons_ne_nil _ _
    · rw [List.takeWhile_cons_of_neg passes] at some
      exact absurd rfl some

theorem afterPart_suffix (part cs : List Char) : afterPart part cs <:+ cs := by
  unfold afterPart
  split
  · exact List.suffix_refl cs
  · exact List.drop_suffix _ _

theorem fractionPart_elim {cs : List Char} (some : fractionPart cs ≠ []) :
    ∃ rest, cs = '.' :: rest ∧ fractionPart cs = rest.takeWhile Text.isAsciiDigit ∧
      afterPart (fractionPart cs) cs = rest.dropWhile Text.isAsciiDigit := by
  have nonempty : (fractionPart cs).isEmpty = false := by simpa using some
  rw [afterPart, nonempty, if_neg Bool.false_ne_true]
  unfold fractionPart at some ⊢
  split at some
  · split at some
    · rename_i c rest digit
      refine ⟨c :: rest, rfl, by simp only [digit, if_true], ?_⟩
      simp only [digit, if_true, List.drop_succ_cons, drop_takeWhile]
    · exact absurd rfl some
  · exact absurd rfl some

theorem fractionPart_of_digits {rest : List Char}
    (some : rest.takeWhile Text.isAsciiDigit ≠ []) :
    fractionPart ('.' :: rest) = rest.takeWhile Text.isAsciiDigit := by
  match rest with
  | c :: rest =>
    by_cases digit : Text.isAsciiDigit c = true
    · simp only [fractionPart, digit, if_true]
    · rw [List.takeWhile_cons_of_neg digit] at some
      exact absurd rfl some

theorem fractionPart_cut {w v z : List Char}
    (left : afterPart (fractionPart (w ++ z)) (w ++ z) = v ++ z) :
    fractionPart (w ++ z) = fractionPart w ∧ afterPart (fractionPart w) w = v := by
  by_cases none : fractionPart (w ++ z) = []
  · rw [none] at left
    have same : w = v := List.append_cancel_right left
    -- A fraction of the shorter text would be one of the longer text, too.
    have none' : fractionPart w = [] := by
      by_cases some : fractionPart w = []
      · exact some
      obtain ⟨rest, rfl, part, -⟩ := fractionPart_elim some
      rw [part] at some
      have more := takeWhile_append_ne_nil some z
      rw [List.cons_append, fractionPart_of_digits more] at none
      exact absurd none more
    rw [none, none', same]
    exact ⟨rfl, rfl⟩
  · obtain ⟨rest, split, part, after⟩ := fractionPart_elim none
    rw [after] at left
    match w with
    | [] =>
      have := (left ▸ List.dropWhile_suffix Text.isAsciiDigit : v ++ z <:+ rest).length_le
      rw [List.length_append] at this
      rw [List.nil_append] at split
      rw [split, List.length_cons] at this
      omega
    | d :: w =>
      rw [List.cons_append] at split
      obtain ⟨rfl, rfl⟩ := List.cons.inj split
      obtain ⟨cut, same⟩ := dropWhile_cut left
      rw [part, same] at none
      have here := fractionPart_of_digits none
      obtain ⟨rest', split', -, after'⟩ := fractionPart_elim (here ▸ none)
      obtain ⟨-, rfl⟩ := List.cons.inj split'
      rw [part, same, here]
      exact ⟨rfl, by rw [← here, after', cut]⟩

def signOf : List Char → List Char
  | '+' :: _ => ['+']
  | '-' :: _ => ['-']
  | _ => []

def unsigned (rest : List Char) : List Char := rest.drop (signOf rest).length

theorem unsigned_append {w : List Char} (nonempty : w ≠ []) (z : List Char) :
    signOf (w ++ z) = signOf w ∧ unsigned (w ++ z) = unsigned w ++ z := by
  match w with
  | c :: w =>
    have same : signOf (c :: w ++ z) = signOf (c :: w) := by
      by_cases plus : c = '+'
      · subst plus
        rfl
      by_cases minus : c = '-'
      · subst minus
        rfl
      rw [List.cons_append]
      simp [signOf, plus, minus]
    refine ⟨same, ?_⟩
    rw [unsigned, unsigned, same]
    apply List.drop_append_of_le_length
    unfold signOf
    split <;> simp

theorem exponentPart_cons (e : Char) (rest : List Char) : exponentPart (e :: rest) =
    if e = 'e' ∨ e = 'E' then
      if (unsigned rest).takeWhile Text.isAsciiDigit = [] then []
      else signOf rest ++ (unsigned rest).takeWhile Text.isAsciiDigit
    else [] := by
  simp only [exponentPart, unsigned, signOf, Bool.or_eq_true, decide_eq_true_eq,
    List.isEmpty_iff]
  rfl

theorem exponentPart_elim {cs : List Char} (some : exponentPart cs ≠ []) :
    ∃ e rest, cs = e :: rest ∧ (e = 'e' ∨ e = 'E') ∧
      (unsigned rest).takeWhile Text.isAsciiDigit ≠ [] ∧
      exponentPart cs = signOf rest ++ (unsigned rest).takeWhile Text.isAsciiDigit ∧
      afterPart (exponentPart cs) cs = (unsigned rest).dropWhile Text.isAsciiDigit := by
  match cs with
  | [] => exact absurd rfl some
  | e :: rest =>
    have nonempty : (exponentPart (e :: rest)).isEmpty = false := by simpa using some
    rw [afterPart, nonempty, if_neg Bool.false_ne_true]
    rw [exponentPart_cons] at some ⊢
    by_cases mark : e = 'e' ∨ e = 'E'
    · rw [if_pos mark] at some ⊢
      by_cases none : (unsigned rest).takeWhile Text.isAsciiDigit = []
      · rw [if_pos none] at some
        exact absurd rfl some
      · rw [if_neg none]
        refine ⟨e, rest, rfl, mark, none, rfl, ?_⟩
        rw [List.drop_succ_cons, List.length_append, ← List.drop_drop]
        exact drop_takeWhile _ _
    · rw [if_neg mark] at some
      exact absurd rfl some

theorem exponentPart_cut {w v z : List Char}
    (left : afterPart (exponentPart (w ++ z)) (w ++ z) = v ++ z) :
    exponentPart (w ++ z) = exponentPart w ∧ afterPart (exponentPart w) w = v := by
  by_cases none : exponentPart (w ++ z) = []
  · rw [none] at left
    have same : w = v := List.append_cancel_right left
    have none' : exponentPart w = [] := by
      by_cases some : exponentPart w = []
      · exact some
      obtain ⟨e, rest, rfl, mark, digits, -⟩ := exponentPart_elim some
      have nonempty : rest ≠ [] := by
        rintro rfl
        exact digits rfl
      have more := takeWhile_append_ne_nil digits z
      rw [← (unsigned_append nonempty z).2] at more
      rw [List.cons_append, exponentPart_cons, if_pos mark, if_neg more] at none
      exact absurd (List.append_eq_nil_iff.1 none).2 more
    rw [none, none', same]
    exact ⟨rfl, rfl⟩
  · obtain ⟨e, rest, split, mark, digits, part, after⟩ := exponentPart_elim none
    rw [after] at left
    -- There is a digit, so what is left starts behind the mark and the sign.
    have short : v.length + z.length < rest.length := by
      have all := congrArg List.length
        (List.takeWhile_append_dropWhile (p := Text.isAsciiDigit) (l := unsigned rest))
      have some := List.length_pos_iff.2 digits
      rw [left, List.length_append, List.length_append] at all
      simp only [unsigned, List.length_drop] at all some
      omega
    match w with
    | [] =>
      rw [List.nil_append] at split
      rw [split, List.length_cons] at short
      omega
    | [_] =>
      have same : z = rest := (List.cons.inj split).2
      rw [same] at short
      omega
    | d :: c :: w =>
      rw [List.cons_append] at split
      obtain ⟨rfl, rfl⟩ := List.cons.inj split
      obtain ⟨sameSign, sameDigits⟩ := unsigned_append (List.cons_ne_nil c w) z
      rw [sameDigits] at left digits part
      obtain ⟨cut, same⟩ := dropWhile_cut left
      rw [same] at digits part
      have here : exponentPart (d :: c :: w) =
          signOf (c :: w) ++ (unsigned (c :: w)).takeWhile Text.isAsciiDigit := by
        rw [exponentPart_cons, if_pos mark, if_neg digits]
      rw [part, sameSign, here]
      refine ⟨rfl, ?_⟩
      have some : exponentPart (d :: c :: w) ≠ [] := by
        rw [here]
        exact fun none => digits (List.append_eq_nil_iff.1 none).2
      obtain ⟨_, _, split', -, -, -, after'⟩ := exponentPart_elim some
      obtain ⟨-, rfl⟩ := List.cons.inj split'
      rw [← here, after', cut]

def numberOf (whole fraction expo rest : List Char) : Except SyntaxFault (Token × List Char) :=
  if fraction.isEmpty && expo.isEmpty then
    match Word.ofInt? (Decimal.valueOf whole) with
    | some n => .ok (.int n, rest)
    | none => .error (.intTooLarge (String.ofList whole))
  else
    .ok (.float (Decimal.nearest (Decimal.valueOf (whole ++ fraction))
      ((Decimal.readInt? expo).getD 0 - fraction.length)), rest)

def afterWhole (cs : List Char) : List Char := cs.dropWhile Text.isAsciiDigit

def afterFraction (cs : List Char) : List Char :=
  afterPart (fractionPart (afterWhole cs)) (afterWhole cs)

def afterExponent (cs : List Char) : List Char :=
  afterPart (exponentPart (afterFraction cs)) (afterFraction cs)

theorem number_eq (cs : List Char) : number cs =
    numberOf (cs.takeWhile Text.isAsciiDigit) (fractionPart (afterWhole cs))
      (exponentPart (afterFraction cs)) (afterExponent cs) := rfl

theorem numberOf_rest {whole fraction expo rest after : List Char} {t : Token}
    (read : numberOf whole fraction expo rest = .ok (t, after)) :
    rest = after ∧ ∀ rest', numberOf whole fraction expo rest' = .ok (t, rest') := by
  unfold numberOf at read ⊢
  split at read
  · rename_i whole'
    split at read
    · rename_i n fits
      cases read
      refine ⟨rfl, fun rest' => ?_⟩
      rw [if_pos whole']
    · cases read
  · rename_i parts
    cases read
    refine ⟨rfl, fun rest' => ?_⟩
    rw [if_neg parts]

theorem append_of_suffix {cs v z : List Char} (suffix : v ++ z <:+ cs) : ∃ w, cs = w ++ z := by
  obtain ⟨y, rfl⟩ := suffix
  exact ⟨y ++ v, (List.append_assoc y v z).symm⟩

theorem number_cut {u v z : List Char} {t : Token} (read : number (u ++ z) = .ok (t, v ++ z)) :
    number u = .ok (t, v) := by
  rw [number_eq] at read ⊢
  obtain ⟨left₃, elsewhere⟩ := numberOf_rest read
  -- Each part leaves a text that still ends in what is cut off.
  have suffix₂ : v ++ z <:+ afterFraction (u ++ z) := left₃ ▸ afterPart_suffix _ _
  obtain ⟨w₂, left₂⟩ := append_of_suffix suffix₂
  have suffix₁ : w₂ ++ z <:+ afterWhole (u ++ z) := left₂ ▸ afterPart_suffix _ _
  obtain ⟨w₁, left₁⟩ := append_of_suffix suffix₁
  obtain ⟨cut₁, whole⟩ := dropWhile_cut left₁
  have here₁ : afterWhole u = w₁ := cut₁
  unfold afterExponent at left₃
  rw [left₂] at left₃ elsewhere
  unfold afterFraction at left₂
  rw [left₁] at left₂ elsewhere
  obtain ⟨fraction, cut₂⟩ := fractionPart_cut left₂
  have here₂ : afterFraction u = w₂ := by rw [afterFraction, here₁, cut₂]
  obtain ⟨expo, cut₃⟩ := exponentPart_cut left₃
  rw [whole, fraction, expo] at elsewhere
  rw [afterExponent, here₁, here₂, cut₃]
  exact elsewhere v

/-- A mark of two characters ends in an equals sign; one of one character is not followed by it if
    together they were another mark. -/
theorem punctuation?_elim {c : Char} {rest after : List Char} {t : Token}
    (mark : punctuation? c rest = some (t, after)) :
    (rest = '=' :: after ∧ ∀ more, punctuation? c ('=' :: more) = some (t, more)) ∨
    (rest = after ∧ ∀ more, (∀ r, more = '=' :: r → ∃ r', rest = '=' :: r') →
      punctuation? c more = some (t, more)) := by
  have lone {c : Char} {t : Token} {rest : List Char} (other : ∀ r, rest ≠ '=' :: r)
      (single : ∀ more, (∀ r, more ≠ '=' :: r) → punctuation? c more = some (t, more)) :
      ∀ more, (∀ r, more = '=' :: r → ∃ r', rest = '=' :: r') →
        punctuation? c more = some (t, more) := by
    intro more same
    apply single more
    intro r equals
    obtain ⟨r', equals'⟩ := same r equals
    exact other r' equals'
  unfold punctuation? at mark
  split at mark
  case h_24 => cases mark
  all_goals cases mark
  case h_1 | h_2 | h_3 | h_4 | h_5 | h_6 => exact .inl ⟨rfl, fun _ => rfl⟩
  case h_7 other | h_8 other | h_9 other | h_10 other | h_11 other =>
    refine .inr ⟨rfl, lone other fun more plain => ?_⟩
    match more with
    | [] => rfl
    | d :: more => simp [punctuation?]
  all_goals exact .inr ⟨rfl, fun _ _ => rfl⟩

theorem punctuation?_cut {c : Char} {u v z : List Char} {t : Token}
    (mark : punctuation? c (u ++ z) = some (t, v ++ z)) : punctuation? c u = some (t, v) := by
  rcases punctuation?_elim mark with ⟨two, again⟩ | ⟨one, again⟩
  · match u with
    | [] =>
      have := congrArg List.length two
      simp only [List.nil_append, List.length_cons, List.length_append] at this
      omega
    | d :: u =>
      obtain ⟨rfl, rest⟩ := List.cons.inj two
      rw [List.append_cancel_right rest]
      exact again v
  · rw [List.append_cancel_right one] at again ⊢
    refine again v fun r same => ⟨r ++ z, by rw [same]; rfl⟩

theorem tokenAt_cut {c : Char} {u v z : List Char} {t : Token}
    (found : TokenAt c (u ++ z) t (v ++ z)) : TokenAt c u t v := by
  generalize whole : u ++ z = rest at found
  generalize left : v ++ z = after at found
  cases found with
  | string quote body =>
    subst whole
    exact .string quote (quotedString_cut c u _ v z body left.symm)
  | @template letter q more starts quote b body =>
    have short := quotedString_rest_le q more body
    rw [starts] at whole
    match u with
    | [] =>
      have lengths := congrArg List.length whole
      rw [← left, List.length_append] at short
      simp only [List.nil_append, List.length_cons] at lengths
      omega
    | d :: u =>
      obtain ⟨rfl, rfl⟩ := List.cons.inj whole
      exact .template letter rfl quote (quotedString_cut d u b v z body left.symm)
  | dollar sign named =>
    subst whole
    obtain ⟨cut, same⟩ := dropWhile_cut left.symm
    rw [same, ← cut]
    apply TokenAt.dollar sign
    match u with
    | d :: u => exact named
    | [] =>
      match z with
      | d :: z =>
        have word := isWordChar_of_isWordStart (show isWordStart d = true from named)
        rw [List.nil_append, List.takeWhile_cons_of_pos word] at same
        cases same
  | number digit read =>
    subst whole left
    exact .number digit (number_cut (u := c :: u) read)
  | word letter unquoted =>
    subst whole
    obtain ⟨cut, same⟩ := dropWhile_cut left.symm
    rw [same, ← cut]
    apply TokenAt.word letter
    match u with
    | d :: u => exact unquoted
    | [] => exact Bool.and_false _
  | punctuation mark =>
    subst whole left
    exact .punctuation (punctuation?_cut mark)

theorem lexStep?_cut {p q : Nat} {c : Char} {u v z : List Char} {emitted : List Token}
    (step : lexStep? p c (u ++ z) = some (emitted, q, v ++ z)) :
    lexStep? p c u = some (emitted, q, v) := by
  unfold lexStep? at step ⊢
  by_cases blank : (c = ' ' || c = '\t' || c = '\r') = true
  · rw [if_pos blank] at step ⊢
    simp only [Option.some.injEq, Prod.mk.injEq, List.append_cancel_right_eq] at step ⊢
    exact step
  rw [if_neg blank] at step ⊢
  by_cases broken : c = '\n'
  · rw [if_pos broken] at step ⊢
    simp only [Option.some.injEq, Prod.mk.injEq, List.append_cancel_right_eq] at step ⊢
    exact step
  rw [if_neg broken] at step ⊢
  by_cases separated : c = ';'
  · rw [if_pos separated] at step ⊢
    simp only [Option.some.injEq, Prod.mk.injEq, List.append_cancel_right_eq] at step ⊢
    exact step
  rw [if_neg separated] at step ⊢
  by_cases comment : c = '#'
  · rw [if_pos comment] at step ⊢
    simp only [Option.some.injEq, Prod.mk.injEq] at step ⊢
    exact ⟨step.1, step.2.1, (dropWhile_cut step.2.2).1⟩
  rw [if_neg comment] at step ⊢
  split at step
  · cases step
  · rename_i t breaks after found
    simp only [Option.some.injEq, Prod.mk.injEq] at step
    obtain ⟨rfl, rfl, rfl⟩ := step
    obtain ⟨breaks', found'⟩ := nextToken_of_tokenAt (tokenAt_cut (tokenAt_of_nextToken found))
    rw [found']

end Playbook.Script
