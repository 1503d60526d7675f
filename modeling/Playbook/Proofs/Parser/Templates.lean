import Playbook.Proofs.Parser.Expressions

/- Strings with placeholders against their grammar. Where a placeholder ends is found by counting
   brackets, whatever their kinds, so that it may end at a bracket that does not match the brace it
   was opened with. All else is as the grammar has it. -/
namespace Playbook.Script

def isOpening (c : Char) : Bool := c = '{' || c = '[' || c = '('

def isClosing (c : Char) : Bool := c = '}' || c = ']' || c = ')'

def anyBracket (o c : Char) : Prop := isOpening o = true ∧ isClosing c = true

def ownBracket (o c : Char) : Prop :=
  o = '{' ∧ c = '}' ∨ o = '[' ∧ c = ']' ∨ o = '(' ∧ c = ')'

/-- Every bracket is closed again by one that goes with it; what is quoted does not count. -/
inductive Balanced (goesWith : Char → Char → Prop) : List Char → Prop where
  | nil : Balanced goesWith []
  | plain {c : Char} {cs : List Char} : isQuote c = false → isOpening c = false →
    isClosing c = false → Balanced goesWith cs → Balanced goesWith (c :: cs)
  | quoted {q : Char} {inside cs : List Char} : isQuote q = true → q ∉ inside →
    Balanced goesWith cs → Balanced goesWith (q :: (inside ++ q :: cs))
  | nested {o c : Char} {inside cs : List Char} : goesWith o c → Balanced goesWith inside →
    Balanced goesWith cs → Balanced goesWith (o :: (inside ++ c :: cs))

theorem not_quote_of_isOpening {c : Char} (opening : isOpening c = true) : isQuote c = false := by
  simp only [isOpening, Bool.or_eq_true, decide_eq_true_eq] at opening
  rcases opening with (rfl | rfl) | rfl <;> rfl

theorem not_quote_of_isClosing {c : Char} (closing : isClosing c = true) :
    isQuote c = false ∧ isOpening c = false := by
  simp only [isClosing, Bool.or_eq_true, decide_eq_true_eq] at closing
  rcases closing with (rfl | rfl) | rfl <;> exact ⟨rfl, rfl⟩

def ahead (front : List Char) (p : List Char × List Char) : List Char × List Char :=
  (front ++ p.1, p.2)

theorem map_ahead (front more : List Char) (p : Option (List Char × List Char)) :
    (p.map (ahead more)).map (ahead front) = p.map (ahead (front ++ more)) := by
  cases p with
  | none => rfl
  | some p => exact congrArg some (Prod.ext (List.append_assoc ..).symm rfl)

section Steps
variable (d : Nat) (cs : List Char)

theorem holeTail_quoting {c q : Char} (other : c ≠ q) :
    holeTail d (some q) (c :: cs) = (holeTail d (some q) cs).map (ahead [c]) := by
  simp only [holeTail, if_neg other]
  rfl

theorem holeTail_unquoting (q : Char) :
    holeTail d (some q) (q :: cs) = (holeTail d none cs).map (ahead [q]) := by
  simp only [holeTail, if_pos]
  rfl

theorem holeTail_none (c : Char) : holeTail d none (c :: cs) =
    if isQuote c then (holeTail d (some c) cs).map (ahead [c])
    else if isOpening c then (holeTail (d + 1) none cs).map (ahead [c])
    else if isClosing c then
      if d = 0 then some ([], cs) else (holeTail (d - 1) none cs).map (ahead [c])
    else (holeTail d none cs).map (ahead [c]) := by
  rw [holeTail]
  rfl

end Steps

section Kinds
variable {c : Char} (d : Nat) (cs : List Char)

theorem holeTail_plain (quote : isQuote c = false) (opening : isOpening c = false)
    (closing : isClosing c = false) :
    holeTail d none (c :: cs) = (holeTail d none cs).map (ahead [c]) := by
  rw [holeTail_none]
  simp only [quote, opening, closing, Bool.false_eq_true, if_false]

theorem holeTail_quote (quote : isQuote c = true) :
    holeTail d none (c :: cs) = (holeTail d (some c) cs).map (ahead [c]) := by
  rw [holeTail_none, if_pos quote]

theorem holeTail_opening (opening : isOpening c = true) :
    holeTail d none (c :: cs) = (holeTail (d + 1) none cs).map (ahead [c]) := by
  rw [holeTail_none, not_quote_of_isOpening opening, if_neg Bool.false_ne_true, if_pos opening]

theorem holeTail_closing (closing : isClosing c = true) : holeTail d none (c :: cs) =
    if d = 0 then some ([], cs) else (holeTail (d - 1) none cs).map (ahead [c]) := by
  obtain ⟨quote, opening⟩ := not_quote_of_isClosing closing
  rw [holeTail_none, quote, opening, if_neg Bool.false_ne_true, if_neg Bool.false_ne_true,
    if_pos closing]

theorem holeTail_quoted {q : Char} {inside : List Char} (outside : q ∉ inside) :
    holeTail d (some q) (inside ++ q :: cs) = (holeTail d none cs).map (ahead (inside ++ [q])) := by
  induction inside with
  | nil => exact holeTail_unquoting d cs q
  | cons c inside ih =>
    obtain ⟨other, outside⟩ := not_or.mp (mt List.mem_cons.mpr outside)
    rw [List.cons_append, holeTail_quoting d _ (Ne.symm other), ih outside, map_ahead]
    rfl

end Kinds

theorem Balanced.passed {source : List Char} (balanced : Balanced anyBracket source) (d : Nat)
    (cs : List Char) :
    holeTail d none (source ++ cs) = (holeTail d none cs).map (ahead source) := by
  induction balanced generalizing d cs with
  | nil =>
    show holeTail d none cs = (holeTail d none cs).map id
    rw [Option.map_id, id]
  | plain quote opening closing _ ih =>
    rw [List.cons_append, holeTail_plain d _ quote opening closing, ih, map_ahead]
    rfl
  | @quoted q inside more quote outside _ ih =>
    rw [List.cons_append, List.append_assoc, List.cons_append, holeTail_quote d _ quote,
      holeTail_quoted d _ outside, ih, map_ahead, map_ahead]
    simp only [List.cons_append, List.nil_append, List.append_assoc]
  | @nested o c inside more goesWith _ _ first second =>
    rw [List.cons_append, List.append_assoc, List.cons_append, holeTail_opening d _ goesWith.1,
      first, holeTail_closing (d + 1) _ goesWith.2, if_neg (Nat.succ_ne_zero d), Nat.add_sub_cancel,
      second, map_ahead, map_ahead, map_ahead]
    simp only [List.cons_append, List.nil_append, List.append_assoc]

/-- Balanced stretches between which so many brackets are closed that have been opened before. -/
inductive Descends : Nat → List Char → Prop where
  | level {cs : List Char} : Balanced anyBracket cs → Descends 0 cs
  | down {d : Nat} {c : Char} {cs more : List Char} : Balanced anyBracket cs →
    isClosing c = true → Descends d more → Descends (d + 1) (cs ++ c :: more)

theorem Descends.preceded {d : Nat} {cs : List Char} (descends : Descends d cs) (front : List Char)
    (extend : ∀ {bs}, Balanced anyBracket bs → Balanced anyBracket (front ++ bs)) :
    Descends d (front ++ cs) := by
  cases descends with
  | level balanced => exact .level (extend balanced)
  | down balanced closing more =>
    rw [← List.append_assoc]
    exact .down (extend balanced) closing more

theorem Descends.opened {d : Nat} {o : Char} {cs : List Char} (opening : isOpening o = true)
    (descends : Descends (d + 1) cs) : Descends d (o :: cs) := by
  cases descends with
  | @down _ c inside more balanced closing later =>
    have nested := later.preceded (o :: (inside ++ [c])) fun {bs} balanced' => by
      simpa using Balanced.nested ⟨opening, closing⟩ balanced balanced'
    simpa using nested

def Ended (d : Nat) (source : List Char) : Option Char → Prop
  | none => Descends d source
  | some q => ∃ inside more, source = inside ++ q :: more ∧ q ∉ inside ∧ Descends d more

theorem ended_of_holeTail {d : Nat} {quote : Option Char} {cs source rest : List Char}
    (found : holeTail d quote cs = some (source, rest)) :
    Ended d source quote ∧ ∃ c, isClosing c = true ∧ cs = source ++ c :: rest := by
  induction cs generalizing d quote source with
  | nil => cases found
  | cons c cs ih =>
    have step {d' : Nat} {quote' : Option Char}
        (found : (holeTail d' quote' cs).map (ahead [c]) = some (source, rest)) :
        ∃ more, source = c :: more ∧ Ended d' more quote' ∧
          ∃ b, isClosing b = true ∧ c :: cs = source ++ b :: rest := by
      obtain ⟨⟨more, after⟩, later, same⟩ := Option.map_eq_some_iff.mp found
      cases same
      obtain ⟨ended, b, closing, rfl⟩ := ih later
      exact ⟨more, rfl, ended, b, closing, rfl⟩
    cases quote with
    | some q =>
      by_cases same : c = q
      · subst same
        rw [holeTail_unquoting] at found
        obtain ⟨more, rfl, descends, closed⟩ := step found
        exact ⟨⟨[], more, rfl, List.not_mem_nil, descends⟩, closed⟩
      · rw [holeTail_quoting d cs same] at found
        obtain ⟨_, rfl, ⟨inside, more, rfl, outside, descends⟩, closed⟩ := step found
        refine ⟨⟨c :: inside, more, rfl, ?_, descends⟩, closed⟩
        exact mt List.mem_cons.mp (not_or.mpr ⟨Ne.symm same, outside⟩)
    | none =>
      cases quote : isQuote c with
      | true =>
        rw [holeTail_quote d cs quote] at found
        obtain ⟨_, rfl, ⟨inside, more, rfl, outside, descends⟩, closed⟩ := step found
        refine ⟨?_, closed⟩
        have quoted := descends.preceded (c :: (inside ++ [c])) fun {bs} balanced => by
          simpa using Balanced.quoted quote outside balanced
        simpa [Ended] using quoted
      | false =>
        cases opening : isOpening c with
        | true =>
          rw [holeTail_opening d cs opening] at found
          obtain ⟨more, rfl, descends, closed⟩ := step found
          exact ⟨descends.opened opening, closed⟩
        | false =>
          cases closing : isClosing c with
          | true =>
            rw [holeTail_closing d cs closing] at found
            cases d with
            | zero =>
              cases found
              exact ⟨.level .nil, c, closing, rfl⟩
            | succ d =>
              obtain ⟨more, rfl, descends, closed⟩ := step found
              exact ⟨.down .nil closing descends, closed⟩
          | false =>
            rw [holeTail_plain d cs quote opening closing] at found
            obtain ⟨more, rfl, descends, closed⟩ := step found
            exact ⟨descends.preceded [c] (.plain quote opening closing), closed⟩

/-- A placeholder ends at the first closing bracket after balanced text. -/
theorem holeTail_iff {cs source rest : List Char} : holeTail 0 none cs = some (source, rest) ↔
    ∃ c, isClosing c = true ∧ cs = source ++ c :: rest ∧ Balanced anyBracket source := by
  constructor
  · intro found
    obtain ⟨descends, c, closing, split⟩ := ended_of_holeTail found
    cases descends with
    | level balanced => exact ⟨c, closing, split, balanced⟩
  · rintro ⟨c, closing, rfl, balanced⟩
    rw [balanced.passed, holeTail_closing 0 rest closing, if_pos rfl, Option.map_some, ahead,
      List.append_nil]

namespace Pieces
variable {rest : List Char}

theorem ofBody_plain {c : Char} (opening : c ≠ '{') (closing : c ≠ '}') :
    ofBody (c :: rest) = (ofBody rest).addChar c := by
  rw [ofBody]
  · exact fun _ brace => absurd brace opening
  · exact fun _ brace => absurd brace closing
  · exact opening
  · exact closing

theorem ofBody_doubled {c : Char} (brace : c = '{' ∨ c = '}') :
    ofBody (c :: c :: rest) = (ofBody rest).addChar c := by
  rcases brace with rfl | rfl <;> rw [ofBody]

theorem ofBody_opening (single : rest.head? ≠ some '{') :
    ofBody ('{' :: rest) = match holeTail 0 none rest with
      | none => ⟨[], some .openPlaceholder⟩
      | some (source, after) =>
        if source.all Text.isBlank then ⟨[], some .emptyPlaceholder⟩
        else (ofBody after).addHole source := by
  rw [ofBody]
  · split <;> rename_i found <;> simp only [found]
  · rintro more rfl
    exact single rfl

theorem ofBody_closing (single : rest.head? ≠ some '}') :
    ofBody ('}' :: rest) = ⟨[], some .strayBrace⟩ := by
  rw [ofBody]
  rintro more rfl
  exact single rfl

end Pieces

inductive ReadAs : List Piece → List Part → Prop where
  | nil : ReadAs [] []
  | text {cs : List Char} {more : List Piece} {parts : List Part} : ReadAs more parts →
    ReadAs (.text cs :: more) (.text (String.ofList cs) :: parts)
  | hole {source : List Char} {e : Expr} {more : List Piece} {parts : List Part} :
    parseExpression (String.ofList source) = .ok e → ReadAs more parts →
    ReadAs (.hole source :: more) (.hole e :: parts)

theorem parseExpression_of_sole {n : Nat} {source : String} {e : Expr}
    (read : soleExpression n source = .ok e) : parseExpression source = .ok e := by
  refine (expressionsRead n).soleExpression source e read (depthFor source) ?_
  rw [depthFor, String.length_toList]
  omega

theorem sole_of_parseExpression {n : Nat} {source : String} {e : Expr}
    (read : parseExpression source = .ok e) (deep : 16 * source.toList.length + 12 ≤ n) :
    soleExpression n source = .ok e :=
  (expressionsRead (depthFor source)).soleExpression source e read n deep

theorem readAs_of_holes : ∀ {n : Nat} {pieces : List Piece} {parts : List Part},
    holes n pieces = .ok parts → ReadAs pieces parts
  | 0, _, _, read => by cases read
  | _ + 1, [], _, read => by
    cases read
    exact .nil
  | _ + 1, .text cs :: more, _, read => by
    simp only [holes] at read
    obtain ⟨parts, later, same⟩ := ok_of_bind read
    cases same
    exact .text (readAs_of_holes later)
  | _ + 1, .hole source :: more, _, read => by
    simp only [holes] at read
    split at read
    · cases read
    · rename_i e inside
      obtain ⟨parts, later, same⟩ := ok_of_bind read
      cases same
      exact .hole (parseExpression_of_sole inside) (readAs_of_holes later)

theorem ReadAs.holes {pieces : List Piece} {parts : List Part} (read : ReadAs pieces parts)
    {n : Nat} (deep : Pieces.cost pieces + 1 ≤ n) : holes n pieces = .ok parts := by
  induction read generalizing n with
  | nil =>
    obtain ⟨n, rfl⟩ : ∃ m, n = m + 1 := ⟨n - 1, by omega⟩
    rfl
  | text later ih =>
    obtain ⟨n, rfl⟩ : ∃ m, n = m + 1 := ⟨n - 1, by omega⟩
    simp only [Pieces.cost, Piece.cost] at deep
    simp only [Script.holes, ih (show _ ≤ n by omega)]
    rfl
  | hole inside later ih =>
    obtain ⟨n, rfl⟩ : ∃ m, n = m + 1 := ⟨n - 1, by omega⟩
    simp only [Pieces.cost, Piece.cost] at deep
    have sole := sole_of_parseExpression inside (show _ ≤ n by rw [String.toList_ofList]; omega)
    simp only [Script.holes, sole, ih (show _ ≤ n by omega)]
    rfl

def charBefore (c : Char) : List Part → List Part
  | .text s :: more => .text (String.ofList (c :: s.toList)) :: more
  | more => .text (String.ofList [c]) :: more

theorem readAs_addChar {c : Char} {p : Pieces} {parts : List Part} :
    ReadAs (p.addChar c).pieces parts ↔
      ∃ later, ReadAs p.pieces later ∧ parts = charBefore c later := by
  obtain ⟨pieces, fault⟩ := p
  constructor
  · intro read
    match pieces, read with
    | [], .text .nil => exact ⟨[], .nil, rfl⟩
    | .text cs :: more, .text later =>
      exact ⟨_, .text later, by rw [charBefore, String.toList_ofList]⟩
    | .hole source :: more, .text (.hole inside later) => exact ⟨_, .hole inside later, rfl⟩
  · rintro ⟨later, read, rfl⟩
    cases read with
    | nil => exact .text .nil
    | text later =>
      rw [charBefore, String.toList_ofList]
      exact .text later
    | hole inside later => exact .text (.hole inside later)

/-- A character, a doubled brace, or a placeholder with the bracket at which it ends. -/
inductive Fragment where
  | char (c : Char)
  | doubled (c : Char)
  | hole (source : List Char) (closer : Char) (e : Expr)

namespace Fragment

def chars : Fragment → List Char
  | .char c => [c]
  | .doubled c => [c, c]
  | .hole source closer _ => '{' :: (source ++ [closer])

/-- A placeholder ends at the first closing bracket after balanced text, of whatever kind. -/
inductive Fits : Fragment → Prop where
  | char {c : Char} : c ≠ '{' → c ≠ '}' → Fits (.char c)
  | doubled {c : Char} : c = '{' ∨ c = '}' → Fits (.doubled c)
  | hole {source : List Char} {closer : Char} {e : Expr} : isClosing closer = true →
    Balanced anyBracket source → source.head? ≠ some '{' → source.all Text.isBlank = false →
    parseExpression (String.ofList source) = .ok e → Fits (.hole source closer e)

/-- A placeholder is closed by a brace, with the brackets between closed by their own kind. -/
def Proper : Fragment → Prop
  | .char _ | .doubled _ => True
  | .hole source closer _ => closer = '}' ∧ Balanced ownBracket source

def before : Fragment → List Part → List Part
  | .char c, parts | .doubled c, parts => charBefore c parts
  | .hole _ _ e, parts => .hole e :: parts

def onto : Fragment → Pieces → Pieces
  | .char c, p | .doubled c, p => p.addChar c
  | .hole source _ _, p => p.addHole source

theorem chars_ne_nil (x : Fragment) : x.chars ≠ [] := by
  cases x <;> exact List.cons_ne_nil _ _

theorem chars_hole (source : List Char) (closer : Char) (e : Expr) (after : List Char) :
    (hole source closer e).chars ++ after = '{' :: (source ++ closer :: after) := by
  rw [chars, List.cons_append, List.append_assoc, List.singleton_append]

theorem single_of_source {source after : List Char} {closer : Char}
    (single : source.head? ≠ some '{') (closing : isClosing closer = true) :
    (source ++ closer :: after).head? ≠ some '{' := by
  cases source with
  | nil =>
    rintro ⟨⟩
    cases closing
  | cons c source => exact single

theorem holeTail_hole {source : List Char} {closer : Char} (closing : isClosing closer = true)
    (balanced : Balanced anyBracket source) (after : List Char) :
    holeTail 0 none (source ++ closer :: after) = some (source, after) :=
  holeTail_iff.mpr ⟨closer, closing, rfl, balanced⟩

theorem ofBody_chars {x : Fragment} (fits : x.Fits) (cs : List Char) :
    Pieces.ofBody (x.chars ++ cs) = x.onto (Pieces.ofBody cs) := by
  cases fits with
  | char opening closing => exact Pieces.ofBody_plain opening closing
  | doubled brace => exact Pieces.ofBody_doubled brace
  | hole closing balanced single visible inside =>
    rw [chars_hole, Pieces.ofBody_opening (single_of_source single closing),
      holeTail_hole closing balanced]
    simp only [visible]
    rfl

theorem fault_onto (x : Fragment) (p : Pieces) : (x.onto p).fault = p.fault := by
  cases x with
  | hole => rfl
  | char | doubled =>
    simp only [onto, Pieces.addChar]
    split <;> rfl

theorem readAs_onto {x : Fragment} (fits : x.Fits) {p : Pieces} {parts : List Part} :
    ReadAs (x.onto p).pieces parts ↔ ∃ later, ReadAs p.pieces later ∧ parts = x.before later := by
  cases fits with
  | char | doubled => exact readAs_addChar
  | hole _ _ _ _ inside =>
    constructor
    · intro read
      cases read with
      | hole inside' later =>
        cases inside.symm.trans inside'
        exact ⟨_, later, rfl⟩
    · rintro ⟨later, read, rfl⟩
      exact .hole inside read

theorem doubled_ne_hole {c closer : Char} {source : List Char} {e : Expr}
    (fits : (hole source closer e).Fits) (cs ds : List Char) :
    (doubled c).chars ++ cs ≠ (hole source closer e).chars ++ ds := by
  intro same
  cases fits with
  | hole closing _ single =>
    rw [chars_hole] at same
    obtain ⟨rfl, rest⟩ := List.cons.inj same
    exact absurd (congrArg List.head? rest.symm) (single_of_source single closing)

theorem first_unique {x y : Fragment} (fits : x.Fits) (fits' : y.Fits) {cs ds : List Char}
    (same : x.chars ++ cs = y.chars ++ ds) : x = y ∧ cs = ds := by
  cases fits with
  | char opening closing =>
    cases fits' with
    | char =>
      cases same
      exact ⟨rfl, rfl⟩
    | doubled brace =>
      cases same
      exact absurd brace (not_or.mpr ⟨opening, closing⟩)
    | hole =>
      cases same
      exact absurd rfl opening
  | doubled brace =>
    cases fits' with
    | char opening closing =>
      cases same
      exact absurd brace (not_or.mpr ⟨opening, closing⟩)
    | doubled =>
      cases same
      exact ⟨rfl, rfl⟩
    | hole closing balanced single visible inside =>
      exact absurd same (doubled_ne_hole (.hole closing balanced single visible inside) cs ds)
  | @hole source closer e closing balanced single visible inside =>
    have fits : (hole source closer e).Fits := .hole closing balanced single visible inside
    cases fits' with
    | char opening =>
      cases same
      exact absurd rfl opening
    | doubled => exact absurd same.symm (doubled_ne_hole fits ds cs)
    | @hole source' closer' e' closing' balanced' single' visible' inside' =>
      rw [chars_hole, chars_hole] at same
      have rest := (List.cons.inj same).2
      have found := (holeTail_hole closing balanced cs).symm.trans
        (rest ▸ holeTail_hole closing' balanced' ds)
      cases found
      cases List.append_cancel_left rest
      cases inside.symm.trans inside'
      exact ⟨rfl, rfl⟩

end Fragment

/-- A text as fragments that fit. -/
structure Spells (xs : List Fragment) (cs : List Char) : Prop where
  fits : ∀ x ∈ xs, x.Fits
  text : xs.flatMap Fragment.chars = cs

/-- The parts that fragments make, with the text between placeholders in one. -/
def asParts (xs : List Fragment) : List Part := xs.foldr Fragment.before []

namespace Spells

theorem cons {x : Fragment} {xs : List Fragment} {cs : List Char} (fits : x.Fits)
    (spells : Spells xs cs) : Spells (x :: xs) (x.chars ++ cs) where
  fits := List.forall_mem_cons.mpr ⟨fits, spells.fits⟩
  text := by rw [List.flatMap_cons, spells.text]

theorem unique : ∀ {xs ys : List Fragment} {cs : List Char}, Spells xs cs → Spells ys cs → xs = ys
  | [], [], _, _, _ => rfl
  | [], y :: ys, _, first, second => by
    have same := second.text.trans first.text.symm
    exact absurd (List.append_eq_nil_iff.mp same).1 y.chars_ne_nil
  | x :: xs, [], _, first, second => by
    have same := first.text.trans second.text.symm
    exact absurd (List.append_eq_nil_iff.mp same).1 x.chars_ne_nil
  | x :: xs, y :: ys, _, first, second => by
    obtain ⟨fits, later⟩ := List.forall_mem_cons.mp first.fits
    obtain ⟨fits', later'⟩ := List.forall_mem_cons.mp second.fits
    obtain ⟨rfl, rest⟩ := Fragment.first_unique fits fits' (first.text.trans second.text.symm)
    rw [unique ⟨later, rfl⟩ ⟨later', rest.symm⟩]

end Spells

theorem ofBody_flatMap {xs : List Fragment} (fits : ∀ x ∈ xs, x.Fits) (tail : List Char) :
    Pieces.ofBody (xs.flatMap Fragment.chars ++ tail) =
      xs.foldr Fragment.onto (Pieces.ofBody tail) := by
  induction xs with
  | nil => rfl
  | cons x xs ih =>
    obtain ⟨first, later⟩ := List.forall_mem_cons.mp fits
    rw [List.flatMap_cons, List.append_assoc, Fragment.ofBody_chars first, ih later,
      List.foldr_cons]

theorem fault_foldr (xs : List Fragment) (p : Pieces) :
    (xs.foldr Fragment.onto p).fault = p.fault := by
  induction xs with
  | nil => rfl
  | cons x xs ih =>
    rw [List.foldr_cons, Fragment.fault_onto, ih]

theorem readAs_foldr {xs : List Fragment} (fits : ∀ x ∈ xs, x.Fits) (fault : Option SyntaxFault)
    {parts : List Part} :
    ReadAs (xs.foldr Fragment.onto ⟨[], fault⟩).pieces parts ↔ parts = asParts xs := by
  induction xs generalizing parts with
  | nil =>
    constructor
    · rintro ⟨⟩
      rfl
    · rintro rfl
      exact .nil
  | cons x xs ih =>
    obtain ⟨first, later⟩ := List.forall_mem_cons.mp fits
    simp only [List.foldr_cons, Fragment.readAs_onto first, ih later, exists_eq_left]
    rfl

theorem Spells.preceded {x : Fragment} (fits : x.Fits) {rest : List Char} {parts : List Part}
    (later : ∀ {parts}, (Pieces.ofBody rest).fault = none →
      ReadAs (Pieces.ofBody rest).pieces parts → ∃ xs, Spells xs rest)
    (sound : (x.onto (Pieces.ofBody rest)).fault = none)
    (read : ReadAs (x.onto (Pieces.ofBody rest)).pieces parts) :
    ∃ xs, Spells xs (x.chars ++ rest) := by
  rw [x.fault_onto] at sound
  obtain ⟨parts, read, -⟩ := (Fragment.readAs_onto fits).mp read
  obtain ⟨xs, spells⟩ := later sound read
  exact ⟨x :: xs, spells.cons fits⟩

theorem spells_of_ofBody {cs : List Char} {parts : List Part}
    (sound : (Pieces.ofBody cs).fault = none) (read : ReadAs (Pieces.ofBody cs).pieces parts) :
    ∃ xs, Spells xs cs := by
  fun_induction Pieces.ofBody cs generalizing parts with
  | case1 => exact ⟨[], List.forall_mem_nil _, rfl⟩
  | case2 rest ih => exact Spells.preceded (.doubled (.inl rfl)) ih sound read
  | case3 rest ih => exact Spells.preceded (.doubled (.inr rfl)) ih sound read
  | case4 | case5 | case7 => cases sound
  | case6 rest single source after found visible ih =>
    obtain ⟨closer, closing, rfl, balanced⟩ := holeTail_iff.mp found
    cases read with
    | @hole _ e _ _ inside later =>
      have first : source.head? ≠ some '{' := by
        rintro brace
        cases source with
        | nil => cases brace
        | cons c source =>
          cases brace
          exact single _ rfl
      have fits : (Fragment.hole source closer e).Fits :=
        .hole closing balanced first (Bool.eq_false_iff.mpr visible) inside
      have spells := Spells.preceded fits ih sound (.hole inside later)
      simpa [Fragment.chars] using spells
  | case8 c rest _ _ opening closing ih =>
    exact Spells.preceded (.char opening closing) ih sound read

/-- Where a body cannot be read on, and why. -/
inductive Stuck : List Char → SyntaxFault → Prop where
  | stray {rest : List Char} : rest.head? ≠ some '}' → Stuck ('}' :: rest) .strayBrace
  | unclosed {rest : List Char} : rest.head? ≠ some '{' →
    (∀ source closer after, rest = source ++ closer :: after → isClosing closer = true →
      ¬ Balanced anyBracket source) → Stuck ('{' :: rest) .openPlaceholder
  | blank {source after : List Char} {closer : Char} : source.all Text.isBlank = true →
    isClosing closer = true → Stuck ('{' :: (source ++ closer :: after)) .emptyPlaceholder

theorem visible_of_special {c : Char}
    (special : isQuote c = true ∨ isOpening c = true ∨ isClosing c = true) :
    Text.isBlank c = false := by
  simp only [isQuote, isOpening, isClosing, Bool.or_eq_true, decide_eq_true_eq] at special
  rcases special with (rfl | rfl) | ((rfl | rfl) | rfl) | (rfl | rfl) | rfl <;> rfl

theorem balanced_of_blank {source : List Char} (blank : source.all Text.isBlank = true) :
    Balanced anyBracket source := by
  induction source with
  | nil => exact .nil
  | cons c source ih =>
    obtain ⟨first, later⟩ := (Bool.and_eq_true _ _).mp blank
    have plain := mt visible_of_special (ne_false_of_eq_true first)
    simp only [not_or, Bool.not_eq_true] at plain
    exact .plain plain.1 plain.2.1 plain.2.2 (ih later)

theorem Stuck.ofBody {tail : List Char} {fault : SyntaxFault} (stuck : Stuck tail fault) :
    Pieces.ofBody tail = ⟨[], some fault⟩ := by
  cases stuck with
  | stray single => exact Pieces.ofBody_closing single
  | @unclosed rest single unclosed =>
    rw [Pieces.ofBody_opening single]
    cases found : holeTail 0 none rest with
    | none => rfl
    | some p =>
      obtain ⟨closer, closing, split, balanced⟩ := holeTail_iff.mp found
      exact absurd balanced (unclosed _ _ _ split closing)
  | @blank source after closer blank closing =>
    have single : source.head? ≠ some '{' := by
      rintro brace
      cases source with
      | nil => cases brace
      | cons c source =>
        cases brace
        cases blank
    rw [Pieces.ofBody_opening (Fragment.single_of_source single closing),
      Fragment.holeTail_hole closing (balanced_of_blank blank)]
    simp only [blank]
    rfl

section Bodies
variable {s : String} {n : Nat}

theorem primary_template (n : Nat) (cond : Bool) (s : String) (line : Nat) (ts : List Lexeme) :
    primary (n + 1) cond (⟨.template s, line⟩ :: ts) =
      match holes n (Pieces.ofBody s.toList).pieces, (Pieces.ofBody s.toList).fault with
      | .error fault, _ => .error ⟨line, fault⟩
      | .ok _, some fault => .error ⟨line, fault⟩
      | .ok parts, none => .ok (.template parts, ts) := by
  unfold primary
  rfl

/-- A body is read, to the end or to where it is stuck, as the fragments that it is made of. -/
theorem holes_of_fits {xs : List Fragment} (fits : ∀ x ∈ xs, x.Fits) {tail : List Char}
    {fault : Option SyntaxFault} (stop : Pieces.ofBody tail = ⟨[], fault⟩)
    (text : s.toList = xs.flatMap Fragment.chars ++ tail) (deep : depthFor s ≤ n) :
    holes n (Pieces.ofBody s.toList).pieces = .ok (asParts xs) ∧
      (Pieces.ofBody s.toList).fault = fault := by
  have paid := Pieces.cost_ofBody s.toList
  rw [String.length_toList] at paid
  have body : Pieces.ofBody s.toList = xs.foldr Fragment.onto ⟨[], fault⟩ := by
    rw [text, ofBody_flatMap fits, stop]
  rw [body] at paid ⊢
  rw [depthFor] at deep
  exact ⟨((readAs_foldr fits fault).mpr rfl).holes (by omega), fault_foldr xs _⟩

theorem primary_iff_spells (deep : depthFor s ≤ n) (cond : Bool) (line : Nat) (ts : List Lexeme)
    (e : Expr) (rest : List Lexeme) :
    primary (n + 1) cond (⟨.template s, line⟩ :: ts) = .ok (e, rest) ↔
      rest = ts ∧ ∃ xs, Spells xs s.toList ∧ e = .template (asParts xs) := by
  have again {xs : List Fragment} (spells : Spells xs s.toList) :=
    holes_of_fits spells.fits (show Pieces.ofBody [] = ⟨[], none⟩ by rw [Pieces.ofBody])
      (by rw [spells.text, List.append_nil]) deep
  rw [primary_template]
  constructor
  · intro read
    split at read
    · cases read
    · cases read
    · rename_i parts inside sound
      cases read
      obtain ⟨xs, spells⟩ := spells_of_ofBody sound (readAs_of_holes inside)
      cases inside.symm.trans (again spells).1
      exact ⟨rfl, xs, spells, rfl⟩
  · rintro ⟨rfl, xs, spells, rfl⟩
    rw [(again spells).1, (again spells).2]

theorem parseExpression_alone {source : String} {line last : Nat} {e : Expr}
    (alone : tokenize source = .ok [⟨.template s, line⟩, ⟨.eof, last⟩]) :
    parseExpression source = .ok e ↔ ∃ xs, Spells xs s.toList ∧ e = .template (asParts xs) := by
  have paid : 16 * (s.length + 1) ≤ 16 * source.length := by
    have paid := cost_of_scans (scans_of_scan alone)
    simpa only [tokensOf_cons, tokensOf_nil, cost_cons, cost_nil, Token.cost, Nat.add_zero,
      String.length_toList] using paid
  obtain ⟨k, depth⟩ : ∃ k, depthFor source = k + 12 := ⟨16 * source.length + 4, rfl⟩
  have deep : depthFor s ≤ k := by
    rw [depthFor] at depth ⊢
    omega
  have inside := primary_iff_spells deep false line [⟨.eof, last⟩]
  have same : parseExpression source = .ok e ↔
      primary (k + 1) false [⟨.template s, line⟩, ⟨.eof, last⟩] = .ok (e, [⟨.eof, last⟩]) := by
    rw [parseExpression, depth]
    simp only [soleExpression, alone, skipNewlines, disjunction, conjunction, inversion, chain,
      operand, sign, bind, Except.bind]
    cases read : primary (k + 1) false [⟨.template s, line⟩, ⟨.eof, last⟩] with
    | error => constructor <;> rintro ⟨⟩
    | ok p =>
      obtain ⟨e', rest⟩ := p
      obtain ⟨rfl, -⟩ := (inside e' rest).mp read
      simp only [suffixes, chainTail, Level.operator?, andTail, orTail, skipNewlines]
      constructor
      · rintro ⟨⟩
        rfl
      · rintro ⟨⟩
        rfl
  rw [same, inside, and_iff_right rfl]

end Bodies

/-- Strings with placeholders are read as their grammar has it, except that the bracket that ends a
    placeholder, or one inside it, may be of another kind than the one that it closes. -/
theorem templates_follow_their_grammar_unless_misclosed (s : String) {n : Nat}
    (deep : depthFor s ≤ n) (cond : Bool) (line : Nat) (ts : List Lexeme) :
    (∀ e rest, primary (n + 1) cond (⟨.template s, line⟩ :: ts) = .ok (e, rest) ↔
      rest = ts ∧ ∃ xs, Spells xs s.toList ∧ e = .template (asParts xs)) ∧
    (∀ source last e, tokenize source = .ok [⟨.template s, line⟩, ⟨.eof, last⟩] →
      (parseExpression source = .ok e ↔ ∃ xs, Spells xs s.toList ∧ e = .template (asParts xs))) ∧
    (∀ xs ys, Spells xs s.toList → Spells ys s.toList → xs = ys) ∧
    (∀ xs, Spells xs s.toList →
      ((∃ ys, Spells ys s.toList ∧ ∀ y ∈ ys, y.Proper) ↔ ∀ x ∈ xs, x.Proper)) ∧
    ((∀ xs, ¬ Spells xs s.toList) →
      ∃ fault, primary (n + 1) cond (⟨.template s, line⟩ :: ts) = .error ⟨line, fault⟩) ∧
    ∀ (xs : List Fragment) (tail : List Char) (fault : SyntaxFault), (∀ x ∈ xs, x.Fits) →
      s.toList = xs.flatMap Fragment.chars ++ tail → Stuck tail fault →
      primary (n + 1) cond (⟨.template s, line⟩ :: ts) = .error ⟨line, fault⟩ := by
  refine ⟨primary_iff_spells deep cond line ts, fun _ _ _ => parseExpression_alone,
    fun _ _ => Spells.unique, fun xs spells => ⟨?_, fun proper => ⟨xs, spells, proper⟩⟩,
    fun unspelled => ?_, fun xs tail fault fits text stuck => ?_⟩
  · rintro ⟨ys, spells', proper⟩
    exact spells.unique spells' ▸ proper
  · cases read : primary (n + 1) cond (⟨.template s, line⟩ :: ts) with
    | ok p =>
      obtain ⟨-, xs, spells, -⟩ := (primary_iff_spells deep cond line ts p.1 p.2).mp read
      exact absurd spells (unspelled xs)
    | error err =>
      rw [primary_template] at read
      split at read <;> cases read <;> exact ⟨_, rfl⟩
  · obtain ⟨inside, stopped⟩ := holes_of_fits fits stuck.ofBody text deep
    rw [primary_template, inside, stopped]

/-- A placeholder that is opened with a brace and closed with a parenthesis is read as if it were
    well-formed. -/
theorem templates_follow_their_grammar_unless_misclosed_by_a_parenthesis :
    parseExpression "f\"\x7bx)\"" = .ok (.template [.hole (.name "x")]) ∧
    ¬ ∃ ys, Spells ys "\x7bx)".toList ∧ ∀ y ∈ ys, y.Proper := by
  have deep : depthFor "\x7bx)" ≤ 64 := by decide
  have tokens : tokenize "f\"\x7bx)\"" = .ok [⟨.template "\x7bx)", 1⟩, ⟨.eof, 1⟩] := by cbv
  have inside : parseExpression "x" = .ok (.name "x") := by cbv
  have balanced : Balanced anyBracket ['x'] := .plain rfl rfl rfl .nil
  have fits : (Fragment.hole ['x'] ')' (.name "x")).Fits :=
    .hole rfl balanced (by decide) (by decide) inside
  have spells : Spells [.hole ['x'] ')' (.name "x")] "\x7bx)".toList :=
    ⟨List.forall_mem_singleton.mpr fits, by decide⟩
  obtain ⟨-, alone, -, misclosed, -⟩ :=
    templates_follow_their_grammar_unless_misclosed "\x7bx)" deep false 1 []
  refine ⟨(alone _ _ _ tokens).mpr ⟨_, spells, rfl⟩, fun grammar => ?_⟩
  have proper := (misclosed _ spells).mp grammar _ List.mem_cons_self
  exact absurd proper.1 (by decide)

end Playbook.Script
