import Playbook.Proofs.Lexer.Course
import Playbook.Proofs.Printing.Printer
import Playbook.Proofs.Segment.Passing
import Playbook.Proofs.Text.CharClass

/- What is written is read back token by token. Every token ends where the next one begins, since
   tokens that could run together are kept apart by a space or a bracket. -/
namespace Playbook.Script

def spelled (gs : List Glyph) : List Char := gs.flatMap Glyph.chars

def Glyph.token? : Glyph → Option Token
  | .token t => some t
  | .space => none

def tokensIn (gs : List Glyph) : List Token := gs.filterMap Glyph.token?

@[simp] theorem spelled_nil : spelled [] = [] := rfl

@[simp] theorem spelled_token (t : Token) (gs : List Glyph) :
    spelled (.token t :: gs) = t.spell ++ spelled gs := rfl

@[simp] theorem spelled_space (gs : List Glyph) : spelled (.space :: gs) = ' ' :: spelled gs := rfl

@[simp] theorem spelled_append (gs hs : List Glyph) :
    spelled (gs ++ hs) = spelled gs ++ spelled hs := List.flatMap_append

@[simp] theorem tokensIn_nil : tokensIn [] = [] := rfl

@[simp] theorem tokensIn_token (t : Token) (gs : List Glyph) :
    tokensIn (.token t :: gs) = t :: tokensIn gs := rfl

@[simp] theorem tokensIn_space (gs : List Glyph) : tokensIn (.space :: gs) = tokensIn gs := rfl

@[simp] theorem tokensIn_append (gs hs : List Glyph) :
    tokensIn (gs ++ hs) = tokensIn gs ++ tokensIn hs := List.filterMap_append

@[simp] theorem tokensIn_spaced (ts : List Token) : tokensIn (spaced ts) = ts := by
  rw [spaced, tokensIn_space]
  induction ts with
  | nil => rfl
  | cons t ts ih => rw [List.flatMap_cons, tokensIn_append, ih]; rfl

/-- Every token before this text ends here: no word, number, string or mark goes on. -/
structure Clear (rest : List Char) : Prop where
  first : ∀ c ∈ rest.head?, isWordChar c = false ∧ isQuote c = false ∧ c ≠ '='
  point : ∀ c more, rest = '.' :: c :: more → Text.isAsciiDigit c = false

theorem Clear.nil : Clear [] where
  first c mem := by cases mem
  point c more same := by cases same

def clears (c : Char) : Bool := !isWordChar c && !isQuote c && c ≠ '=' && c ≠ '.'

theorem Clear.cons {c : Char} (ends : clears c = true) (rest : List Char) : Clear (c :: rest) := by
  simp only [clears, Bool.and_eq_true, Bool.not_eq_true', decide_eq_true_eq] at ends
  constructor
  · intro d mem
    cases mem
    exact ⟨ends.1.1.1, ends.1.1.2, ends.1.2⟩
  · intro d more same
    exact absurd (List.cons.inj same).1 ends.2

theorem letters_of_isWord {name : String} (word : isWord name = true) :
    ∃ c rest, name.toList = c :: rest ∧ isWordStart c = true ∧ ∀ d ∈ rest, isWordChar d = true := by
  unfold isWord at word
  split at word
  · cases word
  · rename_i c rest letters
    rw [Bool.and_eq_true] at word
    exact ⟨c, rest, letters, word.1, List.all_eq_true.1 word.2⟩

theorem wordToken_of_isName {name : String} (named : isName name = true) :
    wordToken name = .ident name := by
  rw [isName, Bool.and_eq_true, Bool.not_eq_true', isKeyword] at named
  have free := named.2
  split at free
  · rename_i other same
    unfold wordToken at same ⊢
    split at same
    case h_14 => rfl
    all_goals cases same
  · cases free

theorem isWord_of_isName {name : String} (named : isName name = true) : isWord name = true :=
  (Bool.and_eq_true .. ▸ named).1

theorem Clear.attribute {name : String} (word : isWord name = true) (rest : List Char) :
    Clear ('.' :: (name.toList ++ rest)) := by
  obtain ⟨c, more, letters, start, -⟩ := letters_of_isWord word
  rw [letters]
  constructor
  · intro d mem
    cases mem
    decide
  · intro d more' same
    cases same
    exact isAsciiDigit_of_isWordStart start

def begins (c : Char) : Bool := !isSeparator c && c ≠ '#'

theorem lexes_tokenAt {c : Char} {rest after : List Char} {t : Token}
    (code : begins c = true) (found : TokenAt c rest t after) (p : Nat) :
    Lexes p (c :: rest) [t] (t.nesting p) after := by
  obtain ⟨breaks, found⟩ := nextToken_of_tokenAt found
  simp only [begins, isSeparator, Bool.and_eq_true, Bool.not_eq_true', Bool.or_eq_false_iff,
    decide_eq_false_iff_not, decide_eq_true_eq] at code
  obtain ⟨⟨⟨⟨⟨space, tab⟩, feed⟩, break_⟩, semicolon⟩, comment⟩ := code
  have step : lexStep? p c rest = some ([t], t.nesting p, after) := by
    simp [lexStep?, space, tab, feed, break_, semicolon, comment, found]
  exact .step step (.refl _ _)

theorem takeWhile_isWordChar {letters : List Char} (word : ∀ c ∈ letters, isWordChar c = true)
    {rest : List Char} (clear : Clear rest) :
    (letters ++ rest).takeWhile isWordChar = letters ∧
      (letters ++ rest).dropWhile isWordChar = rest := by
  have stops : rest.takeWhile isWordChar = [] ∧ rest.dropWhile isWordChar = rest := by
    cases rest with
    | nil => exact ⟨rfl, rfl⟩
    | cons c more => simp [(clear.first c rfl).1]
  rw [List.takeWhile_append_of_pos word, List.dropWhile_append_of_pos word, stops.1, stops.2]
  exact ⟨List.append_nil _, rfl⟩

theorem begins_of_passes {test : Char → Bool} {c : Char} (passes : test c = true)
    (none : [' ', '\t', '\r', '\n', ';', '#'].all (fun d => !test d) = true) :
    begins c = true := by
  have other : ∀ d ∈ [' ', '\t', '\r', '\n', ';', '#'], c ≠ d := by
    rintro d mem rfl
    have fails := List.all_eq_true.1 none c mem
    rw [passes] at fails
    cases fails
  simp only [List.forall_mem_cons] at other
  obtain ⟨space, tab, feed, break_, semicolon, comment, -⟩ := other
  simp [begins, isSeparator, space, tab, feed, break_, semicolon, comment]

theorem isWordChar_of_isAsciiDigit {c : Char} (digit : Text.isAsciiDigit c = true) :
    isWordChar c = true := by
  have range := Text.isAsciiDigit_iff.1 digit
  have ascii : Text.isAscii c = true := Text.isAscii_iff.2 (by omega)
  simp [isWordChar, Text.isAlphanumeric_of_ascii ascii, Text.isAsciiAlphanumeric, digit]

theorem nesting_wordToken (word : String) (p : Nat) : (wordToken word).nesting p = p := by
  unfold wordToken
  split <;> rfl

theorem isQuote_of_isWordChar {c : Char} (word : isWordChar c = true) : isQuote c = false :=
  not_isQuote (by decide) (by decide) word

theorem lexes_word {word : String} (letters : isWord word = true) (p : Nat) {rest : List Char}
    (clear : Clear rest) : Lexes p (word.toList ++ rest) [wordToken word] p rest := by
  obtain ⟨c, more, split, start, word'⟩ := letters_of_isWord letters
  obtain ⟨taken, left⟩ := takeWhile_isWordChar word' clear
  have unquoted : ((c = 'f' || c = 'F') && (more ++ rest).head?.any isQuote) = false := by
    have plain : (more ++ rest).head?.any isQuote = false := by
      cases more with
      | cons d more => exact isQuote_of_isWordChar (word' d List.mem_cons_self)
      | nil =>
        cases rest with
        | nil => rfl
        | cons d rest => exact (clear.first d rfl).2.1
    rw [plain, Bool.and_false]
  have found := TokenAt.word start unquoted
  rw [taken, left, ← split, String.ofList_toList] at found
  have lexes := lexes_tokenAt (begins_of_passes start (by decide)) found p
  rwa [nesting_wordToken, ← List.cons_append, ← split] at lexes

theorem lexes_var {name : String} (letters : isWord name = true) (p : Nat) {rest : List Char}
    (clear : Clear rest) : Lexes p ('$' :: (name.toList ++ rest)) [.var name] p rest := by
  obtain ⟨c, more, split, start, word⟩ := letters_of_isWord letters
  have all : ∀ d ∈ name.toList, isWordChar d = true := by
    rw [split]
    exact List.forall_mem_cons.2 ⟨isWordChar_of_isWordStart start, word⟩
  obtain ⟨taken, left⟩ := takeWhile_isWordChar all clear
  have named : (name.toList ++ rest).head?.any isWordStart = true := by
    rw [split]
    exact start
  have found := TokenAt.dollar rfl named
  rw [taken, left, String.ofList_toList] at found
  exact lexes_tokenAt (by decide) found p

theorem number_toDigits {n : Nat} (small : (n : Int) ≤ Int64.maxValue.toInt) {rest : List Char}
    (clear : Clear rest) :
    number (Nat.toDigits 10 n ++ rest) = .ok (.int (Int64.ofInt n), rest) := by
  have digits : ∀ c ∈ Nat.toDigits 10 n, Text.isAsciiDigit c = true :=
    fun c mem => Text.isAsciiDigit_of_mem_toDigits mem
  have stops : rest.takeWhile Text.isAsciiDigit = [] ∧ rest.dropWhile Text.isAsciiDigit = rest := by
    cases rest with
    | nil => exact ⟨rfl, rfl⟩
    | cons c more =>
      have word := (clear.first c rfl).1
      have other : Text.isAsciiDigit c = false := by
        cases digit : Text.isAsciiDigit c with
        | false => rfl
        | true =>
          rw [isWordChar_of_isAsciiDigit digit] at word
          cases word
      simp [other]
  have whole : (Nat.toDigits 10 n ++ rest).takeWhile Text.isAsciiDigit = Nat.toDigits 10 n := by
    rw [List.takeWhile_append_of_pos digits, stops.1, List.append_nil]
  have after : afterWhole (Nat.toDigits 10 n ++ rest) = rest := by
    rw [afterWhole, List.dropWhile_append_of_pos digits, stops.2]
  have fraction : fractionPart rest = [] := by
    unfold fractionPart
    split
    · rename_i c more
      rw [clear.point c more rfl]
      rfl
    · rfl
  have exponent : exponentPart rest = [] := by
    cases rest with
    | nil => rfl
    | cons c more =>
      have mark : ¬(c = 'e' ∨ c = 'E') := by
        have word := (clear.first c rfl).1
        rintro (rfl | rfl) <;> exact absurd word (by decide)
      simp [exponentPart, mark]
  have afterFraction : afterFraction (Nat.toDigits 10 n ++ rest) = rest := by
    rw [Script.afterFraction, after, fraction]
    rfl
  have value : Decimal.valueOf (Nat.toDigits 10 n) = n := Nat.ofDigitChars_ten_toDigits
  have range : Int64.minValue.toInt ≤ (n : Int) ∧ (n : Int) ≤ Int64.maxValue.toInt := by
    have least : Int64.minValue.toInt ≤ 0 := by decide
    omega
  rw [number_eq, whole, after, fraction, afterExponent, afterFraction, exponent, numberOf, value,
    Word.ofInt?, if_pos range]
  rfl

theorem lexes_int {i : Int64} (natural : 0 ≤ i.toInt) (p : Nat) {rest : List Char}
    (clear : Clear rest) :
    Lexes p (Nat.toDigits 10 i.toInt.toNat ++ rest) [.int i] p rest := by
  have whole : (i.toInt.toNat : Int) = i.toInt := Int.toNat_of_nonneg natural
  have read := number_toDigits (whole ▸ i.toInt_le) clear
  have same : Int64.ofInt (i.toInt.toNat : Int) = i := by
    rw [whole, Int64.ofInt_toInt]
  rw [same] at read
  cases written : Nat.toDigits 10 i.toInt.toNat with
  | nil => exact absurd written Nat.toDigits_ne_nil
  | cons c more =>
    have digit : Text.isAsciiDigit c = true :=
      Text.isAsciiDigit_of_mem_toDigits (written ▸ List.mem_cons_self)
    rw [written] at read
    exact lexes_tokenAt (begins_of_passes digit (by decide)) (.number digit read) p

theorem singleQuoted_escaped (c : Char) (rest : List Char) :
    singleQuoted '"' (escaped c ++ rest) = (singleQuoted '"' rest).map (·.cons c) := by
  unfold escaped
  -- Four characters have an escape letter of their own.
  iterate 4
    split
    · subst ‹c = _›
      simp [singleQuoted, StringBody.escape]
  split
  · rename_i quoted
    simp only [Bool.or_eq_true, decide_eq_true_eq] at quoted
    rcases quoted with rfl | quote
    · simp [singleQuoted, StringBody.escape]
    · rcases eq_of_isQuote quote with rfl | rfl <;> simp [singleQuoted, StringBody.escape, isQuote]
  · rename_i break_ _ _ _ plain
    simp only [Bool.or_eq_true, decide_eq_true_eq, not_or] at plain
    have double : c ≠ '"' := by
      rintro rfl
      exact plain.2 rfl
    rw [List.singleton_append, singleQuoted]
    · simp [double, break_, plain.1]
    · intro d more same
      exact absurd same plain.1

theorem singleQuoted_text (cs rest : List Char) :
    singleQuoted '"' (cs.flatMap escaped ++ '"' :: rest) = some ⟨cs, 0, rest⟩ := by
  induction cs with
  | nil => simp [singleQuoted]
  | cons c cs ih =>
    rw [List.flatMap_cons, List.append_assoc, singleQuoted_escaped, ih]
    rfl

theorem head?_escaped (c : Char) (rest : List Char) : (escaped c ++ rest).head? ≠ some '"' := by
  unfold escaped
  iterate 5
    split
    · simp
  rename_i plain
  rintro same
  cases same
  exact plain rfl

theorem lexes_str (s : String) (p : Nat) {rest : List Char} (clear : Clear rest) :
    Lexes p ('"' :: (s.toList.flatMap escaped ++ '"' :: rest)) [.str s] p rest := by
  -- Two quotes in a row end the empty string unless a third one follows.
  have single : ((s.toList.flatMap escaped ++ '"' :: rest).take 2 == ['"', '"']) = false := by
    cases s.toList with
    | nil =>
      cases rest with
      | nil => rfl
      | cons c more =>
        have other := (clear.first c rfl).2.1
        have quote : c ≠ '"' := by
          rintro rfl
          cases other
        simpa using quote
    | cons c cs =>
      have first := head?_escaped c (cs.flatMap escaped ++ '"' :: rest)
      rw [List.flatMap_cons, List.append_assoc]
      cases text : escaped c ++ (cs.flatMap escaped ++ '"' :: rest) with
      | nil => rfl
      | cons d more =>
        rw [text] at first
        have quote : d ≠ '"' := fun same => first (congrArg some same)
        cases more <;> simp [quote]
  have body : quotedString '"' (s.toList.flatMap escaped ++ '"' :: rest) =
      some ⟨s.toList, 0, rest⟩ := by
    rw [quotedString, single]
    exact singleQuoted_text s.toList rest
  have found := TokenAt.string rfl body
  rw [String.ofList_toList] at found
  exact lexes_tokenAt (by decide) found p

theorem begins_of_marks {c : Char} {rest after : List Char} {t : Token}
    (mark : punctuation? c rest = some (t, after)) : begins c = true :=
  of_marks (fun c => begins c = true) (by decide) mark

theorem lexes_single {c : Char} {t : Token} (alone : punctuation? c [] = some (t, []))
    (p : Nat) {rest : List Char} (other : rest.head? ≠ some '=') :
    Lexes p (c :: rest) [t] (t.nesting p) rest := by
  have mark : punctuation? c rest = some (t, rest) := by
    rcases punctuation?_elim alone with ⟨two, -⟩ | ⟨-, again⟩
    · cases two
    · refine again rest fun r same => ?_
      rw [same] at other
      exact absurd rfl other
  exact lexes_tokenAt (begins_of_marks mark) (.punctuation mark) p

theorem lexes_double {c : Char} {t : Token} (both : punctuation? c ['='] = some (t, []))
    (p : Nat) (rest : List Char) : Lexes p (c :: '=' :: rest) [t] (t.nesting p) rest := by
  have mark : punctuation? c ('=' :: rest) = some (t, rest) := by
    rcases punctuation?_elim both with ⟨-, again⟩ | ⟨one, -⟩
    · exact again rest
    · cases one
  exact lexes_tokenAt (begins_of_marks mark) (.punctuation mark) p

theorem Clear.unequal {rest : List Char} (clear : Clear rest) : rest.head? ≠ some '=' := by
  intro same
  exact (clear.first '=' same).2.2 rfl

/-- A token that is read back wherever it ends, with no bracket opened or closed. -/
def Token.Spelt (t : Token) : Prop :=
  ∀ p rest, Clear rest → Lexes p (t.spell ++ rest) [t] p rest

theorem spelt_word {t : Token} (word : String) (spell : t.spell = word.toList)
    (letters : isWord word = true) (same : wordToken word = t) : t.Spelt := by
  intro p rest clear
  have lexes := lexes_word letters p clear
  rwa [same, ← spell] at lexes

theorem spelt_single {t : Token} {c : Char} (spell : t.spell = [c])
    (alone : punctuation? c [] = some (t, [])) (flat : ∀ p, t.nesting p = p) : t.Spelt := by
  intro p rest clear
  have lexes := lexes_single alone p clear.unequal
  rwa [flat, ← List.singleton_append, ← spell] at lexes

theorem spelt_double {t : Token} {c : Char} (spell : t.spell = [c, '='])
    (both : punctuation? c ['='] = some (t, [])) (flat : ∀ p, t.nesting p = p) : t.Spelt := by
  intro p rest clear
  have lexes := lexes_double both p rest
  rw [flat] at lexes
  rw [spell]
  exact lexes

theorem spelt_operator (op : BinaryOp) : ∀ t ∈ op.tokens, t.Spelt := by
  cases op with
  | add | sub | mul | div | mod | lt | gt =>
    exact List.forall_mem_singleton.2 (spelt_single rfl rfl fun _ => rfl)
  | eq | ne | le | ge => exact List.forall_mem_singleton.2 (spelt_double rfl rfl fun _ => rfl)
  | in_ => exact List.forall_mem_singleton.2 (spelt_word "in" rfl (by decide) rfl)
  | notIn =>
    refine List.forall_mem_cons.2 ⟨spelt_word "not" rfl (by decide) rfl, ?_⟩
    exact List.forall_mem_singleton.2 (spelt_word "in" rfl (by decide) rfl)

theorem spelt_literal {v : Value} (plain : isPlainValue v = true) : (literalToken v).Spelt := by
  cases v with
  | null => exact spelt_word "null" rfl (by decide) rfl
  | bool b =>
    cases b with
    | true => exact spelt_word "true" rfl (by decide) rfl
    | false => exact spelt_word "false" rfl (by decide) rfl
  | int i => exact fun p rest clear => lexes_int (of_decide_eq_true plain) p clear
  | str s =>
    intro p rest clear
    have lexes := lexes_str s p clear
    simpa [literalToken, Token.spell] using lexes
  | _ => cases plain

/-- Glyphs that are read back wherever they end, and that do not make another mark of a mark before
    them. -/
structure Readable (gs : List Glyph) : Prop where
  lexes : ∀ p rest, Clear rest → Lexes p (spelled gs ++ rest) (tokensIn gs) p rest
  first : (spelled gs).head? ≠ some '='

namespace Readable
variable {gs hs : List Glyph}

theorem nil : Readable [] := ⟨fun p rest _ => .refl p rest, fun same => by cases same⟩

theorem token {t : Token} (spelt : t.Spelt) (first : t.spell.head? ≠ some '=') :
    Readable [.token t] := by
  refine ⟨fun p rest clear => ?_, ?_⟩
  · rw [spelled_token, spelled_nil, List.append_nil]
    exact spelt p rest clear
  · rwa [spelled_token, spelled_nil, List.append_nil]

theorem lexes_space (p : Nat) (cs : List Char) : Lexes p (' ' :: cs) [] p cs := by
  have step : lexStep? p ' ' cs = some ([], p, cs) := rfl
  exact .step step (.refl p cs)

theorem space (readable : Readable gs) : Readable (.space :: gs) := by
  refine ⟨fun p rest clear => ?_, by simp⟩
  rw [spelled_space, List.cons_append, tokensIn_space]
  exact (lexes_space p _).append (readable.lexes p rest clear)

theorem append (first : Readable gs) (second : Readable hs)
    (clear : ∀ rest, Clear rest → Clear (spelled hs ++ rest)) : Readable (gs ++ hs) := by
  refine ⟨fun p rest ends => ?_, ?_⟩
  · rw [spelled_append, tokensIn_append, List.append_assoc]
    exact (first.lexes p _ (clear rest ends)).append (second.lexes p rest ends)
  · rw [spelled_append]
    cases text : spelled gs with
    | nil => exact second.first
    | cons c more =>
      have other := first.first
      rwa [text] at other

theorem before {c : Char} {more : List Char} (first : Readable gs) (second : Readable hs)
    (text : spelled hs = c :: more) (ends : clears c = true) : Readable (gs ++ hs) :=
  first.append second fun rest _ => by
    rw [text]
    exact .cons ends _

theorem after {t : Token} {c : Char} (spell : t.spell = [c])
    (alone : punctuation? c [] = some (t, [])) (flat : ∀ p, t.nesting p = p) (other : c ≠ '=')
    (readable : Readable gs) : Readable (.token t :: gs) := by
  refine ⟨fun p rest clear => ?_, ?_⟩
  · have open_ : (spelled gs ++ rest).head? ≠ some '=' := by
      cases text : spelled gs with
      | nil => exact clear.unequal
      | cons d more =>
        have first := readable.first
        rwa [text] at first
    have lexes := lexes_single alone p open_
    rw [flat] at lexes
    rw [spelled_token, tokensIn_token, spell]
    exact lexes.append (readable.lexes p rest clear)
  · rw [spelled_token, spell]
    simpa using other

theorem bracketed {opening closing : Token} {c d : Char} (spell : opening.spell = [c])
    (alone : punctuation? c [] = some (opening, [])) (other : c ≠ '=')
    (spell' : closing.spell = [d]) (alone' : punctuation? d [] = some (closing, []))
    (ends : clears d = true) (nest : ∀ p, closing.nesting (opening.nesting p) = p)
    (readable : Readable gs) : Readable (.token opening :: (gs ++ [.token closing])) := by
  have unequal : d ≠ '=' := by
    rintro rfl
    cases ends
  refine ⟨fun p rest clear => ?_, ?_⟩
  · have open_ : (spelled gs ++ (d :: rest)).head? ≠ some '=' := by
      cases text : spelled gs with
      | nil => simpa using unequal
      | cons e more =>
        have first := readable.first
        rwa [text] at first
    have first := lexes_single alone p open_
    have inner := readable.lexes (opening.nesting p) (d :: rest) (.cons ends rest)
    have last := lexes_single alone' (opening.nesting p) clear.unequal
    rw [nest] at last
    simp only [spelled_token, spelled_append, spelled_nil, tokensIn_token, tokensIn_append,
      tokensIn_nil, spell, spell', List.append_nil, List.append_assoc, List.cons_append,
      List.nil_append]
    exact first.append (inner.append last)
  · rw [spelled_token, spell]
    simpa using other

theorem spaced {ts : List Token} (spelt : ∀ t ∈ ts, t.Spelt) (readable : Readable gs) :
    Readable (spaced ts ++ gs) := by
  have inner : ∀ p rest, Clear rest →
      Lexes p (spelled (ts.flatMap (fun t => [.token t, .space]) ++ gs) ++ rest)
        (ts ++ tokensIn gs) p rest := by
    intro p rest clear
    induction ts with
    | nil => exact readable.lexes p rest clear
    | cons t ts ih =>
      have later := ih fun u mem => spelt u (List.mem_cons_of_mem t mem)
      have here (cs : List Char) :=
        spelt t List.mem_cons_self p (' ' :: cs) (.cons (by decide) cs)
      simpa using (here _).append ((lexes_space p _).append later)
  refine ⟨fun p rest clear => ?_, by simp [Script.spaced]⟩
  rw [tokensIn_append, tokensIn_spaced]
  exact (lexes_space p _).append (inner p rest clear)

theorem word (name : String) (letters : isWord name = true) {t : Token}
    (spell : t.spell = name.toList) (same : wordToken name = t) : Readable [.token t] := by
  refine token (spelt_word name spell letters same) ?_
  obtain ⟨c, rest, split, start, -⟩ := letters_of_isWord letters
  rw [spell, split]
  rintro equal
  cases equal
  cases start

theorem ident {name : String} (named : isName name = true) : Readable [.token (.ident name)] :=
  word name (isWord_of_isName named) rfl (wordToken_of_isName named)

theorem var {name : String} (letters : isWord name = true) : Readable [.token (.var name)] := by
  refine token (fun p rest clear => lexes_var letters p clear) ?_
  simp [Token.spell]

theorem literal {v : Value} (plain : isPlainValue v = true) :
    Readable [.token (literalToken v)] := by
  refine token (spelt_literal plain) ?_
  cases v with
  | bool b => cases b <;> decide
  | int i =>
    cases written : Nat.toDigits 10 i.toInt.toNat with
    | nil => exact absurd written Nat.toDigits_ne_nil
    | cons c more =>
      have digit : Text.isAsciiDigit c = true :=
        Text.isAsciiDigit_of_mem_toDigits (written ▸ List.mem_cons_self)
      rw [literalToken, Token.spell, written]
      rintro equal
      cases equal
      cases digit
  | _ => simp [literalToken, Token.spell]

theorem parens (readable : Readable gs) :
    Readable (.token .lparen :: (gs ++ [.token .rparen])) :=
  readable.bracketed rfl rfl (by decide) rfl rfl (by decide) fun _ => rfl

theorem brackets (readable : Readable gs) :
    Readable (.token .lbracket :: (gs ++ [.token .rbracket])) :=
  readable.bracketed rfl rfl (by decide) rfl rfl (by decide) fun _ => rfl

theorem braces (readable : Readable gs) :
    Readable (.token .lbrace :: (gs ++ [.token .rbrace])) :=
  readable.bracketed rfl rfl (by decide) rfl rfl (by decide) fun _ => rfl

theorem comma (first : Readable gs) (second : Readable hs) :
    Readable (gs ++ .token .comma :: .space :: hs) :=
  first.before (second.space.after (t := .comma) rfl rfl (fun _ => rfl) (by decide)) rfl (by decide)

theorem colon (first : Readable gs) (second : Readable hs) :
    Readable (gs ++ .token .colon :: .space :: hs) :=
  first.before (second.space.after (t := .colon) rfl rfl (fun _ => rfl) (by decide)) rfl (by decide)

theorem operand {e : Expr} {bare : Bool → List Glyph} (readable : ∀ cond, Readable (bare cond))
    (cond : Bool) (place : Tier) : Readable (operandGlyphs e bare cond place) := by
  unfold operandGlyphs
  split
  · exact (readable false).parens
  · exact readable cond

theorem between {ts : List Token} (first : Readable gs) (spelt : ∀ t ∈ ts, t.Spelt)
    (second : Readable hs) : Readable (gs ++ Script.spaced ts ++ hs) := by
  rw [List.append_assoc]
  exact first.before (second.spaced spelt) rfl (by decide)

end Readable

mutual
theorem bare_readable : ∀ (e : Expr), e.isPlain = true → ∀ cond, Readable (e.bare cond)
  | .literal v, plain, _ => by
    rw [Expr.isPlain] at plain
    exact .literal plain
  | .template _, plain, _ => by cases plain
  | .name n, plain, _ => by
    rw [Expr.isPlain] at plain
    exact .ident plain
  | .var n, plain, _ => by
    rw [Expr.isPlain] at plain
    exact .var plain
  | .list items, plain, _ => by
    rw [Expr.isPlain] at plain
    exact (items_readable items plain).brackets
  | .map entries, plain, _ => by
    rw [Expr.isPlain] at plain
    exact (entries_readable entries plain).braces
  | .attr object name, plain, cond => by
    rw [Expr.isPlain, Bool.and_eq_true] at plain
    have left := Readable.operand (e := object) (bare_readable object plain.1) cond .suffix
    have right := (Readable.ident plain.2).after (t := .dot) rfl rfl (fun _ => rfl) (by decide)
    refine left.append right fun rest _ => ?_
    simpa [Token.spell] using Clear.attribute (isWord_of_isName plain.2) rest
  | .index object position, plain, cond => by
    rw [Expr.isPlain, Bool.and_eq_true] at plain
    have left := Readable.operand (e := object) (bare_readable object plain.1) cond .suffix
    have right := Readable.operand (e := position) (bare_readable position plain.2) false .or
    exact left.before right.brackets rfl (by decide)
  | .call function args, plain, _ => by
    rw [Expr.isPlain, Bool.and_eq_true] at plain
    exact (Readable.ident plain.1).before (items_readable args plain.2).parens rfl (by decide)
  | .unary .not operand, plain, cond => by
    rw [Expr.isPlain] at plain
    have right := Readable.operand (e := operand) (bare_readable operand plain) cond .not
    exact (Readable.word "not" (by decide) rfl rfl).before right.space rfl (by decide)
  | .unary .neg operand, plain, cond => by
    rw [Expr.isPlain, Bool.and_eq_true] at plain
    have right := Readable.operand (e := operand) (bare_readable operand plain.1) cond .sign
    exact right.after rfl rfl (fun _ => rfl) (by decide)
  | .binary op left right, plain, cond => by
    rw [Expr.isPlain, Bool.and_eq_true] at plain
    exact .between (.operand (bare_readable left plain.1) cond _) (spelt_operator op)
      (.operand (bare_readable right plain.2) cond _)
  | .and left right, plain, cond => by
    rw [Expr.isPlain, Bool.and_eq_true] at plain
    refine .between (.operand (bare_readable left plain.1) cond _)
      (List.forall_mem_singleton.2 ?_) (.operand (bare_readable right plain.2) cond _)
    exact spelt_word "and" rfl (by decide) rfl
  | .or left right, plain, cond => by
    rw [Expr.isPlain, Bool.and_eq_true] at plain
    refine .between (.operand (bare_readable left plain.1) cond _)
      (List.forall_mem_singleton.2 ?_) (.operand (bare_readable right plain.2) cond _)
    exact spelt_word "or" rfl (by decide) rfl

theorem items_readable : ∀ items : List Expr, itemsPlain items = true → Readable (itemGlyphs items)
  | [], _ => .nil
  | [e], plain => by
    rw [itemsPlain, Bool.and_eq_true] at plain
    exact .operand (bare_readable e plain.1) false .or
  | e :: next :: rest, plain => by
    rw [itemsPlain, Bool.and_eq_true] at plain
    exact .comma (.operand (bare_readable e plain.1) false .or)
      (items_readable (next :: rest) plain.2)

theorem entries_readable : ∀ entries : List (Expr × Expr), entriesPlain entries = true →
    Readable (entryGlyphs entries)
  | [], _ => .nil
  | [(key, value)], plain => by
    rw [entriesPlain, Bool.and_eq_true, Bool.and_eq_true] at plain
    exact .colon (.operand (bare_readable key plain.1.1) false .or)
      (.operand (bare_readable value plain.1.2) false .or)
  | (key, value) :: next :: rest, plain => by
    rw [entriesPlain, Bool.and_eq_true, Bool.and_eq_true] at plain
    have here := Readable.colon
      (.operand (e := key) (bare_readable key plain.1.1) false .or)
      (.operand (e := value) (bare_readable value plain.1.2) false .or)
    have both := here.comma (entries_readable (next :: rest) plain.2)
    simpa [entryGlyphs] using both
end

end Playbook.Script
