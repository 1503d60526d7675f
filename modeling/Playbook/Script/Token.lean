import Playbook.Decimal.Written
import Playbook.Script.Fault
import Playbook.Text.CharClass
import Playbook.Word

/- Source text as tokens. A line break ends a statement unless an opening parenthesis or square
   bracket is still unmatched; inside strings in triple quotes, and after a backslash, it is part of
   the string. Every token carries the line on which it starts. -/
namespace Playbook.Script

inductive Token where
  | int (i : Int64)
  | float (x : Float)
  | str (s : String)
  /-- The body of a string with placeholders, escapes already resolved. -/
  | template (s : String)
  | ident (name : String)
  | var (name : String)
  | if_ | elif | else_ | and | or | not | in_ | true_ | false_ | null
  | lparen | rparen | lbracket | rbracket | lbrace | rbrace
  | comma | colon | dot | assign | plusAssign | minusAssign
  | plus | minus | star | slash | percent
  | eqEq | notEq | lt | le | gt | ge
  | newline
  | eof

structure Lexeme where
  token : Token
  line : Nat

def Token.describe : Token → String
  | .int i => toString i.toInt
  | .float x => Decimal.plain x
  | .str _ | .template _ => "string"
  | .ident name => name
  | .var name => "$" ++ name
  | .if_ => "If"
  | .elif => "Elif"
  | .else_ => "Else"
  | .and => "And"
  | .or => "Or"
  | .not => "Not"
  | .in_ => "In"
  | .true_ => "True"
  | .false_ => "False"
  | .null => "Null"
  | .lparen => "LParen"
  | .rparen => "RParen"
  | .lbracket => "LBracket"
  | .rbracket => "RBracket"
  | .lbrace => "LBrace"
  | .rbrace => "RBrace"
  | .comma => "Comma"
  | .colon => "Colon"
  | .dot => "Dot"
  | .assign => "Assign"
  | .plusAssign => "PlusAssign"
  | .minusAssign => "MinusAssign"
  | .plus => "Plus"
  | .minus => "Minus"
  | .star => "Star"
  | .slash => "Slash"
  | .percent => "Percent"
  | .eqEq => "EqEq"
  | .notEq => "NotEq"
  | .lt => "Lt"
  | .le => "Le"
  | .gt => "Gt"
  | .ge => "Ge"
  | .newline => "end of statement"
  | .eof => "end of input"

def isWordStart (c : Char) : Bool := Text.isAlphabetic c || c = '_'

def isWordChar (c : Char) : Bool := Text.isAlphanumeric c || c = '_'

def isQuote (c : Char) : Bool := c = '"' || c = '\''

def wordToken (word : String) : Token :=
  match word with
  | "if" => .if_
  | "elif" => .elif
  | "else" => .else_
  | "and" => .and
  | "or" => .or
  | "not" => .not
  | "in" => .in_
  | "true" | "True" => .true_
  | "false" | "False" => .false_
  | "null" | "None" => .null
  | _ => .ident word

structure StringBody where
  text : List Char
  breaks : Nat
  rest : List Char

namespace StringBody

def cons (c : Char) (b : StringBody) : StringBody := { b with text := c :: b.text }

def broken (b : StringBody) : StringBody := { b with breaks := b.breaks + 1 }

def escape (c : Char) (b : StringBody) : StringBody :=
  if c = 'n' then b.cons '\n'
  else if c = 't' then b.cons '\t'
  else if c = 'r' then b.cons '\r'
  else if c = '0' then b.cons '\x00'
  else if c = '\\' || isQuote c then b.cons c
  else if c = '\n' then b.broken
  else (b.cons c).cons '\\'

end StringBody

def singleQuoted (q : Char) : List Char → Option StringBody
  | [] => none
  | '\\' :: c :: rest => (singleQuoted q rest).map (·.escape c)
  | c :: rest =>
    if c = q then some ⟨[], 0, rest⟩
    else if c = '\n' || c = '\\' then none
    else (singleQuoted q rest).map (·.cons c)

def tripleQuoted (q : Char) : List Char → Option StringBody
  | [] => none
  | '\\' :: c :: rest => (tripleQuoted q rest).map (·.escape c)
  | c :: rest =>
    if c = '\\' then none
    else if c = q && rest.take 2 == [q, q] then some ⟨[], 0, rest.drop 2⟩
    else if c = '\n' then (tripleQuoted q rest).map fun b => b.broken.cons c
    else (tripleQuoted q rest).map (·.cons c)

def quotedString (q : Char) (cs : List Char) : Option StringBody :=
  if cs.take 2 == [q, q] then tripleQuoted q (cs.drop 2) else singleQuoted q cs

def fractionPart (cs : List Char) : List Char :=
  match cs with
  | '.' :: c :: rest => if Text.isAsciiDigit c then (c :: rest).takeWhile Text.isAsciiDigit else []
  | _ => []

def exponentPart (cs : List Char) : List Char :=
  match cs with
  | e :: rest =>
    if e = 'e' || e = 'E' then
      let sign := match rest with
        | '+' :: _ => ['+']
        | '-' :: _ => ['-']
        | _ => []
      let digits := (rest.drop sign.length).takeWhile Text.isAsciiDigit
      if digits.isEmpty then [] else sign ++ digits
    else []
  | [] => []

def afterPart (part cs : List Char) : List Char :=
  if part.isEmpty then cs else cs.drop (part.length + 1)

/-- A number and what follows it; doubles have a point or an exponent. -/
def number (cs : List Char) : Except SyntaxFault (Token × List Char) :=
  let whole := cs.takeWhile Text.isAsciiDigit
  let rest := cs.dropWhile Text.isAsciiDigit
  let fraction := fractionPart rest
  let rest := afterPart fraction rest
  let expo := exponentPart rest
  let rest := afterPart expo rest
  if fraction.isEmpty && expo.isEmpty then
    match Word.ofInt? (Decimal.valueOf whole) with
    | some n => .ok (.int n, rest)
    | none => .error (.intTooLarge (String.ofList whole))
  else
    let power := (Decimal.readInt? expo).getD 0 - fraction.length
    .ok (.float (Decimal.nearest (Decimal.valueOf (whole ++ fraction)) power), rest)

def punctuation? (c : Char) (rest : List Char) : Option (Token × List Char) :=
  match c, rest with
  | '=', '=' :: r => some (.eqEq, r)
  | '!', '=' :: r => some (.notEq, r)
  | '<', '=' :: r => some (.le, r)
  | '>', '=' :: r => some (.ge, r)
  | '+', '=' :: r => some (.plusAssign, r)
  | '-', '=' :: r => some (.minusAssign, r)
  | '=', r => some (.assign, r)
  | '<', r => some (.lt, r)
  | '>', r => some (.gt, r)
  | '+', r => some (.plus, r)
  | '-', r => some (.minus, r)
  | '*', r => some (.star, r)
  | '/', r => some (.slash, r)
  | '%', r => some (.percent, r)
  | '(', r => some (.lparen, r)
  | ')', r => some (.rparen, r)
  | '[', r => some (.lbracket, r)
  | ']', r => some (.rbracket, r)
  | '{', r => some (.lbrace, r)
  | '}', r => some (.rbrace, r)
  | ',', r => some (.comma, r)
  | ':', r => some (.colon, r)
  | '.', r => some (.dot, r)
  | _, _ => none

/-- How many parentheses and square brackets are open after a token. -/
def Token.nesting (depth : Nat) : Token → Nat
  | .lparen | .lbracket => depth + 1
  | .rparen | .rbracket => depth - 1
  | _ => depth

def nextToken (c : Char) (rest : List Char) : Except SyntaxFault (Token × Nat × List Char) :=
  if isQuote c then
    match quotedString c rest with
    | some b => .ok (.str (String.ofList b.text), b.breaks, b.rest)
    | none => .error .unterminatedString
  else if (c = 'f' || c = 'F') && rest.head?.any isQuote then
    match rest with
    | q :: more =>
      match quotedString q more with
      | some b => .ok (.template (String.ofList b.text), b.breaks, b.rest)
      | none => .error .unterminatedString
    | [] => .error .unterminatedString
  else if c = '$' then
    if rest.head?.any isWordStart then
      .ok (.var (String.ofList (rest.takeWhile isWordChar)), 0, rest.dropWhile isWordChar)
    else .error .noVariableName
  else if Text.isAsciiDigit c then
    (number (c :: rest)).map fun (t, r) => (t, 0, r)
  else if isWordStart c then
    .ok (wordToken (String.ofList (c :: rest.takeWhile isWordChar)), 0, rest.dropWhile isWordChar)
  else
    match punctuation? c rest with
    | some (t, r) => .ok (t, 0, r)
    | none => .error (.unexpectedChar c)

theorem singleQuoted_rest_le (q : Char) (cs : List Char) {b : StringBody}
    (h : singleQuoted q cs = some b) : b.rest.length < cs.length := by
  fun_induction singleQuoted q cs generalizing b with
  | case1 => simp at h
  | case2 c rest ih =>
    obtain ⟨b', hb, rfl⟩ := Option.map_eq_some_iff.1 h
    have := ih hb
    simp only [StringBody.escape, StringBody.cons, StringBody.broken]
    repeat' split
    all_goals simp only [List.length_cons]; omega
  | case3 c rest => simp only [Option.some.injEq] at h; subst h; simp
  | case4 => simp at h
  | case5 c rest _ _ _ ih =>
    obtain ⟨b', hb, rfl⟩ := Option.map_eq_some_iff.1 h
    have := ih hb
    simp only [StringBody.cons, List.length_cons]
    omega

theorem tripleQuoted_rest_le (q : Char) (cs : List Char) {b : StringBody}
    (h : tripleQuoted q cs = some b) : b.rest.length < cs.length := by
  fun_induction tripleQuoted q cs generalizing b with
  | case1 => simp at h
  | case2 c rest ih =>
    obtain ⟨b', hb, rfl⟩ := Option.map_eq_some_iff.1 h
    have := ih hb
    simp only [StringBody.escape, StringBody.cons, StringBody.broken]
    repeat' split
    all_goals simp only [List.length_cons]; omega
  | case3 => simp at h
  | case4 c rest =>
    simp only [Option.some.injEq] at h
    subst h
    simp only [List.length_drop, List.length_cons]
    omega
  | case5 rest _ _ _ ih =>
    obtain ⟨b', hb, rfl⟩ := Option.map_eq_some_iff.1 h
    have := ih hb
    simp only [StringBody.cons, StringBody.broken, List.length_cons]
    omega
  | case6 c rest _ _ _ _ ih =>
    obtain ⟨b', hb, rfl⟩ := Option.map_eq_some_iff.1 h
    have := ih hb
    simp only [StringBody.cons, List.length_cons]
    omega

theorem quotedString_rest_le (q : Char) (cs : List Char) {b : StringBody}
    (h : quotedString q cs = some b) : b.rest.length ≤ cs.length := by
  unfold quotedString at h
  split at h
  · have := tripleQuoted_rest_le q _ h
    simp only [List.length_drop] at this
    omega
  · exact Nat.le_of_lt (singleQuoted_rest_le q _ h)

theorem afterPart_le (part cs : List Char) : (afterPart part cs).length ≤ cs.length := by
  unfold afterPart
  split <;> simp

theorem number_rest_le (c : Char) (rest : List Char) (digit : Text.isAsciiDigit c = true)
    {t : Token} {r : List Char} (h : number (c :: rest) = .ok (t, r)) : r.length ≤ rest.length := by
  have first : ((c :: rest).dropWhile Text.isAsciiDigit).length ≤ rest.length := by
    rw [List.dropWhile_cons_of_pos digit]
    exact (List.dropWhile_suffix _).length_le
  have all (p q : List Char) :=
    Nat.le_trans (afterPart_le p (afterPart q ((c :: rest).dropWhile Text.isAsciiDigit)))
      (Nat.le_trans (afterPart_le q _) first)
  simp only [number] at h
  split at h
  · split at h
    · cases h
      exact all _ _
    · cases h
  · cases h
    exact all _ _

theorem punctuation?_rest_le (c : Char) (rest : List Char) {t : Token} {r : List Char}
    (h : punctuation? c rest = some (t, r)) : r.length ≤ rest.length := by
  unfold punctuation? at h
  split at h <;> simp only [Option.some.injEq, Prod.mk.injEq, reduceCtorEq] at h
  all_goals
    obtain ⟨-, rfl⟩ := h
    simp

theorem nextToken_rest_le (c : Char) (rest : List Char) {t : Token} {n : Nat} {r : List Char}
    (h : nextToken c rest = .ok (t, n, r)) : r.length ≤ rest.length := by
  have words : (rest.dropWhile isWordChar).length ≤ rest.length :=
    (List.dropWhile_suffix _).length_le
  unfold nextToken at h
  split at h
  · split at h
    · rename_i b hb
      simp only [Except.ok.injEq, Prod.mk.injEq] at h
      exact h.2.2 ▸ quotedString_rest_le _ _ hb
    · simp at h
  split at h
  · split at h
    · split at h
      · rename_i q more _ _ b hb
        simp only [Except.ok.injEq, Prod.mk.injEq] at h
        have := quotedString_rest_le _ _ hb
        rw [← h.2.2, List.length_cons]
        omega
      · simp at h
    · simp at h
  split at h
  · split at h
    · simp only [Except.ok.injEq, Prod.mk.injEq] at h
      exact h.2.2 ▸ words
    · simp at h
  split at h
  · rename_i digit
    cases hn : number (c :: rest) with
    | error e => simp [hn, Except.map] at h
    | ok p =>
      obtain ⟨t', r'⟩ := p
      simp only [hn, Except.map, Except.ok.injEq, Prod.mk.injEq] at h
      exact h.2.2 ▸ number_rest_le c rest digit hn
  split at h
  · simp only [Except.ok.injEq, Prod.mk.injEq] at h
    exact h.2.2 ▸ words
  split at h
  · rename_i t' r' hp
    simp only [Except.ok.injEq, Prod.mk.injEq] at h
    exact h.2.2 ▸ punctuation?_rest_le c rest hp
  · simp at h

def scan (line depth : Nat) (cs : List Char) : Except SyntaxError (List Lexeme) :=
  match cs with
  | [] => .ok [⟨.eof, line⟩]
  | c :: rest =>
    if c = ' ' || c = '\t' || c = '\r' then scan line depth rest
    else if c = '\n' then
      if 0 < depth then scan (line + 1) depth rest
      else (scan (line + 1) depth rest).map (⟨.newline, line⟩ :: ·)
    else if c = ';' then (scan line depth rest).map (⟨.newline, line⟩ :: ·)
    else if c = '#' then scan line depth (rest.dropWhile (· ≠ '\n'))
    else
      match _h : nextToken c rest with
      | .error fault => .error ⟨line, fault⟩
      | .ok (token, breaks, after) =>
        (scan (line + breaks) (token.nesting depth) after).map (⟨token, line⟩ :: ·)
termination_by cs.length
decreasing_by
  · simp
  · simp
  · simp
  · simp
  · exact Nat.lt_succ_of_le (List.dropWhile_suffix _).length_le
  · exact Nat.lt_succ_of_le (nextToken_rest_le c rest _h)

def tokenize (source : String) : Except SyntaxError (List Lexeme) := scan 1 0 source.toList

end Playbook.Script
