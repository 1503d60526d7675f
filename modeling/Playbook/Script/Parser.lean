import Playbook.Script.Syntax
import Playbook.Script.Token
import Playbook.Text.Trim

/- Programs from tokens, by recursive descent. Every function takes the depth to which it may still
   go; `parseProgram` and `parseExpression` choose it from the length of the source, far above what
   any source of that length needs. -/
namespace Playbook.Script

abbrev Reading := Except SyntaxError

def lineOf : List Lexeme → Nat
  | [] => 1
  | t :: _ => t.line

def describeNext : List Lexeme → String
  | [] => Token.eof.describe
  | t :: _ => t.token.describe

def expectedHere (what : String) (ts : List Lexeme) : SyntaxError :=
  ⟨lineOf ts, .expected what (describeNext ts)⟩

def tooDeep (ts : List Lexeme) : SyntaxError := ⟨lineOf ts, .tooDeep⟩

def skipNewlines : List Lexeme → List Lexeme
  | ⟨.newline, _⟩ :: ts => skipNewlines ts
  | ts => ts

inductive Closer where
  | paren
  | bracket
deriving DecidableEq, Repr

def Closer.word : Closer → String
  | .paren => "')'"
  | .bracket => "']'"

def Closer.close? : Closer → List Lexeme → Option (List Lexeme)
  | .paren, ⟨.rparen, _⟩ :: ts => some ts
  | .bracket, ⟨.rbracket, _⟩ :: ts => some ts
  | _, _ => none

def Closer.expect (c : Closer) (ts : List Lexeme) : Reading (List Lexeme) :=
  match c.close? ts with
  | some ts => .ok ts
  | none => .error (expectedHere c.word ts)

def expectColon : List Lexeme → Reading (List Lexeme)
  | ⟨.colon, _⟩ :: ts => .ok ts
  | ts => .error (expectedHere "':'" ts)

def expectRightBrace : List Lexeme → Reading (List Lexeme)
  | ⟨.rbrace, _⟩ :: ts => .ok ts
  | ts => .error (expectedHere "'\x7d'" ts)

def expectLeftBrace : List Lexeme → Reading (List Lexeme)
  | ⟨.lbrace, _⟩ :: ts => .ok ts
  | ts => .error (expectedHere "'\x7b'" ts)

inductive Level where
  | comparison
  | sum
  | product
deriving DecidableEq, Repr

def Level.operator? : Level → List Lexeme → Option (BinaryOp × List Lexeme)
  | .comparison, ⟨.eqEq, _⟩ :: ts => some (.eq, ts)
  | .comparison, ⟨.notEq, _⟩ :: ts => some (.ne, ts)
  | .comparison, ⟨.lt, _⟩ :: ts => some (.lt, ts)
  | .comparison, ⟨.le, _⟩ :: ts => some (.le, ts)
  | .comparison, ⟨.gt, _⟩ :: ts => some (.gt, ts)
  | .comparison, ⟨.ge, _⟩ :: ts => some (.ge, ts)
  | .comparison, ⟨.in_, _⟩ :: ts => some (.in_, ts)
  | .comparison, ⟨.not, _⟩ :: ⟨.in_, _⟩ :: ts => some (.notIn, ts)
  | .sum, ⟨.plus, _⟩ :: ts => some (.add, ts)
  | .sum, ⟨.minus, _⟩ :: ts => some (.sub, ts)
  | .product, ⟨.star, _⟩ :: ts => some (.mul, ts)
  | .product, ⟨.slash, _⟩ :: ts => some (.div, ts)
  | .product, ⟨.percent, _⟩ :: ts => some (.mod, ts)
  | _, _ => none

/-- A minus sign before a number makes a number. -/
def negated : Expr → Expr
  | .literal (.int i) => .literal (.int (-i))
  | .literal (.float x) => .literal (.float (-x))
  | e => .unary .neg e

inductive Piece where
  | text (cs : List Char)
  | hole (source : List Char)

/-- A placeholder up to the bracket that closes it, and what follows. Brackets of all three kinds
    count alike; those inside quotes do not count. -/
def holeTail (depth : Nat) (quote : Option Char) : List Char → Option (List Char × List Char)
  | [] => none
  | c :: rest =>
    match quote with
    | some q => (holeTail depth (if c = q then none else some q) rest).map fun p => (c :: p.1, p.2)
    | none =>
      if isQuote c then (holeTail depth (some c) rest).map fun p => (c :: p.1, p.2)
      else if c = '{' || c = '[' || c = '(' then
        (holeTail (depth + 1) none rest).map fun p => (c :: p.1, p.2)
      else if c = '}' || c = ']' || c = ')' then
        if depth = 0 then some ([], rest)
        else (holeTail (depth - 1) none rest).map fun p => (c :: p.1, p.2)
      else (holeTail depth none rest).map fun p => (c :: p.1, p.2)

theorem holeTail_rest_lt (depth : Nat) (quote : Option Char) (cs : List Char)
    {source rest : List Char} (h : holeTail depth quote cs = some (source, rest)) :
    rest.length < cs.length := by
  induction cs generalizing depth quote source with
  | nil => simp [holeTail] at h
  | cons c cs ih =>
    have step (d : Nat) (q : Option Char)
        (h : (holeTail d q cs).map (fun p => (c :: p.1, p.2)) = some (source, rest)) :
        rest.length < (c :: cs).length := by
      obtain ⟨⟨s, r⟩, hs, he⟩ := Option.map_eq_some_iff.1 h
      cases he
      exact Nat.lt_succ_of_lt (ih d q hs)
    unfold holeTail at h
    split at h
    · exact step _ _ h
    · repeat' split at h
      · exact step _ _ h
      · exact step _ _ h
      · cases h
        simp
      · exact step _ _ h
      · exact step _ _ h

structure Pieces where
  pieces : List Piece
  fault : Option SyntaxFault

def Pieces.addChar (c : Char) (p : Pieces) : Pieces :=
  match p.pieces with
  | .text cs :: more => ⟨.text (c :: cs) :: more, p.fault⟩
  | more => ⟨.text [c] :: more, p.fault⟩

def Pieces.addHole (source : List Char) (p : Pieces) : Pieces := ⟨.hole source :: p.pieces, p.fault⟩

/-- A doubled brace stands for one brace; any other brace opens a placeholder or is a fault. -/
def Pieces.ofBody (cs : List Char) : Pieces :=
  match cs with
  | [] => ⟨[], none⟩
  | '{' :: '{' :: rest => (ofBody rest).addChar '{'
  | '}' :: '}' :: rest => (ofBody rest).addChar '}'
  | '{' :: rest =>
    match _h : holeTail 0 none rest with
    | none => ⟨[], some .openPlaceholder⟩
    | some (source, after) =>
      if source.all Text.isBlank then ⟨[], some .emptyPlaceholder⟩
      else (ofBody after).addHole source
  | '}' :: _ => ⟨[], some .strayBrace⟩
  | c :: rest => (ofBody rest).addChar c
termination_by cs.length
decreasing_by
  · simp only [List.length_cons]; omega
  · simp only [List.length_cons]; omega
  · exact Nat.lt_succ_of_lt (holeTail_rest_lt _ _ _ _h)
  · simp

mutual
def disjunction : Nat → Bool → List Lexeme → Reading (Expr × List Lexeme)
  | 0, _, ts => .error (tooDeep ts)
  | n + 1, cond, ts => do
    let (left, ts) ← conjunction n cond ts
    orTail n cond left ts

def orTail : Nat → Bool → Expr → List Lexeme → Reading (Expr × List Lexeme)
  | 0, _, _, ts => .error (tooDeep ts)
  | n + 1, cond, left, ts =>
    match ts with
    | ⟨.or, _⟩ :: ts => do
      let (right, ts) ← conjunction n cond ts
      orTail n cond (.or left right) ts
    | _ => .ok (left, ts)

def conjunction : Nat → Bool → List Lexeme → Reading (Expr × List Lexeme)
  | 0, _, ts => .error (tooDeep ts)
  | n + 1, cond, ts => do
    let (left, ts) ← inversion n cond ts
    andTail n cond left ts

def andTail : Nat → Bool → Expr → List Lexeme → Reading (Expr × List Lexeme)
  | 0, _, _, ts => .error (tooDeep ts)
  | n + 1, cond, left, ts =>
    match ts with
    | ⟨.and, _⟩ :: ts => do
      let (right, ts) ← inversion n cond ts
      andTail n cond (.and left right) ts
    | _ => .ok (left, ts)

def inversion : Nat → Bool → List Lexeme → Reading (Expr × List Lexeme)
  | 0, _, ts => .error (tooDeep ts)
  | n + 1, cond, ts =>
    match ts with
    | ⟨.not, _⟩ :: ts => do
      let (operand, ts) ← inversion n cond ts
      return (.unary .not operand, ts)
    | _ => chain n cond .comparison ts

def chain : Nat → Bool → Level → List Lexeme → Reading (Expr × List Lexeme)
  | 0, _, _, ts => .error (tooDeep ts)
  | n + 1, cond, level, ts => do
    let (left, ts) ← operand n cond level ts
    chainTail n cond level left ts

def chainTail : Nat → Bool → Level → Expr → List Lexeme → Reading (Expr × List Lexeme)
  | 0, _, _, _, ts => .error (tooDeep ts)
  | n + 1, cond, level, left, ts =>
    match level.operator? ts with
    | some (op, ts) => do
      let (right, ts) ← operand n cond level ts
      chainTail n cond level (.binary op left right) ts
    | none => .ok (left, ts)

def operand : Nat → Bool → Level → List Lexeme → Reading (Expr × List Lexeme)
  | 0, _, _, ts => .error (tooDeep ts)
  | n + 1, cond, level, ts =>
    match level with
    | .comparison => chain n cond .sum ts
    | .sum => chain n cond .product ts
    | .product => sign n cond ts

def sign : Nat → Bool → List Lexeme → Reading (Expr × List Lexeme)
  | 0, _, ts => .error (tooDeep ts)
  | n + 1, cond, ts =>
    match ts with
    | ⟨.minus, _⟩ :: ts => do
      let (operand, ts) ← sign n cond ts
      return (negated operand, ts)
    | _ => do
      let (object, ts) ← primary n cond ts
      suffixes n object ts

def suffixes : Nat → Expr → List Lexeme → Reading (Expr × List Lexeme)
  | 0, _, ts => .error (tooDeep ts)
  | n + 1, object, ts =>
    match ts with
    | ⟨.dot, _⟩ :: ⟨.ident name, _⟩ :: ts => suffixes n (.attr object name) ts
    | ⟨.dot, _⟩ :: t :: ts => .error ⟨if ts.isEmpty then t.line else lineOf ts, .noAttributeName⟩
    | ⟨.lbracket, _⟩ :: ts => do
      let (position, ts) ← disjunction n false (skipNewlines ts)
      let ts ← Closer.bracket.expect (skipNewlines ts)
      suffixes n (.index object position) ts
    | ⟨.lparen, line⟩ :: ts =>
      match object with
      | .name function => do
        let (args, ts) ← sequence n .paren ts
        suffixes n (.call function args) ts
      | _ => .error ⟨line, .notCallable⟩
    | _ => .ok (object, ts)

def primary : Nat → Bool → List Lexeme → Reading (Expr × List Lexeme)
  | 0, _, ts => .error (tooDeep ts)
  | n + 1, cond, ts =>
    match ts with
    | [] => .error ⟨1, .unexpected Token.eof.describe⟩
    | t :: ts =>
      match t.token with
      | .int i => .ok (.literal (.int i), ts)
      | .float x => .ok (.literal (.float x), ts)
      | .str s => .ok (.literal (.str s), ts)
      | .template s =>
        let body := Pieces.ofBody s.toList
        match holes n body.pieces, body.fault with
        | .error fault, _ => .error ⟨t.line, fault⟩
        | .ok _, some fault => .error ⟨t.line, fault⟩
        | .ok parts, none => .ok (.template parts, ts)
      | .true_ => .ok (.literal (.bool true), ts)
      | .false_ => .ok (.literal (.bool false), ts)
      | .null => .ok (.literal .null, ts)
      | .ident name => .ok (.name name, ts)
      | .var name => .ok (.var name, ts)
      | .lparen => do
        let (inner, ts) ← disjunction n false (skipNewlines ts)
        let ts ← Closer.paren.expect (skipNewlines ts)
        return (inner, ts)
      | .lbracket => do
        let (items, ts) ← sequence n .bracket ts
        return (.list items, ts)
      | .lbrace =>
        if cond then .error ⟨t.line, .unexpected t.token.describe⟩
        else do
          let (entries, ts) ← entries n ts
          return (.map entries, ts)
      | other => .error ⟨t.line, .unexpected other.describe⟩

/-- Expressions between commas up to the closing bracket; a last comma may stand before it. -/
def sequence : Nat → Closer → List Lexeme → Reading (List Expr × List Lexeme)
  | 0, _, ts => .error (tooDeep ts)
  | n + 1, closer, ts =>
    let ts := skipNewlines ts
    match closer.close? ts with
    | some ts => .ok ([], ts)
    | none => do
      let (item, ts) ← disjunction n false ts
      match skipNewlines ts with
      | ⟨.comma, _⟩ :: ts =>
        let (items, ts) ← sequence n closer ts
        return (item :: items, ts)
      | ts =>
        let ts ← closer.expect ts
        return ([item], ts)

def entries : Nat → List Lexeme → Reading (List (Expr × Expr) × List Lexeme)
  | 0, ts => .error (tooDeep ts)
  | n + 1, ts =>
    match skipNewlines ts with
    | ⟨.rbrace, _⟩ :: ts => .ok ([], ts)
    | ts => do
      let (key, ts) ← disjunction n false ts
      let ts ← expectColon (skipNewlines ts)
      let (value, ts) ← disjunction n false (skipNewlines ts)
      match skipNewlines ts with
      | ⟨.comma, _⟩ :: ts =>
        let (more, ts) ← entries n ts
        return ((key, value) :: more, ts)
      | ts =>
        let ts ← expectRightBrace ts
        return ([(key, value)], ts)

def holes : Nat → List Piece → Except SyntaxFault (List Part)
  | 0, _ => .error .tooDeep
  | n + 1, pieces =>
    match pieces with
    | [] => .ok []
    | .text cs :: more => do
      let parts ← holes n more
      return .text (String.ofList cs) :: parts
    | .hole source :: more =>
      match soleExpression n (String.ofList source) with
      | .error e => .error (.placeholder e.fault)
      | .ok e => do
        let parts ← holes n more
        return .hole e :: parts

def soleExpression : Nat → String → Reading Expr
  | 0, _ => .error (tooDeep [])
  | n + 1, source => do
    let ts ← tokenize source
    let (e, ts) ← disjunction n false (skipNewlines ts)
    match skipNewlines ts with
    | [] | ⟨.eof, _⟩ :: _ => return e
    | ts => .error (expectedHere "end of expression" ts)
end

def Target.ofExpr? : Expr → Option Target
  | .name n => some ⟨.name n, []⟩
  | .var n => some ⟨.var n, []⟩
  | .attr object name => (ofExpr? object).map fun t => { t with path := t.path ++ [.field name] }
  | .index object position =>
    (ofExpr? object).map fun t => { t with path := t.path ++ [.index position] }
  | _ => none

def assignOp? : List Lexeme → Option (AssignOp × List Lexeme)
  | ⟨.assign, _⟩ :: ts => some (.set, ts)
  | ⟨.plusAssign, _⟩ :: ts => some (.add, ts)
  | ⟨.minusAssign, _⟩ :: ts => some (.sub, ts)
  | _ => none

def simpleStatement (n : Nat) (ts : List Lexeme) : Reading (Stmt × List Lexeme) := do
  let line := lineOf ts
  let (e, ts) ← disjunction n false ts
  match assignOp? ts with
  | none => return (.expr e, ts)
  | some (op, ts) =>
    match Target.ofExpr? e with
    | none => .error ⟨line, .notAssignable⟩
    | some target =>
      let (value, ts) ← disjunction n false ts
      return (.assign target op value, ts)

mutual
def statement : Nat → List Lexeme → Reading (Stmt × List Lexeme)
  | 0, ts => .error (tooDeep ts)
  | n + 1, ts =>
    match ts with
    | ⟨.if_, _⟩ :: ts => do
      let (condition, ts) ← disjunction n true ts
      let (body, ts) ← block n ts
      let ((branches, otherwise), ts) ← furtherBranches n ts
      return (.branch ((condition, body) :: branches) otherwise, ts)
    | ⟨.elif, line⟩ :: _ => .error ⟨line, .danglingBranch "elif"⟩
    | ⟨.else_, line⟩ :: _ => .error ⟨line, .danglingBranch "else"⟩
    | _ => simpleStatement n ts

def furtherBranches : Nat → List Lexeme →
    Reading ((List (Expr × List Stmt) × Option (List Stmt)) × List Lexeme)
  | 0, ts => .error (tooDeep ts)
  | n + 1, ts =>
    match skipNewlines ts with
    | ⟨.elif, _⟩ :: ts => do
      let (condition, ts) ← disjunction n true ts
      let (body, ts) ← block n ts
      let ((branches, otherwise), ts) ← furtherBranches n ts
      return (((condition, body) :: branches, otherwise), ts)
    | ⟨.else_, _⟩ :: ts => do
      let (body, ts) ← block n ts
      return (([], some body), ts)
    | _ => .ok (([], none), ts)

def block : Nat → List Lexeme → Reading (List Stmt × List Lexeme)
  | 0, ts => .error (tooDeep ts)
  | n + 1, ts => do
    let ts ← expectLeftBrace ts
    blockTail n ts

def blockTail : Nat → List Lexeme → Reading (List Stmt × List Lexeme)
  | 0, ts => .error (tooDeep ts)
  | n + 1, ts =>
    match skipNewlines ts with
    | ⟨.rbrace, _⟩ :: ts => .ok ([], ts)
    | [] => .error (expectedHere "'\x7d'" [])
    | ⟨.eof, line⟩ :: ts => .error (expectedHere "'\x7d'" (⟨.eof, line⟩ :: ts))
    | ts => do
      let (s, ts) ← statement n ts
      match ts with
      | ⟨.newline, _⟩ :: _ | ⟨.rbrace, _⟩ :: _ =>
        let (more, ts) ← blockTail n ts
        return (s :: more, ts)
      | _ => .error (expectedHere "end of statement" ts)
end

def statements : Nat → List Lexeme → Reading (List Stmt)
  | 0, ts => .error (tooDeep ts)
  | n + 1, ts =>
    match skipNewlines ts with
    | [] | ⟨.eof, _⟩ :: _ => .ok []
    | ts => do
      let (s, ts) ← statement n ts
      match ts with
      | [] | ⟨.newline, _⟩ :: _ | ⟨.eof, _⟩ :: _ =>
        let more ← statements n ts
        return s :: more
      | _ => .error (expectedHere "end of statement" ts)

/-- No function above goes deeper than sixteen calls per character. -/
def depthFor (source : String) : Nat := 16 * source.length + 16

def parseProgram (source : String) : Reading (List Stmt) := do
  let ts ← tokenize source
  statements (depthFor source) ts

def parseExpression (source : String) : Reading Expr :=
  soleExpression (depthFor source) source

end Playbook.Script
