import Playbook.Script.Parser

/- Programs as text, one statement per line. Parentheses stand only where the grammar needs them:
   around an operand that binds less tightly than its place asks for, and around a map in a
   condition, which would be taken for a block. -/
namespace Playbook.Script

/-- How tightly an expression binds, the loosest first. -/
inductive Tier where
  | or
  | and
  | not
  | level (l : Level)
  | sign
  | suffix
deriving DecidableEq, Repr

def Tier.height : Tier → Nat
  | .or => 0
  | .and => 1
  | .not => 2
  | .level .comparison => 3
  | .level .sum => 4
  | .level .product => 5
  | .sign => 6
  | .suffix => 7

def Level.operand : Level → Tier
  | .comparison => .level .sum
  | .sum => .level .product
  | .product => .sign

def BinaryOp.level : BinaryOp → Level
  | .add | .sub => .sum
  | .mul | .div | .mod => .product
  | _ => .comparison

def BinaryOp.tokens : BinaryOp → List Token
  | .add => [.plus]
  | .sub => [.minus]
  | .mul => [.star]
  | .div => [.slash]
  | .mod => [.percent]
  | .eq => [.eqEq]
  | .ne => [.notEq]
  | .lt => [.lt]
  | .le => [.le]
  | .gt => [.gt]
  | .ge => [.ge]
  | .in_ => [.in_]
  | .notIn => [.not, .in_]

def AssignOp.token : AssignOp → Token
  | .set => .assign
  | .add => .plusAssign
  | .sub => .minusAssign

def Expr.tier : Expr → Tier
  | .or .. => .or
  | .and .. => .and
  | .unary .not _ => .not
  | .unary .neg _ => .sign
  | .binary op .. => .level op.level
  | _ => .suffix

def Expr.isMap : Expr → Bool
  | .map _ => true
  | _ => false

/-- What is written: a token or a space. -/
inductive Glyph where
  | token (t : Token)
  | space

def spaced (ts : List Token) : List Glyph :=
  .space :: ts.flatMap fun t => [.token t, .space]

def literalToken : Value → Token
  | .bool true => .true_
  | .bool false => .false_
  | .int i => .int i
  | .str s => .str s
  | _ => .null

def operandGlyphs (e : Expr) (bare : Bool → List Glyph) (cond : Bool) (place : Tier) :
    List Glyph :=
  if e.tier.height < place.height ∨ (cond && e.isMap) = true then
    .token .lparen :: (bare false ++ [.token .rparen])
  else bare cond

mutual
def Expr.bare : Expr → Bool → List Glyph
  | .literal v, _ => [.token (literalToken v)]
  | .template _, _ => []
  | .name n, _ => [.token (.ident n)]
  | .var n, _ => [.token (.var n)]
  | .list items, _ => .token .lbracket :: (itemGlyphs items ++ [.token .rbracket])
  | .map entries, _ => .token .lbrace :: (entryGlyphs entries ++ [.token .rbrace])
  | .attr object name, cond =>
    operandGlyphs object object.bare cond .suffix ++ [.token .dot, .token (.ident name)]
  | .index object position, cond =>
    operandGlyphs object object.bare cond .suffix ++
      .token .lbracket :: (operandGlyphs position position.bare false .or ++ [.token .rbracket])
  | .call function args, _ =>
    .token (.ident function) :: .token .lparen :: (itemGlyphs args ++ [.token .rparen])
  | .unary .not operand, cond =>
    .token .not :: .space :: operandGlyphs operand operand.bare cond .not
  | .unary .neg operand, cond => .token .minus :: operandGlyphs operand operand.bare cond .sign
  | .binary op left right, cond =>
    operandGlyphs left left.bare cond (.level op.level) ++ spaced op.tokens ++
      operandGlyphs right right.bare cond op.level.operand
  | .and left right, cond =>
    operandGlyphs left left.bare cond .and ++ spaced [.and] ++
      operandGlyphs right right.bare cond .not
  | .or left right, cond =>
    operandGlyphs left left.bare cond .or ++ spaced [.or] ++
      operandGlyphs right right.bare cond .and

def itemGlyphs : List Expr → List Glyph
  | [] => []
  | [e] => operandGlyphs e e.bare false .or
  | e :: rest => operandGlyphs e e.bare false .or ++ .token .comma :: .space :: itemGlyphs rest

def entryGlyphs : List (Expr × Expr) → List Glyph
  | [] => []
  | [(key, value)] =>
    operandGlyphs key key.bare false .or ++
      .token .colon :: .space :: operandGlyphs value value.bare false .or
  | (key, value) :: rest =>
    operandGlyphs key key.bare false .or ++
      .token .colon :: .space :: operandGlyphs value value.bare false .or ++
        .token .comma :: .space :: entryGlyphs rest
end

def Expr.glyphs (e : Expr) (cond : Bool) (place : Tier) : List Glyph :=
  operandGlyphs e e.bare cond place

def Root.expr : Root → Expr
  | .name n => .name n
  | .var n => .var n

def Access.from (object : Expr) : Access → Expr
  | .field name => .attr object name
  | .index position => .index object position

def Target.expr (t : Target) : Expr := t.path.foldl Access.from t.root.expr

def indent (depth : Nat) : List Glyph := List.replicate (2 * depth) .space

mutual
def Stmt.glyphs (depth : Nat) : Stmt → List Glyph
  | .expr e => e.glyphs false .or
  | .assign target op value =>
    target.expr.glyphs false .or ++ spaced [op.token] ++ value.glyphs false .or
  | .branch branches none => branchGlyphs depth [.token .if_] branches
  | .branch branches (some body) =>
    branchGlyphs depth [.token .if_] branches ++ .space :: .token .else_ :: .space ::
      .token .lbrace :: .token .newline ::
        (blockGlyphs (depth + 1) body ++ indent depth ++ [.token .rbrace])

def branchGlyphs (depth : Nat) (opening : List Glyph) : List (Expr × List Stmt) → List Glyph
  | [] => []
  | (condition, body) :: rest =>
    opening ++ .space :: condition.glyphs true .or ++ .space :: .token .lbrace ::
      .token .newline :: (blockGlyphs (depth + 1) body ++ indent depth ++ [.token .rbrace] ++
        branchGlyphs depth [.space, .token .elif] rest)

def blockGlyphs (depth : Nat) : List Stmt → List Glyph
  | [] => []
  | s :: rest => indent depth ++ s.glyphs depth ++ .token .newline :: blockGlyphs depth rest
end

def escaped (c : Char) : List Char :=
  if c = '\n' then ['\\', 'n']
  else if c = '\t' then ['\\', 't']
  else if c = '\r' then ['\\', 'r']
  else if c = '\x00' then ['\\', '0']
  else if c = '\\' || isQuote c then ['\\', c]
  else [c]

def Token.spell : Token → List Char
  | .int i => Nat.toDigits 10 i.toInt.toNat
  | .str s => '"' :: (s.toList.flatMap escaped ++ ['"'])
  | .ident name => name.toList
  | .var name => '$' :: name.toList
  | .if_ => ['i', 'f']
  | .elif => ['e', 'l', 'i', 'f']
  | .else_ => ['e', 'l', 's', 'e']
  | .and => ['a', 'n', 'd']
  | .or => ['o', 'r']
  | .not => ['n', 'o', 't']
  | .in_ => ['i', 'n']
  | .true_ => ['t', 'r', 'u', 'e']
  | .false_ => ['f', 'a', 'l', 's', 'e']
  | .null => ['n', 'u', 'l', 'l']
  | .lparen => ['(']
  | .rparen => [')']
  | .lbracket => ['[']
  | .rbracket => [']']
  | .lbrace => ['\x7b']
  | .rbrace => ['\x7d']
  | .comma => [',']
  | .colon => [':']
  | .dot => ['.']
  | .assign => ['=']
  | .plusAssign => ['+', '=']
  | .minusAssign => ['-', '=']
  | .plus => ['+']
  | .minus => ['-']
  | .star => ['*']
  | .slash => ['/']
  | .percent => ['%']
  | .eqEq => ['=', '=']
  | .notEq => ['!', '=']
  | .lt => ['<']
  | .le => ['<', '=']
  | .gt => ['>']
  | .ge => ['>', '=']
  | .newline => ['\n']
  | .float _ | .template _ | .eof => []

def Glyph.chars : Glyph → List Char
  | .token t => t.spell
  | .space => [' ']

/-- The text of a program. -/
def print (program : List Stmt) : String :=
  String.ofList ((blockGlyphs 0 program).flatMap Glyph.chars)

/-- A word that the language has no use for itself. -/
def isWord (name : String) : Bool :=
  match name.toList with
  | [] => false
  | c :: rest => isWordStart c && rest.all isWordChar

def isKeyword (name : String) : Bool :=
  match wordToken name with
  | .ident _ => false
  | _ => true

def isName (name : String) : Bool := isWord name && !isKeyword name

/-- A value that a program can name outright. Numbers below zero have a sign before them. -/
def isPlainValue : Value → Bool
  | .null | .bool _ | .str _ => true
  | .int i => 0 ≤ i.toInt
  | _ => false

def Expr.isNumber : Expr → Bool
  | .literal (.int _) | .literal (.float _) => true
  | _ => false

mutual
/-- An expression that can be written: without numbers below zero or with a point, without strings
    with placeholders, and with no sign just before a number. -/
def Expr.isPlain : Expr → Bool
  | .literal v => isPlainValue v
  | .template _ => false
  | .name n => isName n
  | .var n => isWord n
  | .list items => itemsPlain items
  | .map entries => entriesPlain entries
  | .attr object name => object.isPlain && isName name
  | .index object position => object.isPlain && position.isPlain
  | .call function args => isName function && itemsPlain args
  | .unary .not operand => operand.isPlain
  | .unary .neg operand => operand.isPlain && !operand.isNumber
  | .binary _ left right | .and left right | .or left right => left.isPlain && right.isPlain

def itemsPlain : List Expr → Bool
  | [] => true
  | e :: rest => e.isPlain && itemsPlain rest

def entriesPlain : List (Expr × Expr) → Bool
  | [] => true
  | (key, value) :: rest => key.isPlain && value.isPlain && entriesPlain rest
end

mutual
def Stmt.isPlain : Stmt → Bool
  | .expr e => e.isPlain
  | .assign target _ value => target.expr.isPlain && value.isPlain
  | .branch branches none => !branches.isEmpty && branchesPlain branches
  | .branch branches (some body) =>
    !branches.isEmpty && branchesPlain branches && blockPlain body

def branchesPlain : List (Expr × List Stmt) → Bool
  | [] => true
  | (condition, body) :: rest => condition.isPlain && blockPlain body && branchesPlain rest

def blockPlain : List Stmt → Bool
  | [] => true
  | s :: rest => s.isPlain && blockPlain rest
end

end Playbook.Script
