import Playbook.AgentState

/- Programs as trees: expressions, assignments along paths into nested data, and branches. -/
namespace Playbook.Script

inductive BinaryOp where
  | add | sub | mul | div | mod
  | eq | ne | lt | le | gt | ge
  | in_ | notIn
deriving DecidableEq, Repr

def BinaryOp.symbol : BinaryOp → String
  | .add => "+"
  | .sub => "-"
  | .mul => "*"
  | .div => "/"
  | .mod => "%"
  | .eq => "=="
  | .ne => "!="
  | .lt => "<"
  | .le => "<="
  | .gt => ">"
  | .ge => ">="
  | .in_ => "in"
  | .notIn => "not in"

inductive UnaryOp where
  | neg
  | not
deriving DecidableEq, Repr

mutual
inductive Expr where
  | literal (v : Value)
  | template (parts : List Part)
  /-- A name of the namespace. -/
  | name (n : String)
  /-- A declared variable of the agent. -/
  | var (n : String)
  | list (items : List Expr)
  | map (entries : List (Expr × Expr))
  | attr (object : Expr) (name : String)
  | index (object position : Expr)
  | call (function : String) (args : List Expr)
  | unary (op : UnaryOp) (operand : Expr)
  | binary (op : BinaryOp) (left right : Expr)
  | and (left right : Expr)
  | or (left right : Expr)

inductive Part where
  | text (s : String)
  | hole (e : Expr)
end

inductive Root where
  | name (n : String)
  | var (n : String)
deriving DecidableEq, Repr

inductive Access where
  | field (name : String)
  | index (position : Expr)

structure Target where
  root : Root
  path : List Access

inductive AssignOp where
  | set
  | add
  | sub
deriving DecidableEq, Repr

inductive Stmt where
  | expr (e : Expr)
  | assign (target : Target) (op : AssignOp) (value : Expr)
  | branch (branches : List (Expr × List Stmt)) (otherwise : Option (List Stmt))

def Access.isReserved : Access → Bool
  | .field name => Playbook.isReserved name
  | .index _ => false

/-- The root, or a field on the way, is a reserved name. Variables are a scope of their own, so
    their names are never reserved. -/
def Target.touchesReserved (t : Target) : Bool :=
  (match t.root with
    | .name n => isReserved n
    | .var _ => false) || t.path.any Access.isReserved

def Stmt.isBare : Stmt → Bool
  | .expr (.name _) | .expr (.var _) => true
  | _ => false

end Playbook.Script
