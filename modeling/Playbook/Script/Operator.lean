import Playbook.Script.Fault
import Playbook.Script.Syntax
import Playbook.Decimal.Dyadic
import Playbook.Text.Trim

/- Operators on values. Whole numbers stay in 64 bits and overflow is a fault; any other pair of
   numbers is computed in doubles. -/
namespace Playbook.Script

abbrev Result := Except Fault

/-- A name for the entry of a map: strings stand for themselves, other scalars for their text. -/
def mapKey : Value → Result String
  | .str s => .ok s
  | .int i => .ok (Value.display (.int i))
  | .float x => .ok (Value.display (.float x))
  | .bool b => .ok (Value.display (.bool b))
  | .null => .ok (Value.display .null)
  | v => .error (.unhashable v.typeName)

def asNumber? : Value → Option Float
  | .int i => some (Word.toFloat i)
  | .float x => some x
  | _ => none

/-- Numbers are equal when they are equal as doubles, other values when they are the same. -/
def valuesEqual (left right : Value) : Bool :=
  match asNumber? left, asNumber? right with
  | some a, some b => a == b
  | _, _ => left.same right

def floatOrdering? (a b : Float) : Option Ordering :=
  if a < b then some .lt else if a == b then some .eq else if b < a then some .gt else none

def valueOrdering? : Value → Value → Option Ordering
  | .int a, .int b => some (compare a.toInt b.toInt)
  | .str a, .str b => some (compare a b)
  | left, right =>
    match asNumber? left, asNumber? right with
    | some a, some b => floatOrdering? a b
    | _, _ => none

def ordering (op : BinaryOp) (left right : Value) : Result Ordering :=
  match valueOrdering? left right with
  | some o => .ok o
  | none => .error (.notComparable op.symbol left.typeName right.typeName)

def contains (container item : Value) : Result Bool :=
  match container with
  | .list items => .ok (items.any (valuesEqual · item))
  | .map entries => (mapKey item).map (Dict.contains entries)
  | .str text =>
    match item with
    | .str needle => .ok (Text.hasInside needle.toList text.toList)
    | _ => .error (.notComparable BinaryOp.in_.symbol item.typeName container.typeName)
  | _ => .error (.notComparable BinaryOp.in_.symbol item.typeName container.typeName)

def checkedInt (i : Int) : Result Value :=
  match Word.ofInt? i with
  | some n => .ok (.int n)
  | none => .error .overflow

/-- The remainder that is never negative. The one quotient that leaves the range is a fault though
    its remainder would not. -/
def checkedMod (a b : Int) : Result Value :=
  if b = 0 then .error .moduloByZero
  else if a = Int64.minValue.toInt ∧ b = -1 then .error .overflow
  else checkedInt (a % b)

def maxRepeat : Nat := 16777216

def repeatCount (size : Nat) (times : Int) : Result Nat :=
  if size = 0 then .ok 0
  else if size * times.toNat ≤ maxRepeat then .ok times.toNat
  else .error (.repeatTooLong maxRepeat)

def repeatString (s : String) (times : Int) : Result Value :=
  (repeatCount s.utf8ByteSize times).map fun n => .str (String.join (List.replicate n s))

def repeatList (items : List Value) (times : Int) : Result Value :=
  (repeatCount items.length times).map fun n => .list (List.replicate n items).flatten

def unsupported (op : BinaryOp) (left right : Value) : Fault :=
  .unsupported op.symbol left.typeName right.typeName

def floatArithmetic (op : BinaryOp) (left right : Value) : Result Value :=
  match asNumber? left, asNumber? right with
  | some a, some b =>
    match op with
    | .add => .ok (.float (a + b))
    | .sub => .ok (.float (a - b))
    | .mul => .ok (.float (a * b))
    | .div => if b == 0.0 then .error .divisionByZero else .ok (.float (a / b))
    | .mod => if b == 0.0 then .error .divisionByZero else .ok (.float (Decimal.euclideanRem a b))
    | _ => .error (unsupported op left right)
  | _, _ => .error (unsupported op left right)

def arithmetic (op : BinaryOp) (left right : Value) : Result Value :=
  match op, left, right with
  | .add, .int a, .int b => checkedInt (a.toInt + b.toInt)
  | .sub, .int a, .int b => checkedInt (a.toInt - b.toInt)
  | .mul, .int a, .int b => checkedInt (a.toInt * b.toInt)
  | .mod, .int a, .int b => checkedMod a.toInt b.toInt
  | .add, .str a, .str b => .ok (.str (a ++ b))
  | .add, .list a, .list b => .ok (.list (a ++ b))
  | .mul, .str s, .int n => repeatString s n.toInt
  | .mul, .int n, .str s => repeatString s n.toInt
  | .mul, .list items, .int n => repeatList items n.toInt
  | .mul, .int n, .list items => repeatList items n.toInt
  | _, _, _ => floatArithmetic op left right

def BinaryOp.apply (op : BinaryOp) (left right : Value) : Result Value :=
  match op with
  | .eq => .ok (.bool (valuesEqual left right))
  | .ne => .ok (.bool (!valuesEqual left right))
  | .lt => (ordering op left right).map fun o => .bool o.isLT
  | .le => (ordering op left right).map fun o => .bool o.isLE
  | .gt => (ordering op left right).map fun o => .bool o.isGT
  | .ge => (ordering op left right).map fun o => .bool o.isGE
  | .in_ => (contains right left).map .bool
  | .notIn => (contains right left).map fun b => .bool !b
  | .add | .sub | .mul | .div | .mod => arithmetic op left right

def UnaryOp.apply : UnaryOp → Value → Result Value
  | .not, v => .ok (.bool !v.truthy)
  | .neg, .int i => checkedInt (-i.toInt)
  | .neg, .float x => .ok (.float (-x))
  | .neg, v => .error (.notNegatable v.typeName)

end Playbook.Script
