import Playbook.Decimal.Shortest

/- Numbers in writing: three ways to write a double and two ways to read a number. -/
namespace Playbook.Decimal

def digitsOf (n : Nat) : List Char := Nat.toDigits 10 n

def zeros (n : Nat) : List Char := List.replicate n '0'

def Digits.positional (d : Digits) : List Char :=
  let ds := digitsOf d.digits
  if 0 ≤ d.power then ds ++ zeros d.power.toNat
  else
    let places := (-d.power).toNat
    if places < ds.length then ds.take (ds.length - places) ++ '.' :: ds.drop (ds.length - places)
    else '0' :: '.' :: zeros (places - ds.length) ++ ds

def signed (negative : Bool) (cs : List Char) : List Char := if negative then '-' :: cs else cs

def nonFinite (x : Float) : List Char :=
  if x.isNaN then "NaN".toList else if signBit x then "-inf".toList else "inf".toList

def plain (x : Float) : String :=
  String.ofList <| match Dyadic.ofFloat? x with
    | none => nonFinite x
    | some d => signed d.negative (shortest .up d).positional

def display (x : Float) : String :=
  match Dyadic.ofFloat? x with
  | some d =>
    if d.isIntegral then String.ofList (signed d.negative (digitsOf d.floorAbs) ++ ['.', '0'])
    else plain x
  | none => plain x

/-- At least one digit after the point from 10^-5 up to below 10^16, else one digit before the
    point and an exponent. Of two equally near candidates the even one is taken. -/
def exponential (x : Float) : String :=
  String.ofList <| match Dyadic.ofFloat? x with
    | none => nonFinite x
    | some d =>
      let short := shortest .toEven d
      let ds := digitsOf short.digits
      let lead := short.power + ds.length - 1
      signed d.negative <|
        if short.digits = 0 then ['0', '.', '0']
        else if -5 ≤ lead ∧ lead < 16 then
          if 0 ≤ short.power then short.positional ++ ['.', '0'] else short.positional
        else
          let fraction := match ds.tail with
            | [] => []
            | more => '.' :: more
          ds.take 1 ++ fraction ++ ['e', if lead < 0 then '-' else '+'] ++ digitsOf lead.natAbs

def digitValue? (c : Char) : Option Nat :=
  if '0' ≤ c ∧ c ≤ '9' then some (c.toNat - '0'.toNat) else none

def readNat? : List Char → Option Nat
  | [] => none
  | cs => cs.foldlM (fun n c => (digitValue? c).map (10 * n + ·)) 0

def readInt? : List Char → Option Int
  | '-' :: cs => (readNat? cs).map fun n => -(n : Int)
  | '+' :: cs => (readNat? cs).map Int.ofNat
  | cs => (readNat? cs).map Int.ofNat

/-- The double nearest to mant · 10^power. Far out of range the answer is known without the
    power being computed. -/
def nearest (mant : Nat) (power : Int) : Float :=
  let lead := power + (digitsOf mant).length
  if mant = 0 ∨ lead < -400 then 0.0
  else if 400 < lead then 1.0 / 0.0
  else if power < 0 then Float.ofScientific mant true power.natAbs
  else Float.ofScientific mant false power.natAbs

def isDigit (c : Char) : Bool := '0' ≤ c && c ≤ '9'

def valueOf (ds : List Char) : Nat := ds.foldl (fun n c => 10 * n + (c.toNat - '0'.toNat)) 0

def readUnsigned? (cs : List Char) : Option Float :=
  let whole := cs.takeWhile isDigit
  let rest := cs.dropWhile isDigit
  let (fraction, rest) := match rest with
    | '.' :: more => (more.takeWhile isDigit, more.dropWhile isDigit)
    | _ => ([], rest)
  if whole.isEmpty && fraction.isEmpty then none
  else
    let mant := valueOf (whole ++ fraction)
    let scale : Int := fraction.length
    match rest with
    | [] => some (nearest mant (-scale))
    | e :: expo =>
      if e = 'e' ∨ e = 'E' then (readInt? expo).map fun n => nearest mant (n - scale) else none

def lowerAscii (cs : List Char) : List Char := cs.map Char.toLower

def readFloat? (cs : List Char) : Option Float :=
  let (negative, body) := match cs with
    | '-' :: rest => (true, rest)
    | '+' :: rest => (false, rest)
    | _ => (false, cs)
  let word := lowerAscii body
  let magnitude :=
    if word = "inf".toList ∨ word = "infinity".toList then some (1.0 / 0.0)
    else if word = "nan".toList then some (0.0 / 0.0)
    else readUnsigned? body
  magnitude.map fun x => if negative then -x else x

/-- Truncation toward zero, clamped to the 64-bit range; zero for what is not a number. -/
def truncate (x : Float) : Int64 := x.toInt64

end Playbook.Decimal
