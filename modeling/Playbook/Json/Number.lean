import Playbook.Json
import Playbook.Decimal.Written

/- Numbers of a document. Whole numbers stay whole as long as 64 bits hold them. Any other number
   is its leading digits, as many as 64 bits hold, scaled by one power of ten; digits beyond those
   only move the point. The scaling is one rounded multiplication or division, with a further
   division for each 308 places beyond the first. -/
namespace Playbook.Json
open Decimal

def takeDigits (n : Nat) : List Char → Nat × List Char
  | [] => (n, [])
  | c :: cs =>
    match digitValue? c with
    | none => (n, c :: cs)
    | some d => if 10 * n + d < UInt64.size then takeDigits (10 * n + d) cs else (n, c :: cs)

def wordToFloat (n : Nat) : Float := (UInt64.ofNat n).toFloat

def tenTo (n : Nat) : Float := Float.ofScientific 1 false n

def divideDown (x : Float) : Nat → Int → Float
  | 0, power => x / tenTo power.natAbs
  | fuel + 1, power =>
    if -308 ≤ power then x / tenTo power.natAbs
    else if x == 0.0 then x
    else divideDown (x / tenTo 308) fuel (power + 308)

def scaled? (n : Nat) (power : Int) : Option Float :=
  let x := wordToFloat n
  if n = 0 then some 0.0
  else if 308 < power then none
  else if 0 ≤ power then
    let y := x * tenTo power.natAbs
    if y.isInf then none else some y
  else some (divideDown x 4 power)

def signedFloat (negative : Bool) (x : Float) : Json := .float (if negative then -x else x)

def exponent? (cs : List Char) : Option (Int × List Char) :=
  let (negative, cs) := match cs with
    | '+' :: rest => (false, rest)
    | '-' :: rest => (true, rest)
    | _ => (false, cs)
  let digits := cs.takeWhile isDigit
  if digits.isEmpty then none
  else
    let n : Int := valueOf digits
    some (if negative then -n else n, cs.dropWhile isDigit)

def scaledFloat? (negative : Bool) (n : Nat) (power : Int) : Option Json :=
  (scaled? n power).map (signedFloat negative)

def finish? (negative : Bool) (n : Nat) (power : Int) (cs : List Char) :
    Option (Option Json × List Char) :=
  match cs with
  | 'e' :: rest | 'E' :: rest => do
    let (e, rest) ← exponent? rest
    return (scaledFloat? negative n (power + e), rest)
  | _ => some (scaledFloat? negative n power, cs)

def fraction? (negative : Bool) (n : Nat) (power : Int) (cs : List Char) :
    Option (Option Json × List Char) :=
  match cs with
  | c :: _ =>
    if isDigit c then
      let (m, rest) := takeDigits n cs
      let taken : Int := (cs.length - rest.length : Nat)
      finish? negative m (power - taken) (rest.dropWhile isDigit)
    else none
  | [] => none

def whole (negative : Bool) (n : Nat) : Json :=
  if negative then
    if n = 0 ∨ Int64.minValue.toInt.natAbs < n then .float (-wordToFloat n) else .int (-(n : Int))
  else .int n

def unsigned? (negative : Bool) (cs : List Char) : Option (Option Json × List Char) :=
  match cs with
  | [] => none
  | c :: cs' =>
    if !isDigit c then none
    else if c = '0' ∧ (cs'.head?.map isDigit = some true) then none
    else
      let (n, rest) := takeDigits 0 cs
      let dropped := rest.takeWhile isDigit
      let rest := rest.dropWhile isDigit
      let power : Int := dropped.length
      match rest with
      | '.' :: more => fraction? negative n power more
      | 'e' :: _ | 'E' :: _ => finish? negative n power rest
      | _ =>
        if dropped.isEmpty then some (some (whole negative n), rest)
        else finish? negative n power rest

def number? : List Char → Option (Option Json × List Char)
  | '-' :: cs => unsigned? true cs
  | cs => unsigned? false cs

end Playbook.Json
