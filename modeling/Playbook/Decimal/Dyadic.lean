/- Finite doubles as integers times powers of two, and the remainder computed on them. -/
namespace Playbook.Decimal

/-- The number ±mant · 2^expo. -/
structure Dyadic where
  negative : Bool
  mant : Nat
  expo : Int
deriving DecidableEq, Repr

def signBit (x : Float) : Bool := decide (x.toBits.toNat / Nat.pow 2 63 = 1)

def Dyadic.ofFloat? (x : Float) : Option Dyadic :=
  let bits := x.toBits.toNat
  let field : Nat := bits / Nat.pow 2 52 % Nat.pow 2 11
  let fraction : Nat := bits % Nat.pow 2 52
  if field = 2047 then none
  else if field = 0 then some ⟨signBit x, fraction, -1074⟩
  else some ⟨signBit x, fraction + Nat.pow 2 52, (field : Int) - 1075⟩

def Dyadic.ratio (d : Dyadic) : Nat × Nat :=
  if 0 ≤ d.expo then (d.mant * Nat.pow 2 d.expo.toNat, 1) else (d.mant, Nat.pow 2 (-d.expo).toNat)

def Dyadic.isIntegral (d : Dyadic) : Bool := d.ratio.1 % d.ratio.2 = 0

def Dyadic.floorAbs (d : Dyadic) : Nat := d.ratio.1 / d.ratio.2

/-- The double whose value this is, when the mantissa fits in 53 bits and the exponent in range. -/
def Dyadic.toFloat (d : Dyadic) : Float :=
  let magnitude :=
    if d.mant < Nat.pow 2 52 ∧ d.expo = -1074 then d.mant
    else
      -- shift the leading bit to position 52, as far as the exponent allows
      let up := min (52 - d.mant.log2) (d.expo + 1074).toNat
      let mant := d.mant * Nat.pow 2 up
      let expo := d.expo - up
      if mant < Nat.pow 2 52 then mant else mant - Nat.pow 2 52 + (expo + 1075).toNat * Nat.pow 2 52
  let bits := if d.negative then magnitude + Nat.pow 2 63 else magnitude
  Float.ofBits (UInt64.ofNat bits)

def Dyadic.rem (a b : Dyadic) : Dyadic :=
  let expo := min a.expo b.expo
  let a' := a.mant * Nat.pow 2 (a.expo - expo).toNat
  let b' := b.mant * Nat.pow 2 (b.expo - expo).toNat
  let r := a' % b'
  -- a remainder below both operands has at most 53 significant bits
  let spare := if r = 0 then 0 else r.log2 - 52
  ⟨a.negative, r / Nat.pow 2 spare, expo + spare⟩

def truncatedRem (a b : Float) : Float :=
  match Dyadic.ofFloat? a, Dyadic.ofFloat? b with
  | some da, some db => if db.mant = 0 then 0.0 / 0.0 else (Dyadic.rem da db).toFloat
  | some _, none => if b.isNaN then b else a
  | none, _ => 0.0 / 0.0

def euclideanRem (a b : Float) : Float :=
  let r := truncatedRem a b
  if r < 0.0 then r + b.abs else r

end Playbook.Decimal
