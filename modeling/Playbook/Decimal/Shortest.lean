import Playbook.Decimal.Dyadic

/- The fewest decimal digits that read back to a double. All comparisons are between exact
   naturals: a value is num / den, and the numbers that round to it lie between lo / den and
   hi / den, ends included when the mantissa is even. -/
namespace Playbook.Decimal

inductive Tie where
  | up
  | toEven
deriving DecidableEq, Repr

/-- The number digits · 10^power. -/
structure Digits where
  digits : Nat
  power : Int
deriving DecidableEq, Repr

structure Interval where
  lo : Nat
  num : Nat
  hi : Nat
  den : Nat
  closed : Bool

/-- A power of two has a gap half as wide below it as above it, unless it is the least. -/
def Interval.ofDyadic (d : Dyadic) : Interval :=
  let below := if d.mant = Nat.pow 2 52 ∧ d.expo ≠ -1074 then 1 else 2
  let expo := d.expo - 2
  let scale := Nat.pow 2 expo.toNat
  ⟨(4 * d.mant - below) * scale, 4 * d.mant * scale, (4 * d.mant + 2) * scale,
    Nat.pow 2 (-expo).toNat, d.mant % 2 = 0⟩

def Interval.holds (i : Interval) (c : Nat) (power : Int) : Bool :=
  let point := c * Nat.pow 10 power.toNat * i.den
  let unit := Nat.pow 10 (-power).toNat
  if i.closed then i.lo * unit ≤ point && point ≤ i.hi * unit
  else i.lo * unit < point && point < i.hi * unit

/-- The least k such that num · 10^k is at least den. -/
def leadingZeros (num den : Nat) : Nat → Nat → Nat
  | 0, k => k
  | fuel + 1, k => if den ≤ num * Nat.pow 10 k then k else leadingZeros num den fuel (k + 1)

def Interval.leadingPower (i : Interval) : Int :=
  if i.den ≤ i.num then ((Nat.toDigits 10 (i.num / i.den)).length : Int) - 1
  else -(leadingZeros i.num i.den 400 0 : Int)

def Interval.onGrid? (i : Interval) (tie : Tie) (power : Int) : Option Nat :=
  let num := i.num * Nat.pow 10 (-power).toNat
  let den := i.den * Nat.pow 10 power.toNat
  let below := num / den
  match i.holds below power, i.holds (below + 1) power with
  | false, false => none
  | true, false => some below
  | false, true => some (below + 1)
  | true, true =>
    let rest := 2 * (num - below * den)
    if rest < den then some below
    else if den < rest then some (below + 1)
    else match tie with
      | .up => some (below + 1)
      | .toEven => some (if below % 2 = 0 then below else below + 1)

def dropZeros : Nat → Digits → Digits
  | 0, d => d
  | fuel + 1, d =>
    if d.digits ≠ 0 ∧ d.digits % 10 = 0 then dropZeros fuel ⟨d.digits / 10, d.power + 1⟩ else d

def Interval.search (i : Interval) (tie : Tie) (lead : Int) : Nat → Digits
  | 0 => ⟨i.num * Nat.pow 10 (16 - lead).toNat / (i.den * Nat.pow 10 (lead - 16).toNat), lead - 16⟩
  | left + 1 =>
    let power := lead - (16 - left : Nat)
    match i.onGrid? tie power with
    | some c => ⟨c, power⟩
    | none => i.search tie lead left

def shortest (tie : Tie) (d : Dyadic) : Digits :=
  if d.mant = 0 then ⟨0, 0⟩
  else
    let i := Interval.ofDyadic d
    dropZeros 20 (i.search tie i.leadingPower 17)

end Playbook.Decimal
