import Playbook.Text.CharClass

/- Spans of time in words: numbers with units, added up, as in 1h 30m. The result is a count of
   nanoseconds. Each part and the sum have to fit in 64-bit words. -/
namespace Playbook.Duration

def second : Nat := 1000000000

def milliseconds (n : Nat) : Nat := n * 1000000

/-- Below the second a unit counts nanoseconds, from the second on it counts seconds. -/
inductive TimeUnit where
  | small (nanoseconds : Nat)
  | large (seconds : Nat)
deriving DecidableEq, Repr

def unitNamed? (name : String) : Option TimeUnit :=
  if ["nanos", "nsec", "ns"].contains name then some (.small 1)
  else if ["usec", "us", "µs"].contains name then some (.small 1000)
  else if ["millis", "msec", "ms"].contains name then some (.small 1000000)
  else if ["seconds", "second", "secs", "sec", "s"].contains name then some (.large 1)
  else if ["minutes", "minute", "min", "mins", "m"].contains name then some (.large 60)
  else if ["hours", "hour", "hr", "hrs", "h"].contains name then some (.large 3600)
  else if ["days", "day", "d"].contains name then some (.large 86400)
  else if ["weeks", "week", "wk", "wks", "w"].contains name then some (.large 604800)
  else if ["months", "month", "M"].contains name then some (.large 2630016)
  else if ["years", "year", "yr", "yrs", "y"].contains name then some (.large 31557600)
  else none

def fits? (n : Nat) : Option Nat := if n < UInt64.size then some n else none

/-- Digits after the point, over the power of ten that they are parts of. -/
structure Fraction where
  numerator : Nat
  denominator : Nat

structure Total where
  seconds : Nat
  nanos : Nat

def Total.add? (t : Total) (seconds nanos : Nat) : Option Total := do
  let n ← fits? (t.nanos + nanos)
  let s ← fits? (t.seconds + seconds + n / second)
  return ⟨s, n % second⟩

def Fraction.of? (f : Fraction) (unit : Nat) : Option Nat := do
  let n ← fits? (f.numerator * unit)
  if n % f.denominator = 0 then some (n / f.denominator) else none

def Total.addPart? (t : Total) (n : Nat) (fraction : Option Fraction) (unit : TimeUnit) :
    Option Total := do
  let t ← match unit with
    | .small nanos => t.add? 0 (← fits? (n * nanos))
    | .large seconds => t.add? (← fits? (n * seconds)) 0
  match fraction with
  | none => return t
  | some f =>
    match unit with
    -- a nanosecond has no parts, not even zero of them
    | .small nanos => if nanos = 1 then none else t.add? 0 (← f.of? nanos)
    | .large seconds =>
      -- parts of a second or a minute count in nanoseconds, parts of longer units in seconds
      if seconds ≤ 60 then t.add? 0 (← f.of? (seconds * second))
      else t.add? (← f.of? seconds) 0

def isUnitChar (c : Char) : Bool := Text.isAsciiLetter c || c = 'µ'

def digit (c : Char) : Nat := c.toNat - '0'.toNat

def fractionTail? (f : Fraction) : List Char → Option (Fraction × List Char)
  | [] => if f.denominator = 1 then none else some (f, [])
  | c :: cs =>
    if Text.isAsciiDigit c then do
      let denominator ← fits? (f.denominator * 10)
      let numerator ← fits? (f.numerator * 10 + digit c)
      fractionTail? ⟨numerator, denominator⟩ cs
    else if Text.isBlank c then fractionTail? f cs
    else if isUnitChar c then if f.denominator = 1 then none else some (f, c :: cs)
    else none

def numberTail? (n : Nat) : List Char → Option (Nat × Option Fraction × List Char)
  | [] => some (n, none, [])
  | c :: cs =>
    if Text.isAsciiDigit c then do numberTail? (← fits? (n * 10 + digit c)) cs
    else if Text.isBlank c then numberTail? n cs
    else if isUnitChar c then some (n, none, c :: cs)
    else if c = '.' then do
      let (f, rest) ← fractionTail? ⟨0, 1⟩ cs
      return (n, some f, rest)
    else none

def parts? (total : Total) : Nat → List Char → Option Total
  | 0, _ => none
  | fuel + 1, cs =>
    match cs with
    | [] => some total
    | c :: cs =>
      if !Text.isAsciiDigit c then none
      else do
        let (n, fraction, rest) ← numberTail? (digit c) cs
        let unit ← unitNamed? (String.ofList (rest.takeWhile isUnitChar))
        let total ← total.addPart? n fraction unit
        match rest.dropWhile isUnitChar with
        | [] => return total
        | d :: more =>
          if Text.isAsciiDigit d then parts? total fuel (d :: more)
          else if Text.isBlank d then parts? total fuel (more.dropWhile Text.isBlank)
          else none

def parse? (s : String) : Option Nat :=
  if s = "0" then some 0
  else
    let cs := s.toList.dropWhile Text.isBlank
    if cs.isEmpty then none
    else (parts? ⟨0, 0⟩ (cs.length + 1) cs).map fun t => t.seconds * second + t.nanos

end Playbook.Duration
