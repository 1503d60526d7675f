import Playbook.Decimal.Written
import Playbook.Text.Trim

/- Points in time as they are written in stored checkpoints: a date, a time of day and an offset.
   Only their form and their range are judged. -/
namespace Playbook.Timestamp

def dropBlanks (cs : List Char) : List Char := cs.dropWhile Text.isBlank

def number? (most : Nat) (cs : List Char) : Option (Nat × List Char) :=
  let ds := (cs.take most).takeWhile Text.isAsciiDigit
  if ds.isEmpty then none else some (Decimal.valueOf ds, cs.drop ds.length)

def digits? (most : Nat) (cs : List Char) : Option (Nat × List Char) := number? most (dropBlanks cs)

def year? (cs : List Char) : Option (Int × List Char) :=
  match dropBlanks cs with
  | '+' :: rest => (number? rest.length rest).map fun (n, rest) => ((n : Int), rest)
  | '-' :: rest => (number? rest.length rest).map fun (n, rest) => (-(n : Int), rest)
  | cs => (number? 4 cs).map fun (n, rest) => ((n : Int), rest)

def literal? (c : Char) (cs : List Char) : Option (List Char) :=
  match dropBlanks cs with
  | d :: rest => if c = d then some rest else none
  | [] => none

def isLeap (year : Int) : Bool := year % 4 = 0 && (year % 100 ≠ 0 || year % 400 = 0)

def daysIn (year : Int) (month : Nat) : Nat :=
  if month = 2 then if isLeap year then 29 else 28
  else if month = 4 ∨ month = 6 ∨ month = 9 ∨ month = 11 then 30
  else 31

structure Date where
  year : Int
  month : Nat
  day : Nat
deriving DecidableEq, Repr

def firstDate : Date := ⟨-262143, 1, 1⟩

def lastDate : Date := ⟨262142, 12, 31⟩

def date? (cs : List Char) : Option (Date × List Char) := do
  let (year, cs) ← year? cs
  let (month, cs) ← digits? 2 (← literal? '-' cs)
  let (day, cs) ← digits? 2 (← literal? '-' cs)
  if firstDate.year ≤ year ∧ year ≤ lastDate.year ∧ 1 ≤ month ∧ month ≤ 12 ∧
      1 ≤ day ∧ day ≤ daysIn year month then some (⟨year, month, day⟩, cs)
  else none

def secondsFraction? (cs : List Char) : Option (List Char) :=
  match cs with
  | '.' :: rest =>
    if (rest.takeWhile Text.isAsciiDigit).isEmpty then none
    else some (rest.dropWhile Text.isAsciiDigit)
  | _ => some cs

def time? (cs : List Char) : Option (Nat × List Char) := do
  let (hour, cs) ← digits? 2 cs
  let (minute, cs) ← digits? 2 (← literal? ':' cs)
  let (second, cs) ← digits? 2 (← literal? ':' cs)
  let cs ← secondsFraction? cs
  if hour ≤ 23 ∧ minute ≤ 59 ∧ second ≤ 60 then some (60 * hour + minute, cs) else none

def twoDigits? : List Char → Option (Nat × List Char)
  | a :: b :: rest => do
    return (10 * (← Decimal.digitValue? a) + (← Decimal.digitValue? b), rest)
  | _ => none

def offset? (cs : List Char) : Option (Int × List Char) :=
  match cs with
  | 'z' :: rest | 'Z' :: rest => some (0, rest)
  | sign :: rest =>
    if (cs.take 3).map Char.toUpper == "UTC".toList then some (0, cs.drop 3)
    else if sign = '+' ∨ sign = '-' ∨ sign = '−' then do
      let (hours, rest) ← twoDigits? rest
      let (minutes, rest) ← twoDigits? (rest.dropWhile fun c => c = ':' || Text.isBlank c)
      let ahead : Int := 60 * hours + minutes
      if hours ≤ 23 ∧ minutes ≤ 59 then some (if sign = '+' then ahead else -ahead, rest) else none
    else none
  | [] => none

def minutesPerDay : Nat := 1440

/-- Universal time may be on the day before or after, which the calendar has to have. -/
def inRange (date : Date) (minutes : Int) : Bool :=
  (0 ≤ minutes || date ≠ firstDate) && (minutes < minutesPerDay || date ≠ lastDate)

def valid (s : String) : Bool :=
  let result := do
    let (date, cs) ← date? s.toList
    match cs with
    | c :: cs =>
      if c = 'T' ∨ c = 't' ∨ c = ' ' then do
        let (minutes, cs) ← time? cs
        let (ahead, cs) ← offset? (dropBlanks cs)
        return inRange date (minutes - ahead) && (dropBlanks cs).isEmpty
      else none
    | [] => none
  result = some true

/-- Year, month and day of a day counted from the first of January 1970. Years are taken to begin in
    March, so that a leap day ends its year; 400 of them have 146097 days. -/
def civil (day : Nat) : Nat × Nat × Nat :=
  let shifted := day + 719468
  let inEra := shifted % 146097
  let yearInEra := (inEra - inEra / 1460 + inEra / 36524 - inEra / 146096) / 365
  let inYear := inEra - (365 * yearInEra + yearInEra / 4 - yearInEra / 100)
  let month := (5 * inYear + 2) / 153
  let year := yearInEra + shifted / 146097 * 400
  let dayInMonth := inYear - (153 * month + 2) / 5 + 1
  if month < 10 then (year, month + 3, dayInMonth) else (year + 1, month - 9, dayInMonth)

def padded (width n : Nat) : String :=
  let ds := Nat.toDigits 10 n
  String.ofList (List.replicate (width - ds.length) '0' ++ ds)

def ofSeconds (n : Nat) : String :=
  let (year, month, day) := civil (n / 86400)
  let clock := n % 86400
  padded 4 year ++ "-" ++ padded 2 month ++ "-" ++ padded 2 day ++ "T" ++
    padded 2 (clock / 3600) ++ ":" ++ padded 2 (clock / 60 % 60) ++ ":" ++ padded 2 (clock % 60) ++
    "Z"

end Playbook.Timestamp
