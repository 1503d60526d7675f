import Playbook.Json.Number
import Playbook.Json.Raw

/- Documents from text. Containers nest at most 127 deep, and strings hold no unpaired surrogates;
   what breaks these rules can be passed over, what breaks the grammar cannot. -/
namespace Playbook
namespace RawJson

def deepest : Nat := 127

def isSpace (c : Char) : Bool := c = ' ' || c = '\t' || c = '\n' || c = '\r'

def skipSpace (cs : List Char) : List Char := cs.dropWhile isSpace

def hexValue? (c : Char) : Option Nat :=
  if '0' ≤ c ∧ c ≤ '9' then some (c.toNat - '0'.toNat)
  else if 'a' ≤ c ∧ c ≤ 'f' then some (c.toNat - 'a'.toNat + 10)
  else if 'A' ≤ c ∧ c ≤ 'F' then some (c.toNat - 'A'.toNat + 10)
  else none

def unit? : List Char → Option (Nat × List Char)
  | a :: b :: c :: d :: rest => do
    return (((← hexValue? a) * 16 + (← hexValue? b)) * 256 + (← hexValue? c) * 16 + (← hexValue? d),
      rest)
  | _ => none

def escaped? (cs : List Char) : Option (Char × List Char) := do
  let (high, rest) ← unit? cs
  if 0xDC00 ≤ high ∧ high < 0xE000 then none
  else if 0xD800 ≤ high ∧ high < 0xDC00 then
    match rest with
    | '\\' :: 'u' :: more =>
      let (low, rest) ← unit? more
      if 0xDC00 ≤ low ∧ low < 0xE000 then
        some (Char.ofNat (0x10000 + (high - 0xD800) * 0x400 + (low - 0xDC00)), rest)
      else none
    | _ => none
  else some (Char.ofNat high, rest)

/-- The rest of a string, after its opening quote; nothing for the text once it holds an unpaired
    surrogate. -/
def stringTail? (text : Option (List Char)) :
    Nat → List Char → Option (Option String × List Char)
  | 0, _ => none
  | fuel + 1, cs =>
    match cs with
    | [] => none
    | '"' :: rest => some (text.map fun text => String.ofList text.reverse, rest)
    | '\\' :: c :: rest =>
      match c with
      | '"' | '\\' | '/' => stringTail? (text.map (c :: ·)) fuel rest
      | 'b' => stringTail? (text.map ('\x08' :: ·)) fuel rest
      | 'f' => stringTail? (text.map ('\x0c' :: ·)) fuel rest
      | 'n' => stringTail? (text.map ('\n' :: ·)) fuel rest
      | 'r' => stringTail? (text.map ('\r' :: ·)) fuel rest
      | 't' => stringTail? (text.map ('\t' :: ·)) fuel rest
      | 'u' =>
        match escaped? rest, unit? rest with
        | some (d, rest), _ => stringTail? (text.map (d :: ·)) fuel rest
        | none, some (_, rest) => stringTail? none fuel rest
        | none, none => none
      | _ => none
    | c :: rest =>
      if c.toNat < 0x20 ∨ c = '\\' then none else stringTail? (text.map (c :: ·)) fuel rest

def stringBody? (cs : List Char) : Option (Option String × List Char) :=
  stringTail? (some []) (cs.length + 1) cs

def literal? (cs : List Char) : Option (RawJson × List Char) :=
  match cs with
  | 'n' :: 'u' :: 'l' :: 'l' :: rest => some (.scalar .null, rest)
  | 't' :: 'r' :: 'u' :: 'e' :: rest => some (.scalar (.bool true), rest)
  | 'f' :: 'a' :: 'l' :: 's' :: 'e' :: rest => some (.scalar (.bool false), rest)
  | '"' :: rest => (stringBody? rest).map fun (s, rest) => (.ofScalar? (s.map .str), rest)
  | _ => (Json.number? cs).map fun (n, rest) => (.ofScalar? n, rest)

def within (room : Nat) (r : RawJson) : RawJson := if room = 0 then .unreadable else r

mutual
/-- One document and what follows it; `room` is how many containers may still open. -/
def value? (room : Nat) : Nat → List Char → Option (RawJson × List Char)
  | 0, _ => none
  | fuel + 1, cs =>
    match skipSpace cs with
    | '[' :: rest =>
      match skipSpace rest with
      | ']' :: rest => some (within room (.arr []), rest)
      | _ => itemsTail? room [] fuel rest
    | '{' :: rest =>
      match skipSpace rest with
      | '}' :: rest => some (within room (.obj []), rest)
      | _ => membersTail? room [] fuel rest
    | cs => literal? cs

def itemsTail? (room : Nat) (before : List RawJson) :
    Nat → List Char → Option (RawJson × List Char)
  | 0, _ => none
  | fuel + 1, cs =>
    match value? (room - 1) fuel cs with
    | none => none
    | some (r, rest) =>
      match skipSpace rest with
      | ',' :: rest => itemsTail? room (r :: before) fuel rest
      | ']' :: rest => some (within room (.arr (r :: before).reverse), rest)
      | _ => none

def membersTail? (room : Nat) (before : List (Option String × RawJson)) :
    Nat → List Char → Option (RawJson × List Char)
  | 0, _ => none
  | fuel + 1, cs =>
    match skipSpace cs with
    | '"' :: rest =>
      match stringBody? rest with
      | none => none
      | some (name, rest) =>
        match skipSpace rest with
        | ':' :: rest =>
          match value? (room - 1) fuel rest with
          | none => none
          | some (r, rest) =>
            match skipSpace rest with
            | ',' :: rest => membersTail? room ((name, r) :: before) fuel rest
            | '}' :: rest => some (within room (.obj ((name, r) :: before).reverse), rest)
            | _ => none
        | _ => none
    | _ => none
end

def parse? (s : String) : Option RawJson :=
  let cs := s.toList
  match value? deepest (2 * cs.length + 2) cs with
  | some (r, rest) => if (skipSpace rest).isEmpty then some r else none
  | none => none

end RawJson

def Json.parse? (s : String) : Option Json := (RawJson.parse? s).bind RawJson.toJson?

end Playbook
