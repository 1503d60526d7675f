import Playbook.Json.Writer

/- Documents in ASCII, the members of every map in rising order, so that equal documents are equal
   texts. -/
namespace Playbook.Json

def hex4 (n : Nat) : List Char :=
  [hexDigit (n / 0x1000), hexDigit (n / 0x100), hexDigit (n / 0x10), hexDigit n]

def asciiChar (c : Char) : List Char :=
  let n := c.toNat
  if n < 0x7f then escapeChar c
  else if n < 0x10000 then '\\' :: 'u' :: hex4 n
  else
    let m := n - 0x10000
    '\\' :: 'u' :: hex4 (0xD800 + m / 0x400) ++ '\\' :: 'u' :: hex4 (0xDC00 + m % 0x400)

def asciiString (s : String) : String :=
  String.ofList ('"' :: s.toList.flatMap asciiChar ++ ['"'])

def orderMembers (members : List (String × String)) : List (String × String) :=
  members.mergeSort fun a b => decide (a.1 ≤ b.1)

mutual
def ascii : Json → String
  | .null => "null"
  | .bool true => "true"
  | .bool false => "false"
  | .int i => toString i
  | .float x => Decimal.exponential x
  | .str s => asciiString s
  | .arr items => "[" ++ ",".intercalate (asciiItems items) ++ "]"
  | .obj members =>
    let written := (orderMembers (asciiMembers members)).map fun e => asciiString e.1 ++ ":" ++ e.2
    "\x7b" ++ ",".intercalate written ++ "\x7d"

def asciiItems : List Json → List String
  | [] => []
  | j :: rest => ascii j :: asciiItems rest

def asciiMembers : List (String × Json) → List (String × String)
  | [] => []
  | (k, j) :: rest => (k, ascii j) :: asciiMembers rest
end

end Playbook.Json
