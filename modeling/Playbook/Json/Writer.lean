import Playbook.Json
import Playbook.Decimal.Written

/- Documents in writing: without spaces, or indented by two spaces a level. -/
namespace Playbook.Json

def hexDigit (n : Nat) : Char := (Nat.digitChar (n % 16))

def escapeChar (c : Char) : List Char :=
  if c = '"' then ['\\', '"']
  else if c = '\\' then ['\\', '\\']
  else if c = '\x08' then ['\\', 'b']
  else if c = '\x0c' then ['\\', 'f']
  else if c = '\n' then ['\\', 'n']
  else if c = '\r' then ['\\', 'r']
  else if c = '\t' then ['\\', 't']
  else if c.toNat < 0x20 then ['\\', 'u', '0', '0', hexDigit (c.toNat / 16), hexDigit c.toNat]
  else [c]

def writeString (s : String) : String :=
  String.ofList ('"' :: s.toList.flatMap escapeChar ++ ['"'])

mutual
def compress : Json → String
  | .null => "null"
  | .bool true => "true"
  | .bool false => "false"
  | .int i => toString i
  | .float x => Decimal.exponential x
  | .str s => writeString s
  | .arr items => "[" ++ compressItems items ++ "]"
  | .obj members => "\x7b" ++ compressMembers members ++ "\x7d"

def compressItems : List Json → String
  | [] => ""
  | [j] => compress j
  | j :: rest => compress j ++ "," ++ compressItems rest

def compressMembers : List (String × Json) → String
  | [] => ""
  | [(k, j)] => writeString k ++ ":" ++ compress j
  | (k, j) :: rest => writeString k ++ ":" ++ compress j ++ "," ++ compressMembers rest
end

def indent (level : Nat) : String := "\n" ++ String.ofList (List.replicate (2 * level) ' ')

mutual
def pretty (level : Nat) : Json → String
  | .arr [] => "[]"
  | .obj [] => "\x7b\x7d"
  | .arr items => "[" ++ prettyItems (level + 1) items ++ indent level ++ "]"
  | .obj members => "\x7b" ++ prettyMembers (level + 1) members ++ indent level ++ "\x7d"
  | .null => "null"
  | .bool true => "true"
  | .bool false => "false"
  | .int i => toString i
  | .float x => Decimal.exponential x
  | .str s => writeString s

def prettyItems (level : Nat) : List Json → String
  | [] => ""
  | [j] => indent level ++ pretty level j
  | j :: rest => indent level ++ pretty level j ++ "," ++ prettyItems level rest

def prettyMembers (level : Nat) : List (String × Json) → String
  | [] => ""
  | [(k, j)] => indent level ++ writeString k ++ ": " ++ pretty level j
  | (k, j) :: rest =>
    indent level ++ writeString k ++ ": " ++ pretty level j ++ "," ++ prettyMembers level rest
end

end Playbook.Json
