import Playbook.Text.ClassTable

/- The character classes of source text and of quoted output. ASCII is decided by comparison,
   the rest by table. -/
namespace Playbook.Text

def isAsciiDigit (c : Char) : Bool := '0' ≤ c && c ≤ '9'

def isAsciiLetter (c : Char) : Bool := ('a' ≤ c && c ≤ 'z') || ('A' ≤ c && c ≤ 'Z')

def isAsciiAlphanumeric (c : Char) : Bool := isAsciiLetter c || isAsciiDigit c

def isAscii (c : Char) : Bool := c.toNat < 0x80

def isAlphabetic (c : Char) : Bool :=
  if isAscii c then isAsciiLetter c else insideBounds alphabeticBounds c.toNat

def isNumeric (c : Char) : Bool :=
  if isAscii c then isAsciiDigit c else insideBounds numericBounds c.toNat

def isAlphanumeric (c : Char) : Bool := isAlphabetic c || isNumeric c

def isGraphic (c : Char) : Bool :=
  if isAscii c then ' ' ≤ c && c ≤ '~' else insideBounds graphicBounds c.toNat

def isBlank (c : Char) : Bool :=
  let n := c.toNat
  (9 ≤ n && n ≤ 13) || n = 0x20 || n = 0x85 || n = 0xA0 || n = 0x1680 ||
    (0x2000 ≤ n && n ≤ 0x200A) || n = 0x2028 || n = 0x2029 || n = 0x202F || n = 0x205F ||
    n = 0x3000

end Playbook.Text
