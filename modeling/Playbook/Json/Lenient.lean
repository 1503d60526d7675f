import Playbook.Json

/- Reading documents that need not be judged: what is missing, or not of the kind asked for, reads
   as nothing. -/
namespace Playbook.Json

inductive Key where
  | name (s : String)
  | index (n : Nat)

instance : Coe String Key := ⟨.name⟩
instance : OfNat Key n := ⟨.index n⟩

def asText (j : Json) : String := j.string?.getD ""

def asItems (j : Json) : List Json := j.items?.getD []

def asTexts (j : Json) : List String := j.asItems.map asText

def asNat : Json → Nat
  | .int i => i.toNat
  | .float x => x.toUInt64.toNat
  | .str s => s.toNat?.getD 0
  | _ => 0

def asNat? : Json → Option Nat
  | .null => none
  | j => some j.asNat

def asFlag (default : Bool) : Json → Bool
  | .bool b => b
  | _ => default

def at? (j : Json) : Key → Option Json
  | .name s => j.get? s
  | .index n => j.asItems[n]?

def field (j : Json) (k : Key) : Json := (j.at? k).getD .null

def text? (j : Json) (k : Key) : Option String := (j.field k).string?

def textOr (j : Json) (k : Key) (default : String) : String := (j.text? k).getD default

def text (j : Json) (k : Key) : String := j.textOr k ""

def items (j : Json) (k : Key) : List Json := (j.field k).asItems

def texts (j : Json) (k : Key) : List String := (j.field k).asTexts

def members (j : Json) (k : Key) : List (String × Json) := (j.field k).members?.getD []

def nat? (j : Json) (k : Key) : Option Nat := (j.field k).asNat?

def natOr (j : Json) (k : Key) (default : Nat) : Nat := (j.nat? k).getD default

def nat (j : Json) (k : Key) : Nat := j.natOr k 0

def flagOr (j : Json) (k : Key) (default : Bool) : Bool := (j.field k).asFlag default

end Playbook.Json
