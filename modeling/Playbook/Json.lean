import Playbook.Dict

/- Documents of the storage format. Whole numbers lie between -2^63 and 2^64 - 1; anything else
   is a finite double. The members of a map stand in rising order of their names, those of a record
   in the order of its fields. -/
namespace Playbook

inductive Json where
  | null
  | bool (b : Bool)
  | int (i : Int)
  | float (x : Float)
  | str (s : String)
  | arr (items : List Json)
  | obj (members : List (String × Json))

instance : Inhabited Json := ⟨.null⟩

namespace Json

def get? (j : Json) (name : String) : Option Json :=
  match j with
  | .obj members => Dict.get? members name
  | _ => none

def string? : Json → Option String
  | .str s => some s
  | _ => none

def items? : Json → Option (List Json)
  | .arr items => some items
  | _ => none

def members? : Json → Option (List (String × Json))
  | .obj members => some members
  | _ => none

def strings? (j : Json) : Option (List String) := do (← j.items?).mapM string?

def strings (items : List String) : Json := .arr (items.map .str)

mutual
def settle : Json → Json
  | .arr items => .arr (settleItems items)
  | .obj members => .obj (Dict.ofList (settleMembers members))
  | j => j

def settleItems : List Json → List Json
  | [] => []
  | j :: rest => settle j :: settleItems rest

def settleMembers : List (String × Json) → List (String × Json)
  | [] => []
  | (k, j) :: rest => (k, settle j) :: settleMembers rest
end

mutual
def depth : Json → Nat
  | .arr items => listDepth items + 1
  | .obj members => memberDepth members + 1
  | _ => 0

def listDepth : List Json → Nat
  | [] => 0
  | j :: rest => max j.depth (listDepth rest)

def memberDepth : List (String × Json) → Nat
  | [] => 0
  | (_, j) :: rest => max j.depth (memberDepth rest)
end

end Json
end Playbook
