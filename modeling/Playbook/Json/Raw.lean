import Playbook.Json

/- Documents as they are written, before they are judged. A part that no document can hold keeps
   its place: it counts only where it is read, and a record passes over members that it does not
   know. -/
namespace Playbook

inductive RawJson where
  /-- A number out of range, a string with an unpaired surrogate, or containers too deep. -/
  | unreadable
  /-- No container. -/
  | scalar (j : Json)
  | arr (items : List RawJson)
  /-- The members in the order of writing, also those of one name; a name may be unreadable. -/
  | obj (members : List (Option String × RawJson))

namespace RawJson

instance : Inhabited RawJson := ⟨.unreadable⟩

def null : RawJson := .scalar .null

def ofScalar? : Option Json → RawJson
  | some j => .scalar j
  | none => .unreadable

mutual
def toJson? : RawJson → Option Json
  | .unreadable => none
  | .scalar j => some j
  | .arr items => (itemsToJson? items).map .arr
  | .obj members => (membersToJson? members).map fun members => .obj (Dict.ofList members)

def itemsToJson? : List RawJson → Option (List Json)
  | [] => some []
  | r :: rest => do return (← toJson? r) :: (← itemsToJson? rest)

def membersToJson? : List (Option String × RawJson) → Option (List (String × Json))
  | [] => some []
  | (none, _) :: _ => none
  | (some name, r) :: rest => do return (name, ← toJson? r) :: (← membersToJson? rest)
end

mutual
def ofJson : Json → RawJson
  | .arr items => .arr (itemsOfJson items)
  | .obj members => .obj (membersOfJson members)
  | j => .scalar j

def itemsOfJson : List Json → List RawJson
  | [] => []
  | j :: rest => ofJson j :: itemsOfJson rest

def membersOfJson : List (String × Json) → List (Option String × RawJson)
  | [] => []
  | (name, j) :: rest => (some name, ofJson j) :: membersOfJson rest
end

/-- A record read member by member, or item by item in the order of its fields. A field given twice
    and an item too many are refused, and so is a name that cannot be read. -/
def fields? (names : List String) : RawJson → Option (List (Option RawJson))
  | .obj members =>
    if members.any (·.1.isNone) then none
    else names.mapM fun name =>
      match members.filter (·.1 = some name) with
      | [] => some none
      | [(_, r)] => some (some r)
      | _ => none
  | .arr items =>
    if names.length < items.length then none
    else some (names.zipIdx.map fun (_, i) => items[i]?)
  | _ => none

def string? : RawJson → Option String
  | .scalar (.str s) => some s
  | _ => none

def optionalString? : RawJson → Option (Option String)
  | .scalar .null => some none
  | .scalar (.str s) => some (some s)
  | _ => none

def items? : RawJson → Option (List RawJson)
  | .arr items => some items
  | _ => none

def strings? (r : RawJson) : Option (List String) := do (← r.items?).mapM string?

def count? : RawJson → Option Nat
  | .scalar (.int i) => if 0 ≤ i then some i.toNat else none
  | _ => none

def map? : RawJson → Option (Dict Json)
  | .obj members => (membersToJson? members).map Dict.ofList
  | _ => none

end RawJson
end Playbook
