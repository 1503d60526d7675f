import Playbook.Word
import Playbook.Json
import Playbook.Decimal.Written
import Playbook.Text.Quoted

/- Values of the instruction language: namespaces, declared variables and shared meeting state all
   hold them. Plain data goes to documents and back; references to built-ins, modules and handles
   do not, and are left out wherever state is stored. -/
namespace Playbook

inductive Value where
  | null
  | bool (b : Bool)
  | int (i : Int64)
  | float (x : Float)
  | str (s : String)
  | list (items : List Value)
  | map (entries : List (String × Value))
  | builtin (name : String)
  | module (name : String)
  | handle (name : String)

instance : Inhabited Value := ⟨.null⟩

abbrev Namespace := Dict Value

namespace Value

def typeName : Value → String
  | .null => "null"
  | .bool _ => "bool"
  | .int _ => "int"
  | .float _ => "float"
  | .str _ => "str"
  | .list _ => "list"
  | .map _ => "map"
  | .builtin _ => "builtin"
  | .module _ => "module"
  | .handle _ => "handle"

def truthy : Value → Bool
  | .null => false
  | .bool b => b
  | .int i => i ≠ 0
  | .float x => !(x == 0.0)
  | .str s => !s.isEmpty
  | .list items => !items.isEmpty
  | .map entries => !entries.isEmpty
  | .builtin _ | .module _ | .handle _ => true

def callable : Value → Bool
  | .builtin _ => true
  | _ => false

def asString? : Value → Option String
  | .str s => some s
  | _ => none

mutual
def toJson? : Value → Option Json
  | .null => some .null
  | .bool b => some (.bool b)
  | .int i => some (.int i.toInt)
  | .float x => if x.isFinite then some (.float x) else none
  | .str s => some (.str s)
  | .list items => (itemsToJson? items).map .arr
  | .map entries => (entriesToJson? entries).map .obj
  | .builtin _ | .module _ | .handle _ => none

def itemsToJson? : List Value → Option (List Json)
  | [] => some []
  | v :: rest =>
    match toJson? v with
    | none => none
    | some j => (itemsToJson? rest).map (j :: ·)

def entriesToJson? : List (String × Value) → Option (List (String × Json))
  | [] => some []
  | (k, v) :: rest =>
    match toJson? v with
    | none => none
    | some j => (entriesToJson? rest).map ((k, j) :: ·)
end

mutual
def serializable : Value → Bool
  | .float x => x.isFinite
  | .list items => itemsSerializable items
  | .map entries => entriesSerializable entries
  | .builtin _ | .module _ | .handle _ => false
  | .null | .bool _ | .int _ | .str _ => true

def itemsSerializable : List Value → Bool
  | [] => true
  | v :: rest => serializable v && itemsSerializable rest

def entriesSerializable : List (String × Value) → Bool
  | [] => true
  | (_, v) :: rest => serializable v && entriesSerializable rest
end

def ofWhole (i : Int) : Value :=
  match Word.ofInt? i with
  | some n => .int n
  | none => .float (UInt64.ofNat i.toNat).toFloat

mutual
def ofJson : Json → Value
  | .null => .null
  | .bool b => .bool b
  | .int i => ofWhole i
  | .float x => .float x
  | .str s => .str s
  | .arr items => .list (itemsOfJson items)
  | .obj members => .map (membersOfJson members)

def itemsOfJson : List Json → List Value
  | [] => []
  | j :: rest => ofJson j :: itemsOfJson rest

def membersOfJson : List (String × Json) → List (String × Value)
  | [] => []
  | (k, j) :: rest => (k, ofJson j) :: membersOfJson rest
end

mutual
def displayNested : Value → String
  | .str s => Text.quoted s
  | .null => "null"
  | .bool true => "true"
  | .bool false => "false"
  | .int i => toString i.toInt
  | .float x => Decimal.display x
  | .list items => "[" ++ displayItems items ++ "]"
  | .map entries => "\x7b" ++ displayEntries entries ++ "\x7d"
  | .builtin name => "<builtin " ++ name ++ ">"
  | .module name => "<module " ++ name ++ ">"
  | .handle name => "<handle " ++ name ++ ">"

def displayItems : List Value → String
  | [] => ""
  | [v] => displayNested v
  | v :: rest => displayNested v ++ ", " ++ displayItems rest

def displayEntries : List (String × Value) → String
  | [] => ""
  | [(k, v)] => Text.quoted k ++ ": " ++ displayNested v
  | (k, v) :: rest => Text.quoted k ++ ": " ++ displayNested v ++ ", " ++ displayEntries rest
end

def display : Value → String
  | .str s => s
  | v => displayNested v

mutual
/-- Sameness of kind and content. Doubles compare as numbers, so the two zeros are the same and
    what is not a number differs from itself. -/
def same : Value → Value → Bool
  | .null, .null => true
  | .bool a, .bool b => a == b
  | .int a, .int b => a == b
  | .float a, .float b => a == b
  | .str a, .str b => a == b
  | .list as, .list bs => sameItems as bs
  | .map as, .map bs => sameEntries as bs
  | .builtin a, .builtin b => a == b
  | .module a, .module b => a == b
  | .handle a, .handle b => a == b
  | _, _ => false

def sameItems : List Value → List Value → Bool
  | [], [] => true
  | a :: as, b :: bs => same a b && sameItems as bs
  | _, _ => false

def sameEntries : List (String × Value) → List (String × Value) → Bool
  | [], [] => true
  | (k, a) :: as, (l, b) :: bs => k == l && same a b && sameEntries as bs
  | _, _ => false
end

end Value

def Namespace.toJson (ns : Namespace) : Dict Json := Dict.filterMapValues (fun _ v => v.toJson?) ns

def Namespace.ofJson (members : Dict Json) : Namespace := Dict.mapValues Value.ofJson members

end Playbook
