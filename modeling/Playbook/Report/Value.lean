import Playbook.Report.Basic
import Playbook.Json.Reader
import Playbook.Value
import Playbook.Uuid

/- Values as documents from which nothing is lost: what a document cannot say of itself stands in a
   map of one member whose name tells what it is. -/
namespace Playbook

namespace Value

def exactWhole : Int := 9007199254740992

def tagged (tag : String) (j : Json) : Json := .obj [(tag, j)]

def reportInt (i : Int) : Json :=
  if -exactWhole ≤ i ∧ i ≤ exactWhole then .int i else tagged "i" (.str (toString i))

def reportFloat (x : Float) : Json :=
  tagged "f" (.str (if x.isNaN then "nan" else Uuid.hex 16 x.toBits.toNat))

mutual
def toReport : Value → Json
  | .null => .null
  | .bool b => .bool b
  | .int i => reportInt i.toInt
  | .float x => reportFloat x
  | .str s => .str s
  | .list items => .arr (itemsToReport items)
  | .map entries => tagged "m" (.obj (entriesToReport entries))
  | .builtin name => tagged "builtin" (.str name)
  | .module name => tagged "module" (.str name)
  | .handle name => tagged "handle" (.str name)

def itemsToReport : List Value → List Json
  | [] => []
  | v :: rest => toReport v :: itemsToReport rest

def entriesToReport : List (String × Value) → List (String × Json)
  | [] => []
  | (k, v) :: rest => (k, toReport v) :: entriesToReport rest
end

def ofHexBits (s : String) : Float :=
  let bits := s.toList.foldl (fun n c => 16 * n + (RawJson.hexValue? c).getD 0) 0
  if s = "nan" then 0.0 / 0.0 else Float.ofBits (UInt64.ofNat bits)

def ofTag (tag text : String) : Value :=
  match tag with
  | "i" => .int (Int64.ofInt (text.toInt?.getD 0))
  | "f" => .float (ofHexBits text)
  | "builtin" => .builtin text
  | "module" => .module text
  | "handle" => .handle text
  | _ => .null

mutual
def ofReport : Json → Value
  | .null => .null
  | .bool b => .bool b
  | .int i => .int (Int64.ofInt i)
  | .float x => .float x
  | .str s => .str s
  | .arr items => .list (itemsOfReport items)
  | .obj members => ofMembers members

def itemsOfReport : List Json → List Value
  | [] => []
  | j :: rest => ofReport j :: itemsOfReport rest

def ofMembers : List (String × Json) → Value
  | [(tag, .str text)] => ofTag tag text
  | [("m", .obj entries)] => .map (Dict.ofList (entriesOfReport entries))
  | _ => .null

def entriesOfReport : List (String × Json) → List (String × Value)
  | [] => []
  | (k, j) :: rest => (k, ofReport j) :: entriesOfReport rest
end

end Value

instance : Report Value := ⟨Value.toReport⟩

def Namespace.ofReport : Json → Namespace
  | .obj members => Dict.ofList (Value.entriesOfReport members)
  | _ => []

end Playbook
