import Playbook.Script.Operator

/- Reading and writing one place inside nested data. -/
namespace Playbook.Script

inductive Key where
  | field (name : String)
  | index (v : Value)

def position (i : Int64) (size : Nat) : Result Nat :=
  let resolved := if i.toInt < 0 then i.toInt + size else i.toInt
  if 0 ≤ resolved ∧ resolved < size then .ok resolved.toNat else .error (.outOfRange i.toInt)

def getField (object : Value) (name : String) : Result Value :=
  match object with
  | .map entries =>
    match Dict.get? entries name with
    | some v => .ok v
    | none => .error (.noField name)
  | v => .error (.noAttribute v.typeName name)

def getEntry (entries : Dict Value) (key : String) : Result Value :=
  match entries.get? key with
  | some v => .ok v
  | none => .error (.missingKey key)

def getIndex (object index : Value) : Result Value :=
  match object, index with
  | .list items, .int i => do
    let p ← position i items.length
    return items.getD p .null
  | .str s, .int i => do
    let cs := s.toList
    let p ← position i cs.length
    return .str (String.ofList (cs.drop p |>.take 1))
  | .map entries, key => do
    let name ← mapKey key
    getEntry entries name
  | object, index => .error (.notIndexable object.typeName index.typeName)

def getKey (object : Value) : Key → Result Value
  | .field name => getField object name
  | .index v => getIndex object v

def getPath (root : Value) (keys : List Key) : Result Value := keys.foldlM getKey root

def Key.entry : Key → Result String
  | .field name => .ok name
  | .index v => mapKey v

def Key.missing (name : String) : Key → Fault
  | .field _ => .noField name
  | .index _ => .missingKey name

/-- Writes into a slot and tells how it went, beside what the slot holds then. A missing last entry of
    a map is added; everything else on the way has to be there. -/
def writePath (slot : Value) (keys : List Key) (new : Value) : Result Unit × Value :=
  match keys with
  | [] => (.ok (), new)
  | key :: rest =>
    match slot, key with
    | .map entries, key =>
      match key.entry with
      | .error fault => (.error fault, .map entries)
      | .ok name =>
        if rest.isEmpty then (.ok (), .map (Dict.insert entries name new))
        else match Dict.get? entries name with
          | none => (.error (key.missing name), .map entries)
          | some child =>
            let (r, child) := writePath child rest new
            (r, .map (Dict.replace entries name child))
    | .list items, .index (.int i) =>
      match position i items.length with
      | .error fault => (.error fault, .list items)
      | .ok p =>
        let (r, child) := writePath (items.getD p .null) rest new
        (r, .list (items.set p child))
    | slot, _ => (.error (.notAssignable slot.typeName), slot)

def setPath (slot : Value) (keys : List Key) (new : Value) : Result Value :=
  let (r, slot) := writePath slot keys new
  r.map fun () => slot

end Playbook.Script
