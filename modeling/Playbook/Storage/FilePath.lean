/- Paths as they are written: steps with slashes between them, taken from the root of a tree after a
   leading slash, or else from the directory where the work is done. -/
namespace Playbook

inductive Step where
  /-- An empty name or a single dot. -/
  | stay
  | up
  | down (name : String)
deriving DecidableEq, Repr

namespace Step

def ofName (name : String) : Step :=
  if name = "" || name = "." then .stay else if name = ".." then .up else .down name

/-- One step from a place, which is given by the names on the way to it. There is nothing above the
    root. -/
def walk (place : List String) : Step → List String
  | .stay => place
  | .up => place.dropLast
  | .down name => place ++ [name]

end Step

structure FilePath where
  text : String
  absolute : Bool
  steps : List Step
deriving DecidableEq, Repr

namespace FilePath

def names (text : String) : List String := text.splitOn "/"

def ofText (text : String) : FilePath := ⟨text, text.startsWith "/", (names text).map .ofName⟩

def joinText (dir name : String) : String :=
  if dir = "" then name else if dir.endsWith "/" then dir ++ name else dir ++ "/" ++ name

def child (p : FilePath) (name : String) : FilePath :=
  ⟨joinText p.text name, p.absolute, p.steps ++ [.down name]⟩

/-- What tells a written path from others. Doubled slashes, slashes at the end and dots after the
    first name do not. -/
def parts (text : String) : List String :=
  if text = "" then []
  else match names text with
    | [] => []
    | first :: rest => first :: rest.filter fun name => name ≠ "" && name ≠ "."

end FilePath
end Playbook
