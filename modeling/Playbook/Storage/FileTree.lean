import Playbook.Dict

/- A tree of files and directories. A path is the list of names on the way down from the root of the
   tree; the faults are those a file system reports. -/
namespace Playbook

inductive FileFault where
  | notFound
  | exists_
  | notDirectory
  | isDirectory
  | nameTooLong
deriving DecidableEq, Repr

def FileFault.message : FileFault → String
  | .notFound => "No such file or directory (os error 2)"
  | .exists_ => "File exists (os error 17)"
  | .notDirectory => "Not a directory (os error 20)"
  | .isDirectory => "Is a directory (os error 21)"
  | .nameTooLong => "File name too long (os error 36)"

inductive FileTree where
  | file (text : String)
  | dir (entries : List (String × FileTree))

namespace FileTree

abbrev Path := List String

def empty : FileTree := .dir []

def isDir : FileTree → Bool
  | .dir _ => true
  | .file _ => false

def find (path : Path) (t : FileTree) : Except FileFault FileTree :=
  match path with
  | [] => .ok t
  | name :: rest =>
    match t with
    | .file _ => .error .notDirectory
    | .dir entries =>
      match Dict.get? entries name with
      | none => .error .notFound
      | some child => child.find rest

def isDirAt (t : FileTree) (path : Path) : Bool :=
  match t.find path with
  | .ok node => node.isDir
  | .error _ => false

/-- Changes the entry that a path ends in, given and returned as what stands there or nothing.
    Everything above it has to be there. -/
def update (path : Path) (change : Option FileTree → Except FileFault (Option FileTree))
    (t : FileTree) : Except FileFault FileTree :=
  match path with
  | [] => .error .isDirectory
  | [name] =>
    match t with
    | .file _ => .error .notDirectory
    | .dir entries =>
      match change (Dict.get? entries name) with
      | .error e => .error e
      | .ok none => .ok (.dir (Dict.erase entries name))
      | .ok (some node) => .ok (.dir (Dict.insert entries name node))
  | name :: rest =>
    match t with
    | .file _ => .error .notDirectory
    | .dir entries =>
      match Dict.get? entries name with
      | none => .error .notFound
      | some child =>
        match child.update rest change with
        | .error e => .error e
        | .ok child => .ok (.dir (Dict.insert entries name child))

def read (t : FileTree) (path : Path) : Except FileFault String :=
  match t.find path with
  | .error e => .error e
  | .ok (.dir _) => .error .isDirectory
  | .ok (.file text) => .ok text

def entries (t : FileTree) (path : Path) : Except FileFault (Dict FileTree) :=
  match t.find path with
  | .error e => .error e
  | .ok (.file _) => .error .notDirectory
  | .ok (.dir entries) => .ok entries

def write (t : FileTree) (path : Path) (text : String) : Except FileFault FileTree :=
  t.update path fun
    | some (.dir _) => .error .isDirectory
    | _ => .ok (some (.file text))

def makeDir (t : FileTree) (path : Path) : Except FileFault FileTree :=
  match path with
  | [] => .error .exists_
  | _ => t.update path fun
    | some _ => .error .exists_
    | none => .ok (some empty)

def remove (t : FileTree) (path : Path) : Except FileFault FileTree :=
  t.update path fun
    | none => .error .notFound
    | some (.dir _) => .error .isDirectory
    | some (.file _) => .ok none

def rename (t : FileTree) (old new : Path) : Except FileFault FileTree := do
  let text ← t.read old
  let t ← t.write new text
  t.remove old

mutual
def paths (above : String) : FileTree → List String
  | .file _ => []
  | .dir entries => entryPaths above entries

def entryPaths (above : String) : List (String × FileTree) → List String
  | [] => []
  | (name, .file _) :: rest => (above ++ name) :: entryPaths above rest
  | (name, .dir entries) :: rest =>
    (above ++ name ++ "/") :: entryPaths (above ++ name ++ "/") entries ++ entryPaths above rest
end

mutual
def files (above : String) : FileTree → List (String × String)
  | .file _ => []
  | .dir entries => entryFiles above entries

def entryFiles (above : String) : List (String × FileTree) → List (String × String)
  | [] => []
  | (name, .file text) :: rest => (above ++ name, text) :: entryFiles above rest
  | (name, .dir entries) :: rest =>
    entryFiles (above ++ name ++ "/") entries ++ entryFiles above rest
end

def newFiles (old new : FileTree) : List (String × String) :=
  let before := old.files ""
  (new.files "").filter fun f => before.lookup f.1 ≠ some f.2

def goneFiles (old new : FileTree) : List String :=
  let after := new.files ""
  ((old.files "").map Prod.fst).filter fun path => (after.lookup path).isNone

def graft (t : FileTree) (path : Path) (node : FileTree) : FileTree :=
  match path with
  | [] => node
  | name :: rest =>
    match t with
    | .file text => .file text
    | .dir entries =>
      .dir (Dict.insert entries name (((Dict.get? entries name).getD empty).graft rest node))

end FileTree
end Playbook
