import Playbook.Storage.FilePath
import Playbook.Storage.FileTree

/- A tree of files with a directory in it to work from. Written paths are walked step by step. -/
namespace Playbook

structure FileSystem where
  tree : FileTree
  /-- Where relative paths start. -/
  here : FileTree.Path

namespace FileSystem

def empty : FileSystem := ⟨.empty, []⟩

def maxNameBytes : Nat := 255

def maxPathBytes : Nat := 4095

def stepFault? : Step → Option FileFault
  | .down name => if maxNameBytes < name.utf8ByteSize then some .nameTooLong else none
  | .stay | .up => none

/-- Where steps lead to. Each of them is taken from a directory, so that only what the last one
    names can be missing. -/
def follow (t : FileTree) (place : FileTree.Path) : List Step → Except FileFault FileTree.Path
  | [] => .ok place
  | step :: rest =>
    match t.entries place, stepFault? step with
    | .error e, _ => .error e
    | .ok _, some e => .error e
    | .ok _, none => follow t (step.walk place) rest

def origin (fs : FileSystem) (p : FilePath) : FileTree.Path := if p.absolute then [] else fs.here

def textFault? (p : FilePath) : Option FileFault :=
  if p.text = "" then some .notFound
  else if maxPathBytes < p.text.utf8ByteSize then some .nameTooLong
  else none

def locate (fs : FileSystem) (p : FilePath) : Except FileFault FileTree.Path :=
  match textFault? p with
  | some e => .error e
  | none => follow fs.tree (fs.origin p) p.steps

def read (fs : FileSystem) (p : FilePath) : Except FileFault String :=
  (fs.locate p).bind fs.tree.read

def entries (fs : FileSystem) (p : FilePath) : Except FileFault (Dict FileTree) :=
  (fs.locate p).bind fs.tree.entries

def write (fs : FileSystem) (p : FilePath) (text : String) : Except FileFault FileSystem := do
  return { fs with tree := ← fs.tree.write (← fs.locate p) text }

def remove (fs : FileSystem) (p : FilePath) : Except FileFault FileSystem := do
  return { fs with tree := ← fs.tree.remove (← fs.locate p) }

def rename (fs : FileSystem) (old new : FilePath) : Except FileFault FileSystem := do
  return { fs with tree := ← fs.tree.rename (← fs.locate old) (← fs.locate new) }

def makeDir (t : FileTree) (origin : FileTree.Path) (steps : List Step) :
    Except FileFault FileTree := do
  let place ← follow t origin steps
  if t.isDirAt place then return t
  match steps.getLast? with
  | some (.down _) => t.makeDir place
  | _ => throw .exists_

/-- Makes a directory, and before it those that its path comes by where they are missing. The steps
    are given from the last one on. What has been made stays, even if a later step fails. -/
def makeDirsUp (t : FileTree) (origin : FileTree.Path) :
    List Step → Except FileFault Unit × FileTree
  | [] => (.ok (), t)
  | step :: above =>
    let settle (t : FileTree) : Except FileFault FileTree → Except FileFault Unit × FileTree
      | .ok t => (.ok (), t)
      | .error e => (.error e, t)
    match makeDir t origin (step :: above).reverse with
    | .error .notFound =>
      match makeDirsUp t origin above with
      | (.error e, t) => (.error e, t)
      | (.ok (), t) => settle t (makeDir t origin (step :: above).reverse)
    | r => settle t r

def makeDirs (fs : FileSystem) (p : FilePath) : Except FileFault Unit × FileSystem :=
  if maxPathBytes < p.text.utf8ByteSize then (.error .nameTooLong, fs)
  else
    let (r, tree) := makeDirsUp fs.tree (fs.origin p) (p.steps.reverse.dropWhile (· = .stay))
    (r, { fs with tree })

end FileSystem
end Playbook
