import Playbook.CommandLine.Perform
import Std.Time.Format

/- The program: reads the files that a command looks at, lets it act on them, writes back what has
   changed, and prints. -/
namespace Playbook.Main

def readTree? (path : String) : Nat → IO (Option FileTree)
  | 0 => return none
  | depth + 1 => do
    let place := (← IO.currentDir) / path
    if ← place.isDir then
      let mut found : Dict FileTree := []
      for entry in ← place.readDir do
        if let some t ← readTree? (FilePath.joinText path entry.fileName) depth then
          found := found.insert entry.fileName t
      return some (.dir found)
    else if ← place.pathExists then
      try return some (.file (← IO.FS.readFile path))
      catch _ => return some (.file "")
    else return none

/-- A store has a directory per execution and documents in it. -/
def storeDepth : Nat := 3

def readAlong (t : FileTree) (path : String) (place : FileTree.Path) :
    List String → IO FileTree
  | [] => return ((← readTree? path storeDepth).map (t.graft place)).getD t
  | name :: rest => do
    match ← readTree? path 1 with
    | none => return t
    | some (.file text) => return t.graft place (.file text)
    | some (.dir _) =>
      let t := if t.isDirAt place then t else t.graft place .empty
      readAlong t (FilePath.joinText path name) ((Step.ofName name).walk place) rest

def readPlaces (here : String) (paths : List String) : IO FileSystem := do
  let mut t := FileTree.empty
  for path in here :: paths do
    let path := if path.startsWith "/" then path else FilePath.joinText here path
    t ← readAlong t "/" [] (FilePath.names path)
  return ⟨t, (FilePath.names here).filter (· ≠ "")⟩

def writeBack (old new : FileTree) : IO Unit := do
  let before := old.paths "/"
  for path in new.paths "/" do
    if path.endsWith "/" && !before.contains path then IO.FS.createDirAll path
  for (path, text) in old.newFiles new do IO.FS.writeFile ("/" ++ path) text
  for path in old.goneFiles new do IO.FS.removeFile ("/" ++ path)

def randomBits : IO Nat := do
  return (← IO.getRandomBytes 16).toList.foldl (fun n b => 256 * n + b.toNat) 0

def today : IO String := do
  return Timestamp.ofSeconds (← Std.Time.Timestamp.now).toSecondsSinceUnixEpoch.val.toNat

end Playbook.Main

open Playbook in
def main (words : List String) : IO UInt32 := do
  let given ← Config.variableNames.filterMapM fun name => do
    return (← IO.getEnv name).map (name, ·)
  let env (name : String) : Option String := given.lookup name
  let files ← Main.readPlaces (← IO.currentDir).toString (CommandLine.places env words)
  let start := World.start (← Main.randomBits) (← Main.today) files
  let (o, w) := CommandLine.respond env words start
  Main.writeBack files.tree w.files.tree
  if let some j := o.output then IO.println (j.pretty 0)
  else if o.exit = 0 then IO.println CommandLine.usage
  else if o.errors.isEmpty then IO.eprintln CommandLine.usage
  for line in o.errors do IO.eprintln line
  return o.exit.toUInt32
