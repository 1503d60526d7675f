import Playbook.CommandLine.Words

/- The commands that can be given, and the command lines that give them. -/
namespace Playbook.CommandLine

structure RunOptions where
  script : String
  playbook : String
  agent : String
  execution : Option String
  chunkSize : Nat
  durable : Bool
  args : List String
deriving DecidableEq, Repr

inductive Action where
  | run (o : RunOptions)
  | resume (o : RunOptions)
  | listExecutions
  | list (execution : String)
  | show_ (id : String)
  | cleanup (execution : String) (keep : Nat)
  | info (execution : String)
deriving DecidableEq, Repr

structure Command where
  action : Action
  storage : Option String
deriving DecidableEq, Repr

def option (name : String) (form : ValueForm) : OptionSpec := ⟨name, some form, false⟩

def topLevel : Level := ⟨[], [], ["run", "resume", "checkpoints", "help"], true⟩

def resumeOptions : List OptionSpec :=
  [option "playbook" .text, option "agent" .text, option "execution" .text,
    option "storage" .nonEmpty]

def runOptions : List OptionSpec :=
  resumeOptions ++
    [option "chunk-size" .count, ⟨"durable", none, false⟩, ⟨"arg", some .text, true⟩]

def storageOption : OptionSpec := option "storage" .nonEmpty

def checkpointLevel : Level :=
  ⟨[storageOption], [], ["list", "show", "cleanup", "info", "help"], false⟩

def actionLevel (name : String) : Level :=
  match name with
  | "list" => ⟨[storageOption, option "execution" .text], [], [], false⟩
  | "show" => ⟨[storageOption], [.text], [], false⟩
  | "cleanup" => ⟨[storageOption, option "execution" .text, option "keep" .count], [], [], false⟩
  | _ => ⟨[storageOption, option "execution" .text], [], [], false⟩

def countOf (s : String) : Nat :=
  s.toList.foldl (fun n c => if c.isDigit then 10 * n + (c.toNat - 48) else n) 0

def Given.required (g : Given) (name : String) : Except Refusal String :=
  match g.value? name with
  | some s => .ok s
  | none => .error .wrong

def Given.operand (g : Given) : Except Refusal String :=
  match g.operands with
  | [s] => .ok s
  | _ => .error .wrong

def Given.runOptions (g : Given) (chunkSize : Nat) : Except Refusal RunOptions := do
  return {
    script := ← g.operand
    playbook := (g.value? "playbook").getD "Main"
    agent := (g.value? "agent").getD "main"
    execution := g.value? "execution"
    chunkSize := ((g.value? "chunk-size").map countOf).getD chunkSize
    durable := g.has "durable"
    args := g.values "arg" }

def Given.action (name : String) (g : Given) : Except Refusal Action := do
  match name with
  | "list" => return ((g.value? "execution").map .list).getD .listExecutions
  | "show" => return .show_ (← g.operand)
  | "cleanup" =>
    return .cleanup (← g.required "execution") (((g.value? "keep").map countOf).getD 10)
  | _ => return .info (← g.required "execution")

def commandsBelow : String → List String
  | "checkpoints" => checkpointLevel.commands
  | _ => []

def helpOn (commands : List String) : List String → Refusal
  | [] => .help
  | name :: rest => if commands.contains name then helpOn (commandsBelow name) rest else .wrong

/-- The directory may be given on either side of the command; the one nearer to the end counts. -/
def readCheckpoints (words : List String) : Except Refusal Command := do
  let g ← readLevel checkpointLevel .empty false words
  match g.command with
  | none => throw .wrong
  | some ("help", rest) => throw (helpOn checkpointLevel.commands rest)
  | some (name, rest) =>
    let h ← readLevel (actionLevel name) .empty false rest
    let action ← h.action name
    if g.refused then throw .wrong
    return ⟨action, (h.value? "storage").or (g.value? "storage")⟩

def readCommand (words : List String) : Except Refusal Command := do
  let g ← readLevel topLevel .empty false words
  match g.command with
  | some ("run", rest) =>
    let g ← readLevel ⟨runOptions, [.nonEmpty], [], false⟩ .empty false rest
    return ⟨.run (← g.runOptions 16), g.value? "storage"⟩
  | some ("resume", rest) =>
    let g ← readLevel ⟨resumeOptions, [.nonEmpty], [], false⟩ .empty false rest
    return ⟨.resume (← g.runOptions 0), g.value? "storage"⟩
  | some ("checkpoints", rest) => readCheckpoints rest
  | some (_, rest) => throw (helpOn topLevel.commands rest)
  | none => throw .wrong

def usage : String := "\n".intercalate [
  "run SCRIPT [--playbook NAME] [--agent ID] [--execution ID] [--chunk-size N]",
  "    [--durable] [--storage DIR] [--arg TEXT]...",
  "resume SCRIPT [--playbook NAME] [--agent ID] [--execution ID] [--storage DIR]",
  "checkpoints [--storage DIR] list [--execution ID]",
  "checkpoints [--storage DIR] show ID",
  "checkpoints [--storage DIR] cleanup --execution ID [--keep N]",
  "checkpoints [--storage DIR] info --execution ID"]

end Playbook.CommandLine
