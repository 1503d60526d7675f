import Playbook.CommandLine.Command
import Playbook.Simulation

/- What the commands do. A script is performed as a playbook of a single agent, the checkpoints are
   those in files. -/
namespace Playbook.CommandLine
open Script

inductive CommandError where
  | script (path : String) (fault : FileFault)
  | agent (e : AgentError)
  | store (e : StoreError)
  | config (e : ConfigError)
  | invalidId (e : IdError)
deriving DecidableEq, Repr

def CommandError.message : CommandError → String
  | .script path fault => s!"Cannot read script {path}: {fault.message}"
  | .agent e => e.message
  | .store e => e.message
  | .config e => e.message
  | .invalidId e => "Invalid identifier: " ++ e.message

structure Printed where
  document : Json
  success : Bool

def record (members : List (String × Json)) : Json := .obj (Dict.ofList members)

def printed (members : List (String × Json)) : Printed := ⟨record members, true⟩

def orNull (s : Option String) : Json := (s.map Json.str).getD .null

def settings (env : String → Option String) (durable : Bool) (storage : Option String) :
    Except CommandError Config :=
  let checked := do
    let c ← Config.ofVariables env
    Config.check { c with
      durable := durable || c.durable
      storagePath := storage.getD c.storagePath }
  checked.mapError .config

def scriptAgent (config : Config) (o : RunOptions) (w : World) :
    Except CommandError Agent × World :=
  match w.files.read (.ofText o.script) with
  | .error fault => (.error (.script o.script fault), w)
  | .ok code =>
    match checkId .agent o.agent, checkId .execution (o.execution.getD o.agent) with
    | .error e, _ => (.error (.invalidId e), w)
    | .ok _, .error e => (.error (.invalidId e), w)
    | .ok id, .ok execution =>
      let book := { ScriptBook.empty.add o.playbook code with chunkSize := o.chunkSize }
      let ensemble := Ensemble.ofConfig config book.engine
      let repertoire := Repertoire.empty.addPlaybook o.playbook
      let (a, w) := ensemble.createAgentWith id "Agent" repertoire execution w
      (a.mapError .agent, w)

def summaryMembers (a : Agent) (s : Summary) (w : World) : List (String × Json) :=
  [("agent_id", .str a.state.id), ("execution_id", .str a.execution), ("success", .bool s.success),
    ("return_value", (s.returned.bind Value.toJson?).getD .null),
    ("error", orNull (s.fault.map CodeFault.message)),
    ("traceback", orNull (s.fault.map CodeFault.traceback)),
    ("statements_executed", .int s.statements),
    ("checkpoints", Json.strings (s.checkpoints.map CheckpointId.display)),
    ("said", Json.strings ((w.transcript a.state.id).map (·.content)))]

def summarize (a : Agent) (s : Summary) (w : World) : Printed :=
  ⟨record (summaryMembers a s w), s.success⟩

def notResumed (a : Agent) : Printed :=
  printed [("agent_id", .str a.state.id), ("execution_id", .str a.execution),
    ("resumed", .bool false)]

/-- Lets an agent act on its own until it is done. An agent alone never waits without a deadline. -/
def act (activity : Activity World (Except AgentError Printed)) (w : World) :
    Except CommandError Printed × World :=
  let (r, s) := (Simulation.start w).perform activity
  match r with
  | some r => (r.mapError .agent, s.world)
  | none => (.ok ⟨.null, false⟩, s.world)

def runActivity (a : Agent) (o : RunOptions) : Activity World (Except AgentError Printed) := do
  let (r, a) ← a.run o.playbook (o.args.map .str)
  Activity.ask fun w => r.map fun s => summarize a s w

def resumeActivity (a : Agent) : Activity World (Except AgentError Printed) := do
  let (r, a) ← a.resume
  Activity.ask fun w => r.map fun
    | some s => summarize a s w
    | none => notResumed a

def withAgent (config : Config) (o : RunOptions) (w : World)
    (f : Agent → Activity World (Except AgentError Printed)) :
    Except CommandError Printed × World :=
  match scriptAgent config o w with
  | (.error e, w) => (.error e, w)
  | (.ok a, w) => act (f a) w

def manager (store : CheckpointStore World) (execution : String) (w : World) :
    Except CommandError CheckpointManager := do
  let execution ← (checkId .execution execution).mapError .invalidId
  (CheckpointManager.start store execution w).mapError .store

def entry (c : Checkpoint) : Json :=
  record [("id", .str c.id.display), ("counter", .int c.data.number),
    ("statement", .str c.data.statement), ("timestamp", .str c.data.timestamp)]

def list (store : CheckpointStore World) (execution : String) (w : World) :
    Except CommandError Printed := do
  let m ← manager store execution w
  let checkpoints ← (m.loadAll store w).mapError .store
  return printed [("execution_id", .str execution), ("checkpoints", .arr (checkpoints.map entry))]

def showCheckpoint (store : CheckpointStore World) (text : String) (w : World) :
    Except CommandError Printed := do
  let id ← (CheckpointId.read text).mapError .store
  match ← (store.load id w).mapError .store with
  | some data => return printed [("id", .str id.display), ("data", data.toJson.settle)]
  | none => return ⟨record [("id", .str id.display), ("found", .bool false)], false⟩

def cleanup (store : CheckpointStore World) (execution : String) (keep : Nat) (w : World) :
    Except CommandError Printed × World :=
  match manager store execution w with
  | .error e => (.error e, w)
  | .ok m =>
    match store.cleanup m.execution keep w with
    | (.error e, w) => (.error (.store e), w)
    | (.ok deleted, w) =>
      let answer := (m.list store w).map fun ids =>
        printed [("execution_id", .str execution), ("deleted", .int deleted),
          ("remaining", .int ids.length)]
      (answer.mapError .store, w)

def recovery (c : Checkpoint) : Json :=
  record [("checkpoint_id", .str c.id.display), ("statement", .str c.data.statement),
    ("timestamp", .str c.data.timestamp), ("counter", .int c.id.number)]

def info (store : CheckpointStore World) (execution : String) (w : World) :
    Except CommandError Printed := do
  let m ← manager store execution w
  let latest ← (m.latest store w).mapError .store
  return printed [("execution_id", .str execution), ("can_recover", .bool latest.isSome),
    ("recovery", (latest.map recovery).getD .null)]

def listExecutions (store : CheckpointStore World) (root : String) (w : World) :
    Except CommandError Printed := do
  let executions ← (store.executions w).mapError .store
  return printed [("root", .str root), ("executions", Json.strings executions)]

def perform (env : String → Option String) (c : Command) (w : World) :
    Except CommandError Printed × World :=
  let durable := match c.action with
    | .run o => o.durable
    | _ => true
  match settings env durable c.storage with
  | .error e => (.error e, w)
  | .ok config =>
    let store := Ensemble.fileStore (.ofText config.storagePath) config.maxCheckpointBytes
    match c.action with
    | .run o => withAgent config o w (runActivity · o)
    | .resume o => withAgent config o w resumeActivity
    | .listExecutions => (listExecutions store config.storagePath w, w)
    | .list execution => (list store execution w, w)
    | .show_ id => (showCheckpoint store id w, w)
    | .cleanup execution keep => cleanup store execution keep w
    | .info execution => (info store execution w, w)

def places (env : String → Option String) (words : List String) : List String :=
  match readCommand words with
  | .error _ => []
  | .ok c =>
    let script := match c.action with
      | .run o | .resume o => [o.script]
      | _ => []
    match settings env false c.storage with
    | .error _ => script
    | .ok config => config.storagePath :: script

structure Outcome where
  output : Option Json
  errors : List String
  exit : Nat

def respond (env : String → Option String) (words : List String) (w : World) : Outcome × World :=
  match readCommand words with
  | .error .wrong => (⟨none, [], 2⟩, w)
  | .error _ => (⟨none, [], 0⟩, w)
  | .ok command =>
    match perform env command w with
    | (.error e, w) => (⟨none, ["Error: " ++ e.message], 1⟩, w)
    | (.ok p, w) => (⟨some p.document, [], if p.success then 0 else 1⟩, w)

end Playbook.CommandLine
