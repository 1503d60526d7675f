import Playbook.Agent.Service

/- What the agents of one system have in common, and how they are made. -/
namespace Playbook

structure Ensemble where
  config : Config
  engine : Engine
  store : Option (CheckpointStore World)

namespace Ensemble

def memoryStore (limit : Nat) : CheckpointStore World :=
  (MemoryStore.store limit).focus World.memory fun memory w => { w with memory }

def fileStore (root : FilePath) (limit : Nat) : CheckpointStore World :=
  (FileStore.store root limit).focus World.files fun files w => { w with files }

def ofConfig (config : Config) (engine : Engine) : Ensemble :=
  let store := fileStore (.ofText config.storagePath) config.maxCheckpointBytes
  ⟨config, engine, if config.durable then some store else none⟩

/-- The numbering of checkpoints is settled first; an agent whose store cannot be read gets no
    inbox. -/
def createAgentWith (e : Ensemble) (id : AgentId) (klass : String) (repertoire : Repertoire)
    (execution : ExecutionId) (w : World) : Except AgentError Agent × World :=
  let manager : Except StoreError (Option CheckpointManager) := match e.store with
    | none => .ok none
    | some store => (CheckpointManager.start store execution w).map some
  match manager with
  | .error fault => (.error (.store fault), w)
  | .ok manager =>
    let managers := match manager with
      | none => w.managers
      | some m => w.managers.insert id { m with keep := e.config.keepLast }
    let (inbox, post) := w.post.enter id
    let house := w.house.setBook id MeetingBook.empty
    let host : Host := ⟨inbox, repertoire, e.engine, e.config.batchTimeout,
      e.config.maxBatchMessages, e.config.meetingTimeout⟩
    let transcripts := w.transcripts.erase id
    (.ok ⟨AgentState.fresh id klass, host, execution, e.store⟩,
      { w with managers, post, house, transcripts })

/-- Runs are saved under the id of the agent, so that it is found again after a restart. -/
def createAgent (e : Ensemble) (id klass : String) (repertoire : Repertoire) (w : World) :
    Except AgentError Agent × World :=
  match checkId .agent id with
  | .error fault => (.error (.invalidId fault), w)
  | .ok id => e.createAgentWith id klass repertoire (executionOfAgent id) w

end Ensemble

def sendFromUser (addressee : AgentId) (content : String) (w : World) :
    Except PostError Unit × World :=
  let (m, w) := w.assembled (·.write (.direct human "User" addressee content))
  w.assembled (·.deliverTurn m)

end Playbook
