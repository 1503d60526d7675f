import Playbook.Config
import Playbook.Meeting.Error
import Playbook.Script.Execution

/- What can stop an agent. Faults of the code it runs are not among it; they are part of what a run
   comes to. -/
namespace Playbook

def maxDepth : Nat := 32

inductive AgentError where
  | execution (e : Script.ExecutionError)
  | store (e : StoreError)
  | meeting (e : MeetingError)
  | post (e : PostError)
  | config (e : ConfigError)
  | invalidId (e : IdError)
  | unknownPlaybook (name : String)
  | engine (text : String)
  | tooDeep
  /-- Recovery is asked for without a store. -/
  | notDurable
deriving DecidableEq, Repr

def AgentError.message : AgentError → String
  | .execution e => e.message
  | .store e => e.message
  | .meeting e => e.message
  | .post e => e.message
  | .config e => "Configuration error: " ++ e.message
  | .invalidId e => "Invalid identifier: " ++ e.message
  | .unknownPlaybook name => "Unknown playbook: " ++ name
  | .engine text => "Reasoning engine failed: " ++ text
  | .tooDeep => s!"Maximum call depth of {maxDepth} exceeded"
  | .notDurable => "Durability is disabled"

end Playbook
