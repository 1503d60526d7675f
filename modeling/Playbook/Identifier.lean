import Playbook.Text.Quoted
import Playbook.Text.Trim

/- Names of agents, meetings and executions. Execution ids name directories and begin file names,
   and agent ids serve as execution ids, so every id is kept to an alphabet that is safe in a file
   name and starts no hidden file or relative path. -/
namespace Playbook

inductive IdKind where
  | agent
  | meeting
  | execution
deriving DecidableEq, Repr

namespace IdKind

def word : IdKind → String
  | .agent => "agent"
  | .meeting => "meeting"
  | .execution => "execution"

def maxBytes : IdKind → Nat
  | .agent | .meeting => 64
  | .execution => 96

def namesCheckpoints : IdKind → Bool
  | .agent | .execution => true
  | .meeting => false

end IdKind

/-- What stands between execution id and number in a checkpoint id. -/
def checkpointSeparator : String := "_ckpt_"

inductive IdError where
  | empty (kind : IdKind)
  | tooLong (kind : IdKind) (bytes : Nat)
  | invalidStart (kind : IdKind) (found : Char)
  | invalidCharacter (kind : IdKind) (found : Char)
  | separator (kind : IdKind)
deriving DecidableEq, Repr

def IdError.message : IdError → String
  | .empty kind => s!"{kind.word} id cannot be empty"
  | .tooLong kind bytes => s!"{kind.word} id too long ({bytes} bytes, max {kind.maxBytes})"
  | .invalidStart kind found =>
    s!"{kind.word} id must start with an ASCII letter or digit, found {Text.quotedChar found}"
  | .invalidCharacter kind found =>
    s!"{kind.word} id contains {Text.quotedChar found}; " ++
      "allowed are ASCII letters, digits, '-', '_' and '.'"
  | .separator kind => s!"{kind.word} id cannot contain the checkpoint separator '_ckpt_'"

def isIdChar (c : Char) : Bool :=
  Text.isAsciiAlphanumeric c || c = '-' || c = '_' || c = '.'

def idFault? (kind : IdKind) (id : String) : Option IdError :=
  match id.toList with
  | [] => some (.empty kind)
  | first :: rest =>
    if kind.maxBytes < id.utf8ByteSize then some (.tooLong kind id.utf8ByteSize)
    else if !Text.isAsciiAlphanumeric first then some (.invalidStart kind first)
    else match (first :: rest).find? (!isIdChar ·) with
      | some found => some (.invalidCharacter kind found)
      | none =>
        if kind.namesCheckpoints && Text.hasInside checkpointSeparator.toList (first :: rest) then
          some (.separator kind)
        else none

def ValidId (kind : IdKind) (id : String) : Prop := idFault? kind id = none

instance (kind : IdKind) (id : String) : Decidable (ValidId kind id) :=
  inferInstanceAs (Decidable (_ = _))

def checkId (kind : IdKind) (id : String) : Except IdError String :=
  match idFault? kind id with
  | some e => .error e
  | none => .ok id

abbrev AgentId := String
abbrev MeetingId := String
abbrev ExecutionId := String

/-- An agent that is to be found again after a restart keeps its id as execution id. -/
def executionOfAgent (agent : AgentId) : ExecutionId := agent

end Playbook
