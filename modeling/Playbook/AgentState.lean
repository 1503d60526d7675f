import Playbook.CallStack

/- What an agent keeps between playbooks, and the part of it that is stored. -/
namespace Playbook

/-- Names bound to the inside of the system: programs may read them, never assign them, and they
    are never stored. -/
def reservedNames : List String :=
  ["agent", "state", "call_stack", "meetings", "joined_meetings", "owned_meetings"]

def isReserved (name : String) : Bool := reservedNames.contains name

structure AgentState where
  id : AgentId
  klass : String
  stack : CallStack
  vars : Namespace
  /-- Agents created by this one. -/
  agents : List String

structure Snapshot where
  stack : List FrameSnapshot
  vars : Dict Json
  agents : List String

namespace AgentState

def fresh (id : AgentId) (klass : String) : AgentState := ⟨id, klass, [], [], []⟩

def set (a : AgentState) (name : String) (value : Value) : AgentState :=
  { a with vars := a.vars.insert name value }

def snapshot (a : AgentState) : Snapshot := ⟨a.stack.snapshot, Namespace.toJson a.vars, a.agents⟩

/-- Stored variables are written over the present ones, stored sub-agents replace the present ones
    unless there are none, and the stored stack is taken only by an agent that is in no frame. -/
def restore (a : AgentState) (s : Snapshot) : AgentState :=
  { a with
    vars := a.vars.union (Namespace.ofJson s.vars)
    agents := if s.agents.isEmpty then a.agents else s.agents
    stack := if a.stack.isEmpty then CallStack.ofSnapshot s.stack else a.stack }

end AgentState

namespace Snapshot

def pointers (s : Snapshot) : List String := s.stack.map fun f => f.pointer.display

end Snapshot
end Playbook
