import Playbook.Value
import Playbook.Identifier

/- The state of one meeting, which all who take part in it share. -/
namespace Playbook

structure Room where
  id : MeetingId
  owner : AgentId
  topic : String
  playbook : String
  /-- The owner first, then the attendees in the order in which they joined. -/
  members : List AgentId
  /-- The latest write of a key counts. -/
  state : Namespace

namespace Room

def start (id : MeetingId) (owner : AgentId) (topic playbook : String) : Room :=
  ⟨id, owner, topic, playbook, [owner], []⟩

def hasMember (r : Room) (agent : AgentId) : Bool := r.members.contains agent

def addMember (r : Room) (agent : AgentId) : Room :=
  if r.hasMember agent then r else { r with members := r.members ++ [agent] }

def removeMember (r : Room) (agent : AgentId) : Room :=
  { r with members := r.members.filter (· ≠ agent) }

def set (r : Room) (key : String) (value : Value) : Room :=
  { r with state := r.state.insert key value }

def toValue (r : Room) : Value :=
  .map (Dict.ofList [("id", .str r.id), ("owner", .str r.owner), ("topic", .str r.topic),
    ("playbook", .str r.playbook), ("members", .list (r.members.map .str)),
    ("shared_state", .map r.state)])

theorem mem_members_addMember (r : Room) (agent other : AgentId) :
    other ∈ (r.addMember agent).members ↔ other ∈ r.members ∨ other = agent := by
  unfold addMember
  split
  · rename_i h
    constructor
    · exact Or.inl
    · rintro (h' | rfl)
      · exact h'
      · simpa [hasMember] using h
  · simp

theorem mem_members_removeMember (r : Room) (agent other : AgentId) :
    other ∈ (r.removeMember agent).members ↔ other ∈ r.members ∧ other ≠ agent := by
  simp [removeMember]

end Room
end Playbook
