import Playbook.Dict

/- The playbooks that an agent knows. -/
namespace Playbook

structure PlaybookSpec where
  name : String
  /-- Whether it is the attendee's side of a meeting. -/
  meeting : Bool
  description : String
deriving DecidableEq, Repr

structure Repertoire where
  specs : Dict PlaybookSpec
  /-- The playbook for conversation that arrives while the agent is idle. -/
  messageHandler : Option String
deriving DecidableEq, Repr

namespace Repertoire

def empty : Repertoire := ⟨[], none⟩

def add (r : Repertoire) (spec : PlaybookSpec) : Repertoire :=
  { r with specs := r.specs.insert spec.name spec }

def addPlaybook (r : Repertoire) (name : String) : Repertoire := r.add ⟨name, false, ""⟩

def addMeeting (r : Repertoire) (name : String) : Repertoire := r.add ⟨name, true, ""⟩

def contains (r : Repertoire) (name : String) : Bool := r.specs.contains name

def handleWith (r : Repertoire) (name : String) : Repertoire :=
  let r := if r.contains name then r else r.addPlaybook name
  { r with messageHandler := some name }

def get? (r : Repertoire) (name : String) : Option PlaybookSpec := r.specs.get? name

def isMeeting (r : Repertoire) (name : String) : Bool := (r.get? name).any (·.meeting)

def names (r : Repertoire) : List String := r.specs.keys

end Repertoire
end Playbook
