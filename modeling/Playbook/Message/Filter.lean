import Playbook.Message

/- Choosing among messages by what can be seen of them. -/
namespace Playbook

/-- Every condition that is given has to hold. -/
structure MessageFilter where
  sender : Option AgentId
  /-- The word for the kind. -/
  kind : Option String
  meeting : Option MeetingId
  /-- A part of the content. -/
  part : Option String
  conversation : Bool
deriving DecidableEq, Repr

namespace MessageFilter

def any : MessageFilter := ⟨none, none, none, none, false⟩

def accepts (f : MessageFilter) (m : Message) : Bool :=
  f.sender.all (m.sender = ·) && f.kind.all (m.kind.word = ·) &&
    f.meeting.all (m.meeting = some ·) &&
    f.part.all (fun part => Text.hasInside part.toList m.content.toList) &&
    (!f.conversation || !m.kind.isControl)

end MessageFilter
end Playbook
