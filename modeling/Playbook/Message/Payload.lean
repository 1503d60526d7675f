import Playbook.Message

/- The documents in the messages that invite to a meeting and that answer an invitation. -/
namespace Playbook

structure Invitation where
  meeting : MeetingId
  owner : AgentId
  playbook : String
  topic : String
deriving DecidableEq, Repr

namespace Invitation

def toJson (i : Invitation) : Json :=
  .obj [("meeting_id", .str i.meeting), ("owner_id", .str i.owner), ("playbook", .str i.playbook),
    ("topic", .str i.topic)]

def ofRaw? (r : RawJson) : Option Invitation := do
  match ← r.fields? ["meeting_id", "owner_id", "playbook", "topic"] with
  | [some meeting, some owner, some playbook, topic] =>
    return ⟨← Message.idOfRaw? .meeting meeting, ← Message.idOfRaw? .agent owner,
      ← playbook.string?, ← (topic.getD (.scalar (.str ""))).string?⟩
  | _ => none

end Invitation

structure InvitationResponse where
  meeting : MeetingId
  attendee : AgentId
  accepted : Bool
  reason : Option String
deriving DecidableEq, Repr

namespace InvitationResponse

def toJson (r : InvitationResponse) : Json :=
  .obj ([("meeting_id", .str r.meeting), ("attendee_id", .str r.attendee),
    ("accepted", .bool r.accepted)] ++ Message.optionalField "reason" r.reason)

def ofRaw? (r : RawJson) : Option InvitationResponse := do
  match ← r.fields? ["meeting_id", "attendee_id", "accepted", "reason"] with
  | [some meeting, some attendee, some (.scalar (.bool accepted)), reason] =>
    return ⟨← Message.idOfRaw? .meeting meeting, ← Message.idOfRaw? .agent attendee, accepted,
      ← (reason.getD .null).optionalString?⟩
  | _ => none

end InvitationResponse

namespace Message

def document (m : Message) : Except PostError Json :=
  match Json.parse? m.content with
  | some j => .ok j
  | none => .error .unreadable

def readPayload (read : RawJson → Option α) (m : Message) : Except PostError α :=
  match (RawJson.parse? m.content).bind read with
  | some a => .ok a
  | none => .error .unreadable

def invitation (m : Message) : Except PostError Invitation := readPayload Invitation.ofRaw? m

def response (m : Message) : Except PostError InvitationResponse :=
  readPayload InvitationResponse.ofRaw? m

end Message
end Playbook
