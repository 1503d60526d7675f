import Playbook.Checkpoint.Timestamp
import Playbook.Identifier
import Playbook.Json.Reader
import Playbook.Json.Writer

/- Messages between agents. Conversation goes to one agent or is said in a meeting; invitations and
   responses, whose content is a document, control who takes part in a meeting. A message with a
   fixed content closes a turn of conversation. -/
namespace Playbook

inductive MessageKind where
  | direct
  | broadcast
  | invitation
  | response
deriving DecidableEq, Repr

namespace MessageKind

def isControl : MessageKind → Bool
  | .direct | .broadcast => false
  | .invitation | .response => true

def word : MessageKind → String
  | .direct => "direct"
  | .broadcast => "meeting_broadcast"
  | .invitation => "meeting_invitation"
  | .response => "meeting_response"

def title : MessageKind → String
  | .direct => "Direct"
  | .broadcast => "MeetingBroadcast"
  | .invitation => "MeetingInvitation"
  | .response => "MeetingResponse"

def ofWord? (s : String) : Option MessageKind :=
  [direct, broadcast, invitation, response].find? (·.word = s)

end MessageKind

abbrev MessageId := String

structure Message where
  id : MessageId
  sender : AgentId
  senderKlass : String
  recipient : Option AgentId
  meeting : Option MeetingId
  content : String
  kind : MessageKind
  timestamp : String
deriving DecidableEq, Repr

inductive PostError where
  | agentNotFound (agent : AgentId)
  | noRecipient (message : MessageId)
  | notBroadcast (message : MessageId)
  | notControl (kind : MessageKind)
  /-- The content of a control message is not the document it should be. -/
  | unreadable
deriving DecidableEq, Repr

namespace PostError

def invalid (reason : String) : String := "Invalid message: " ++ reason

def message : PostError → String
  | .agentNotFound agent => s!"Agent not found: {agent}"
  | .noRecipient message => invalid s!"message {message} has no recipient"
  | .notBroadcast message => invalid s!"message {message} is not a meeting broadcast"
  | .notControl kind => invalid s!"{kind.title} is not a control message type"
  | .unreadable => "Deserialization failed"

end PostError

def endOfTurn : String := "EOM"

/-- A message still without id and time. -/
structure Draft where
  sender : AgentId
  senderKlass : String
  recipient : Option AgentId
  meeting : Option MeetingId
  content : String
  kind : MessageKind
deriving DecidableEq, Repr

namespace Draft

def direct (sender : AgentId) (klass : String) (addressee : AgentId) (content : String) : Draft :=
  ⟨sender, klass, some addressee, none, content, .direct⟩

/-- Said in a meeting; the recipients are filled in when it is posted. -/
def broadcast (sender : AgentId) (klass : String) (meeting : MeetingId) (content : String) :
    Draft :=
  ⟨sender, klass, none, some meeting, content, .broadcast⟩

def marker (sender : AgentId) (klass : String) (addressee : AgentId) : Draft :=
  direct sender klass addressee endOfTurn

def control (sender : AgentId) (klass : String) (addressee : AgentId) (meeting : MeetingId)
    (kind : MessageKind) (payload : Json) : Except PostError Draft :=
  if kind.isControl then .ok ⟨sender, klass, some addressee, some meeting, payload.compress, kind⟩
  else .error (.notControl kind)

def toMessage (d : Draft) (id : MessageId) (timestamp : String) : Message :=
  ⟨id, d.sender, d.senderKlass, d.recipient, d.meeting, d.content, d.kind, timestamp⟩

end Draft

namespace Message

def addressedTo (m : Message) (agent : AgentId) : Message := { m with recipient := some agent }

def isMarker (m : Message) : Bool := m.content = endOfTurn && !m.kind.isControl

def display (m : Message) : String :=
  match m.meeting, m.kind with
  | some meeting, .broadcast => s!"{m.senderKlass}({m.sender}) in meeting {meeting}: {m.content}"
  | _, _ => s!"{m.senderKlass}({m.sender}): {m.content}"

def optionalField (name : String) : Option String → List (String × Json)
  | none => []
  | some s => [(name, .str s)]

def toJson (m : Message) : Json :=
  .obj ([("id", .str m.id), ("sender_id", .str m.sender), ("sender_klass", .str m.senderKlass)] ++
    optionalField "recipient" m.recipient ++ optionalField "meeting_id" m.meeting ++
    [("content", .str m.content), ("message_type", .str m.kind.word),
      ("timestamp", .str m.timestamp)])

/-- The name of a kind, alone or as the only member of a map to nothing. -/
def kindOfRaw? : RawJson → Option MessageKind
  | .scalar (.str s) => MessageKind.ofWord? s
  | .obj [(some s, .scalar .null)] => MessageKind.ofWord? s
  | _ => none

def idOfRaw? (kind : IdKind) (r : RawJson) : Option String :=
  r.string?.bind fun s => (checkId kind s).toOption

def optionalIdOfRaw? (kind : IdKind) : RawJson → Option (Option String)
  | .scalar .null => some none
  | r => (idOfRaw? kind r).map some

def ofRaw? (r : RawJson) : Option Message := do
  match ← r.fields? ["id", "sender_id", "sender_klass", "recipient", "meeting_id", "content",
      "message_type", "timestamp"] with
  | [some id, some sender, some klass, recipient, meeting, some content, some kind,
      some timestamp] =>
    let timestamp ← timestamp.string?
    if !Timestamp.valid timestamp then none
    return ⟨← id.string?, ← idOfRaw? .agent sender, ← klass.string?,
      ← optionalIdOfRaw? .agent (recipient.getD .null),
      ← optionalIdOfRaw? .meeting (meeting.getD .null), ← content.string?, ← kindOfRaw? kind,
      timestamp⟩
  | _ => none

def parse? (text : String) : Option Message := (RawJson.parse? text).bind ofRaw?

end Message
end Playbook
