import Playbook.Ensemble
import Playbook.Report.Script

/- Agents, checkpoints, messages and meetings, as documents. -/
namespace Playbook

instance : Report Frame :=
  ⟨fun f => .obj [("playbook", .str f.pointer.playbook), ("step", .str f.pointer.step),
    ("session", report f.pointer.session), ("pointer", .str f.pointer.display),
    ("meeting", report f.meeting), ("execution", report f.execution), ("locals", report f.locals)]⟩

instance : Report AgentState :=
  ⟨fun a => .obj [("vars", report a.vars), ("stack", report a.stack.pointers),
    ("agents", report a.agents)]⟩

instance : Report Checkpoint :=
  ⟨fun c => .obj [("id", report c.id), ("state", .str c.data.state.toJson.compress),
    ("namespace", .str (Json.obj c.data.names).compress), ("statement", .str c.data.statement),
    ("executed", .str c.data.executed), ("response", .str c.data.response),
    ("counter", .str (toString c.data.number))]⟩

instance : Report Message :=
  ⟨fun m => .obj [("from", .str m.sender), ("klass", .str m.senderKlass),
    ("to", report m.recipient), ("meeting", report m.meeting), ("content", .str m.content),
    ("type", .str m.kind.word)]⟩

instance : Report Invitation :=
  ⟨fun i => .obj [("meeting", .str i.meeting), ("owner", .str i.owner),
    ("playbook", .str i.playbook), ("topic", .str i.topic)]⟩

instance : Report InvitationResponse :=
  ⟨fun r => .obj [("meeting", .str r.meeting), ("attendee", .str r.attendee),
    ("accepted", .bool r.accepted), ("reason", report r.reason)]⟩

instance : Report Room :=
  ⟨fun r => .obj [("id", .str r.id), ("owner", .str r.owner), ("topic", .str r.topic),
    ("playbook", .str r.playbook), ("members", report r.members), ("state", report r.state),
    ("value", report r.toValue)]⟩

namespace MeetingHouse
variable (h : MeetingHouse)

def reportOwned (m : OwnedMeeting) : Json :=
  match h.room? m.room with
  | none => .null
  | some r =>
    .obj [("id", .str r.id), ("owner", .str r.owner), ("topic", .str r.topic),
      ("playbook", .str r.playbook), ("members", report r.members),
      ("required", report m.required), ("optional", report m.optional)]

def reportJoined (m : JoinedMeeting) : Json :=
  .obj [("id", .str m.id), ("owner", .str m.owner), ("topic", .str m.topic),
    ("alive", .bool (h.alive m.room))]

def reportBook (agent : AgentId) : Json :=
  let b := h.book agent
  .obj [("owned", report b.owned.keys), ("joined", report b.joined.keys),
    ("value", report (h.toValue agent)),
    ("owned_records", .arr (b.owned.map fun e => h.reportOwned e.2)),
    ("joined_records", .arr (b.joined.map fun e => h.reportJoined e.2))]

def reportOutcome : InvitationOutcome → Json
  | .joined m i =>
    .obj [("joined", .str m.id), ("owner", .str m.owner), ("topic", .str m.topic),
      ("alive", .bool (h.alive m.room)), ("playbook", .str i.playbook),
      ("invited_topic", .str i.topic)]
  | .alreadyJoined id => .obj [("already_joined", .str id)]
  | .rejected id reason => .obj [("rejected", .str id), ("reason", .str reason)]

end MeetingHouse

instance : Report GenerationRequest :=
  ⟨fun r => .obj [("agent", .str r.agent), ("klass", .str r.klass), ("playbook", .str r.playbook),
    ("args", report r.args), ("stack", report r.stack), ("messages", report r.messages)]⟩

instance : Report PlaybookSpec :=
  ⟨fun s => .arr [.str s.name, .bool s.meeting, .str s.description]⟩

instance : Report Config :=
  ⟨fun c =>
    let text (n : Nat) : Json := .str (toString n)
    .obj [("enabled", .bool c.durable), ("path", .str c.storagePath),
      ("max_bytes", text c.maxCheckpointBytes), ("keep", report (c.keepLast.map text)),
      ("batch_timeout", text c.batchTimeout), ("max_messages", text c.maxBatchMessages),
      ("meeting_timeout", text c.meetingTimeout), ("default", .bool c.isDefault)]⟩

end Playbook
