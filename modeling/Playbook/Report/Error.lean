import Playbook.Agent.Error
import Playbook.Report.Basic

/- Faults as documents: the kind of the fault and its message. -/
namespace Playbook

def IdError.kind : IdError → String
  | .empty _ => "Empty"
  | .tooLong .. => "TooLong"
  | .invalidStart .. => "InvalidStart"
  | .invalidCharacter .. => "InvalidCharacter"
  | .separator _ => "CheckpointSeparator"

def StoreError.kind : StoreError → String
  | .invalidId .. => "InvalidId"
  | .sizeLimit .. => "SizeLimitExceeded"
  | .io .. => "Io"
  | .corrupted _ => "Corrupted"
  | .noCheckpoint _ => "NoCheckpoint"

def ConfigError.kind (e : ConfigError) : String :=
  if e.isVariable then "InvalidEnvVar" else "ValidationError"

def PostError.kind : PostError → String
  | .agentNotFound _ => "AgentNotFound"
  | .noRecipient _ | .notBroadcast _ | .notControl _ => "InvalidMessage"
  | .unreadable => "DeserializationFailed"

def MeetingError.kind : MeetingError → String
  | .rejected .. => "RequiredAttendeesRejected"
  | .timedOut .. => "RequiredAttendeesTimedOut"
  | .notFound _ => "MeetingNotFound"
  | .notInMeeting => "NotInMeeting"
  | .invalidAttendee .. => "InvalidAttendee"
  | .notInvitation _ | .noMeetingId _ => "InvalidMeetingMessage"
  | .post e => e.kind

instance : Report IdError := ⟨fun e => errorReport e.kind e.message⟩
instance : Report StoreError := ⟨fun e => errorReport e.kind e.message⟩
instance : Report ConfigError := ⟨fun e => errorReport e.kind e.message⟩
instance : Report PostError := ⟨fun e => errorReport e.kind e.message⟩
instance : Report MeetingError := ⟨fun e => errorReport e.kind e.message⟩
instance : Report FileFault := ⟨fun e => errorReport "Io" e.message⟩
instance : Report CheckpointId := ⟨fun id => .str id.display⟩

namespace Script

instance : Report Fault := ⟨fun e => errorReport e.kind e.message⟩

instance : Report SyntaxError :=
  ⟨fun e => .obj [("error", .str "SyntaxError"), ("line", report e.line),
    ("message", .str e.fault.message)]⟩

instance : Report ExecutionError :=
  ⟨fun
    | .checkpoint e => report e
    | .inconsistent id =>
      errorReport "InconsistentCheckpoint" (ExecutionError.inconsistent id).message
    | .divergent bytes => errorReport "DivergentResponse" (ExecutionError.divergent bytes).message
    | .finalized => errorReport "Finalized" ExecutionError.finalized.message⟩

end Script

def AgentError.toReport (e : AgentError) : Json :=
  match e with
  | .execution e => report e
  | .store e => report e
  | .meeting e => report e
  | .post e => report e
  | .config _ => errorReport "Config" e.message
  | .invalidId _ => errorReport "InvalidAgentId" e.message
  | .unknownPlaybook _ => errorReport "UnknownPlaybook" e.message
  | .engine _ => errorReport "Engine" e.message
  | .tooDeep => errorReport "CallDepthExceeded" e.message
  | .notDurable => errorReport "DurabilityDisabled" e.message

instance : Report AgentError := ⟨AgentError.toReport⟩

end Playbook
