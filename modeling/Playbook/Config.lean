import Playbook.Duration
import Playbook.Storage.FilePath
import Playbook.Text.Trim

/- Settings of the system: durable storage, batches of messages, and the wait for the attendees of
   a meeting. They are read from named variables or set one by one, then checked. -/
namespace Playbook

structure Config where
  durable : Bool
  storagePath : String
  maxCheckpointBytes : Nat
  keepLast : Option Nat
  /-- Durations count nanoseconds. -/
  batchTimeout : Nat
  maxBatchMessages : Nat
  meetingTimeout : Nat
deriving DecidableEq, Repr

inductive ConfigError where
  | invalidBool (key value : String)
  | invalidNumber (key value reason : String)
  | invalidDuration (key value : String)
  | noCheckpointBytes
  | keepsNothing
  | noStoragePath
  | noBatchMessages
deriving DecidableEq, Repr

namespace ConfigError

def isVariable : ConfigError → Bool
  | .invalidBool .. | .invalidNumber .. | .invalidDuration .. => true
  | .noCheckpointBytes | .keepsNothing | .noStoragePath | .noBatchMessages => false

def inVariable (key reason : String) : String := s!"Invalid environment variable '{key}': {reason}"

def invalid (reason : String) : String := "Configuration validation failed: " ++ reason

def message : ConfigError → String
  | .invalidBool key value =>
    inVariable key s!"invalid boolean value '{value}', expected true/false/1/0/yes/no/on/off"
  | .invalidNumber key value reason => inVariable key s!"invalid usize value '{value}': {reason}"
  | .invalidDuration key value => inVariable key s!"invalid duration '{value}'"
  | .noCheckpointBytes => invalid "max_checkpoint_bytes must be greater than zero"
  | .keepsNothing => invalid "keep_last_n must keep at least one checkpoint"
  | .noStoragePath => invalid "storage_path is required when durability is enabled"
  | .noBatchMessages => invalid "max_batch_messages must be greater than zero"

end ConfigError

namespace Config

def default : Config :=
  { durable := false
    storagePath := ".checkpoints"
    maxCheckpointBytes := 10 * 1024 * 1024
    keepLast := none
    batchTimeout := 5 * Duration.second
    maxBatchMessages := 100
    meetingTimeout := 30 * Duration.second }

def isDefault (c : Config) : Bool :=
  { c with storagePath := default.storagePath } = default &&
    FilePath.parts c.storagePath = FilePath.parts default.storagePath

/-- Digits of a count, as long as it fits in 64 bits; the first fault from the left is reported. -/
def countTail (n : Nat) : List Char → Except String Nat
  | [] => .ok n
  | c :: cs =>
    if !Text.isAsciiDigit c then .error "invalid digit found in string"
    else
      let m := 10 * n + (c.toNat - '0'.toNat)
      if m < UInt64.size then countTail m cs else .error "number too large to fit in target type"

def readCount (s : String) : Except String Nat :=
  match s.toList with
  | [] => .error "cannot parse integer from empty string"
  | ['+'] => .error "invalid digit found in string"
  | '+' :: cs => countTail 0 cs
  | cs => countTail 0 cs

def readBool? (s : String) : Option Bool :=
  let word := String.ofList (s.toList.map Char.toLower)
  if ["true", "1", "yes", "on"].contains word then some true
  else if ["false", "0", "no", "off"].contains word then some false
  else none

variable (lookup : String → Option String)

def boolSetting (key : String) : Except ConfigError (Option Bool) :=
  match lookup key with
  | none => .ok none
  | some s => match readBool? s with
    | some b => .ok (some b)
    | none => .error (.invalidBool key s)

def countSetting (key : String) : Except ConfigError (Option Nat) :=
  match lookup key with
  | none => .ok none
  | some s => match readCount s with
    | .ok n => .ok (some n)
    | .error reason => .error (.invalidNumber key s reason)

def durationSetting (key : String) : Except ConfigError (Option Nat) :=
  match lookup key with
  | none => .ok none
  | some s => match Duration.parse? s with
    | some n => .ok (some n)
    | none => .error (.invalidDuration key s)

def variableNames : List String :=
  ["TROUPE_DURABILITY_ENABLED", "TROUPE_STORAGE_PATH", "TROUPE_CHECKPOINT_MAX_BYTES",
    "TROUPE_CHECKPOINT_KEEP_LAST", "TROUPE_BATCH_TIMEOUT", "TROUPE_BATCH_MAX_MESSAGES",
    "TROUPE_MEETING_TIMEOUT"]

def ofVariables : Except ConfigError Config := do
  let durable ← boolSetting lookup "TROUPE_DURABILITY_ENABLED"
  let bytes ← countSetting lookup "TROUPE_CHECKPOINT_MAX_BYTES"
  let keep ← countSetting lookup "TROUPE_CHECKPOINT_KEEP_LAST"
  let batch ← durationSetting lookup "TROUPE_BATCH_TIMEOUT"
  let messages ← countSetting lookup "TROUPE_BATCH_MAX_MESSAGES"
  let meeting ← durationSetting lookup "TROUPE_MEETING_TIMEOUT"
  return {
    durable := durable.getD default.durable
    storagePath := (lookup "TROUPE_STORAGE_PATH").getD default.storagePath
    maxCheckpointBytes := bytes.getD default.maxCheckpointBytes
    keepLast := keep
    batchTimeout := batch.getD default.batchTimeout
    maxBatchMessages := messages.getD default.maxBatchMessages
    meetingTimeout := meeting.getD default.meetingTimeout }

def fault? (c : Config) : Option ConfigError :=
  if c.maxCheckpointBytes = 0 then some .noCheckpointBytes
  else if c.keepLast = some 0 then some .keepsNothing
  else if c.durable && c.storagePath.isEmpty then some .noStoragePath
  else if c.maxBatchMessages = 0 then some .noBatchMessages
  else none

def check (c : Config) : Except ConfigError Config :=
  match c.fault? with
  | some e => .error e
  | none => .ok c

end Config
end Playbook
