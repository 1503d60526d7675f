import Playbook.Script.Operator

/- The functions of the language itself: those computed on the spot, and the calls that suspend the
   program until the system has answered. -/
namespace Playbook.Script

def pureBuiltins : List String := ["len", "str", "int", "float", "bool", "keys", "append"]

def suspendingBuiltins : List String :=
  ["Say", "SendMessage", "WaitForMessage", "Call", "CreateMeeting"]

def controlBuiltins : List String := ["Step", "Return"]

def isPure (name : String) : Bool := pureBuiltins.contains name

def isSuspending (name : String) : Bool := suspendingBuiltins.contains name

def isBuiltin (name : String) : Bool :=
  isPure name || isSuspending name || controlBuiltins.contains name

def lengthOf : Value → Result Value
  | .str s => .ok (.int (Int64.ofNat s.length))
  | .list items => .ok (.int (Int64.ofNat items.length))
  | .map entries => .ok (.int (Int64.ofNat entries.length))
  | v => .error (.noLength v.typeName)

def toInt : Value → Result Value
  | .int i => .ok (.int i)
  | .bool b => .ok (.int (if b then 1 else 0))
  | .float x =>
    if x.isFinite then .ok (.int (Decimal.truncate x)) else .error (.notConvertible "int" "float")
  | .str s =>
    match (Decimal.readInt? (Text.trim s.toList)).bind Word.ofInt? with
    | some n => .ok (.int n)
    | none => .error (.notAnInt s)
  | v => .error (.notConvertible "int" v.typeName)

def toFloat : Value → Result Value
  | .int i => .ok (.float (Word.toFloat i))
  | .float x => .ok (.float x)
  | .bool b => .ok (.float (if b then 1.0 else 0.0))
  | .str s =>
    match Decimal.readFloat? (Text.trim s.toList) with
    | some x => .ok (.float x)
    | none => .error (.notAFloat s)
  | v => .error (.notConvertible "float" v.typeName)

def keysOf : Value → Result Value
  | .map entries => .ok (.list (entries.map fun e => .str e.1))
  | v => .error (.notMap v.typeName)

def appended : Value → Value → Result Value
  | .list items, item => .ok (.list (items ++ [item]))
  | v, _ => .error (.notList v.typeName)

def oneArgument (name : String) (f : Value → Result Value) : List Value → Result Value
  | [v] => f v
  | args => .error (.arity name 1 args.length)

def callPure (name : String) (args : List Value) : Result Value :=
  match name with
  | "len" => oneArgument name lengthOf args
  | "str" => oneArgument name (fun v => .ok (.str v.display)) args
  | "int" => oneArgument name toInt args
  | "float" => oneArgument name toFloat args
  | "bool" => oneArgument name (fun v => .ok (.bool v.truthy)) args
  | "keys" => oneArgument name keysOf args
  | "append" =>
    match args with
    | [items, item] => appended items item
    | _ => .error (.arity name 2 args.length)
  | _ => .error (.undefinedName name)

inductive SuspendCall where
  | say (target content : String)
  | sendMessage (target content : String)
  /-- A star waits for anyone. -/
  | waitForMessage (source : String)
  | call (playbook : String) (args : List Value)
  | createMeeting (playbook topic : String) (required optional : List String)

def stringArgument (function place : String) : Value → Result String
  | .str s => .ok s
  | v => .error (.notString function place v.typeName)

def nameList (function : String) : Value → Result (List String)
  | .null => .ok []
  | .str s => .ok [s]
  | .list items => items.mapM (stringArgument function "attendee")
  | v => .error (.notNames function v.typeName)

def messageArguments (function : String) (args : List Value) : Result (String × String) :=
  match args with
  | [target, content] => do
    let target ← stringArgument function "target" target
    return (target, content.display)
  | _ => .error (.twoArguments function args.length)

def topicOf : Value → String
  | .null => ""
  | v => v.display

/-- Checks the arguments of a suspending built-in; missing ones at the end count as null. -/
def SuspendCall.ofArguments (function : String) (args : List Value) : Result SuspendCall :=
  match function with
  | "Say" => (messageArguments function args).map fun p => .say p.1 p.2
  | "SendMessage" => (messageArguments function args).map fun p => .sendMessage p.1 p.2
  | "WaitForMessage" =>
    match args with
    | [] | [.null] => .ok (.waitForMessage "*")
    | [source] => (stringArgument function "source" source).map .waitForMessage
    | _ => .error (.atMostOne function)
  | "Call" =>
    match args with
    | [] => .error .noPlaybook
    | playbook :: rest => do
      let playbook ← stringArgument function "playbook" playbook
      return .call playbook rest
  | "CreateMeeting" =>
    if args.isEmpty ∨ 4 < args.length then .error .meetingArguments
    else do
      let playbook ← stringArgument function "playbook" (args.getD 0 .null)
      let required ← nameList function (args.getD 2 .null)
      let optional ← nameList function (args.getD 3 .null)
      return .createMeeting playbook (topicOf (args.getD 1 .null)) required optional
  | _ => .error (.undefinedName function)

end Playbook.Script
