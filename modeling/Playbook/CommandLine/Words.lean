/- The words of a command line, sorted into options and operands. Options begin with two dashes; the
   value of an option is the next word, which has no dash in front, or stands after an equals sign.
   After two dashes alone every word is an operand. -/
namespace Playbook.CommandLine

inductive ValueForm where
  | text
  | nonEmpty
  | count
deriving DecidableEq, Repr

structure OptionSpec where
  name : String
  /-- None for a switch. -/
  form : Option ValueForm
  repeatable : Bool
deriving DecidableEq, Repr

structure Level where
  options : List OptionSpec
  operands : List ValueForm
  commands : List String
  /-- Whether the version can be asked for. -/
  versioned : Bool

inductive Refusal where
  | help
  | version
  | wrong
deriving DecidableEq, Repr

structure Given where
  options : List (String × String)
  operands : List String
  command : Option (String × List String)
  /-- Whether the option right before the command has been refused. -/
  refused : Bool
deriving DecidableEq, Repr

namespace Given

def empty : Given := ⟨[], [], none, false⟩

def value? (g : Given) (name : String) : Option String := g.options.lookup name

def has (g : Given) (name : String) : Bool := (g.value? name).isSome

def values (g : Given) (name : String) : List String :=
  (g.options.filter (·.1 = name)).map Prod.snd

end Given

def isCount (s : String) : Bool :=
  let ds := match s.toList with
    | '+' :: ds => ds
    | ds => ds
  !ds.isEmpty && ds.all Char.isDigit &&
    ds.foldl (fun n c => 10 * n + (c.toNat - 48)) 0 < UInt64.size

def ValueForm.admits (f : ValueForm) (s : String) : Bool :=
  match f with
  | .text => true
  | .nonEmpty => !s.isEmpty
  | .count => isCount s

def startsWithDash (s : String) : Bool :=
  match s.toList with
  | '-' :: _ :: _ => true
  | _ => false

def splitLong? (word : String) : Option (String × Option String) :=
  match word.toList with
  | '-' :: '-' :: rest =>
    let name := String.ofList (rest.takeWhile (· ≠ '='))
    match rest.dropWhile (· ≠ '=') with
    | [] => some (name, none)
    | _ :: value => some (name, some (String.ofList value))
  | _ => none

def Given.addOption (g : Given) (spec : OptionSpec) (value : String) : Except Refusal Given :=
  let fits := match spec.form with
    | none => true
    | some f => f.admits value
  if !fits || (g.has spec.name && !spec.repeatable) then .error .wrong
  else .ok { g with options := g.options ++ [(spec.name, value)] }

def Given.addOperand (g : Given) (level : Level) (word : String) : Except Refusal Given :=
  match level.operands[g.operands.length]? with
  | none => .error .wrong
  | some f =>
    if f.admits word then .ok { g with operands := g.operands ++ [word] } else .error .wrong

def shortRefusal (level : Level) (word : String) : Refusal :=
  match word.toList with
  | '-' :: 'h' :: _ => .help
  | '-' :: 'V' :: _ => if level.versioned then .version else .wrong
  | _ => .wrong

def longRefusal (level : Level) (name : String) (value : Option String) : Refusal :=
  if value.isSome then .wrong
  else if name = "help" then .help
  else if name = "version" ∧ level.versioned then .version
  else .wrong

/-- A level can still be left for a command right after an option that is refused. What the command
    refuses, or helps with, is answered first. -/
def Given.leave (g : Given) (level : Level) (why : Refusal) : List String → Except Refusal Given
  | [] => .error why
  | word :: rest =>
    if level.commands.contains word then
      .ok { g with command := some (word, rest), refused := true }
    else .error why

def readLevel (level : Level) (g : Given) (onlyOperands : Bool) :
    List String → Except Refusal Given
  | [] => .ok g
  | word :: rest =>
    if onlyOperands then do readLevel level (← g.addOperand level word) true rest
    else if word = "--" then readLevel level g true rest
    else match splitLong? word with
      | some (name, value) =>
        match level.options.find? (·.name = name) with
        | none => .error (longRefusal level name value)
        | some spec =>
          match spec.form, value with
          | none, some _ => .error .wrong
          | none, none => do readLevel level (← g.addOption spec "") false rest
          | some _, some value => do readLevel level (← g.addOption spec value) false rest
          | some _, none =>
            match rest with
            | [] => .error .wrong
            | value :: rest =>
              if startsWithDash value then .error .wrong
              else match g.addOption spec value with
                | .error why => g.leave level why rest
                | .ok g => readLevel level g false rest
      | none =>
        if startsWithDash word then .error (shortRefusal level word)
        else if level.commands.isEmpty then do
          readLevel level (← g.addOperand level word) false rest
        else if level.commands.contains word then .ok { g with command := some (word, rest) }
        else .error .wrong

end Playbook.CommandLine
