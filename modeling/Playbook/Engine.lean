import Playbook.Message
import Playbook.Value

/- Where the code of a playbook comes from. The system only takes in what the engine streams; the
   scripted engine streams fixed code. -/
namespace Playbook

structure GenerationRequest where
  agent : AgentId
  klass : String
  playbook : String
  args : List Value
  /-- Where the agent stands, the outermost frame first. -/
  stack : List String
  /-- The messages that led to it, if any. -/
  messages : List Message

/-- Pieces of code, and the fault that ends the stream, if it ends in one. -/
structure Generation where
  chunks : List String
  broken : Option String
deriving DecidableEq, Repr

/-- An engine may refuse a request with an error text. -/
abbrev Engine := GenerationRequest → Except String Generation

def pieces (size : Nat) (cs : List Char) : List (List Char) :=
  if size = 0 ∨ cs = [] then []
  else cs.take size :: pieces size (cs.drop size)
termination_by cs.length
decreasing_by
  rename_i h
  have := List.length_pos_iff.mpr fun e => h (.inr e)
  simp only [List.length_drop]
  omega

/-- Size zero leaves the code whole, and code without characters is one piece. -/
def chunkCode (code : String) (size : Nat) : List String :=
  if size = 0 ∨ code.isEmpty then [code] else (pieces size code.toList).map String.ofList

/-- Code by playbook, and code for agents of one class, which goes before it. -/
structure ScriptBook where
  scripts : Dict String
  classScripts : List ((String × String) × String)
  chunkSize : Nat

namespace ScriptBook

def empty : ScriptBook := ⟨[], [], 16⟩

def add (b : ScriptBook) (playbook code : String) : ScriptBook :=
  { b with scripts := b.scripts.insert playbook code }

/-- Of scripts for the same class and playbook the latest counts. -/
def addFor (b : ScriptBook) (klass playbook code : String) : ScriptBook :=
  { b with classScripts := ((klass, playbook), code) :: b.classScripts }

def script? (b : ScriptBook) (klass playbook : String) : Option String :=
  (b.classScripts.lookup (klass, playbook)).or (b.scripts.get? playbook)

def noScript (klass playbook : String) : String :=
  s!"no script for playbook '{playbook}' of class '{klass}'"

def engine (b : ScriptBook) : Engine := fun r =>
  match b.script? r.klass r.playbook with
  | none => .error (noScript r.klass r.playbook)
  | some code => .ok ⟨chunkCode code b.chunkSize, none⟩

end ScriptBook

end Playbook
