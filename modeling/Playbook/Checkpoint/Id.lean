import Playbook.Identifier
import Playbook.Config

/- Checkpoints are named by their execution and a number that only rises. -/
namespace Playbook

structure CheckpointId where
  execution : ExecutionId
  number : Nat
deriving DecidableEq, Repr

inductive CheckpointIdFault where
  | noSeparator
  | noNumber
  | execution (fault : IdError)
deriving DecidableEq, Repr

def CheckpointIdFault.message : CheckpointIdFault → String
  | .noSeparator => "missing '_ckpt_' separator"
  | .noNumber => "counter is not a non-negative integer"
  | .execution fault => fault.message

namespace CheckpointId

def display (id : CheckpointId) : String :=
  id.execution ++ checkpointSeparator ++ toString id.number

/-- The number stands after the last separator; what stands before it has to be a valid execution
    id. -/
def parse (text : String) : Except CheckpointIdFault CheckpointId :=
  match Text.splitLast? checkpointSeparator.toList text.toList with
  | none => .error .noSeparator
  | some (execution, number) =>
    match Config.readCount (String.ofList number) with
    | .error _ => .error .noNumber
    | .ok n =>
      match checkId .execution (String.ofList execution) with
      | .error fault => .error (.execution fault)
      | .ok execution => .ok ⟨execution, n⟩

def before (a b : CheckpointId) : Bool :=
  if a.execution = b.execution then a.number ≤ b.number else decide (a.execution < b.execution)

def sort (ids : List CheckpointId) : List CheckpointId := ids.mergeSort before

end CheckpointId
end Playbook
