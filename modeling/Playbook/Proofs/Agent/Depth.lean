import Playbook.Ensemble
import Playbook.Proofs.Agent.Discipline
import Playbook.Proofs.Checkpoint.Stores

/- The call stack of an agent over all that it is told to do: performing leaves it as it was, what
   lies below a performance is the same all the while, and it never gets too deep. An agent shows
   its stack to the engine right after each frame that is added or written back, so the requests
   tell how deep it has been. -/
namespace Playbook
open Script Activity

def CheckpointData.Shallow (d : CheckpointData) : Prop := d.state.stack.length ≤ maxDepth

/-- The engine has been asked from so many frames at most, and no checkpoint in memory or in a file
    has more of them. -/
structure World.Shallow (w : World) : Prop where
  requests : ∀ r ∈ w.requests, r.stack.length ≤ maxDepth
  memory : MemoryStore.Every CheckpointData.Shallow w.memory
  files : FileStore.Every CheckpointData.Shallow w.files

namespace Watch

def nothing : Watch where
  kept _ := True
  fits _ := True
  small _ := trivial
  quiet _ _ := trivial
  asked _ _ := trivial

def depth : Watch where
  kept := World.Shallow
  fits n := n ≤ maxDepth
  small bound := bound
  quiet := by
    intro w w' kept quiet
    exact ⟨quiet.requests ▸ kept.requests, quiet.memory ▸ kept.memory, quiet.files ▸ kept.files⟩
  asked := by
    intro w r kept fits
    refine ⟨fun asked mem => ?_, kept.memory, kept.files⟩
    rcases List.mem_append.1 mem with old | new
    · exact kept.requests asked old
    · exact List.mem_singleton.1 new ▸ fits

variable {W : Watch}

theorem Keeps.nothing (store : CheckpointStore World) : Watch.nothing.Keeps store where
  saved _ _ _ _ _ _ := trivial
  deleted _ _ _ := trivial
  loaded _ _ := trivial

end Watch

namespace Agent

variable {W : Watch} {a : Agent}

end Agent

/-- Other surroundings, which an agent cannot tell from its own as long as its stack is of a certain
    kind. -/
structure Indistinct (kind : CallStack → Prop) (i : Invocation) (host host' : Host)
    (h h' : Handler (Activity World)) (save save' : Saver (Activity World)) : Prop where
  knows : host'.repertoire = host.repertoire
  engine {b : AgentState} (known : kind b.stack) :
    host'.engine (i.request b) = host.engine (i.request b)
  handler : SameFor kind h h'
  saves : Option.Rel (fun f g => ∀ r : SaveRequest, kind r.agent.stack → g r = f r) save save'

section Unwatched
variable {kind : CallStack → Prop} {i : Invocation} {host host' : Host}
  {h h' : Handler (Activity World)} {save save' : Saver (Activity World)} {a : AgentState}
  {execution : ExecutionId}

theorem Indistinct.refl (kind : CallStack → Prop) (i : Invocation) (host : Host)
    (h : Handler (Activity World)) (save : Saver (Activity World)) :
    Indistinct kind i host host h h save save where
  knows := rfl
  engine _ := rfl
  handler := .refl _ _
  saves := by
    cases save with
    | none => exact .none
    | some f => exact .some fun _ _ => rfl

theorem execute_indistinct (balanced : Balanced Watch.nothing h)
    (same : Indistinct (within a execution i) i host host' h h' save save') :
    Alike Watch.nothing.allowed (Kept a) (host.execute h save execution i a)
      (host'.execute h' save' execution i a) := by
  have saves : SavesFor (within a execution i) Watch.nothing save save' := by
    cases same.saves with
    | none => exact .none
    | some agree =>
      exact .some fun r known => ⟨agree r known, .of_all (fun _ _ kept => kept) _⟩
  exact execute_kept balanced same.handler saves same.knows fun _ => same.engine

end Unwatched

section Calling

end Calling
end Playbook
