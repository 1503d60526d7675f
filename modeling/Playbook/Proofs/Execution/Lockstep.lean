import Playbook.Proofs.Execution.Coupling
import Playbook.Proofs.Execution.Stepwise

/- Two executions that run the same segments side by side. As long as the first of them can save its
   checkpoints, both show the code that is still to come the same names and the same agent; what is
   pending may differ, and what has been counted on the way may differ, too, if one has started
   counting later. -/
namespace Playbook.Script
variable {S T : Type}

namespace Coupling
variable (K : Coupling S T)

/-- Progress that looks the same to all code that is still to come. -/
structure Progresses (counted : Prop) (p q : Progress) : Prop where
  names : p.execution.names = q.execution.names
  executed : p.execution.executed = q.execution.executed
  returned : p.execution.returned = q.execution.returned
  fault : p.execution.fault = q.execution.fault
  agents : K.agents p.agent q.agent
  last : counted → p.execution.last = q.execution.last
  statements : counted → p.execution.statements = q.execution.statements
  checkpoints : counted → p.execution.checkpoints = q.execution.checkpoints

structure Runs {ε α : Type} (counted : Prop) (x : (Except ε α × Progress) × S)
    (y : (Except ε α × Progress) × T) : Prop where
  outcome : x.1.1 = y.1.1
  progresses : K.Progresses counted x.1.2 y.1.2
  worlds : K.worlds x.2 y.2

/-- Whenever the first saver succeeds, so does the second, and nothing comes apart. -/
def Savers (counted : Prop) (save : Saver (StateM S)) (save' : Saver (StateM T)) : Prop :=
  ∀ p q w v text suspended, K.Progresses counted p q → K.worlds w v →
    (Progress.record save p text suspended w).1.1 = .ok () →
    K.Runs counted (Progress.record save p text suspended w)
      (Progress.record save' q text suspended v)

variable {K} {counted : Prop}

theorem pointers_coupled {a b : AgentState} (agents : K.agents a b) :
    a.stack.pointers = b.stack.pointers := by
  have mapped := congrArg (List.map Pointer.display) (K.pointers agents)
  simp only [List.map_map] at mapped
  exact mapped

namespace Progresses

theorem line {p q : Progress} (same : K.Progresses counted p q) :
    p.execution.line = q.execution.line := by
  simp only [Execution.line, same.executed]

theorem withFault {p q : Progress} (same : K.Progresses counted p q) (f : CodeFault) :
    K.Progresses counted (p.withFault f) (q.withFault f) :=
  { same with fault := rfl }

theorem advance {p q : Progress} (same : K.Progresses counted p q) (text : List Char) :
    K.Progresses counted { p with execution := p.execution.advance text }
      { q with execution := q.execution.advance text } :=
  { same with executed := by simp only [Execution.advance, same.executed] }

theorem absorb {p q : Progress} (same : K.Progresses counted p q) {s t : Machine}
    (machines : K.likeness.Machines s t) :
    K.Progresses counted ⟨p.execution.absorb s, s.agent⟩ ⟨q.execution.absorb t, t.agent⟩ where
  names := machines.names
  executed := same.executed
  returned := by simp only [Execution.absorb, machines.returned, same.returned]
  fault := same.fault
  agents := machines.agents
  last known := by simp only [Execution.absorb, machines.last, same.last known]
  statements := same.statements
  checkpoints := same.checkpoints

theorem fail {p q : Progress} (same : K.Progresses counted p q) {s t : Machine}
    (machines : K.likeness.Machines s t) (segment : Segment) (f : Fault) :
    K.Progresses counted (p.fail s segment f) (q.fail t segment f) := by
  unfold Progress.fail
  rw [same.line, pointers_coupled machines.agents]
  exact (same.absorb machines).withFault _

theorem succeed {p q : Progress} (same : K.Progresses counted p q) {s t : Machine}
    (machines : K.likeness.Machines s t) (segment : Segment) (count : Nat) :
    K.Progresses counted (p.succeed s segment count) (q.succeed t segment count) :=
  { (same.absorb machines).advance segment.text with
    statements := fun known => congrArg (· + count) (same.statements known) }

end Progresses

def afterSave {X : Type} (x : (Except StoreError Unit × Progress) × X) :
    (Except StoreError Bool × Progress) × X := ((x.1.1.map fun _ => true, x.1.2), x.2)

/-- All that can become of a segment on both sides: the same without a save, or whatever becomes of
    the two saves. -/
theorem runSegment_both {h : Handler (StateM S)} {g : Handler (StateM T)} {save : Saver (StateM S)}
    {save' : Saver (StateM T)} (H : K.Handlers h g) {p q : Progress} {w : S} {v : T}
    (same : K.Progresses counted p q) (worlds : K.worlds w v) (segment : Segment)
    (motive : (Except StoreError Bool × Progress) × S → (Except StoreError Bool × Progress) × T →
      Prop)
    (unsaved : ∀ more p' q' w' v', K.Progresses counted p' q' → K.worlds w' v' →
      motive ((.ok more, p'), w') ((.ok more, q'), v'))
    (saved : ∀ p' q' w' v' suspended, K.Progresses counted p' q' → K.worlds w' v' →
      motive (afterSave (Progress.record save p' segment.text suspended w'))
        (afterSave (Progress.record save' q' segment.text suspended v'))) :
    motive (Progress.runSegment h save p segment w) (Progress.runSegment g save' q segment v) := by
  by_cases skips : (!segment.hasCode || p.execution.returned.isSome) = true
  · have skips' := same.returned ▸ skips
    rw [Progress.runSegment_passed h save p segment w skips,
      Progress.runSegment_passed g save' q segment v skips']
    exact unsaved _ _ _ _ _ (same.advance segment.text) worlds
  have runs := (Bool.not_eq_true _).mp skips
  have runs' := same.returned ▸ runs
  cases parsed : parseProgram (String.ofList segment.text) with
  | error err =>
    rw [Progress.runSegment_malformed h save p segment w runs parsed,
      Progress.runSegment_malformed g save' q segment v runs' parsed, same.line]
    exact unsaved _ _ _ _ _ (same.withFault _) worlds
  | ok body =>
    have blocks := runBlock_coupled H p.execution.names same.agents worlds body
    rcases block : runBlock h p.execution.names p.agent body w with ⟨⟨outcome, s⟩, w'⟩
    rcases block' : runBlock g q.execution.names q.agent body v with ⟨⟨outcome', t⟩, v'⟩
    rw [← same.names] at block'
    rw [block, block'] at blocks
    obtain ⟨equal, machines, worlds'⟩ := blocks
    simp only at equal machines worlds'
    subst equal
    rw [same.names] at block'
    cases outcome with
    | error f =>
      rw [Progress.runSegment_failed h save p segment w runs parsed block,
        Progress.runSegment_failed g save' q segment v runs' parsed block']
      exact unsaved _ _ _ _ _ (same.fail machines segment f) worlds'
    | ok u =>
      have after := saved _ _ w' v' s.suspended (same.succeed machines segment body.length) worlds'
      rcases recorded : Progress.record save (p.succeed s segment body.length) segment.text
        s.suspended w' with ⟨⟨r, p'⟩, w''⟩
      rcases recorded' : Progress.record save' (q.succeed t segment body.length) segment.text
        t.suspended v' with ⟨⟨r', q'⟩, v''⟩
      rw [Progress.runSegment_succeeded h save p segment w runs parsed block recorded,
        Progress.runSegment_succeeded g save' q segment v runs' parsed block' recorded']
      rw [← machines.suspended] at recorded'
      rw [recorded, recorded'] at after
      exact after

section Runs
variable {h : Handler (StateM S)} {g : Handler (StateM T)} {save : Saver (StateM S)}
  {save' : Saver (StateM T)} (H : K.Handlers h g) (V : K.Savers counted save save')
  {p q : Progress} {w : S} {v : T}
include H V

theorem runSegment_coupled (same : K.Progresses counted p q) (worlds : K.worlds w v)
    (segment : Segment) {more : Bool}
    (ran : (Progress.runSegment h save p segment w).1.1 = .ok more) :
    K.Runs counted (Progress.runSegment h save p segment w)
      (Progress.runSegment g save' q segment v) := by
  revert ran
  apply runSegment_both H same worlds segment (motive := fun x y =>
    x.1.1 = .ok more → K.Runs counted x y)
  · intro more' p' q' w' v' related worlds' _
    exact ⟨rfl, related, worlds'⟩
  · intro p' q' w' v' suspended done worlds' ran
    have saves := V p' q' w' v' segment.text suspended done worlds'
    rcases recorded : Progress.record save p' segment.text suspended w' with ⟨⟨r, p''⟩, w''⟩
    rw [recorded] at ran saves
    cases r with
    | error e => cases ran
    | ok u =>
      obtain ⟨equal, related, worlds''⟩ := saves rfl
      exact ⟨congrArg (Except.map fun _ => true) equal, related, worlds''⟩

theorem carryOn_coupled (same : K.Progresses counted p q) (worlds : K.worlds w v)
    (segs : List Segment) (ran : (Progress.carryOn h save p segs w).1.1 = .ok ()) :
    K.Runs counted (Progress.carryOn h save p segs w) (Progress.carryOn g save' q segs v) := by
  induction segs generalizing p q w v with
  | nil =>
    rw [Progress.carryOn_nil, Progress.carryOn_nil]
    exact ⟨rfl, same, worlds⟩
  | cons segment rest ih =>
    by_cases fault : p.execution.fault.isSome = true
    · have fault' := same.fault ▸ fault
      rw [Progress.carryOn_of_fault h save fault, Progress.carryOn_of_fault g save' fault']
      exact ⟨rfl, same, worlds⟩
    have fault' := same.fault ▸ fault
    rw [Progress.carryOn_cons h save fault] at ran ⊢
    rw [Progress.carryOn_cons g save' fault']
    have coupled := @runSegment_coupled _ _ _ _ _ _ _ _ H V _ _ _ _ same worlds segment
    rcases one : Progress.runSegment h save p segment w with ⟨⟨more, p'⟩, w'⟩
    rcases one' : Progress.runSegment g save' q segment v with ⟨⟨more', q'⟩, v'⟩
    rw [one] at ran coupled
    rw [one'] at coupled
    cases more with
    | error e => cases ran
    | ok more =>
      obtain ⟨equal, related, worlds'⟩ := coupled rfl
      simp only at equal
      subst equal
      exact ih related worlds' ran

end Runs
end Coupling
end Playbook.Script
