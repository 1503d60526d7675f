import Playbook.Proofs.Execution.Lockstep
import Playbook.Script.Prepared

/- Code that comes in pieces. A whole stream does what its statements do one after the other, so it
   does not matter where the code has been cut: neither for the names and the agent, nor for what is
   asked of the handler, nor for what the checkpoints record. -/
namespace Playbook.Script
variable {S T : Type}

namespace Progress

/-- Takes in pieces of code one after the other and sums up. The first failure to save ends it. -/
def stream (h : Handler (StateM S)) (save : Saver (StateM S)) (p : Progress) :
    List String → StateM S (Except ExecutionError Summary × Progress)
  | [] => finalize h save p
  | chunk :: rest => do
    match ← addChunk h save p chunk with
    | (.error e, p) => return (.error e, p)
    | (.ok (), p) => stream h save p rest

def receive (p : Progress) (chunk : String) : Progress :=
  { p with execution := { p.execution with pending := p.execution.pending ++ chunk } }

theorem run_eq_carryOn (h : Handler (StateM S)) (save : Saver (StateM S)) (p : Progress)
    (finished : Bool) (w : S) :
    run h save p finished w =
      match carryOn h save p (segments finished p.execution.pending.toList) w with
      | ((r, p), w) => ((r.mapError .checkpoint, p), w) := by
  by_cases fault : p.execution.fault.isSome = true
  · rw [carryOn_of_fault h save fault, run, if_pos fault]
    rfl
  · have sound := (Bool.not_eq_true _).mp fault
    rw [carryOn_of_sound h save sound, run, if_neg fault, bind_apply]
    rcases runSegments h save p (segments finished p.execution.pending.toList) w
      with ⟨⟨r, p'⟩, w'⟩
    rfl

theorem addChunk_eq_carryOn (h : Handler (StateM S)) (save : Saver (StateM S)) {p : Progress}
    (opened : p.execution.finalized = false) (chunk : String) (w : S) :
    addChunk h save p chunk w =
      match carryOn h save (p.receive chunk)
        (segments false (p.receive chunk).execution.pending.toList) w with
      | ((r, p), w) => ((r.mapError .checkpoint, p), w) := by
  rw [addChunk, opened]
  exact run_eq_carryOn h save (p.receive chunk) false w

def close (p : Progress) : Progress :=
  { p with execution := { p.execution with finalized := true } }

theorem finalize_eq_carryOn (h : Handler (StateM S)) (save : Saver (StateM S)) {p : Progress}
    (opened : p.execution.finalized = false) (w : S) :
    finalize h save p w =
      match carryOn h save p (segments true p.execution.pending.toList) w with
      | ((.error e, p), w) => ((.error (.checkpoint e), p), w)
      | ((.ok (), p), w) => ((.ok p.execution.summary, p.close), w) := by
  rw [finalize, opened, if_neg Bool.false_ne_true, bind_apply, run_eq_carryOn]
  rcases carryOn h save p (segments true p.execution.pending.toList) w with ⟨⟨r, p'⟩, w'⟩
  cases r <;> rfl

theorem stream_cons (h : Handler (StateM S)) (save : Saver (StateM S)) {p : Progress}
    (opened : p.execution.finalized = false) (chunk : String) (rest : List String) (w : S) :
    stream h save p (chunk :: rest) w =
      match carryOn h save (p.receive chunk)
        (segments false (p.receive chunk).execution.pending.toList) w with
      | ((.error e, p), w) => ((.error (.checkpoint e), p), w)
      | ((.ok (), p), w) => stream h save p rest w := by
  rw [stream, bind_apply, addChunk_eq_carryOn h save opened]
  rcases carryOn h save (p.receive chunk)
    (segments false (p.receive chunk).execution.pending.toList) w with ⟨⟨r, p'⟩, w'⟩
  cases r <;> rfl

theorem carryOn_full (h : Handler (StateM S)) (save : Saver (StateM S)) (p : Progress)
    (finished : Bool) (w : S) {r : Except StoreError Unit} {p' : Progress} {w' : S}
    (ran : carryOn h save p (segments finished p.execution.pending.toList) w = ((r, p'), w')) :
    p'.execution.full = p.execution.full := by
  obtain ⟨done, left, split, moved, -⟩ := carryOn_moved h save p _ w ran
  refine moved.full (List.IsPrefix.trans ?_ (covered_segments_isPrefix finished _))
  rw [split, covered_append]
  exact List.prefix_append _ _

theorem carryOn_heldBack (h : Handler (StateM S)) (save : Saver (StateM S)) (p : Progress)
    (w : S) {p' : Progress} {w' : S}
    (ran : carryOn h save p (segments false p.execution.pending.toList) w = ((.ok (), p'), w'))
    (sound : p'.execution.fault.isSome = false) :
    p'.execution.pending = String.ofList (heldBack p.execution.pending.toList) := by
  obtain ⟨done, left, split, moved, all⟩ := carryOn_moved h save p _ w ran
  rw [all rfl sound, List.append_nil] at split
  rw [moved.pending, ← split, heldBack]

theorem stream_refused {save : Saver (StateM S)} {bad : S → Prop}
    (refusals : ∀ f r w e w', save = some f → f r w = (.error e, w') → bad w')
    (h : Handler (StateM S)) {p : Progress} (opened : p.execution.finalized = false)
    (chunks : List String) (w : S) {e : ExecutionError}
    (ran : (stream h save p chunks w).1.1 = .error e) :
    (∃ f, e = .checkpoint f) ∧ bad (stream h save p chunks w).2 := by
  induction chunks generalizing p w with
  | nil =>
    rw [stream, finalize_eq_carryOn h save opened] at ran ⊢
    rcases one : carryOn h save p (segments true p.execution.pending.toList) w
      with ⟨⟨r, p'⟩, w'⟩
    rw [one] at ran
    cases r with
    | ok u => cases ran
    | error f =>
      cases ran
      exact ⟨⟨f, rfl⟩, carryOn_refused refusals h p _ w one⟩
  | cons chunk rest ih =>
    rw [stream_cons h save opened] at ran ⊢
    rcases one : carryOn h save (p.receive chunk)
      (segments false (p.receive chunk).execution.pending.toList) w with ⟨⟨r, p'⟩, w'⟩
    rw [one] at ran
    cases r with
    | ok u => exact ih ((carryOn_finalized h save _ _ w one).trans opened) w' ran
    | error f =>
      cases ran
      exact ⟨⟨f, rfl⟩, carryOn_refused refusals h _ _ w one⟩

theorem checkpoint_of_error (h : Handler (StateM S)) (save : Saver (StateM S)) {p : Progress}
    (opened : p.execution.finalized = false) (chunks : List String) (w : S) {e : ExecutionError}
    (ran : (stream h save p chunks w).1.1 = .error e) : ∃ f, e = .checkpoint f := by
  have any := @stream_refused _ save (fun _ => True) fun _ _ _ _ _ _ _ => trivial
  exact (any h opened chunks w ran).1

end Progress

namespace Coupling
variable {K : Coupling S T} {counted : Prop} {h : Handler (StateM S)} {g : Handler (StateM T)}
  {save : Saver (StateM S)} {save' : Saver (StateM T)}

/-- A stream beside a run over segments: the two have come to the same, and the stream has summed
    up and has seen all of its code. -/
structure Streamed (K : Coupling S T) (counted : Prop) (p : Progress) (code : String)
    (x : (Except ExecutionError Summary × Progress) × S)
    (y : (Except StoreError Unit × Progress) × T) : Prop where
  outcome : x.1.1 = .ok x.1.2.execution.summary
  completed : y.1.1 = .ok ()
  progresses : K.Progresses counted x.1.2 y.1.2
  worlds : K.worlds x.2 y.2
  id : x.1.2.execution.id = p.execution.id
  full : x.1.2.execution.full = p.execution.full ++ code
  finalized : x.1.2.execution.finalized = true

theorem finalize_coupled (H : K.Handlers h g) (V : K.Savers counted save save') {p q : Progress}
    {w : S} {v : T} (same : K.Progresses counted p q) (worlds : K.worlds w v)
    (opened : p.execution.finalized = false) {s : Summary}
    (ran : (Progress.finalize h save p w).1.1 = .ok s) :
    K.Streamed counted p "" (Progress.finalize h save p w)
      (Progress.carryOn g save' q (segments true p.execution.pending.toList) v) := by
  rw [Progress.finalize_eq_carryOn h save opened] at ran ⊢
  have coupled := carryOn_coupled H V same worlds (segments true p.execution.pending.toList)
  rcases one : Progress.carryOn h save p (segments true p.execution.pending.toList) w
    with ⟨⟨r, p'⟩, w'⟩
  rw [one] at ran coupled
  cases r with
  | error e => cases ran
  | ok u =>
    obtain ⟨done, left, -, moved, -⟩ := Progress.carryOn_moved h save p _ w one
    obtain ⟨outcome, related, worlds'⟩ := coupled rfl
    have whole := Progress.carryOn_full h save p true w one
    exact {
      outcome := rfl
      completed := outcome.symm
      progresses := { related with }
      worlds := worlds'
      id := moved.id
      full := by
        rw [String.append_empty]
        exact whole
      finalized := rfl }

/-- The code that a run has held back is what is pending after it. After a fault it does not matter
    what is still to be run. -/
theorem carryOn_rejoined {p p' q' : Progress} {w w' : S}
    (one : Progress.carryOn h save p (segments false p.execution.pending.toList) w =
      ((.ok (), p'), w')) (faults : p'.execution.fault = q'.execution.fault) (code : String)
    (v : T) :
    Progress.carryOn g save' q'
        (segments true (heldBack p.execution.pending.toList ++ code.toList)) v =
      Progress.carryOn g save' q' (segments true (p'.execution.pending ++ code).toList) v := by
  by_cases fault : q'.execution.fault.isSome = true
  · rw [Progress.carryOn_of_fault g save' fault, Progress.carryOn_of_fault g save' fault]
  · have sound : p'.execution.fault.isSome = false := by
      rw [faults]
      exact (Bool.not_eq_true _).mp fault
    rw [Progress.carryOn_heldBack h save p w one sound, String.toList_append,
      String.toList_ofList]

/-- However the code has been cut, its statements are run one after the other. -/
theorem stream_coupled (H : K.Handlers h g) (V : K.Savers counted save save') {p q : Progress}
    {w : S} {v : T} (same : K.Progresses counted p q) (worlds : K.worlds w v)
    (opened : p.execution.finalized = false) (chunks : List String) {s : Summary}
    (ran : (Progress.stream h save p chunks w).1.1 = .ok s) :
    K.Streamed counted p (String.join chunks) (Progress.stream h save p chunks w)
      (Progress.carryOn g save' q
        (segments true (p.execution.pending ++ String.join chunks).toList) v) := by
  induction chunks generalizing p q w v with
  | nil =>
    rw [String.join_nil, String.append_empty]
    exact finalize_coupled H V same worlds opened ran
  | cons chunk rest ih =>
    rw [String.join_cons]
    rw [Progress.stream_cons h save opened] at ran ⊢
    have received : K.Progresses counted (p.receive chunk) q := { same with }
    have coupled := carryOn_coupled H V received worlds
      (segments false (p.receive chunk).execution.pending.toList)
    have code : (p.execution.pending ++ (chunk ++ String.join rest)).toList =
        (p.receive chunk).execution.pending.toList ++ (String.join rest).toList := by
      simp [Progress.receive]
    -- The one run first meets the segments that the stream runs now, then all the later ones.
    rw [code, segments_append, Progress.carryOn_append]
    rcases one : Progress.carryOn h save (p.receive chunk)
      (segments false (p.receive chunk).execution.pending.toList) w with ⟨⟨r, p'⟩, w'⟩
    rcases one' : Progress.carryOn g save' q
      (segments false (p.receive chunk).execution.pending.toList) v with ⟨⟨r', q'⟩, v'⟩
    rw [one] at ran coupled
    rw [one'] at coupled
    cases r with
    | error e => cases ran
    | ok u =>
      obtain ⟨done, left, -, moved, -⟩ := Progress.carryOn_moved h save _ _ w one
      obtain ⟨outcome, related, worlds'⟩ := coupled rfl
      simp only at outcome
      subst outcome
      have streamed := ih related worlds' (moved.finalized.trans opened) ran
      have full : p'.execution.full = p.execution.full ++ chunk := by
        rw [Progress.carryOn_full h save _ false w one]
        simp [Progress.receive, Execution.full, String.append_assoc]
      simp only [carryOn_rejoined one related.fault]
      exact { streamed with
        id := streamed.id.trans moved.id
        full := by
          have whole := streamed.full
          rwa [full, String.append_assoc] at whole }

end Coupling
end Playbook.Script
