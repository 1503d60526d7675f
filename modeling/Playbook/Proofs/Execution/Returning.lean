import Playbook.Proofs.Execution.Written

/- A return is the end of a run: whatever comes in afterwards is only passed over. A checkpoint does
   not record that there has been a return, so an execution resumed from one has not returned; it
   carries a value again only if it has run more code. -/
namespace Playbook.Script
variable {S : Type}

namespace Progress

/-- Code has been passed over, nothing else has happened. -/
structure Passed (p p' : Progress) : Prop where
  names : p'.execution.names = p.execution.names
  last : p'.execution.last = p.execution.last
  returned : p'.execution.returned = p.execution.returned
  fault : p'.execution.fault = p.execution.fault
  statements : p'.execution.statements = p.execution.statements
  checkpoints : p'.execution.checkpoints = p.execution.checkpoints
  agent : p'.agent = p.agent

namespace Passed

theorem refl (p : Progress) : Passed p p := ⟨rfl, rfl, rfl, rfl, rfl, rfl, rfl⟩

theorem trans {p q r : Progress} (first : Passed p q) (second : Passed q r) : Passed p r :=
  ⟨second.names.trans first.names, second.last.trans first.last,
    second.returned.trans first.returned, second.fault.trans first.fault,
    second.statements.trans first.statements, second.checkpoints.trans first.checkpoints,
    second.agent.trans first.agent⟩

end Passed

variable (h : Handler (StateM S)) (save : Saver (StateM S))

theorem carryOn_of_returned {p : Progress} (returned : p.execution.returned.isSome = true)
    (sound : p.execution.fault = none) (segs : List Segment) (w : S) :
    ∃ p', carryOn h save p segs w = ((.ok (), p'), w) ∧ Passed p p' := by
  induction segs generalizing p with
  | nil => exact ⟨p, carryOn_nil h save p w, .refl p⟩
  | cons segment rest ih =>
    have passed : (!segment.hasCode || p.execution.returned.isSome) = true := by
      rw [returned, Bool.or_true]
    have one := runSegment_passed h save p segment w passed
    obtain ⟨p', ran, more⟩ := @ih { p with execution := p.execution.advance segment.text }
      returned sound
    have skipped : Passed p { p with execution := p.execution.advance segment.text } :=
      ⟨rfl, rfl, rfl, rfl, rfl, rfl, rfl⟩
    refine ⟨p', ?_, skipped.trans more⟩
    rw [carryOn_cons h save (by simp [sound]), one]
    exact ran

theorem stream_of_returned {p : Progress} (opened : p.execution.finalized = false)
    (returned : p.execution.returned.isSome = true) (sound : p.execution.fault = none)
    (chunks : List String) (w : S) :
    ∃ p', stream h save p chunks w = ((.ok p'.execution.summary, p'), w) ∧ Passed p p' := by
  induction chunks generalizing p with
  | nil =>
    obtain ⟨p', ran, passed⟩ := carryOn_of_returned h save returned sound
      (segments true p.execution.pending.toList) w
    refine ⟨p'.close, ?_, passed.trans ⟨rfl, rfl, rfl, rfl, rfl, rfl, rfl⟩⟩
    rw [stream, finalize_eq_carryOn h save opened, ran]
    rfl
  | cons chunk rest ih =>
    obtain ⟨p', ran, passed⟩ := @carryOn_of_returned _ h save (p.receive chunk) returned sound
      (segments false (p.receive chunk).execution.pending.toList) w
    have kept := carryOn_finalized h save _ _ w ran
    have taken : Passed p (p.receive chunk) := ⟨rfl, rfl, rfl, rfl, rfl, rfl, rfl⟩
    have received : Passed p p' := taken.trans passed
    obtain ⟨p'', rest', passed'⟩ := ih (kept.trans opened)
      (by rw [received.returned, returned]) (by rw [received.fault, sound])
    refine ⟨p'', ?_, received.trans passed'⟩
    rw [stream_cons h save opened, ran]
    exact rest'

/-- A value is carried only by an execution that has run code. -/
def Earned (p : Progress) : Prop :=
  p.execution.returned.isSome = true → 0 < p.execution.statements ∨ p.execution.fault.isSome = true

theorem runBlock_nil (names : Namespace) (a : AgentState) (w : S) :
    runBlock h names a [] w = ((.ok (), ⟨names, a, false, none, none⟩), w) := rfl

theorem runSegment_earned {p : Progress} (earned : Earned p) (segment : Segment) (w : S) :
    Earned (runSegment h save p segment w).1.2 := by
  refine runSegment_elim h save p segment w (motive := fun x => Earned x.1.2) ?_ ?_ ?_ ?_
  · intro _
    exact earned
  · intro err _ _ _
    exact .inr rfl
  · intro body fault s w' _ _ _ _
    exact .inr rfl
  · intro body s w' saved q v _ _ ran recorded
    have succeeded : Earned (p.succeed s segment body.length) := by
      intro carried
      cases body with
      | cons statement more =>
        exact .inl (Nat.lt_of_lt_of_le (Nat.succ_pos _) (Nat.le_add_left _ _))
      | nil =>
        rw [runBlock_nil] at ran
        cases ran
        exact earned carried
    have kept := record_elim save (p.succeed s segment body.length) segment.text s.suspended w'
      (motive := fun x => Earned x.1.2) (fun _ => succeeded) (fun _ _ _ _ _ _ => succeeded)
      (fun _ _ _ _ _ _ => succeeded)
    rw [recorded] at kept
    exact kept

theorem carryOn_earned {p : Progress} (earned : Earned p) (segs : List Segment) (w : S) :
    Earned (carryOn h save p segs w).1.2 := by
  induction segs generalizing p w with
  | nil =>
    rw [carryOn_nil]
    exact earned
  | cons segment rest ih =>
    by_cases fault : p.execution.fault.isSome = true
    · rw [carryOn_of_fault h save fault]
      exact earned
    rw [carryOn_cons h save fault]
    have kept := runSegment_earned h save earned segment w
    rcases one : runSegment h save p segment w with ⟨⟨more, p'⟩, w'⟩
    rw [one] at kept
    cases more with
    | error e => exact kept
    | ok more => exact ih kept w'

theorem stream_earned {p : Progress} (opened : p.execution.finalized = false)
    (earned : Earned p) (chunks : List String) (w : S) {s : Summary}
    (ran : (stream h save p chunks w).1.1 = .ok s) (carried : s.returned.isSome = true) :
    0 < s.statements ∨ s.fault.isSome = true := by
  induction chunks generalizing p w with
  | nil =>
    rw [stream, finalize_eq_carryOn h save opened] at ran
    have kept := carryOn_earned h save earned (segments true p.execution.pending.toList) w
    rcases one : carryOn h save p (segments true p.execution.pending.toList) w
      with ⟨⟨r, p'⟩, w'⟩
    rw [one] at ran kept
    cases r with
    | error e => cases ran
    | ok u =>
      cases ran
      exact kept carried
  | cons chunk rest ih =>
    rw [stream_cons h save opened] at ran
    have kept := @carryOn_earned _ h save (p.receive chunk) earned
      (segments false (p.receive chunk).execution.pending.toList) w
    rcases one : carryOn h save (p.receive chunk)
      (segments false (p.receive chunk).execution.pending.toList) w with ⟨⟨r, p'⟩, w'⟩
    rw [one] at ran kept
    cases r with
    | error e => cases ran
    | ok u =>
      exact ih ((carryOn_finalized h save _ _ w one).trans opened) kept w' ran

theorem complete_earned {p : Progress} (opened : p.execution.finalized = false)
    (earned : Earned p) (response : String) (w : S) {s : Summary}
    (ran : (complete h save p response w).1.1 = .ok s) (carried : s.returned.isSome = true) :
    0 < s.statements ∨ s.fault.isSome = true := by
  cases left : p.execution.remainder? response with
  | none =>
    simp only [complete, continueWith, opened, left, bind_apply] at ran
    cases ran
  | some rest =>
    rw [eq_append_of_remainder left, complete_eq_stream h save opened] at ran
    exact @stream_earned _ h save p.withoutPending opened earned _ w s ran carried

end Progress

namespace Surroundings
variable {σ τ : Type}

/-- Once a statement has called for a return and has come to its end, nothing else happens in the
    run. An execution resumed from the checkpoint of that statement has not returned: it goes on
    with the rest of the response, and if it carries a value in the end, it has run more code. -/
theorem return_is_final_until_resumed (x : Setting σ τ) (chunks : List String) {q : Progress}
    {u : Surroundings σ τ} (moment : (q, u) ∈ x.moments chunks) {v : Value}
    (returned : q.execution.returned = some v) :
    (∃ p, x.stream chunks = ((.ok p.execution.summary, p), u) ∧ q.Passed p ∧
      p.execution.summary.returned = some v) ∧
    ∀ c, Records c q → ∀ {σ' τ' : Type} (y : Setting σ' τ'), ∃ r, Resumed y.agent c q r ∧
      (∀ rest, y.recover c (q.execution.executed ++ rest) =
        Progress.stream (noting y.handler) y.saver r.withoutPending [rest] y.surroundings) ∧
      ∀ response s, (y.recover c response).1.1 = .ok s → s.returned.isSome = true →
        0 < s.statements ∨ s.fault.isSome = true := by
  have here := Progress.moment_of_mem rfl moment
  constructor
  · obtain ⟨rest, onward, -⟩ := here.rest
    obtain ⟨p, ran, passed⟩ := Progress.stream_of_returned (noting x.handler) x.saver
      here.opened (by rw [returned]; rfl) here.sound rest u
    exact ⟨p, onward.trans ran, passed, passed.returned.trans returned⟩
  · intro c records σ' τ' y
    obtain ⟨r, start, recovers⟩ := recover_of_records records y.agent
    refine ⟨r, start, fun rest => ?_, fun response s ran carried => ?_⟩
    · rw [Setting.recover, recovers, ← start.executed,
        Progress.complete_eq_stream _ _ start.finalized]
    · rw [Setting.recover, recovers] at ran
      refine Progress.complete_earned _ y.saver start.finalized ?_ response y.surroundings ran
        carried
      intro impossible
      simp [start.returned] at impossible

def afterReturn (q : Progress) : Checkpoint :=
  ⟨⟨"main", 1⟩, CheckpointManager.dataFor (q.execution.request q.agent []) "" 1⟩

def returnTwice : String := "Return(Call(\"X\"))\nReturn(2)\n"

/-- The code after a return is run when the checkpoint of the return is resumed. -/
theorem return_is_final_until_resumed_after_a_call :
    ∃ q u v s, (q, u) ∈ Setting.prepared.moments [returnTwice] ∧
      q.execution.returned = some v ∧ Records (afterReturn q) q ∧
      (Setting.prepared.recover (afterReturn q) returnTwice).1.1 = .ok s ∧
      s.returned.isSome = true ∧ (0 < s.statements ∨ s.fault.isSome = true) := by
  have some : ∃ m ∈ Setting.prepared.moments [returnTwice],
      m.1.execution.returned.isSome = true ∧
        ((Setting.prepared.recover (afterReturn m.1)
          returnTwice).1.1.toOption.bind Summary.returned).isSome = true := by
    decide +kernel
  obtain ⟨m, moment, returned, again⟩ := some
  obtain ⟨v, value⟩ := Option.isSome_iff_exists.1 returned
  have records : Records (afterReturn m.1) m.1 := ⟨[], "", 1, rfl⟩
  obtain ⟨r, -, -, earned⟩ := (return_is_final_until_resumed Setting.prepared [returnTwice] moment
    value).2 (afterReturn m.1) records Setting.prepared
  cases ran : (Setting.prepared.recover (afterReturn m.1) returnTwice).1.1 with
  | error e =>
    rw [ran] at again
    cases again
  | ok s =>
    rw [ran] at again
    exact ⟨m.1, m.2, v, s, moment, value, records, ran, again, earned _ s ran again⟩

end Surroundings
end Playbook.Script
