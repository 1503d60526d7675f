import Playbook.Proofs.Execution.Along
import Playbook.Proofs.Segment.Regrowth

/- A response that is given anew while the first one is being run. If it begins with the statements
   that have been run, the execution comes to what a new one comes to that is given the response
   from its beginning. It may also go on with a branch of an if block that has been run without it;
   then the branch is found to be malformed. -/
namespace Playbook.Script
variable {S : Type}

namespace Progress
variable (h : Handler (StateM S)) (save : Saver (StateM S))

/-- Takes in all inputs, whatever becomes of them, and sums up. -/
def conclude (p : Progress) (inputs : List Input) :
    StateM S (Except ExecutionError Summary × Progress) := do
  let p ← takeAll h save p inputs
  finalize h save p

theorem takeAll_append (p : Progress) (first second : List Input) (w : S) :
    takeAll h save p (first ++ second) w =
      takeAll h save (takeAll h save p first w).1 second (takeAll h save p first w).2 := by
  induction first generalizing p w with
  | nil => rfl
  | cons i rest ih =>
    rw [List.cons_append, takeAll, takeAll, bind_apply, bind_apply]
    exact ih _ _

theorem carryOn_branch {p : Progress} (sound : p.execution.fault = none)
    (unreturned : p.execution.returned = none) {cs : List Char}
    (opens : continuesWithElse? true cs = some true) (w : S) :
    ∃ e p', carryOn h save p (segments true cs) w = ((.ok (), p'), w) ∧
      p'.execution.fault = some (.malformed e) := by
  obtain ⟨gaps, segment, left, split, empty, code, malformed⟩ := malformed_segment_of_branch opens
  rw [split]
  clear split opens
  induction gaps generalizing p with
  | nil =>
    cases parsed : parseProgram (String.ofList segment.text) with
    | ok body => exact absurd parsed (malformed body)
    | error err =>
      have runs : (!segment.hasCode || p.execution.returned.isSome) = false := by
        simp [code, unreturned]
      rw [List.nil_append, carryOn_cons h save (by simp [sound]),
        runSegment_malformed h save p segment w runs parsed]
      exact ⟨_, _, carryOn_of_fault h save rfl left w, rfl⟩
  | cons gap rest ih =>
    obtain ⟨none, empty⟩ := List.forall_mem_cons.1 empty
    have passed : (!gap.hasCode || p.execution.returned.isSome) = true := by simp [none]
    rw [List.cons_append, carryOn_cons h save (by simp [sound]),
      runSegment_passed h save p gap w passed]
    exact @ih { p with execution := p.execution.advance gap.text } sound unreturned empty

end Progress

namespace Setting
variable {σ τ : Type} (x : Setting σ τ)

/-- What a new execution comes to that is summed up after some inputs. -/
def conclude (inputs : List Input) :
    (Except ExecutionError Summary × Progress) × Surroundings σ τ :=
  x.fresh.conclude (Surroundings.noting x.handler) x.saver inputs x.surroundings

/-- The response begins with the statements that have been run of the code in these chunks. -/
def Repeats (chunks : List String) (response : String) : Prop :=
  ∃ done, (x.after (chunks.map .chunk)).1.execution.executed = String.ofList (covered done) ∧
    done <+: segments false (String.join chunks).toList ∧ done <+: segments true response.toList

/-- Two executions that have come to the same, unless one of them could not save a checkpoint. -/
structure SameOutcome (a b : (Except ExecutionError Summary × Progress) × Surroundings σ τ) :
    Prop where
  first : a.2.refused = [] → ∃ s, a.1.1 = .ok s
  second : b.2.refused = [] → ∃ s, b.1.1 = .ok s
  same : ∀ s s', a.1.1 = .ok s → b.1.1 = .ok s' → s.returned = s'.returned ∧ s.fault = s'.fault ∧
    a.1.2.execution.names = b.1.2.execution.names ∧ a.1.2.agent = b.1.2.agent ∧
    a.2.outside = b.2.outside ∧ a.2.calls = b.2.calls

def Follows (q : Progress) (v : Surroundings σ Unit) (finished : Bool) (code : List Char)
    (inputs : List Input) : Prop :=
  (Surroundings.answering σ τ).Along (Surroundings.noting x.handler) q v finished code []
    (x.after inputs).1 (x.after inputs).2

def EndsAs (q : Progress) (v : Surroundings σ Unit) (code : List Char) (inputs : List Input) :
    Prop :=
  (Surroundings.answering σ τ).Reaches (Surroundings.noting x.handler) q v (segments true code)
    (x.conclude inputs).1.2 (x.conclude inputs).2

variable {x}

theorem follows_chunks (chunks : List String) (finished : Bool) :
    x.Follows x.fresh x.aside finished (String.join chunks).toList (chunks.map .chunk) := by
  apply Coupling.Along.takeAll (Surroundings.answering_handlers x.handler)
    (Surroundings.answering_loses x.store x.clock)
  rw [List.append_nil]
  exact fresh_along _ finished

theorem follows_response {chunks : List String} {response rest : String}
    (accepted : (x.after (chunks.map .chunk)).1.execution.remainder? response = some rest)
    {q : Progress} {v : Surroundings σ Unit} {code : List Char}
    (along : (Surroundings.answering σ τ).Along (Surroundings.noting x.handler) q v true code []
      ((x.after (chunks.map .chunk)).1.await rest) (x.after (chunks.map .chunk)).2) :
    x.Follows q v true code (chunks.map .chunk ++ [.response response]) := by
  unfold Follows
  unfold after at accepted along ⊢
  rw [Progress.takeAll_append]
  rcases fed : Progress.takeAll (Surroundings.noting x.handler) x.saver x.fresh
    (chunks.map .chunk) x.surroundings with ⟨p, u⟩
  rw [fed] at accepted along
  have opened : p.execution.finalized = false := along.opened
  have offer : p.offered (.response response) = some (rest, false) := by
    simp only [Progress.offered, opened, Bool.false_eq_true, if_false, accepted, Option.map_some]
  rw [Progress.takeAll, bind_apply, Progress.take_of_offered _ _ offer]
  rcases ran : Progress.carryOn (Surroundings.noting x.handler) x.saver (p.await rest)
    (segments false rest.toList) u with ⟨⟨r, p'⟩, u'⟩
  exact along.carryOn (Surroundings.answering_handlers x.handler)
    (Surroundings.answering_loses x.store x.clock) ran

theorem endsAs_of_follows {inputs : List Input} {q : Progress} {v : Surroundings σ Unit}
    {code : List Char} (follows : x.Follows q v true code inputs) :
    ((x.conclude inputs).2.refused = [] → ∃ s, (x.conclude inputs).1.1 = .ok s) ∧
      ∀ s, (x.conclude inputs).1.1 = .ok s →
        s = (x.conclude inputs).1.2.execution.summary ∧ x.EndsAs q v code inputs := by
  unfold EndsAs
  have ends : x.conclude inputs = Progress.stream (Surroundings.noting x.handler) x.saver
    (x.after inputs).1 [] (x.after inputs).2 := rfl
  constructor
  · intro kept
    cases ran : (x.conclude inputs).1.1 with
    | ok s => exact ⟨s, rfl⟩
    | error e =>
      rw [ends] at ran kept
      exact absurd kept
        (Surroundings.refused_of_error x.handler x.store x.clock follows.opened [] _ ran)
  · intro s ran
    rcases whole : x.conclude inputs with ⟨⟨r, p⟩, u⟩
    rw [whole] at ran
    obtain rfl : r = .ok s := ran
    exact follows.conclude (Surroundings.answering_handlers x.handler)
      (Surroundings.answering_loses x.store x.clock) whole

theorem sameOutcome_of_follows {a b : List Input} {q : Progress} {v : Surroundings σ Unit}
    {code : List Char} (left : x.Follows q v true code a) (right : x.Follows q v true code b) :
    SameOutcome (x.conclude a) (x.conclude b) where
  first := (endsAs_of_follows left).1
  second := (endsAs_of_follows right).1
  same := by
    intro s s' ran ran'
    obtain ⟨rfl, q₁, v₁, run, same, worlds⟩ := (endsAs_of_follows left).2 s ran
    obtain ⟨rfl, q₂, v₂, run', same', worlds'⟩ := (endsAs_of_follows right).2 s' ran'
    rw [run] at run'
    cases run'
    refine ⟨same.returned.trans same'.returned.symm, same.fault.trans same'.fault.symm,
      same.names.trans same'.names.symm, same.agents.1.trans same'.agents.1.symm,
      worlds.outside.trans worlds'.outside.symm, ?_⟩
    have calls := worlds.calls.symm.trans worlds'.calls
    exact calls

theorem executed_of_sound {chunks : List String}
    (sound : (x.after (chunks.map .chunk)).1.execution.fault = none) :
    ∃ done left, segments false (String.join chunks).toList = done ++ left ∧
      (x.after (chunks.map .chunk)).1.execution.executed = String.ofList (covered done) ∧
      (Surroundings.answering σ τ).Reaches (Surroundings.noting x.handler) x.fresh x.aside done
        (x.after (chunks.map .chunk)).1 (x.after (chunks.map .chunk)).2 := by
  obtain ⟨done, left, split, reached, rest⟩ := (follows_chunks (x := x) chunks false).way
  refine ⟨done, left, split, ?_, reached⟩
  rw [(rest sound).1]
  exact String.empty_append

/-- A response is taken up right after the statements that have been run, if it begins with them.
    Otherwise it goes on with a branch. -/
theorem repeats_or_branches {chunks : List String}
    (sound : (x.after (chunks.map .chunk)).1.execution.fault = none) {response rest : String}
    (accepted : (x.after (chunks.map .chunk)).1.execution.remainder? response = some rest) :
    x.Repeats chunks response ∨ continuesWithElse? true rest.toList = some true := by
  obtain ⟨done, left, split, executed, -⟩ := executed_of_sound sound
  have whole := Progress.eq_append_of_remainder accepted
  cases branches : continuesWithElse? true rest.toList with
  | none =>
    rw [continuesWithElse?_finished] at branches
    cases branches
  | some opens =>
    cases opens with
    | true => exact .inr rfl
    | false =>
      refine .inl ⟨done, executed, ⟨left, split.symm⟩, ?_⟩
      rw [whole, executed, String.toList_append, String.toList_ofList,
        segments_regrown split branches]
      exact List.prefix_append _ _

theorem follows_of_repeats {chunks : List String}
    (sound : (x.after (chunks.map .chunk)).1.execution.fault = none) {response rest : String}
    (accepted : (x.after (chunks.map .chunk)).1.execution.remainder? response = some rest)
    (repeated : x.Repeats chunks response) :
    x.Follows x.fresh x.aside true response.toList
      (chunks.map .chunk ++ [.response response]) := by
  apply follows_response accepted
  obtain ⟨done, left, split, executed, reached⟩ := executed_of_sound sound
  obtain ⟨done', executed', front, more, again⟩ := repeated
  have same : done' = done := by
    apply eq_of_covered front ⟨left, split.symm⟩
    rw [← String.ofList_inj, ← executed', executed]
  subst same
  have whole := Progress.eq_append_of_remainder accepted
  have later : segments true rest.toList = more := by
    have drop := segments_drop true response.toList again.symm
    rwa [whole, executed, String.toList_append, String.toList_ofList, List.drop_left] at drop
  obtain ⟨q', v', run, related, worlds⟩ := reached
  refine ⟨(follows_chunks (x := x) chunks false).opened, done', more, again.symm,
    ⟨q', v', run, { related with }, worlds⟩, fun _ => ⟨?_, ?_⟩⟩
  · exact executed.trans String.empty_append.symm
  · rw [List.append_nil]
    exact later

theorem malformed_of_branches {chunks : List String}
    (sound : (x.after (chunks.map .chunk)).1.execution.fault = none) {response rest : String}
    (accepted : (x.after (chunks.map .chunk)).1.execution.remainder? response = some rest)
    (branches : continuesWithElse? true rest.toList = some true)
    (unreturned : (x.after (chunks.map .chunk)).1.execution.returned = none) {s : Summary}
    (ran : (x.conclude (chunks.map .chunk ++ [.response response])).1.1 = .ok s) :
    ∃ e, s.fault = some (.malformed e) := by
  have opened := (follows_chunks (x := x) chunks false).opened
  -- The run over the rest is one from where the execution stands.
  let v : Surroundings σ Unit := { (x.after (chunks.map .chunk)).2 with contents := () }
  have same : (Surroundings.answering σ τ).Progresses False
      ((x.after (chunks.map .chunk)).1.await rest) (x.after (chunks.map .chunk)).1 :=
    ⟨rfl, rfl, rfl, rfl, ⟨rfl, trivial⟩, False.elim, False.elim, False.elim⟩
  have worlds : Surroundings.After [] (x.after (chunks.map .chunk)).2 v := ⟨rfl, rfl⟩
  have follows := follows_response accepted
    (Coupling.Along.start same worlds opened (List.append_nil rest.toList))
  obtain ⟨rfl, q', v', run, related, -⟩ := (endsAs_of_follows follows).2 s ran
  obtain ⟨e, p', run', malformed⟩ := Progress.carryOn_branch (Surroundings.noting x.handler) none
    sound unreturned branches v
  rw [run'] at run
  cases run
  exact ⟨e, related.fault.trans malformed⟩

/-- A response that is given anew either begins with the statements that have been run or goes on
    with a branch. If it begins with them, the execution comes to what a new one comes to that is
    given the response in any pieces; otherwise, unless the code has returned, it comes to malformed
    code. -/
theorem regenerated_response_comes_to_the_same (x : Setting σ τ) (chunks : List String)
    (sound : (x.after (chunks.map .chunk)).1.execution.fault = none) {response rest : String}
    (accepted : (x.after (chunks.map .chunk)).1.execution.remainder? response = some rest) :
    (x.Repeats chunks response ∨ continuesWithElse? true rest.toList = some true) ∧
    (x.Repeats chunks response → ∀ pieces, String.join pieces = response →
      SameOutcome (x.conclude (chunks.map .chunk ++ [.response response]))
        (x.conclude (pieces.map .chunk))) ∧
    (continuesWithElse? true rest.toList = some true →
      (x.after (chunks.map .chunk)).1.execution.returned = none →
      ∀ s, (x.conclude (chunks.map .chunk ++ [.response response])).1.1 = .ok s →
        ∃ e, s.fault = some (.malformed e)) := by
  refine ⟨repeats_or_branches sound accepted, ?_, ?_⟩
  · intro repeated pieces whole
    apply sameOutcome_of_follows (follows_of_repeats sound accepted repeated)
    rw [← whole]
    exact follows_chunks pieces true
  · intro branches unreturned s ran
    exact malformed_of_branches sound accepted branches unreturned ran

def callAndIf : List String := ["n = Call(\"X\")\nif false \x7b y = 1 \x7d\nz = "]

def withoutBranch : String := "n = Call(\"X\")\nif false \x7b y = 1 \x7d\ny = n\n"

def withBranch : String :=
  "n = Call(\"X\")\nif false \x7b y = 1 \x7d\nelse \x7b y = 2 \x7d\n"

/-- The response with a branch would run without a fault if it were given to a new execution. -/
theorem regenerated_response_comes_to_the_same_without_branch :
    SameOutcome (prepared.conclude (callAndIf.map .chunk ++ [.response withoutBranch]))
      (prepared.conclude ([withoutBranch].map .chunk)) ∧
    (∃ s e, (prepared.conclude (callAndIf.map .chunk ++ [.response withBranch])).1.1 = .ok s ∧
      s.fault = some (.malformed e)) ∧
    ∃ s, (prepared.conclude ([withBranch].map .chunk)).1.1 = .ok s ∧ s.fault = none := by
  have sound : (prepared.after (callAndIf.map .chunk)).1.execution.fault = none := by
    decide +kernel
  constructor
  · have accepted : (prepared.after (callAndIf.map .chunk)).1.execution.remainder?
        withoutBranch = some "y = n\n" := by
      decide +kernel
    obtain ⟨either, same, -⟩ :=
      regenerated_response_comes_to_the_same prepared callAndIf sound accepted
    exact same (either.resolve_right (by decide +kernel)) [withoutBranch] (by decide +kernel)
  constructor
  · have accepted : (prepared.after (callAndIf.map .chunk)).1.execution.remainder?
        withBranch = some "else \x7b y = 2 \x7d\n" := by
      decide +kernel
    have closes : (prepared.conclude (callAndIf.map .chunk ++
        [.response withBranch])).1.1.toOption.isSome = true := by
      decide +kernel
    cases ran : (prepared.conclude (callAndIf.map .chunk ++ [.response withBranch])).1.1 with
    | error e =>
      rw [ran] at closes
      cases closes
    | ok s =>
      obtain ⟨e, malformed⟩ := (regenerated_response_comes_to_the_same prepared callAndIf sound
        accepted).2.2 (by decide +kernel) (by decide +kernel) s ran
      exact ⟨s, e, rfl, malformed⟩
  · have closes : (prepared.conclude ([withBranch].map .chunk)).1.1.toOption.map Summary.fault =
        some none := by
      decide +kernel
    cases ran : (prepared.conclude ([withBranch].map .chunk)).1.1 with
    | error e =>
      rw [ran] at closes
      cases closes
    | ok s =>
      rw [ran] at closes
      exact ⟨s, rfl, Option.some.inj closes⟩

end Setting
end Playbook.Script
