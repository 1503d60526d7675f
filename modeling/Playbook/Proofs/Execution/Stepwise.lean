import Playbook.Proofs.Segment.Growth
import Playbook.Script.Execution

/- What becomes of an execution segment by segment: every way in which a segment can end, and what a
   list of segments leaves behind of the text. -/
namespace Playbook.Script
variable {S : Type}

theorem bind_apply {α β : Type} (x : StateM S α) (f : α → StateM S β) (w : S) :
    (x >>= f) w = f (x w).1 (x w).2 := rfl

namespace Progress

theorem runSegment_passed (h : Handler (StateM S)) (save : Saver (StateM S)) (p : Progress)
    (segment : Segment) (w : S)
    (passed : (!segment.hasCode || p.execution.returned.isSome) = true) :
    runSegment h save p segment w =
      ((.ok true, { p with execution := p.execution.advance segment.text }), w) := by
  unfold runSegment
  simp only [passed, if_true]
  rfl

theorem runSegment_malformed (h : Handler (StateM S)) (save : Saver (StateM S)) (p : Progress)
    (segment : Segment) (w : S)
    (runs : (!segment.hasCode || p.execution.returned.isSome) = false) {err : SyntaxError}
    (parsed : parseProgram (String.ofList segment.text) = .error err) :
    runSegment h save p segment w = ((.ok false, p.withFault
      (.malformed { err with line := err.line + p.execution.line - 1 })), w) := by
  unfold runSegment
  simp only [runs, parsed]
  rfl

def succeed (p : Progress) (s : Machine) (segment : Segment) (count : Nat) : Progress :=
  let e := (p.execution.absorb s).advance segment.text
  ⟨{ e with statements := e.statements + count }, s.agent⟩

def fail (p : Progress) (s : Machine) (segment : Segment) (fault : Fault) : Progress :=
  withFault ⟨p.execution.absorb s, s.agent⟩ (.failed fault
    (String.ofList (Text.trim segment.text)) p.execution.line s.agent.stack.pointers)

theorem runSegment_failed (h : Handler (StateM S)) (save : Saver (StateM S)) (p : Progress)
    (segment : Segment) (w : S)
    (runs : (!segment.hasCode || p.execution.returned.isSome) = false) {body : List Stmt}
    (parsed : parseProgram (String.ofList segment.text) = .ok body) {fault : Fault} {s : Machine}
    {w' : S} (ran : runBlock h p.execution.names p.agent body w = ((.error fault, s), w')) :
    runSegment h save p segment w = ((.ok false, p.fail s segment fault), w') := by
  unfold runSegment
  simp only [runs, parsed, Bool.false_eq_true, if_false, bind_apply, ran]
  rfl

theorem runSegment_succeeded (h : Handler (StateM S)) (save : Saver (StateM S)) (p : Progress)
    (segment : Segment) (w : S)
    (runs : (!segment.hasCode || p.execution.returned.isSome) = false) {body : List Stmt}
    (parsed : parseProgram (String.ofList segment.text) = .ok body) {s : Machine}
    {w' : S} (ran : runBlock h p.execution.names p.agent body w = ((.ok (), s), w'))
    {saved : Except StoreError Unit} {q : Progress} {v : S}
    (recorded : record save (p.succeed s segment body.length) segment.text s.suspended w' =
      ((saved, q), v)) :
    runSegment h save p segment w = ((saved.map fun _ => true, q), v) := by
  unfold runSegment
  simp only [runs, parsed, Bool.false_eq_true, if_false, bind_apply, ran]
  exact congrArg (fun r : (Except StoreError Unit × Progress) × S =>
    ((r.1.1.map fun _ => true, r.1.2), r.2)) recorded

theorem runSegment_elim (h : Handler (StateM S)) (save : Saver (StateM S)) (p : Progress)
    (segment : Segment) (w : S) (motive : (Except StoreError Bool × Progress) × S → Prop)
    (passed : (!segment.hasCode || p.execution.returned.isSome) = true →
      motive ((.ok true, { p with execution := p.execution.advance segment.text }), w))
    (malformed : ∀ err, (!segment.hasCode || p.execution.returned.isSome) = false →
      parseProgram (String.ofList segment.text) = .error err →
      motive ((.ok false, p.withFault
        (.malformed { err with line := err.line + p.execution.line - 1 })), w))
    (failed : ∀ body fault s w', (!segment.hasCode || p.execution.returned.isSome) = false →
      parseProgram (String.ofList segment.text) = .ok body →
      runBlock h p.execution.names p.agent body w = ((.error fault, s), w') →
      motive ((.ok false, p.fail s segment fault), w'))
    (succeeded : ∀ body s w' saved q v, (!segment.hasCode || p.execution.returned.isSome) = false →
      parseProgram (String.ofList segment.text) = .ok body →
      runBlock h p.execution.names p.agent body w = ((.ok (), s), w') →
      record save (p.succeed s segment body.length) segment.text s.suspended w' =
        ((saved, q), v) → motive ((saved.map fun _ => true, q), v)) :
    motive (runSegment h save p segment w) := by
  by_cases skips : (!segment.hasCode || p.execution.returned.isSome) = true
  · rw [runSegment_passed h save p segment w skips]
    exact passed skips
  · have runs := (Bool.not_eq_true _).mp skips
    cases parsed : parseProgram (String.ofList segment.text) with
    | error err =>
      rw [runSegment_malformed h save p segment w runs parsed]
      exact malformed err runs parsed
    | ok body =>
      rcases ran : runBlock h p.execution.names p.agent body w with ⟨⟨outcome, s⟩, w'⟩
      cases outcome with
      | error fault =>
        rw [runSegment_failed h save p segment w runs parsed ran]
        exact failed body fault s w' runs parsed ran
      | ok u =>
        rcases recorded : record save (p.succeed s segment body.length) segment.text s.suspended w'
          with ⟨⟨saved, q⟩, v⟩
        rw [runSegment_succeeded h save p segment w runs parsed ran recorded]
        exact succeeded body s w' saved q v runs parsed ran recorded

def saved (p : Progress) (id : CheckpointId) : Progress :=
  { p with execution :=
    { p.execution with checkpoints := p.execution.checkpoints ++ [id] } }

theorem record_refused {f : SaveRequest → StateM S (Except StoreError CheckpointId)}
    {p : Progress} {text : List Char} {w w' : S} {e : StoreError}
    (asked : f (p.execution.request p.agent text) w = (.error e, w')) :
    record (some f) p text true w = ((.error e, p), w') := by
  simp only [record, bind_apply, asked]
  rfl

theorem record_saved {f : SaveRequest → StateM S (Except StoreError CheckpointId)}
    {p : Progress} {text : List Char} {w w' : S} {id : CheckpointId}
    (asked : f (p.execution.request p.agent text) w = (.ok id, w')) :
    record (some f) p text true w = ((.ok (), p.saved id), w') := by
  simp only [record, bind_apply, asked]
  rfl

theorem record_elim (save : Saver (StateM S)) (p : Progress) (text : List Char)
    (suspended : Bool) (w : S) (motive : (Except StoreError Unit × Progress) × S → Prop)
    (unsaved : save = none ∨ suspended = false → motive ((.ok (), p), w))
    (refused : ∀ f e w', save = some f → suspended = true →
      f (p.execution.request p.agent text) w = (.error e, w') → motive ((.error e, p), w'))
    (saved : ∀ f id w', save = some f → suspended = true →
      f (p.execution.request p.agent text) w = (.ok id, w') →
      motive ((.ok (), p.saved id), w')) :
    motive (record save p text suspended w) := by
  cases save with
  | none => exact unsaved (.inl rfl)
  | some f =>
    cases suspended with
    | false => exact unsaved (.inr rfl)
    | true =>
      rcases asked : f (p.execution.request p.agent text) w with ⟨r, w'⟩
      cases r with
      | error e =>
        rw [record_refused asked]
        exact refused f e w' rfl rfl asked
      | ok id =>
        rw [record_saved asked]
        exact saved f id w' rfl rfl asked

def carryOn (h : Handler (StateM S)) (save : Saver (StateM S)) (p : Progress)
    (segs : List Segment) : StateM S (Except StoreError Unit × Progress) :=
  if p.execution.fault.isSome then pure (.ok (), p) else runSegments h save p segs

theorem carryOn_of_fault (h : Handler (StateM S)) (save : Saver (StateM S)) {p : Progress}
    (fault : p.execution.fault.isSome = true) (segs : List Segment) (w : S) :
    carryOn h save p segs w = ((.ok (), p), w) := by
  rw [carryOn, if_pos fault]
  rfl

theorem carryOn_of_sound (h : Handler (StateM S)) (save : Saver (StateM S)) {p : Progress}
    (sound : p.execution.fault.isSome = false) (segs : List Segment) (w : S) :
    carryOn h save p segs w = runSegments h save p segs w := by
  rw [carryOn, sound]
  rfl

theorem carryOn_nil (h : Handler (StateM S)) (save : Saver (StateM S)) (p : Progress) (w : S) :
    carryOn h save p [] w = ((.ok (), p), w) := by
  unfold carryOn
  split <;> rfl

theorem record_fault (save : Saver (StateM S)) (p : Progress) (text : List Char)
    (suspended : Bool) (w : S) :
    (record save p text suspended w).1.2.execution.fault = p.execution.fault :=
  record_elim save p text suspended w
    (motive := fun r => r.1.2.execution.fault = p.execution.fault)
    (fun _ => rfl) (fun _ _ _ _ _ _ => rfl) (fun _ _ _ _ _ _ => rfl)

theorem runSegment_fault (h : Handler (StateM S)) (save : Saver (StateM S)) {p : Progress}
    (sound : ¬p.execution.fault.isSome = true) (segment : Segment) (w : S) {more : Bool}
    {p' : Progress} {w' : S} (ran : runSegment h save p segment w = ((.ok more, p'), w')) :
    p'.execution.fault.isSome = !more := by
  have missing : p.execution.fault = none := by simpa using sound
  revert ran
  refine runSegment_elim h save p segment w
    (motive := fun r => r = ((.ok more, p'), w') → p'.execution.fault.isSome = !more) ?_ ?_ ?_ ?_
  · intro _ ran
    cases ran
    simp [Execution.advance, missing]
  · intro err _ _ ran
    cases ran
    rfl
  · intro body fault s v _ _ _ ran
    cases ran
    rfl
  · intro body s v saved q u _ _ _ recorded ran
    have unfailed : (p.succeed s segment body.length).execution.fault = none := missing
    have kept := record_fault save (p.succeed s segment body.length) segment.text s.suspended v
    rw [recorded, unfailed] at kept
    cases saved with
    | error e => cases ran
    | ok u =>
      cases ran
      exact congrArg Option.isSome kept

theorem carryOn_cons (h : Handler (StateM S)) (save : Saver (StateM S)) {p : Progress}
    (sound : ¬p.execution.fault.isSome = true) (segment : Segment) (rest : List Segment) (w : S) :
    carryOn h save p (segment :: rest) w = match runSegment h save p segment w with
      | ((.error e, p), w) => ((.error e, p), w)
      | ((.ok _, p), w) => carryOn h save p rest w := by
  rw [carryOn, if_neg sound, runSegments, bind_apply]
  rcases ran : runSegment h save p segment w with ⟨⟨r, p'⟩, w'⟩
  rcases r with e | _ | _
  · rfl
  · have stopped := runSegment_fault h save sound segment w ran
    exact (carryOn_of_fault h save stopped rest w').symm
  · have goes := runSegment_fault h save sound segment w ran
    exact (carryOn_of_sound h save goes rest w').symm

theorem carryOn_append (h : Handler (StateM S)) (save : Saver (StateM S)) (p : Progress)
    (first second : List Segment) (w : S) :
    carryOn h save p (first ++ second) w = match carryOn h save p first w with
      | ((.error e, p), w) => ((.error e, p), w)
      | ((.ok (), p), w) => carryOn h save p second w := by
  induction first generalizing p w with
  | nil => rw [carryOn_nil, List.nil_append]
  | cons segment rest ih =>
    by_cases fault : p.execution.fault.isSome = true
    · simp only [carryOn_of_fault h save fault]
    · rw [List.cons_append, carryOn_cons h save fault, carryOn_cons h save fault]
      rcases runSegment h save p segment w with ⟨⟨r, p'⟩, w'⟩
      cases r with
      | error e => rfl
      | ok more => exact ih p' w'

/-- A text has been moved from the pending code to the executed code; the execution is still the
    same and still open. -/
structure Moved (text : List Char) (p p' : Progress) : Prop where
  id : p'.execution.id = p.execution.id
  finalized : p'.execution.finalized = p.execution.finalized
  executed : p'.execution.executed = p.execution.executed ++ String.ofList text
  pending : p'.execution.pending = String.ofList (p.execution.pending.toList.drop text.length)

namespace Moved

theorem refl (p : Progress) : Moved [] p p := ⟨rfl, rfl, by simp, by simp⟩

theorem trans {a b : List Char} {p q r : Progress} (first : Moved a p q) (second : Moved b q r) :
    Moved (a ++ b) p r := by
  refine ⟨second.id.trans first.id, second.finalized.trans first.finalized, ?_, ?_⟩
  · rw [second.executed, first.executed, String.ofList_append, String.append_assoc]
  · rw [second.pending, first.pending, String.toList_ofList, List.drop_drop, List.length_append]

theorem full {text : List Char} {p p' : Progress} (moved : Moved text p p')
    (front : text <+: p.execution.pending.toList) : p'.execution.full = p.execution.full := by
  obtain ⟨rest, split⟩ := front
  have pending : p.execution.pending = String.ofList text ++ String.ofList rest := by
    rw [← String.ofList_append, split, String.ofList_toList]
  have left : p'.execution.pending = String.ofList rest := by
    rw [moved.pending, ← split, List.drop_left]
  simp only [Execution.full, moved.executed, left, pending, String.append_assoc]

end Moved

theorem record_moved (save : Saver (StateM S)) (p : Progress) (text : List Char)
    (suspended : Bool) (w : S) : Moved [] p (record save p text suspended w).1.2 :=
  record_elim save p text suspended w (motive := fun r => Moved [] p r.1.2)
    (fun _ => .refl p) (fun _ _ _ _ _ _ => .refl p)
    (fun _ _ _ _ _ _ => ⟨rfl, rfl, by simp [saved], by simp [saved]⟩)

theorem runSegment_moved (h : Handler (StateM S)) (save : Saver (StateM S)) (p : Progress)
    (segment : Segment) (w : S) {r : Except StoreError Bool} {p' : Progress} {w' : S}
    (ran : runSegment h save p segment w = ((r, p'), w')) :
    Moved (if r = .ok false then [] else segment.text) p p' := by
  revert ran
  refine runSegment_elim h save p segment w (motive := fun x => x = ((r, p'), w') →
    Moved (if r = .ok false then [] else segment.text) p p') ?_ ?_ ?_ ?_
  · intro _ ran
    cases ran
    exact ⟨rfl, rfl, rfl, rfl⟩
  · intro err _ _ ran
    cases ran
    exact ⟨rfl, rfl, by simp [withFault], by simp [withFault]⟩
  · intro body fault s v _ _ _ ran
    cases ran
    exact ⟨rfl, rfl, by simp [fail, withFault, Execution.absorb],
      by simp [fail, withFault, Execution.absorb]⟩
  · intro body s v saved q u _ _ _ recorded ran
    have succeeded : Moved segment.text p (p.succeed s segment body.length) :=
      ⟨rfl, rfl, rfl, rfl⟩
    have kept := record_moved save (p.succeed s segment body.length) segment.text s.suspended v
    rw [recorded] at kept
    cases saved <;> cases ran <;> simpa [Except.map] using succeeded.trans kept

theorem carryOn_moved (h : Handler (StateM S)) (save : Saver (StateM S)) (p : Progress)
    (segs : List Segment) (w : S) {r : Except StoreError Unit} {p' : Progress} {w' : S}
    (ran : carryOn h save p segs w = ((r, p'), w')) :
    ∃ done left, segs = done ++ left ∧ Moved (covered done) p p' ∧
      (r = .ok () → p'.execution.fault.isSome = false → left = []) := by
  induction segs generalizing p w with
  | nil =>
    rw [carryOn_nil] at ran
    cases ran
    exact ⟨[], [], rfl, .refl _, fun _ _ => rfl⟩
  | cons segment rest ih =>
    by_cases fault : p.execution.fault.isSome = true
    · rw [carryOn_of_fault h save fault] at ran
      cases ran
      exact ⟨[], segment :: rest, rfl, .refl _, by simp [fault]⟩
    rw [carryOn_cons h save fault] at ran
    rcases one : runSegment h save p segment w with ⟨⟨more, q⟩, v⟩
    rw [one] at ran
    have moved := runSegment_moved h save p segment w one
    rcases more with e | _ | _
    · cases ran
      exact ⟨[segment], rest, rfl, by simpa using moved, by simp⟩
    · -- The text of a segment that has met a fault is left where it was.
      have stopped := runSegment_fault h save fault segment w one
      simp only [carryOn_of_fault h save stopped] at ran
      cases ran
      exact ⟨[], segment :: rest, rfl, by simpa using moved, by simp [stopped]⟩
    · obtain ⟨done, left, split, later, all⟩ := ih q v ran
      refine ⟨segment :: done, left, by rw [split, List.cons_append], ?_, all⟩
      exact Moved.trans (by simpa using moved) later

theorem carryOn_finalized (h : Handler (StateM S)) (save : Saver (StateM S)) (p : Progress)
    (segs : List Segment) (w : S) {r : Except StoreError Unit} {p' : Progress} {w' : S}
    (ran : carryOn h save p segs w = ((r, p'), w')) :
    p'.execution.finalized = p.execution.finalized := by
  obtain ⟨done, left, -, moved, -⟩ := carryOn_moved h save p segs w ran
  exact moved.finalized

section Refusals
variable {save : Saver (StateM S)} {bad : S → Prop}

theorem record_refused_of_error
    (refusals : ∀ f r w e w', save = some f → f r w = (.error e, w') → bad w') {p : Progress}
    {text : List Char} {suspended : Bool} {w : S} {e : StoreError} {p' : Progress} {w' : S}
    (ran : record save p text suspended w = ((.error e, p'), w')) : bad w' := by
  revert ran
  refine record_elim save p text suspended w
    (motive := fun x => x = ((.error e, p'), w') → bad w') ?_ ?_ ?_
  · intro _ ran
    cases ran
  · intro f e u known _ asked ran
    cases ran
    exact refusals f _ w e w' known asked
  · intro f id u _ _ _ ran
    cases ran

theorem runSegment_refused
    (refusals : ∀ f r w e w', save = some f → f r w = (.error e, w') → bad w')
    (h : Handler (StateM S)) (p : Progress) (segment : Segment) (w : S) {e : StoreError}
    {p' : Progress} {w' : S} (ran : runSegment h save p segment w = ((.error e, p'), w')) :
    bad w' := by
  revert ran
  refine runSegment_elim h save p segment w
    (motive := fun x => x = ((.error e, p'), w') → bad w') ?_ ?_ ?_ ?_
  · intro _ ran
    cases ran
  · intro err _ _ ran
    cases ran
  · intro body fault s u _ _ _ ran
    cases ran
  · intro body s u saved q v _ _ _ recorded ran
    cases saved with
    | ok u => cases ran
    | error e =>
      cases ran
      exact record_refused_of_error refusals recorded

/-- A run fails only when a save does, and right then. -/
theorem carryOn_refused (refusals : ∀ f r w e w', save = some f → f r w = (.error e, w') → bad w')
    (h : Handler (StateM S)) (p : Progress) (segs : List Segment) (w : S) {e : StoreError}
    {p' : Progress} {w' : S} (ran : carryOn h save p segs w = ((.error e, p'), w')) : bad w' := by
  induction segs generalizing p w with
  | nil =>
    rw [carryOn_nil] at ran
    cases ran
  | cons segment rest ih =>
    by_cases fault : p.execution.fault.isSome = true
    · rw [carryOn_of_fault h save fault] at ran
      cases ran
    rw [carryOn_cons h save fault] at ran
    rcases one : runSegment h save p segment w with ⟨⟨more, q⟩, v⟩
    rw [one] at ran
    cases more with
    | error e =>
      cases ran
      exact runSegment_refused refusals h p segment w one
    | ok more => exact ih q v ran

end Refusals

end Progress
end Playbook.Script
