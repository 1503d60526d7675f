import Playbook.Proofs.Execution.Attempts
import Playbook.Proofs.Execution.Recovery

/- How far an execution has come along its code, whatever saves have failed: where a run over the
   first segments comes to that saves nothing. As long as there is no fault, what is pending and
   what is still to come are the rest of the segments. -/
namespace Playbook.Script
variable {S T : Type}

namespace Coupling
variable (K : Coupling S T)

/-- Whatever becomes of a save, nothing else changes by it. -/
def Loses (save : Saver (StateM S)) : Prop :=
  ∀ p q w v text suspended, K.Progresses False p q → K.worlds w v →
    K.Progresses False (Progress.record save p text suspended w).1.2 q ∧
      K.worlds (Progress.record save p text suspended w).2 v

/-- The progress is what a run over the segments comes to that saves nothing. -/
def Reaches (g : Handler (StateM T)) (q : Progress) (v : T) (segs : List Segment) (p : Progress)
    (w : S) : Prop :=
  ∃ q' v', Progress.carryOn g none q segs v = ((.ok (), q'), v') ∧ K.Progresses False p q' ∧
    K.worlds w v'

variable {K} {h : Handler (StateM S)} {g : Handler (StateM T)} {save : Saver (StateM S)}

theorem runSegment_reaches (H : K.Handlers h g) (L : K.Loses save) {p q : Progress} {w : S} {v : T}
    (same : K.Progresses False p q) (worlds : K.worlds w v) (segment : Segment)
    {r : Except StoreError Bool} {p' : Progress} {w' : S}
    (ran : Progress.runSegment h save p segment w = ((r, p'), w')) :
    ∃ more q' v', Progress.runSegment g none q segment v = ((.ok more, q'), v') ∧
      K.Progresses False p' q' ∧ K.worlds w' v' := by
  revert ran
  apply runSegment_both H same worlds segment (motive := fun x y => x = ((r, p'), w') →
    ∃ more q' v', y = ((.ok more, q'), v') ∧ K.Progresses False p' q' ∧ K.worlds w' v')
  · intro more p₁ q₁ w₁ v₁ related worlds₁ ran
    cases ran
    exact ⟨more, q₁, v₁, rfl, related, worlds₁⟩
  · intro p₁ q₁ w₁ v₁ suspended related worlds₁ ran
    have lost := L p₁ q₁ w₁ v₁ segment.text suspended related worlds₁
    cases ran
    exact ⟨true, q₁, v₁, rfl, lost⟩

/-- A run has come to what a run over its first segments comes to. It has left out some of them only
    if a save has failed or a fault has been met. -/
theorem carryOn_reaches (H : K.Handlers h g) (L : K.Loses save) {p q : Progress} {w : S} {v : T}
    (same : K.Progresses False p q) (worlds : K.worlds w v) (segs : List Segment)
    {r : Except StoreError Unit} {p' : Progress} {w' : S}
    (ran : Progress.carryOn h save p segs w = ((r, p'), w')) :
    ∃ done left, segs = done ++ left ∧ K.Reaches g q v done p' w' ∧
      (p'.execution.fault = none →
        Progress.Moved (covered done) p p' ∧ (r = .ok () → left = [])) := by
  induction segs generalizing p q w v with
  | nil =>
    rw [Progress.carryOn_nil] at ran
    cases ran
    exact ⟨[], [], rfl, ⟨q, v, Progress.carryOn_nil g none q v, same, worlds⟩,
      fun _ => ⟨.refl _, fun _ => rfl⟩⟩
  | cons segment rest ih =>
    by_cases fault : p.execution.fault.isSome = true
    · rw [Progress.carryOn_of_fault h save fault] at ran
      cases ran
      refine ⟨[], _, rfl, ⟨q, v, Progress.carryOn_nil g none q v, same, worlds⟩, ?_⟩
      intro sound
      simp [sound] at fault
    have fault' := same.fault ▸ fault
    rw [Progress.carryOn_cons h save fault] at ran
    rcases one : Progress.runSegment h save p segment w with ⟨⟨more, p₁⟩, w₁⟩
    rw [one] at ran
    obtain ⟨more', q₁, v₁, one', same₁, worlds₁⟩ := runSegment_reaches H L same worlds segment one
    have moved := Progress.runSegment_moved h save p segment w one
    have onward (done : List Segment) : Progress.carryOn g none q (segment :: done) v =
        Progress.carryOn g none q₁ done v₁ := by
      rw [Progress.carryOn_cons g none fault', one']
    rcases more with e | _ | _
    · cases ran
      refine ⟨[segment], rest, rfl, ⟨q₁, v₁, ?_, same₁, worlds₁⟩, fun _ => ⟨?_, nofun⟩⟩
      · rw [onward, Progress.carryOn_nil]
      · simpa using moved
    · have stopped := Progress.runSegment_fault h save fault segment w one
      simp only [Progress.carryOn_of_fault h save stopped] at ran
      cases ran
      refine ⟨[segment], rest, rfl, ⟨q₁, v₁, ?_, same₁, worlds₁⟩, fun sound => ?_⟩
      · rw [onward, Progress.carryOn_nil]
      · simp [sound] at stopped
    · obtain ⟨done, left, split, ⟨q', v', run, related, worlds'⟩, all⟩ := ih same₁ worlds₁ ran
      refine ⟨segment :: done, left, by rw [split, List.cons_append],
        ⟨q', v', by rw [onward, run], related, worlds'⟩, fun sound => ?_⟩
      obtain ⟨moved', none⟩ := all sound
      exact ⟨Progress.Moved.trans (by simpa using moved) moved', none⟩

namespace Reaches
variable {q : Progress} {v : T} {done : List Segment} {p : Progress} {w : S}

theorem of_fault (reached : K.Reaches g q v done p w) (fault : p.execution.fault.isSome = true)
    (left : List Segment) : K.Reaches g q v (done ++ left) p w := by
  obtain ⟨q', v', run, same, worlds⟩ := reached
  refine ⟨q', v', ?_, same, worlds⟩
  rw [Progress.carryOn_append, run]
  exact Progress.carryOn_of_fault g none (same.fault ▸ fault) left v'

theorem append (H : K.Handlers h g) (L : K.Loses save) (reached : K.Reaches g q v done p w)
    (segs : List Segment) {r : Except StoreError Unit} {p' : Progress} {w' : S}
    (ran : Progress.carryOn h save p segs w = ((r, p'), w')) :
    ∃ now left, segs = now ++ left ∧ K.Reaches g q v (done ++ now) p' w' ∧
      (p'.execution.fault = none →
        Progress.Moved (covered now) p p' ∧ (r = .ok () → left = [])) := by
  obtain ⟨q', v', run, same, worlds⟩ := reached
  obtain ⟨now, left, split, ⟨q'', v'', more, related⟩, all⟩ :=
    carryOn_reaches H L same worlds segs ran
  refine ⟨now, left, split, ⟨q'', v'', ?_, related⟩, all⟩
  rw [Progress.carryOn_append, run]
  exact more

end Reaches

/-- The progress has come some way over the segments of the code, and as long as there is no fault,
    what is pending and what is still to come are the rest of them. -/
structure Along (K : Coupling S T) (g : Handler (StateM T)) (q : Progress) (v : T) (finished : Bool)
    (code more : List Char) (p : Progress) (w : S) : Prop where
  opened : p.execution.finalized = false
  way : ∃ done left, segments finished code = done ++ left ∧ K.Reaches g q v done p w ∧
    (p.execution.fault = none →
      p.execution.executed = q.execution.executed ++ String.ofList (covered done) ∧
      segments finished (p.execution.pending.toList ++ more) = left)

namespace Along
variable {q p p' : Progress} {v : T} {w w' : S} {finished : Bool} {code more : List Char}

theorem receive {chunk : String} (along : K.Along g q v finished code (chunk.toList ++ more) p w) :
    K.Along g q v finished code more (p.receive chunk) w where
  opened := along.opened
  way := by
    obtain ⟨done, left, split, ⟨q', v', run, same, worlds⟩, rest⟩ := along.way
    refine ⟨done, left, split, ⟨q', v', run, { same with }, worlds⟩, fun sound => ?_⟩
    obtain ⟨executed, pending⟩ := rest sound
    refine ⟨executed, ?_⟩
    rw [← pending]
    simp [Progress.receive]

theorem carryOn (H : K.Handlers h g) (L : K.Loses save)
    (along : K.Along g q v finished code more p w) {r : Except StoreError Unit}
    (ran : Progress.carryOn h save p (segments false p.execution.pending.toList) w =
      ((r, p'), w')) : K.Along g q v finished code more p' w' where
  opened := (Progress.carryOn_finalized h save _ _ w ran).trans along.opened
  way := by
    obtain ⟨done, left, split, reached, rest⟩ := along.way
    by_cases fault : p.execution.fault.isSome = true
    · rw [Progress.carryOn_of_fault h save fault] at ran
      cases ran
      exact ⟨done, left, split, reached, rest⟩
    obtain ⟨executed, pending⟩ := rest (by simpa using fault)
    obtain ⟨now, later, cut, reached', all⟩ := reached.append H L _ ran
    have onward : segments finished (p.execution.pending.toList ++ more) =
        now ++ (later ++ segments finished (heldBack p.execution.pending.toList ++ more)) := by
      rw [segments_append, cut, List.append_assoc]
    refine ⟨done ++ now, _, by rw [split, ← pending, onward, List.append_assoc], reached', ?_⟩
    intro sound
    obtain ⟨moved, -⟩ := all sound
    have front : covered now <+: p.execution.pending.toList := by
      refine List.IsPrefix.trans ?_ (covered_segments_isPrefix false _)
      rw [cut, covered_append]
      exact List.prefix_append _ _
    constructor
    · rw [moved.executed, executed, covered_append, String.ofList_append, String.append_assoc]
    · rw [moved.pending, String.toList_ofList,
        ← List.drop_append_of_le_length front.length_le, segments_drop finished _ onward]

theorem finish (H : K.Handlers h g) (L : K.Loses save) (along : K.Along g q v true code [] p w)
    (ran : Progress.carryOn h save p (segments true p.execution.pending.toList) w =
      ((.ok (), p'), w')) : K.Reaches g q v (segments true code) p' w' := by
  obtain ⟨done, left, split, reached, rest⟩ := along.way
  rw [split]
  by_cases fault : p.execution.fault.isSome = true
  · rw [Progress.carryOn_of_fault h save fault] at ran
    cases ran
    exact reached.of_fault fault left
  obtain ⟨-, pending⟩ := rest (by simpa using fault)
  rw [List.append_nil] at pending
  obtain ⟨now, later, cut, reached', all⟩ := reached.append H L _ ran
  rw [← pending, cut, ← List.append_assoc]
  by_cases fault' : p'.execution.fault.isSome = true
  · exact reached'.of_fault fault' later
  · rw [(all (by simpa using fault')).2 rfl, List.append_nil]
    exact reached'

end Along
section Inputs
variable {q p : Progress} {v : T} {w : S} {finished : Bool} {code more : List Char}

theorem Along.start {p : Progress} (same : K.Progresses False p q) (worlds : K.worlds w v)
    (opened : p.execution.finalized = false)
    (whole : p.execution.pending.toList ++ more = code) :
    K.Along g q v finished code more p w where
  opened := opened
  way := by
    refine ⟨[], _, rfl, ⟨q, v, Progress.carryOn_nil g none q v, same, worlds⟩, fun _ => ⟨?_, ?_⟩⟩
    · rw [same.executed, covered_nil]
      simp
    · rw [whole]

theorem Along.takeAll (H : K.Handlers h g) (L : K.Loses save) (chunks : List String)
    (along : K.Along g q v finished code ((String.join chunks).toList ++ more) p w) :
    K.Along g q v finished code more (Progress.takeAll h save p (chunks.map .chunk) w).1
      (Progress.takeAll h save p (chunks.map .chunk) w).2 := by
  induction chunks generalizing p w with
  | nil =>
    rw [String.join_nil, String.toList_empty, List.nil_append] at along
    exact along
  | cons chunk rest ih =>
    rw [String.join_cons, String.toList_append, List.append_assoc] at along
    have received := along.receive
    rw [List.map_cons, Progress.takeAll, bind_apply, Progress.take,
      Progress.addChunk_eq_carryOn h save along.opened]
    rcases ran : Progress.carryOn h save (p.receive chunk)
      (segments false (p.receive chunk).execution.pending.toList) w with ⟨⟨r, p'⟩, w'⟩
    exact ih (received.carryOn H L ran)

theorem Along.conclude (H : K.Handlers h g) (L : K.Loses save)
    (along : K.Along g q v true code [] p w) {s : Summary} {p' : Progress} {w' : S}
    (ran : Progress.finalize h save p w = ((.ok s, p'), w')) :
    s = p'.execution.summary ∧ K.Reaches g q v (segments true code) p' w' := by
  rw [Progress.finalize_eq_carryOn h save along.opened] at ran
  rcases one : Progress.carryOn h save p (segments true p.execution.pending.toList) w
    with ⟨⟨r, p₁⟩, w₁⟩
  rw [one] at ran
  cases r with
  | error e => cases ran
  | ok u =>
    cases ran
    obtain ⟨q', v', run, same, worlds⟩ := along.finish H L one
    exact ⟨rfl, q', v', run, { same with }, worlds⟩

end Inputs
end Coupling

namespace Surroundings
variable {σ τ : Type}

def answering (σ τ : Type) : Coupling (Surroundings σ τ) (Surroundings σ Unit) :=
  .equal (After []) (fun _ => True) (fun _ _ _ => trivial) (fun _ _ => trivial)

theorem answering_handlers (h : Handler (StateM σ)) :
    (answering σ τ).Handlers (noting h) (noting h) where
  suspend := by
    rintro a b w v ⟨rfl, -⟩ worlds c
    rw [noting_suspend, noting_suspend, worlds.outside]
    exact ⟨rfl, ⟨rfl, trivial⟩, rfl, congrArg (· ++ _) worlds.calls⟩
  hostFunction := by
    rintro a b w v ⟨rfl, -⟩ worlds name args
    rw [noting_hostFunction, noting_hostFunction, worlds.outside]
    exact ⟨rfl, ⟨rfl, trivial⟩, rfl, congrArg (· ++ _) worlds.calls⟩
  reserved := by
    rintro a b w v ⟨rfl, -⟩ worlds name
    rw [noting_reserved, noting_reserved, worlds.outside]
    exact ⟨rfl, rfl, worlds.calls⟩

theorem answering_loses (store : Option (CheckpointStore τ)) (clock : Nat → String) :
    (answering σ τ).Loses (keeping store clock) := by
  intro p q w v text suspended same worlds
  refine Progress.record_elim (keeping store clock) p text suspended w (motive := fun x =>
    (answering σ τ).Progresses False x.1.2 q ∧ (answering σ τ).worlds x.2 v) ?_ ?_ ?_
  · intro _
    exact ⟨same, worlds⟩
  · intro f e u known _ asked
    obtain ⟨store, rfl, rfl⟩ := Option.map_eq_some_iff.1 known
    simp only [save] at asked
    split at asked
    · cases asked
    · cases asked
      exact ⟨same, worlds.outside, worlds.calls⟩
  · intro f id u known _ asked
    obtain ⟨store, rfl, rfl⟩ := Option.map_eq_some_iff.1 known
    obtain ⟨-, outside, calls, -, -⟩ := save_of_ok asked
    refine ⟨{ same with checkpoints := False.elim }, outside.trans worlds.outside, ?_⟩
    rw [calls]
    exact worlds.calls

end Surroundings

namespace Setting
variable {σ τ : Type} (x : Setting σ τ)

def fresh : Progress := ⟨.start x.id x.names, x.agent⟩

def aside : Surroundings σ Unit := .start x.outside x.manager ()

def after (inputs : List Input) : Progress × Surroundings σ τ :=
  x.fresh.takeAll (Surroundings.noting x.handler) x.saver inputs x.surroundings

variable {x}

theorem fresh_along (code : List Char) (finished : Bool) :
    (Surroundings.answering σ τ).Along (Surroundings.noting x.handler) x.fresh x.aside finished
      code code x.fresh x.surroundings := by
  have same : (Surroundings.answering σ τ).Progresses False x.fresh x.fresh :=
    ⟨rfl, rfl, rfl, rfl, ⟨rfl, trivial⟩, False.elim, False.elim, False.elim⟩
  have worlds : Surroundings.After [] x.surroundings x.aside := ⟨rfl, rfl⟩
  apply Coupling.Along.start same worlds rfl
  have nothing : x.fresh.execution.pending = "" := rfl
  rw [nothing, String.toList_empty, List.nil_append]

end Setting
end Playbook.Script
