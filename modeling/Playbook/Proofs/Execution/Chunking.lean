import Playbook.Proofs.Execution.Surroundings

/- Where code is cut does not matter. Every stream is compared with one run over the statements of
   the whole code, beside a store that never refuses; two streams of the same code therefore come to
   the same. -/
namespace Playbook.Script
variable {σ τ : Type}

attribute [ext] Execution Progress

namespace Surroundings

/-- The same calls have been answered, and checkpoints that agree have been saved. -/
structure Alongside {τ' : Type} (w : Surroundings σ τ) (v : Surroundings σ τ') : Prop where
  outside : w.outside = v.outside
  calls : w.calls = v.calls
  manager : w.manager = v.manager
  saved : List.Forall₂ Checkpoint.Agrees w.saved v.saved

theorem Alongside.through {τ₁ τ₂ τ₃ : Type} {w : Surroundings σ τ₁} {u : Surroundings σ τ₂}
    {v : Surroundings σ τ₃} (first : w.Alongside v) (second : u.Alongside v) : w.Alongside u :=
  ⟨first.outside.trans second.outside.symm, first.calls.trans second.calls.symm,
    first.manager.trans second.manager.symm, agrees_through first.saved second.saved⟩

def besides (σ τ : Type) : Coupling (Surroundings σ τ) (Surroundings σ Unit) :=
  .equal Alongside (fun _ => True) (fun _ _ _ => trivial) (fun _ _ => trivial)

theorem besides_handlers (h : Handler (StateM σ)) :
    (besides σ τ).Handlers (noting h) (noting h) where
  suspend := by
    rintro a b w v ⟨rfl, -⟩ worlds c
    rw [noting_suspend, noting_suspend, worlds.outside]
    exact ⟨rfl, ⟨rfl, trivial⟩, rfl, congrArg (· ++ _) worlds.calls, worlds.manager, worlds.saved⟩
  hostFunction := by
    rintro a b w v ⟨rfl, -⟩ worlds name args
    rw [noting_hostFunction, noting_hostFunction, worlds.outside]
    exact ⟨rfl, ⟨rfl, trivial⟩, rfl, congrArg (· ++ _) worlds.calls, worlds.manager, worlds.saved⟩
  reserved := by
    rintro a b w v ⟨rfl, -⟩ worlds name
    rw [noting_reserved, noting_reserved, worlds.outside]
    exact ⟨rfl, rfl, worlds.calls, worlds.manager, worlds.saved⟩

theorem save_boundless (clock : Nat → String) (r : SaveRequest) (w : Surroundings σ Unit) :
    (save .boundless clock r w).1 =
      .ok ⟨w.manager.execution, (w.manager.last + 1) % UInt64.size⟩ := by
  simp only [save, CheckpointManager.save_boundless]

theorem alongside_of_saves {store : CheckpointStore τ} {clock clock' : Nat → String}
    {p q : Progress}
    {w w' : Surroundings σ τ} {v : Surroundings σ Unit} (text : List Char) {id : CheckpointId}
    (same : (besides σ τ).Progresses True p q) (worlds : w.Alongside v)
    (asked : save store clock (p.execution.request p.agent text) w = (.ok id, w')) :
    ∃ v', save .boundless clock' (q.execution.request q.agent text) v = (.ok id, v') ∧
      w'.Alongside v' := by
  have kept := save_boundless clock' (q.execution.request q.agent text) v
  rcases asked' : save .boundless clock' (q.execution.request q.agent text) v with ⟨r, v'⟩
  rw [asked'] at kept
  simp only at kept
  subst kept
  obtain ⟨number, outside, calls, manager, saved⟩ := save_of_ok asked
  obtain ⟨-, outside', calls', manager', saved'⟩ := save_of_ok asked'
  rw [worlds.manager] at number manager
  subst number
  refine ⟨v', rfl, ?_, ?_, ?_, ?_⟩
  · rw [outside, outside', worlds.outside]
  · rw [calls, calls', worlds.calls]
  · rw [manager, manager']
  · rw [saved, saved']
    refine List.rel_append worlds.saved (.cons ?_ .nil)
    have agents : p.agent = q.agent := same.agents.1
    constructor
    all_goals
      simp only [CheckpointManager.dataFor, Execution.request, same.names, same.executed, agents]

def unfailing (store : Option (CheckpointStore τ)) : Saver (StateM (Surroundings σ Unit)) :=
  keeping (store.map fun _ => .boundless) fun _ => ""

theorem besides_savers (store : Option (CheckpointStore τ)) (clock : Nat → String) :
    (besides σ τ).Savers True (keeping store clock) (unfailing store) := by
  intro p q w v text suspended same worlds ran
  cases store with
  | none => exact ⟨rfl, same, worlds⟩
  | some store =>
    cases suspended with
    | false => exact ⟨rfl, same, worlds⟩
    | true =>
      rcases asked : save store clock (p.execution.request p.agent text) w with ⟨r, w'⟩
      cases r with
      | error e =>
        have refused : Progress.record (keeping (some store) clock) p text true w =
            ((.error e, p), w') := Progress.record_refused asked
        rw [refused] at ran
        cases ran
      | ok id =>
        obtain ⟨v', asked', worlds'⟩ := alongside_of_saves text same worlds asked
        have kept : Progress.record (keeping (some store) clock) p text true w =
            ((.ok (), p.saved id), w') := Progress.record_saved asked
        have kept' : Progress.record (unfailing (some store)) q text true v =
            ((.ok (), q.saved id), v') := Progress.record_saved asked'
        rw [kept, kept']
        refine ⟨rfl, { same with checkpoints := fun known => ?_ }, worlds'⟩
        exact congrArg (· ++ [id]) (same.checkpoints known)

/-- Two streams that have come to the same. -/
structure SameRun (x y : (Except ExecutionError Summary × Progress) × Surroundings σ τ) : Prop where
  summary : ∃ s, x.1.1 = .ok s ∧ y.1.1 = .ok s
  progress : x.1.2 = y.1.2
  alongside : x.2.Alongside y.2

theorem pending_eq_of_full {e f : Execution} (executed : e.executed = f.executed)
    (full : e.full = f.full) : e.pending = f.pending := by
  have chars := congrArg String.toList full
  simp only [Execution.full, executed, String.toList_append] at chars
  exact String.toList_inj.1 (List.append_cancel_left chars)

theorem progress_eq {code : String} {p : Progress}
    {x y : (Except ExecutionError Summary × Progress) × Surroundings σ τ}
    {z : (Except StoreError Unit × Progress) × Surroundings σ Unit}
    (first : (besides σ τ).Streamed True p code x z)
    (second : (besides σ τ).Streamed True p code y z) : x.1.2 = y.1.2 := by
  have left := first.progresses
  have right := second.progresses
  have executed := left.executed.trans right.executed.symm
  have full := first.full.trans second.full.symm
  refine Progress.ext (Execution.ext ?_ ?_ executed ?_ ?_ ?_ ?_ ?_ ?_ ?_) ?_
  · exact first.id.trans second.id.symm
  · exact left.names.trans right.names.symm
  · exact pending_eq_of_full executed full
  · exact (left.last trivial).trans (right.last trivial).symm
  · exact left.returned.trans right.returned.symm
  · exact left.fault.trans right.fault.symm
  · exact (left.statements trivial).trans (right.statements trivial).symm
  · exact (left.checkpoints trivial).trans (right.checkpoints trivial).symm
  · exact first.finalized.trans second.finalized.symm
  · exact left.agents.1.trans right.agents.1.symm

/-- A stream all of whose checkpoints are saved does what the statements of its code do one after
    the other. -/
theorem stream_besides (h : Handler (StateM σ)) (store : Option (CheckpointStore τ))
    (clock : Nat → String) {p q : Progress} (opened : p.execution.finalized = false)
    (chunks : List String) {w : Surroundings σ τ} {v : Surroundings σ Unit}
    (same : (besides σ τ).Progresses True p q) (worlds : w.Alongside v)
    (kept : (p.stream (noting h) (keeping store clock) chunks w).2.refused = []) :
    (besides σ τ).Streamed True p (String.join chunks)
      (p.stream (noting h) (keeping store clock) chunks w)
      (q.carryOn (noting h) (unfailing store)
        (segments true (p.execution.pending ++ String.join chunks).toList) v) := by
  cases ran : (p.stream (noting h) (keeping store clock) chunks w).1.1 with
  | error e => exact absurd kept (refused_of_error h store clock opened chunks w ran)
  | ok s =>
    exact Coupling.stream_coupled (besides_handlers h) (besides_savers store clock) same worlds
      opened chunks ran

/-- Wherever the code is cut, a stream comes to what the code comes to in one piece. Only the times
    of the checkpoints and what had come in when they were taken may differ. -/
theorem cuts_make_no_difference (x : Setting σ τ) (clock : Nat → String) (chunks : List String)
    (kept : (x.stream chunks).2.refused = [])
    (whole : ({ x with clock }.stream [String.join chunks]).2.refused = []) :
    SameRun (x.stream chunks) ({ x with clock }.stream [String.join chunks]) := by
  -- Both streams are compared with the same run beside the store that never refuses.
  have same : (besides σ τ).Progresses True ⟨.start x.id x.names, x.agent⟩
      ⟨.start x.id x.names, x.agent⟩ :=
    ⟨rfl, rfl, rfl, rfl, ⟨rfl, trivial⟩, fun _ => rfl, fun _ => rfl, fun _ => rfl⟩
  have worlds : x.surroundings.Alongside (Surroundings.start x.outside x.manager ()) :=
    ⟨rfl, rfl, rfl, .nil⟩
  have first := stream_besides x.handler x.store x.clock rfl chunks same worlds kept
  have second := stream_besides x.handler x.store clock rfl [String.join chunks] same worlds whole
  rw [String.join_cons, String.join_nil, String.append_empty] at second
  have progress := progress_eq first second
  have summary : (x.stream chunks).1.2.execution.summary = _ :=
    congrArg (fun p : Progress => p.execution.summary) progress
  exact ⟨⟨_, first.outcome.trans (congrArg Except.ok summary), second.outcome⟩, progress,
    first.worlds.through second.worlds⟩

/-- A cut inside a string, nothing, and a cut before the end of a line. -/
theorem cuts_make_no_difference_in_a_string :
    SameRun (Setting.prepared.stream ["Say(\"us", "", "er\", \"hi\")\nx = 1", "\n"])
      ({ Setting.prepared with clock := fun _ => "friday" }.stream
        [String.join ["Say(\"us", "", "er\", \"hi\")\nx = 1", "\n"]]) :=
  cuts_make_no_difference Setting.prepared (fun _ => "friday") _ (by decide +kernel)
    (by decide +kernel)

end Surroundings
end Playbook.Script
