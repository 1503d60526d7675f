import Playbook.Proofs.Execution.Written
import Playbook.Proofs.Restoring

/- A run that is broken off after a checkpoint and resumed from it does the same as one that is not
   broken off. What a checkpoint leaves out is which executions drive the frames of the agent, so
   the handler is taken to answer without regard to them. -/
namespace Playbook

/-- The agent in frames that nothing drives. -/
def AgentState.undriven (a : AgentState) : AgentState :=
  { a with stack := a.stack.map fun f => { f with execution := none } }

theorem AgentState.undriven_undriven (a : AgentState) : a.undriven.undriven = a.undriven := by
  simp [AgentState.undriven]

theorem CallStack.map_advance (stack : CallStack) (step : String) :
    (stack.advance step).map (fun f => { f with execution := none }) =
      CallStack.advance (stack.map fun f => { f with execution := none }) step := by
  unfold CallStack.advance
  induction stack with
  | nil => rfl
  | cons frame rest ih =>
    cases rest with
    | nil => rfl
    | cons next more =>
      simp only [CallStack.modifyInnermost, List.map_cons] at ih ⊢
      rw [ih]

/-- A fresh agent in the state of a snapshot is the agent that the snapshot was taken of. -/
theorem AgentState.restore_snapshot {a : AgentState} (sorted : a.vars.Sorted)
    (vars : a.vars.Storable) (locals : ∀ f ∈ a.stack, f.locals.Storable) :
    (AgentState.fresh a.id a.klass).restore a.snapshot = a.undriven := by
  have frames : CallStack.ofSnapshot a.stack.snapshot =
      a.stack.map fun f => { f with execution := none } := by
    simp only [CallStack.ofSnapshot, CallStack.snapshot, List.map_map]
    apply List.map_congr_left
    intro f mem
    simp only [Function.comp_apply, Frame.snapshot, FrameSnapshot.toFrame,
      Namespace.ofJson_toJson (locals f mem)]
  have declared : Dict.union [] a.vars = a.vars := Dict.union_of_sorted sorted
  have subagents : (if a.snapshot.agents.isEmpty then [] else a.snapshot.agents) = a.agents := by
    split
    · rename_i none
      exact (List.isEmpty_iff.1 none).symm
    · rfl
  have read : Namespace.ofJson a.snapshot.vars = a.vars := Namespace.ofJson_toJson vars
  simp only [AgentState.restore, AgentState.fresh, read, subagents, declared]
  exact congrArg (fun stack => { a with stack }) frames

namespace Script

/-- Agents that differ at most in what drives their frames. -/
def Coupling.undriven {S T : Type} (worlds : S → T → Prop) : Coupling S T where
  agents a b := a.undriven = b.undriven ∧ a.vars.Sorted
  worlds := worlds
  vars h name := by
    have declared := congrArg (fun c : AgentState => c.vars.get? name) h.1
    exact declared
  pointers h := by
    have frames := congrArg (fun c : AgentState => c.stack.map (·.pointer)) h.1
    simp only [AgentState.undriven, List.map_map] at frames
    exact frames
  set h name v := by
    have changed := congrArg (fun c : AgentState => c.set name v) h.1
    exact ⟨changed, Dict.sorted_insert h.2 name v⟩
  advance {a b} h step := by
    refine ⟨?_, h.2⟩
    have moved := congrArg
      (fun c : AgentState => { c with stack := c.stack.advance step }) h.1
    simpa only [AgentState.undriven, CallStack.map_advance] using moved

namespace Surroundings
variable {σ τ S T : Type}

structure After (before : List NotedCall) (w : Surroundings σ τ) (v : Surroundings σ Unit) :
    Prop where
  outside : w.outside = v.outside
  calls : v.calls = before ++ w.calls

theorem after_handlers {h : Handler (StateM σ)} (blind : (Coupling.undriven Eq).Handlers h h)
    (before : List NotedCall) :
    (Coupling.undriven (After (τ := τ) before)).Handlers (noting h) (noting h) where
  suspend := by
    intro a b w v agents worlds c
    obtain ⟨answer, agents', outside⟩ := blind.suspend agents worlds.outside c
    refine ⟨answer, agents', outside, ?_⟩
    simp only [noting_suspend, answered, worlds.calls, List.append_assoc]
  hostFunction := by
    intro a b w v agents worlds name args
    obtain ⟨answer, agents', outside⟩ := blind.hostFunction agents worlds.outside name args
    refine ⟨answer, agents', outside, ?_⟩
    simp only [noting_hostFunction, answered, worlds.calls, List.append_assoc]
  reserved := by
    intro a b w v agents worlds name
    obtain ⟨view, outside⟩ := blind.reserved agents worlds.outside name
    exact ⟨view, outside, worlds.calls⟩

theorem after_savers (before : List NotedCall) (store : Option (CheckpointStore τ))
    (clock : Nat → String) :
    (Coupling.undriven (After (σ := σ) (τ := τ) before)).Savers False (keeping store clock)
      none := by
  intro p q w v text suspended same worlds ran
  revert ran
  refine Progress.record_elim (keeping store clock) p text suspended w (motive := fun x =>
    x.1.1 = .ok () → (Coupling.undriven (After before)).Runs False x
      (Progress.record (none : Saver (StateM (Surroundings σ Unit))) q text suspended v))
    ?_ ?_ ?_
  · intro _ _
    exact ⟨rfl, same, worlds⟩
  · intro f e u known _ asked ran
    cases ran
  · intro f id u known _ asked _
    obtain ⟨store, rfl, rfl⟩ := Option.map_eq_some_iff.1 known
    obtain ⟨-, outside, calls, -, -⟩ := save_of_ok asked
    have outside' : u.outside = v.outside := outside.trans worlds.outside
    have calls' : v.calls = before ++ u.calls := by rw [calls, worlds.calls]
    exact ⟨rfl, { same with checkpoints := False.elim }, outside', calls'⟩

/-- Two runs that have come to the same, the second after calls that it has not made itself. -/
structure SameEnd {τ' : Type} (before : List NotedCall)
    (x : (Except ExecutionError Summary × Progress) × Surroundings σ τ)
    (y : (Except ExecutionError Summary × Progress) × Surroundings σ τ') : Prop where
  summaries : ∃ s s', x.1.1 = .ok s ∧ y.1.1 = .ok s' ∧ s.returned = s'.returned ∧
    s.fault = s'.fault
  names : x.1.2.execution.names = y.1.2.execution.names
  agents : x.1.2.agent.undriven = y.1.2.agent.undriven
  outside : x.2.outside = y.2.outside
  calls : x.2.calls = before ++ y.2.calls

/-- Streams of the same code from coupled starts, of which the second has made only some of the
    calls of the first, come to the same. -/
theorem sameEnd_of_after {τ' : Type} {h : Handler (StateM σ)}
    (blind : (Coupling.undriven Eq).Handlers h h) {store : Option (CheckpointStore τ)}
    {store' : Option (CheckpointStore τ')} {clock clock' : Nat → String} {p q r : Progress}
    {chunks chunks' : List String} {w : Surroundings σ τ} {w' : Surroundings σ τ'}
    {v : Surroundings σ Unit} {before : List NotedCall}
    (opened : p.execution.finalized = false) (opened' : r.execution.finalized = false)
    (same : (Coupling.undriven (After (σ := σ) (τ := τ) [])).Progresses False p q)
    (same' : (Coupling.undriven (After (σ := σ) (τ := τ') before)).Progresses False r q)
    (worlds : After [] w v) (worlds' : After before w' v)
    (code : p.execution.pending ++ String.join chunks = r.execution.pending ++ String.join chunks')
    (kept : (p.stream (noting h) (keeping store clock) chunks w).2.refused = [])
    (kept' : (r.stream (noting h) (keeping store' clock') chunks' w').2.refused = []) :
    SameEnd before (p.stream (noting h) (keeping store clock) chunks w)
      (r.stream (noting h) (keeping store' clock') chunks' w') := by
  cases ran : (p.stream (noting h) (keeping store clock) chunks w).1.1 with
  | error e => exact absurd kept (refused_of_error h store clock opened chunks w ran)
  | ok s =>
    cases ran' : (r.stream (noting h) (keeping store' clock') chunks' w').1.1 with
    | error e => exact absurd kept' (refused_of_error h store' clock' opened' chunks' w' ran')
    | ok s' =>
      have first := Coupling.stream_coupled (after_handlers blind []) (after_savers [] store clock)
        same worlds opened chunks ran
      have second := Coupling.stream_coupled (after_handlers blind before)
        (after_savers before store' clock') same' worlds' opened' chunks' ran'
      rw [code] at first
      have left := first.progresses
      have right := second.progresses
      exact {
        summaries := ⟨_, _, first.outcome, second.outcome,
          left.returned.trans right.returned.symm, left.fault.trans right.fault.symm⟩
        names := left.names.trans right.names.symm
        agents := left.agents.1.trans right.agents.1.symm
        outside := first.worlds.outside.trans second.worlds.outside.symm
        calls := by rw [← second.worlds.calls, first.worlds.calls, List.nil_append] }

/-- A moment at which a checkpoint records everything: the code has not returned, no name is
    private or reserved, and all values can be stored. -/
structure Recordable (q : Progress) : Prop where
  returned : q.execution.returned = none
  shown : q.execution.names.Public
  names : q.execution.names.Storable
  vars : q.agent.vars.Storable
  locals : ∀ f ∈ q.agent.stack, f.locals.Storable

instance (ns : Namespace) : Decidable ns.Storable :=
  inferInstanceAs (Decidable (∀ e ∈ ns, e.2.serializable = true))

instance (ns : Namespace) : Decidable ns.Public :=
  inferInstanceAs (Decidable (∀ e ∈ ns, e.1.startsWith "_" = false ∧ isReserved e.1 = false))

instance (q : Progress) : Decidable (Recordable q) :=
  decidable_of_iff (q.execution.returned = none ∧ q.execution.names.Public ∧
      q.execution.names.Storable ∧ q.agent.vars.Storable ∧ ∀ f ∈ q.agent.stack, f.locals.Storable)
    ⟨fun ⟨r, s, n, v, l⟩ => ⟨r, s, n, v, l⟩, fun ⟨r, s, n, v, l⟩ => ⟨r, s, n, v, l⟩⟩

theorem resumed_coupled {c : Checkpoint} {q r : Progress} (records : Records c q)
    (recordable : Recordable q) (sound : q.execution.fault = none)
    (sorted : q.agent.vars.Sorted) (worlds : S → T → Prop)
    (start : Resumed (.fresh q.agent.id q.agent.klass) c q r) :
    (Coupling.undriven worlds).Progresses False r.withoutPending q where
  names := by
    obtain ⟨text, now, number, data⟩ := records
    rw [← ofJson_storedNames recordable.names recordable.shown]
    simp only [Progress.withoutPending, start.names, data]
    rfl
  executed := start.executed
  returned := start.returned.trans recordable.returned.symm
  fault := start.fault.trans sound.symm
  agents := by
    have restored : r.agent = q.agent.undriven := by
      rw [start.agent, AgentState.restore_snapshot sorted recordable.vars recordable.locals]
    simp only [Progress.withoutPending, restored]
    exact ⟨AgentState.undriven_undriven q.agent, sorted⟩
  last := False.elim
  statements := False.elim
  checkpoints := False.elim

/-- A setting in which a moment of another is taken up: the handler answers as it did there, and the
    agent is new. -/
structure TakesUp {τ' : Type} (y : Setting σ τ') (x : Setting σ τ) (q : Progress)
    (u : Surroundings σ τ) : Prop where
  handler : y.handler = x.handler
  outside : y.outside = u.outside
  agent : y.agent = .fresh q.agent.id q.agent.klass

/-- Every checkpoint of a run has been written at a moment of it. An execution that takes up such a
    moment with the whole response comes to what the run has come to: it never finds the checkpoint
    inconsistent or the response diverging, and makes just the calls that the run has made after the
    checkpoint. -/
theorem recovery_comes_to_the_same (x : Setting σ τ)
    (blind : (Coupling.undriven Eq).Handlers x.handler x.handler) (sorted : x.agent.vars.Sorted)
    (chunks : List String) (kept : (x.stream chunks).2.refused = []) :
    (∀ c ∈ (x.stream chunks).2.saved, ∃ q u, (q, u) ∈ x.moments chunks ∧ WrittenAt c q u) ∧
    ∀ q u, (q, u) ∈ x.moments chunks → ∀ c, Records c q → Recordable q →
      ∀ {τ' : Type} (y : Setting σ τ'), TakesUp y x q u →
        (∀ e, (y.recover c (String.join chunks)).1.1 = .error e → ∃ f, e = .checkpoint f) ∧
        ((y.recover c (String.join chunks)).2.refused = [] →
          SameEnd u.calls (x.stream chunks) (y.recover c (String.join chunks))) := by
  refine ⟨fun c mem => x.saved_at_a_moment chunks mem, ?_⟩
  intro q u moment c records recordable τ' y takesUp
  have here := Progress.moment_of_mem rfl moment
  obtain ⟨rest, onward, code⟩ := here.rest
  obtain ⟨r, start, recovers⟩ := recover_of_records records y.agent
  rw [takesUp.agent] at start
  have itself : (Coupling.undriven (After (σ := σ) (τ := τ) [])).Progresses False
      ⟨.start x.id x.names, x.agent⟩ ⟨.start x.id x.names, x.agent⟩ :=
    ⟨rfl, rfl, rfl, rfl, ⟨rfl, sorted⟩, False.elim, False.elim, False.elim⟩
  have worlds : After [] x.surroundings (Surroundings.start x.outside x.manager ()) := ⟨rfl, rfl⟩
  obtain ⟨_, _, related, _⟩ := Coupling.moments_coupled (after_handlers blind [])
    (after_savers [] x.store x.clock) itself worlds moment
  have ordered : q.agent.vars.Sorted := related.agents.2
  have whole : String.join chunks =
      r.execution.executed ++ (q.execution.pending ++ String.join rest) := by
    rw [start.executed, ← String.append_assoc]
    exact (code.trans String.empty_append).symm
  have streams : y.recover c (String.join chunks) = r.withoutPending.stream (noting x.handler)
      y.saver [q.execution.pending ++ String.join rest] y.surroundings := by
    rw [Setting.recover, recovers, whole, Progress.complete_eq_stream _ _ start.finalized,
      takesUp.handler]
  -- The run from the moment and the resumed one are compared with one run over all that is left.
  rw [streams]
  have opened : r.withoutPending.execution.finalized = false := start.finalized
  refine ⟨fun e => Progress.checkpoint_of_error _ _ opened _ _, fun kept' => ?_⟩
  have run : x.stream chunks = q.stream (noting x.handler) x.saver rest u := onward
  rw [run] at kept ⊢
  let v : Surroundings σ Unit := { u with contents := () }
  have left : (Coupling.undriven (After (σ := σ) (τ := τ) [])).Progresses False q q :=
    ⟨rfl, rfl, rfl, rfl, ⟨rfl, ordered⟩, False.elim, False.elim, False.elim⟩
  have right := resumed_coupled records recordable here.sound ordered
    (After (σ := σ) (τ := τ') u.calls) start
  have beside : After [] u v := ⟨rfl, rfl⟩
  have afterwards : After u.calls y.surroundings v :=
    ⟨takesUp.outside, (List.append_nil _).symm⟩
  refine sameEnd_of_after blind here.opened opened left right beside afterwards ?_ kept
    kept'
  simp [Progress.withoutPending]

theorem prepared_blind : (Coupling.undriven Eq).Handlers
    (Prepared.handler (fun p => p) fun p _ => p) (Prepared.handler (fun p => p) fun p _ => p) := by
  have give (r : Reply) (args : List Value) {a b : AgentState}
      (agents : a.undriven = b.undriven ∧ a.vars.Sorted) :
      (Prepared.give r args a).1 = (Prepared.give r args b).1 ∧
        (Prepared.give r args a).2.undriven = (Prepared.give r args b).2.undriven ∧
        (Prepared.give r args a).2.vars.Sorted := by
    obtain ⟨alike, sorted⟩ := agents
    have changed : ({ a with vars := a.vars.union r.set } : AgentState).undriven =
        ({ b with vars := b.vars.union r.set } : AgentState).undriven :=
      congrArg (fun c : AgentState => { c with vars := c.vars.union r.set }) alike
    have ordered : (a.vars.union r.set).Sorted := Dict.sorted_union sorted r.set
    unfold Prepared.give
    split
    · exact ⟨rfl, alike, sorted⟩
    · split
      · exact ⟨rfl, changed, ordered⟩
      · exact ⟨rfl, changed, ordered⟩
  constructor
  · rintro a b w v agents rfl c
    simp only [Prepared.handler, Prepared.suspend]
    split
    · exact ⟨rfl, agents, rfl⟩
    · rename_i r rest _
      obtain ⟨answer, alike⟩ := give r [] agents
      exact ⟨answer, alike, rfl⟩
  · rintro a b w v agents rfl name args
    simp only [Prepared.handler, Prepared.hostFunction]
    split
    · exact ⟨rfl, agents, rfl⟩
    · rename_i r _
      obtain ⟨answer, alike⟩ := give r args agents
      exact ⟨congrArg some answer, alike, rfl⟩
  · rintro a b w v agents rfl name
    exact ⟨rfl, rfl⟩

def takingUp (x : Setting σ τ) (q : Progress) (u : Surroundings σ τ) : Setting σ τ :=
  { x with
    agent := .fresh q.agent.id q.agent.klass
    outside := u.outside
    manager := u.manager
    contents := u.contents }

def callAndReturn : List String := ["n = Call(\"X\")\nSay(\"u", "\", n)\nReturn(n)\n"]

/-- A checkpoint after a call, taken while the next statement was coming in. -/
theorem recovery_comes_to_the_same_after_a_call :
    ∃ q u c, Records c q ∧ u.calls.length = 1 ∧
      SameEnd u.calls (Setting.prepared.stream callAndReturn)
        ((takingUp Setting.prepared q u).recover c (String.join callAndReturn)) := by
  have some : ∃ m ∈ Setting.prepared.moments callAndReturn,
      Recordable m.1 ∧ m.2.calls.length = 1 ∧
        ((takingUp Setting.prepared m.1 m.2).recover ⟨⟨"main", 1⟩, CheckpointManager.dataFor
          (m.1.execution.request m.1.agent []) "" 1⟩
          (String.join callAndReturn)).2.refused = [] := by
    decide +kernel
  obtain ⟨m, moment, recordable, once, kept⟩ := some
  have records : Records ⟨⟨"main", 1⟩, CheckpointManager.dataFor
      (m.1.execution.request m.1.agent []) "" 1⟩ m.1 := ⟨[], "", 1, rfl⟩
  have same := (recovery_comes_to_the_same Setting.prepared prepared_blind .nil callAndReturn
    (by decide +kernel)).2 m.1 m.2 moment _ records recordable
    (takingUp Setting.prepared m.1 m.2) ⟨rfl, rfl, rfl⟩
  exact ⟨m.1, m.2, _, records, once, same.2 kept⟩

end Surroundings
end Script
end Playbook
