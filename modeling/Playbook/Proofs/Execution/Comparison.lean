import Playbook.Proofs.Execution.Congruence
import Playbook.Script.Execution

/- A program run side by side in two monads. As long as the handlers give like answers on like agents,
   every program comes to the same outcome on both sides and leaves like agents behind; what the
   monads make of it is up to the comparison. So do executions of the same code, with a checkpoint
   after every statement that has suspended. -/
namespace Playbook.Script
universe u v

/-- What can be said of two computations by what each of them comes to. -/
structure Comparison (m : Type → Type u) (n : Type → Type v) [Monad m] [Monad n]
    [LawfulMonad m] [LawfulMonad n] where
  rel {α : Type} : (α → α → Prop) → m α → n α → Prop
  ofPure {α : Type} {φ : α → α → Prop} {a b : α} (alike : φ a b) : rel φ (pure a) (pure b)
  ofBind {α β : Type} {φ : α → α → Prop} {ψ : β → β → Prop} {x : m α} {y : n α} {f : α → m β}
    {g : α → n β} (first : rel φ x y) (next : ∀ a b, φ a b → rel ψ (f a) (g b)) :
    rel ψ (x >>= f) (y >>= g)

/-- A likeness of agents. Agents that are alike show a program the same variables and stand at the
    same steps, and stay alike through the changes that a program makes by itself. -/
structure Likeness where
  agents : AgentState → AgentState → Prop
  vars {a b : AgentState} (h : agents a b) (name : String) : a.vars.get? name = b.vars.get? name
  pointers {a b : AgentState} (h : agents a b) :
    a.stack.map (·.pointer) = b.stack.map (·.pointer)
  set {a b : AgentState} (h : agents a b) (name : String) (v : Value) :
    agents (a.set name v) (b.set name v)
  advance {a b : AgentState} (h : agents a b) (step : String) :
    agents { a with stack := a.stack.advance step } { b with stack := b.stack.advance step }

namespace Likeness

def same : Likeness where
  agents a b := a = b
  vars := by
    rintro a _ rfl name
    rfl
  pointers := by
    rintro a _ rfl
    rfl
  set := by
    rintro a _ rfl name v
    rfl
  advance := by
    rintro a _ rfl step
    rfl

variable (L : Likeness) {α : Type}

structure Machines (s t : Machine) : Prop where
  names : s.names = t.names
  agents : L.agents s.agent t.agent
  suspended : s.suspended = t.suspended
  returned : s.returned = t.returned
  last : s.last = t.last

/-- The same answer, and agents that are still alike. -/
structure Answers (p q : α × AgentState) : Prop where
  answer : p.1 = q.1
  agents : L.agents p.2 q.2

structure Outcomes (p q : α × Machine) : Prop where
  outcome : p.1 = q.1
  machines : L.Machines p.2 q.2

variable {L}

theorem innermost_alike {a b : AgentState} (agents : L.agents a b) :
    a.stack.innermost?.map (·.pointer.playbook) = b.stack.innermost?.map (·.pointer.playbook) := by
  have last := congrArg (·.getLast?.map Pointer.playbook) (L.pointers agents)
  simp only [List.getLast?_map, Option.map_map] at last
  exact last

theorem get?_alike {s t : Machine} (machines : L.Machines s t) (root : Root) :
    s.get? root = t.get? root := by
  cases root with
  | name n => simp only [Machine.get?, machines.names]
  | var n => exact L.vars machines.agents n

theorem set_alike {s t : Machine} (machines : L.Machines s t) (root : Root) (v : Value) :
    L.Machines (s.set root v) (t.set root v) := by
  obtain ⟨names, agents, suspended, returned, last⟩ := machines
  cases root with
  | name n => exact ⟨congrArg (Dict.insert · n v) names, agents, suspended, returned, last⟩
  | var n => exact ⟨names, L.set agents n v, suspended, returned, last⟩

end Likeness

section Runs
variable {m : Type → Type u} [Monad m] [LawfulMonad m] {α : Type}

theorem run_get (s : Machine) : (get : Eval m Machine).run.run s = pure (.ok s, s) := by
  simp only [get, getThe, MonadStateOf.get, liftM, monadLift, MonadLift.monadLift,
    ExceptT.run_lift, StateT.run_map]
  exact map_pure _ _

theorem run_modify (f : Machine → Machine) (s : Machine) :
    (modify f : Eval m PUnit).run.run s = pure (.ok ⟨⟩, f s) := by
  show (modifyGet fun s => (⟨⟩, f s) : Eval m PUnit).run.run s = _
  simp only [modifyGet, MonadStateOf.modifyGet, monadLift, MonadLift.monadLift, ExceptT.run_lift,
    StateT.run_map]
  exact map_pure _ _

theorem run_liftM (x : m α) (s : Machine) :
    (liftM x : Eval m α).run.run s = (do let a ← x; return (.ok a, s)) := by
  simp only [liftM, monadLift, MonadLift.monadLift]
  simp

theorem run_ask (q : AgentState → m (α × AgentState)) (s : Machine) :
    (ask q : Eval m α).run.run s = (do
      let p ← q s.agent
      return (.ok p.1, { s with agent := p.2 })) := by
  simp only [ask, ExceptT.run_bind, StateT.run_bind, run_get, pure_bind, run_liftM, bind_assoc,
    run_modify]
  rfl

omit [LawfulMonad m] in
theorem run_ofResult (r : Result α) (s : Machine) :
    (ofResult r : Eval m α).run.run s = pure (r, s) := by
  simp only [ofResult, ExceptT.run_mk, StateT.run_pure]

end Runs

namespace Comparison
variable {m : Type → Type u} {n : Type → Type v} [Monad m] [Monad n] [LawfulMonad m]
  [LawfulMonad n] {α β : Type} (C : Comparison m n) (L : Likeness)

structure Handlers (h : Handler m) (g : Handler n) : Prop where
  suspend {a b : AgentState} (agents : L.agents a b) (c : SuspendCall) :
    C.rel L.Answers (h.suspend a c) (g.suspend b c)
  hostFunction {a b : AgentState} (agents : L.agents a b) (name : String) (args : List Value) :
    C.rel L.Answers (h.hostFunction a name args) (g.hostFunction b name args)
  reserved {a b : AgentState} (agents : L.agents a b) (name : String) :
    C.rel (· = ·) (h.reserved a name) (g.reserved b name)

/-- Evaluations that come to the same result on machines that are alike, and leave them alike. -/
def Alike (x : Eval m α) (y : Eval n α) : Prop :=
  ∀ s t : Machine, L.Machines s t → C.rel L.Outcomes (x.run.run s) (y.run.run t)

variable {C L}

theorem alike_pure (a : α) : C.Alike L (pure a) (pure a) :=
  fun _ _ machines => C.ofPure ⟨rfl, machines⟩

theorem alike_throw (f : Fault) : C.Alike L (throw f : Eval m α) (throw f) :=
  fun _ _ machines => C.ofPure ⟨rfl, machines⟩

theorem alike_ofResult (r : Result α) : C.Alike L (ofResult r) (ofResult r) :=
  fun _ _ machines => C.ofPure ⟨rfl, machines⟩

theorem Alike.bind {x : Eval m α} {y : Eval n α} {f : α → Eval m β} {g : α → Eval n β}
    (first : C.Alike L x y) (next : ∀ a, C.Alike L (f a) (g a)) :
    C.Alike L (x >>= f) (y >>= g) := by
  intro s t machines
  simp only [ExceptT.run_bind, StateT.run_bind]
  refine C.ofBind (first s t machines) ?_
  rintro ⟨r, s'⟩ ⟨r', t'⟩ ⟨same, machines'⟩
  obtain rfl : r = r' := same
  cases r with
  | ok a => exact next a s' t' machines'
  | error e => exact C.ofPure ⟨rfl, machines'⟩

theorem alike_modify {f g : Machine → Machine}
    (keeps : ∀ {s t}, L.Machines s t → L.Machines (f s) (g t)) :
    C.Alike L (modify f : Eval m PUnit) (modify g) := by
  intro s t machines
  rw [run_modify, run_modify]
  exact C.ofPure ⟨rfl, keeps machines⟩

theorem alike_get_bind {f : Machine → Eval m α} {g : Machine → Eval n α}
    (next : ∀ {s t : Machine}, L.Machines s t → C.Alike L (f s) (g t)) :
    C.Alike L (get >>= f) (get >>= g) := by
  intro s t machines
  rw [ExceptT.run_bind, ExceptT.run_bind, StateT.run_bind, StateT.run_bind, run_get, run_get,
    pure_bind, pure_bind]
  exact next machines s t machines

theorem alike_liftM {x : m α} {y : n α} (same : C.rel (· = ·) x y) :
    C.Alike L (liftM x) (liftM y) := by
  intro s t machines
  rw [run_liftM, run_liftM]
  refine C.ofBind same fun a b equal => C.ofPure ⟨congrArg Except.ok equal, machines⟩

theorem alike_ask {p : AgentState → m (α × AgentState)} {q : AgentState → n (α × AgentState)}
    (answers : ∀ {a b}, L.agents a b → C.rel L.Answers (p a) (q b)) :
    C.Alike L (ask p) (ask q) := by
  intro s t machines
  rw [run_ask, run_ask]
  refine C.ofBind (answers machines.agents) ?_
  rintro ⟨a, agent⟩ ⟨b, agent'⟩ ⟨same, agents⟩
  obtain rfl : a = b := same
  exact C.ofPure ⟨rfl, machines.names, agents, machines.suspended, machines.returned, machines.last⟩

section Interpreter
variable {h : Handler m} {g : Handler n}

theorem step_alike (args : List Value) :
    C.Alike L (step args : Eval m Value) (step args) := by
  match args with
  | [] | _ :: _ :: _ => exact alike_throw _
  | [label] =>
    refine Alike.bind (alike_modify fun {s t} machines => ?_) fun _ => alike_pure _
    have same := Likeness.innermost_alike machines.agents
    refine ⟨machines.names, ?_, rfl, machines.returned, machines.last⟩
    cases inner : s.agent.stack.innermost? with
    | none =>
      have other : t.agent.stack.innermost? = none := by simpa [inner] using same.symm
      simpa only [inner, other] using L.advance machines.agents label.display
    | some frame =>
      obtain ⟨frame', other, equal⟩ : ∃ f, t.agent.stack.innermost? = some f ∧
          f.pointer.playbook = frame.pointer.playbook := by
        simpa [inner] using same.symm
      simpa only [inner, other, equal] using
        L.advance machines.agents (stepName frame.pointer.playbook label.display)

theorem rootValue_alike (root : Root) :
    C.Alike L (rootValue root : Eval m Value) (rootValue root) := by
  apply alike_get_bind
  intro s t machines
  rw [Likeness.get?_alike machines root]
  cases t.get? root with
  | some v => exact alike_pure v
  | none => exact alike_throw _

theorem var_alike (name : String) : C.Alike L (eval h (.var name)) (eval g (.var name)) := by
  apply alike_get_bind
  intro s t machines
  rw [L.vars machines.agents name]
  cases t.agent.vars.get? name with
  | some v => exact alike_pure v
  | none => exact alike_throw _

def congruence (H : C.Handlers L h g) : Congruence h g where
  rel := C.Alike L
  machines := L.Machines
  names same := same.names
  returned same := same.returned
  marked same := ⟨same.names, same.agents, rfl, same.returned, same.last⟩
  ended same _ := ⟨same.names, same.agents, same.suspended, rfl, same.last⟩
  valued same _ := ⟨same.names, same.agents, same.suspended, same.returned, rfl⟩
  set := Likeness.set_alike
  ofPure := alike_pure
  ofResult := alike_ofResult
  ofBind := Alike.bind
  ofGet := alike_get_bind
  ofModify := alike_modify
  step := step_alike
  root := rootValue_alike
  var := var_alike
  view same name := alike_liftM (H.reserved same.agents name)
  suspend c := (alike_ask fun agents => H.suspend agents c).bind fun _ => alike_ofResult _
  host name args := alike_ask fun agents => H.hostFunction agents name args

theorem runBlock_alike (H : C.Handlers L h g) {a b : AgentState} (names : Namespace)
    (agents : L.agents a b) (body : List Stmt) :
    C.rel L.Outcomes (runBlock h names a body) (runBlock g names b body) :=
  (congruence H).block body _ _ ⟨rfl, agents, rfl, rfl, rfl⟩

end Interpreter
end Comparison

inductive Likeness.Runs (L : Likeness) {α : Type} : α × Progress → α × Progress → Prop
  | same (r : α) (e : Execution) {a b : AgentState} (agents : L.agents a b) :
    L.Runs (r, ⟨e, a⟩) (r, ⟨e, b⟩)

namespace Comparison
variable {m : Type → Type u} {n : Type → Type v} [Monad m] [Monad n] [LawfulMonad m]
  [LawfulMonad n] (C : Comparison m n) (L : Likeness)

inductive Savers : Saver m → Saver n → Prop
  | none : Savers none none
  | some {f : SaveRequest → m (Except StoreError CheckpointId)}
    {g : SaveRequest → n (Except StoreError CheckpointId)}
    (answers : ∀ (r : SaveRequest) (b : AgentState), L.agents r.agent b →
      C.rel (· = ·) (f r) (g { r with agent := b })) : Savers (some f) (some g)

variable {C L} {h : Handler m} {g : Handler n} {save : Saver m} {save' : Saver n}
  {e : Execution} {a b : AgentState}

open Progress

theorem record_alike (V : C.Savers L save save') (agents : L.agents a b) (text : List Char)
    (suspended : Bool) :
    C.rel L.Runs (record save ⟨e, a⟩ text suspended) (record save' ⟨e, b⟩ text suspended) := by
  cases V with
  | none => exact C.ofPure (.same _ e agents)
  | some answers =>
    cases suspended with
    | false => exact C.ofPure (.same _ e agents)
    | true =>
      refine C.ofBind (answers (e.request a text) b agents) ?_
      rintro answer _ rfl
      cases answer with
      | error fault => exact C.ofPure (.same _ e agents)
      | ok id => exact C.ofPure (.same _ _ agents)

section Running
variable (H : C.Handlers L h g) (V : C.Savers L save save') (agents : L.agents a b)
include H V agents

theorem runSegment_alike (segment : Segment) :
    C.rel L.Runs (runSegment h save ⟨e, a⟩ segment) (runSegment g save' ⟨e, b⟩ segment) := by
  unfold runSegment
  by_cases passed : (!segment.hasCode || e.returned.isSome) = true
  · simp only [passed, if_true]
    exact C.ofPure (.same _ _ agents)
  simp only [passed]
  cases parseProgram (String.ofList segment.text) with
  | error err => exact C.ofPure (.same _ _ agents)
  | ok body =>
    refine C.ofBind (runBlock_alike H e.names agents body) ?_
    rintro ⟨outcome, s⟩ ⟨outcome', t⟩ ⟨(rfl : outcome = outcome'), (machines : L.Machines s t)⟩
    have absorbed : e.absorb s = e.absorb t := by
      simp only [Execution.absorb, machines.names, machines.last, machines.returned]
    cases outcome with
    | error fault =>
      have pointers : s.agent.stack.pointers = t.agent.stack.pointers := by
        have mapped := congrArg (List.map Pointer.display) (L.pointers machines.agents)
        simp only [List.map_map] at mapped
        exact mapped
      simp only [absorbed, pointers]
      exact C.ofPure (.same _ _ machines.agents)
    | ok =>
      simp only [absorbed, machines.suspended]
      refine C.ofBind (record_alike V machines.agents segment.text t.suspended) ?_
      rintro _ _ ⟨saved, e, agents⟩
      exact C.ofPure (.same _ e agents)

theorem runSegments_alike (segs : List Segment) :
    C.rel L.Runs (runSegments h save ⟨e, a⟩ segs) (runSegments g save' ⟨e, b⟩ segs) := by
  induction segs generalizing e a b with
  | nil => exact C.ofPure (.same _ e agents)
  | cons segment rest ih =>
    refine C.ofBind (runSegment_alike H V agents segment) ?_
    rintro _ _ ⟨more, e, agents⟩
    rcases more with fault | _ | _
    · exact C.ofPure (.same _ e agents)
    · exact C.ofPure (.same _ e agents)
    · exact ih agents

theorem run_alike (finished : Bool) :
    C.rel L.Runs (run h save ⟨e, a⟩ finished) (run g save' ⟨e, b⟩ finished) := by
  unfold run
  by_cases failed : e.fault.isSome = true
  · simp only [failed, if_true]
    exact C.ofPure (.same _ e agents)
  simp only [failed]
  refine C.ofBind (runSegments_alike H V agents _) ?_
  rintro _ _ ⟨r, e, agents⟩
  exact C.ofPure (.same _ e agents)

theorem addChunk_alike (chunk : String) :
    C.rel L.Runs (addChunk h save ⟨e, a⟩ chunk) (addChunk g save' ⟨e, b⟩ chunk) := by
  unfold addChunk
  by_cases ended : e.finalized = true
  · simp only [ended, if_true]
    exact C.ofPure (.same _ e agents)
  · simp only [ended]
    exact run_alike H V agents false

theorem continueWith_alike (response : String) :
    C.rel L.Runs (continueWith h save ⟨e, a⟩ response) (continueWith g save' ⟨e, b⟩ response) := by
  unfold continueWith
  by_cases ended : e.finalized = true
  · simp only [ended, if_true]
    exact C.ofPure (.same _ e agents)
  simp only [ended]
  cases e.remainder? response with
  | none => exact C.ofPure (.same _ e agents)
  | some rest => exact run_alike H V agents false

theorem finalize_alike :
    C.rel L.Runs (finalize h save ⟨e, a⟩) (finalize g save' ⟨e, b⟩) := by
  unfold finalize
  by_cases ended : e.finalized = true
  · simp only [ended, if_true]
    exact C.ofPure (.same _ e agents)
  simp only [ended]
  refine C.ofBind (run_alike H V agents true) ?_
  rintro _ _ ⟨r, e, agents⟩
  cases r with
  | error fault => exact C.ofPure (.same _ e agents)
  | ok => exact C.ofPure (.same _ _ agents)

end Running
end Comparison
end Playbook.Script
