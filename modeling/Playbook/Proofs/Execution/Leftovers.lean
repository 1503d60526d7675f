import Mathlib.Data.List.Sort
import Playbook.Proofs.Dict
import Playbook.Proofs.Execution.Comparison

/- Variables left over from before. Code that has all that it needs in a checkpoint, and the same
   answers each time, comes to the same by the same calls on an agent that has other variables
   besides, and leaves these as they are. -/
namespace Playbook

theorem Dict.eq_of_get? {α : Type} {d e : Dict α} (sorted : d.Sorted) (sorted' : e.Sorted)
    (same : ∀ key, d.get? key = e.get? key) : d = e := by
  have rising : d.Pairwise (·.1 < ·.1) := List.pairwise_map.1 sorted
  have rising' : e.Pairwise (·.1 < ·.1) := List.pairwise_map.1 sorted'
  have irrefl : Std.Irrefl fun p q : String × α => p.1 < q.1 := ⟨fun p => String.lt_irrefl p.1⟩
  have antisymm : Std.Antisymm fun p q : String × α => p.1 < q.1 :=
    ⟨fun _ _ first second => absurd second (String.lt_asymm first)⟩
  refine rising.eq_of_mem_iff rising' fun p => ⟨fun mem => ?_, fun mem => ?_⟩
  · exact mem_of_get? (same p.1 ▸ get?_of_mem sorted mem)
  · exact mem_of_get? ((same p.1).symm ▸ get?_of_mem sorted' mem)

/-- An agent laid over an earlier one: it has the variables of both, its own first. -/
structure AgentState.Overlaid (before a b : AgentState) : Prop where
  id : b.id = a.id
  klass : b.klass = a.klass
  own : b.id = before.id ∧ b.klass = before.klass
  stack : b.stack = a.stack
  agents : b.agents = if a.agents.isEmpty then before.agents else a.agents
  vars (name : String) : b.vars.get? name = (a.vars.get? name).or (before.vars.get? name)
  rising : a.vars.Sorted
  sorted (rising : before.vars.Sorted) : b.vars.Sorted

namespace AgentState.Overlaid
variable {before a b : AgentState}

theorem start (outside : before.stack = []) :
    Overlaid before (.fresh before.id before.klass) before where
  id := rfl
  klass := rfl
  own := ⟨rfl, rfl⟩
  stack := outside
  agents := rfl
  vars _ := rfl
  rising := List.Pairwise.nil
  sorted rising := rising

theorem set (overlaid : Overlaid before a b) (name : String) (v : Value) :
    Overlaid before (a.set name v) (b.set name v) where
  id := overlaid.id
  klass := overlaid.klass
  own := overlaid.own
  stack := overlaid.stack
  agents := overlaid.agents
  vars other := by
    by_cases same : name = other
    · subst same
      simp only [AgentState.set, Dict.get?_insert_self, Option.some_or]
    · simp only [AgentState.set, Dict.get?_insert_of_ne _ _ same, overlaid.vars]
  rising := Dict.sorted_insert overlaid.rising name v
  sorted rising := Dict.sorted_insert (overlaid.sorted rising) name v

theorem union (overlaid : Overlaid before a b) (ns : Namespace) :
    Overlaid before { a with vars := a.vars.union ns } { b with vars := b.vars.union ns } := by
  induction ns generalizing a b with
  | nil => exact overlaid
  | cons e rest ih => exact ih (overlaid.set e.1 e.2)

theorem restore (overlaid : Overlaid before a b) (s : Snapshot) :
    Overlaid before (a.restore s) (b.restore s) where
  id := overlaid.id
  klass := overlaid.klass
  own := overlaid.own
  stack := by simp only [AgentState.restore, overlaid.stack]
  agents := by
    simp only [AgentState.restore]
    split
    · exact overlaid.agents
    · rfl
  vars := (overlaid.union (Namespace.ofJson s.vars)).vars
  rising := (overlaid.union (Namespace.ofJson s.vars)).rising
  sorted := (overlaid.union (Namespace.ofJson s.vars)).sorted

theorem vars_eq (overlaid : Overlaid before a b) (rising : before.vars.Sorted)
    (covered : ∀ name ∈ before.vars.keys, name ∈ a.vars.keys) : b.vars = a.vars := by
  refine Dict.eq_of_get? (overlaid.sorted rising) overlaid.rising fun name => ?_
  rw [overlaid.vars]
  cases here : a.vars.get? name with
  | some v => rfl
  | none =>
    cases there : before.vars.get? name with
    | none => rfl
    | some v =>
      obtain ⟨v', here'⟩ := Dict.mem_keys_iff.1 (covered name (Dict.mem_keys_iff.2 ⟨v, there⟩))
      cases here.symm.trans here'

end AgentState.Overlaid

namespace Script
universe v

section Noting
variable {m : Type → Type v} [Monad m]

/-- With the suspending calls that are made on the way, in their order. -/
abbrev Noted (m : Type → Type v) : Type → Type v := StateT (List SuspendCall) m

/-- Notes every suspending call before it is answered. -/
def Handler.noted (h : Handler m) : Handler (Noted m) where
  suspend a c := fun calls => do return (← h.suspend a c, calls ++ [c])
  hostFunction a name args := StateT.lift (h.hostFunction a name args)
  reserved a name := StateT.lift (h.reserved a name)

def Saver.noted (save : Saver m) : Saver (Noted m) := save.map fun f r => StateT.lift (f r)

variable [LawfulMonad m] {α β : Type}

/-- The same but for the notes, which have no influence. -/
def forgetting : Comparison (Noted m) m where
  rel {α} φ x y := ∀ calls, ∃ z : m {t : (α × List SuspendCall) × α // φ t.1.1 t.2},
    x.run calls = (·.1.1) <$> z ∧ y = (·.1.2) <$> z
  ofPure {α φ a b} alike calls := ⟨pure ⟨((a, calls), b), alike⟩, by simp, by simp⟩
  ofBind {α β φ ψ x y f g} first next calls := by
    obtain ⟨z, ran, same⟩ := first calls
    choose more rest alike using fun t : {t : (α × List SuspendCall) × α // φ t.1.1 t.2} =>
      next t.1.1.1 t.1.2 t.2 t.1.1.2
    exact ⟨z >>= more, by simp [ran, rest], by simp [same, alike]⟩

theorem forgetting_of {φ : α → α → Prop} (refl : ∀ a, φ a a) (x : m α)
    (note : List SuspendCall → List SuspendCall) :
    forgetting.rel φ (fun calls => do return (← x, note calls)) x :=
  fun calls => ⟨(fun a => ⟨((a, note calls), a), refl a⟩) <$> x, by simp [StateT.run], by simp⟩

theorem forgetting_handlers (h : Handler m) : forgetting.Handlers .same h.noted h where
  suspend := by
    rintro a _ rfl c
    exact forgetting_of (fun _ => ⟨rfl, rfl⟩) _ (· ++ [c])
  hostFunction := by
    rintro a _ rfl name args
    exact forgetting_of (fun _ => ⟨rfl, rfl⟩) _ id
  reserved := by
    rintro a _ rfl name
    exact forgetting_of (fun _ => rfl) _ id

theorem forgetting_savers (save : Saver m) : forgetting.Savers .same save.noted save := by
  cases save with
  | none => exact .none
  | some f =>
    refine .some fun r b same => ?_
    obtain rfl : r.agent = b := same
    exact forgetting_of (fun _ => rfl) _ id

theorem Likeness.Runs.eq {p q : α × Progress} (runs : Likeness.same.Runs p q) : p = q := by
  obtain ⟨r, e, agents⟩ := runs
  exact congrArg (fun a => (r, (⟨e, a⟩ : Progress))) agents

theorem Likeness.Answers.eq {p q : α × AgentState} (answers : Likeness.same.Answers p q) : p = q :=
  Prod.ext answers.answer answers.agents

variable {φ : α → α → Prop} {calls calls' : List SuspendCall}

theorem forgets {x : Noted m α} {y : m α} (same : forgetting.rel φ x y)
    (equal : ∀ a b, φ a b → a = b) (calls : List SuspendCall) : (·.1) <$> x.run calls = y := by
  obtain ⟨z, ran, rfl⟩ := same calls
  rw [ran, Functor.map_map]
  congr 1
  funext t
  exact equal _ _ t.2

theorem run_of_noted {x : Noted Option α} {y : Option α} (same : forgetting.rel φ x y)
    (equal : ∀ a b, φ a b → a = b) {r : α} (ran : x.run calls = some (r, calls')) :
    y = some r := by
  have forgotten := forgets same equal calls
  rw [ran] at forgotten
  exact forgotten.symm

theorem noted_of_run {x : Noted Option α} {y : Option α} (same : forgetting.rel φ x y)
    (equal : ∀ a b, φ a b → a = b) {r : α} (ran : y = some r) (calls : List SuspendCall) :
    ∃ calls', x.run calls = some (r, calls') := by
  have forgotten := forgets same equal calls
  rw [ran] at forgotten
  obtain ⟨⟨_, calls'⟩, noted, rfl⟩ := Option.map_eq_some_iff.1 forgotten
  exact ⟨calls', noted⟩

end Noting

structure Yielding (n : Type → Type v) [Monad n] where
  yields {α : Type} : n α → α → Prop
  ofPure {α : Type} (a : α) : yields (pure a) a
  ofBind {α β : Type} {x : n α} {f : α → n β} {a : α} {b : β} (first : yields x a)
    (next : yields (f a) b) : yields (x >>= f) b

/-- A variable has been wanted that may have been left over. -/
def Fault.Wanting (left : List String) (f : Fault) : Prop :=
  ∃ name ∈ left, f = .undefinedVariable name ∨ f = .undefinedName (Root.var name).display

def CodeFault.Wanting (left : List String) : CodeFault → Prop
  | .malformed _ => False
  | .failed fault .. => fault.Wanting left

def Summary.Wanting (left : List String) (s : Summary) : Prop :=
  ∃ f, s.fault = some f ∧ f.Wanting left

abbrev Execution.Wanting (left : List String) (e : Execution) : Prop := e.summary.Wanting left

def unsaved : Saver Option := some fun _ => none

namespace Yielding
variable {n : Type → Type v} [Monad n] [LawfulMonad n] (Y : Yielding n) (left : List String)
  (before : AgentState) {α β : Type}

/-- What the one handler answers the other answers as well, for an agent that has more. All the
    variables that it may have left over are named. -/
structure Handlers (h : Handler Option) (g : Handler n) : Prop where
  covers {name : String} (known : name ∈ before.vars.keys) : name ∈ left
  suspend {a a' b : AgentState} {c : SuspendCall} {r : Except String Value}
    (overlaid : before.Overlaid a b) (answered : h.suspend a c = some (r, a')) :
    ∃ b', Y.yields (g.suspend b c) (r, b') ∧ before.Overlaid a' b'
  hostFunction {a a' b : AgentState} {name : String} {args : List Value}
    {r : Option (Except String Value)} (overlaid : before.Overlaid a b)
    (answered : h.hostFunction a name args = some (r, a')) :
    ∃ b', Y.yields (g.hostFunction b name args) (r, b') ∧ before.Overlaid a' b'
  reserved {a b : AgentState} {name : String} {view : Option Value}
    (overlaid : before.Overlaid a b) (answered : h.reserved a name = some view) :
    Y.yields (g.reserved b name) view

structure Machines (s t : Machine) : Prop where
  names : s.names = t.names
  agents : before.Overlaid s.agent t.agent
  suspended : s.suspended = t.suspended
  returned : s.returned = t.returned
  last : s.last = t.last

variable {before} in
theorem Machines.absorbed {s t : Machine} (same : Machines before s t) (e : Execution) :
    e.absorb t = e.absorb s := by
  simp only [Execution.absorb, same.names, same.last, same.returned]

/-- What the one evaluation comes to, the other comes to as well and by the same calls, unless a
    variable is wanted that may have been left over. -/
def Repeats (x : Eval (Noted Option) α) (y : Eval (Noted n) α) : Prop :=
  ∀ s t s' r calls calls', Machines before s t →
    (x.run.run s).run calls = some ((r, s'), calls') →
    (∀ f, r = .error f → ¬ f.Wanting left) →
      ∃ t', Y.yields ((y.run.run t).run calls) ((r, t'), calls') ∧ Machines before s' t'

variable {Y left before}

omit [LawfulMonad n] in
theorem repeats_ofResult (r : Result α) :
    Y.Repeats left before (ofResult r : Eval (Noted Option) α) (ofResult r) := by
  intro s t s' r' calls calls' machines ran _
  rw [run_ofResult, StateT.run_pure] at ran ⊢
  cases ran
  exact ⟨t, Y.ofPure _, machines⟩

omit [LawfulMonad n] in
theorem Repeats.bind {x : Eval (Noted Option) α} {y : Eval (Noted n) α}
    {f : α → Eval (Noted Option) β} {g : α → Eval (Noted n) β} (first : Y.Repeats left before x y)
    (next : ∀ a, Y.Repeats left before (f a) (g a)) :
    Y.Repeats left before (x >>= f) (y >>= g) := by
  intro s t s' r calls calls' machines ran supplied
  simp only [ExceptT.run_bind, StateT.run_bind] at ran ⊢
  obtain ⟨⟨⟨r₁, s₁⟩, calls₁⟩, ran₁, ran₂⟩ := Option.bind_eq_some_iff.1 ran
  cases r₁ with
  | error fault =>
    cases ran₂
    have stated : ∀ f, (Except.error fault : Except Fault α) = .error f → ¬ f.Wanting left := by
      rintro _ ⟨⟩
      exact supplied fault rfl
    obtain ⟨t₁, yields, machines₁⟩ := first s t _ _ _ _ machines ran₁ stated
    exact ⟨t₁, Y.ofBind yields (Y.ofPure _), machines₁⟩
  | ok a =>
    obtain ⟨t₁, yields, machines₁⟩ := first s t s₁ _ _ _ machines ran₁ nofun
    obtain ⟨t', yields', machines'⟩ := next a s₁ t₁ s' r _ _ machines₁ ran₂ supplied
    exact ⟨t', Y.ofBind yields yields', machines'⟩

theorem repeats_modify {f g : Machine → Machine}
    (keeps : ∀ {s t}, Machines before s t → Machines before (f s) (g t)) :
    Y.Repeats left before (modify f : Eval (Noted Option) PUnit) (modify g) := by
  intro s t s' r calls calls' machines ran _
  rw [run_modify, StateT.run_pure] at ran ⊢
  cases ran
  exact ⟨g t, Y.ofPure _, keeps machines⟩

theorem repeats_get_bind {f : Machine → Eval (Noted Option) α} {g : Machine → Eval (Noted n) α}
    (next : ∀ {s t}, Machines before s t → Y.Repeats left before (f s) (g t)) :
    Y.Repeats left before (get >>= f) (get >>= g) := by
  intro s t s' r calls calls' machines ran supplied
  rw [ExceptT.run_bind, StateT.run_bind, run_get, pure_bind] at ran ⊢
  exact next machines s t s' r calls calls' machines ran supplied

omit [LawfulMonad n] in
theorem repeats_wanting {f : Fault} (wanting : f.Wanting left) (y : Eval (Noted n) α) :
    Y.Repeats left before (throw f) y := by
  intro s t s' r calls calls' _ ran supplied
  cases ran
  exact absurd wanting (supplied f rfl)

omit [LawfulMonad n] in
theorem repeats_variable {h : Handler Option} {g : Handler n} (H : Y.Handlers left before h g)
    {a b : AgentState} (overlaid : before.Overlaid a b) {name : String} {f : Fault}
    (missing : f = .undefinedVariable name ∨ f = .undefinedName (Root.var name).display) :
    Y.Repeats left before
      (match a.vars.get? name with
        | some v => pure v
        | none => throw f)
      (match b.vars.get? name with
        | some v => pure v
        | none => throw f) := by
  rw [overlaid.vars]
  cases a.vars.get? name with
  | some v => exact repeats_ofResult (.ok v)
  | none =>
    by_cases mayBe : name ∈ left
    · exact repeats_wanting ⟨name, mayBe, missing⟩ _
    -- What cannot have been left over is missing on both sides.
    · cases there : before.vars.get? name with
      | none => exact repeats_ofResult (.error f)
      | some v => exact absurd (H.covers (Dict.mem_keys_iff.2 ⟨v, there⟩)) mayBe

theorem repeats_ask {p : AgentState → Option (α × AgentState)} {q : AgentState → n (α × AgentState)}
    (note : List SuspendCall → List SuspendCall)
    (answers : ∀ {a a' b r}, before.Overlaid a b → p a = some (r, a') →
      ∃ b', Y.yields (q b) (r, b') ∧ before.Overlaid a' b') :
    Y.Repeats left before (ask fun a => (fun calls => do return (← p a, note calls) : Noted Option _))
      (ask fun b => (fun calls => do return (← q b, note calls) : Noted n _)) := by
  intro s t s' r calls calls' machines ran _
  rw [run_ask, StateT.run_bind] at ran ⊢
  obtain ⟨⟨⟨a, agent⟩, calls₁⟩, asked, ended⟩ := Option.bind_eq_some_iff.1 ran
  obtain ⟨⟨_, _⟩, answered, noted⟩ := Option.bind_eq_some_iff.1 asked
  cases noted
  cases ended
  obtain ⟨b', yields, overlaid⟩ := answers machines.agents answered
  exact ⟨_, Y.ofBind (Y.ofBind yields (Y.ofPure _)) (Y.ofPure _), machines.names, overlaid,
    machines.suspended, machines.returned, machines.last⟩

theorem repeats_liftM {x : Option α} {y : n α} (same : ∀ a, x = some a → Y.yields y a) :
    Y.Repeats left before (liftM (StateT.lift x : Noted Option α))
      (liftM (StateT.lift y : Noted n α)) := by
  intro s t s' r calls calls' machines ran _
  rw [run_liftM, StateT.run_bind] at ran ⊢
  obtain ⟨⟨a, calls₁⟩, asked, ended⟩ := Option.bind_eq_some_iff.1 ran
  obtain ⟨_, answered, noted⟩ := Option.bind_eq_some_iff.1 asked
  cases noted
  cases ended
  exact ⟨t, Y.ofBind (Y.ofBind (same a answered) (Y.ofPure _)) (Y.ofPure _), machines⟩

theorem repeats_step (args : List Value) :
    Y.Repeats left before (step args : Eval (Noted Option) Value) (step args) := by
  match args with
  | [] | _ :: _ :: _ => exact repeats_ofResult (.error _)
  | [label] =>
    refine Repeats.bind (repeats_modify fun {s t} same => ?_) fun _ => repeats_ofResult (.ok _)
    obtain ⟨names, agents, suspended, returned, last⟩ := same
    simp only [agents.stack]
    exact ⟨names, { agents with stack := rfl }, rfl, returned, last⟩

def congruence {h : Handler Option} {g : Handler n} (H : Y.Handlers left before h g) :
    Congruence h.noted g.noted where
  rel := Y.Repeats left before
  machines := Machines before
  names same := same.names
  returned same := same.returned
  marked same := ⟨same.names, same.agents, rfl, same.returned, same.last⟩
  ended same _ := ⟨same.names, same.agents, same.suspended, rfl, same.last⟩
  valued same _ := ⟨same.names, same.agents, same.suspended, same.returned, rfl⟩
  set {s t} same root v := by
    obtain ⟨names, agents, suspended, returned, last⟩ := same
    cases root with
    | name n => exact ⟨congrArg (Dict.insert · n v) names, agents, suspended, returned, last⟩
    | var n => exact ⟨names, agents.set n v, suspended, returned, last⟩
  ofPure a := repeats_ofResult (.ok a)
  ofResult := repeats_ofResult
  ofBind := Repeats.bind
  ofGet := repeats_get_bind
  ofModify := repeats_modify
  step := repeats_step
  root root := by
    apply repeats_get_bind
    intro s t same
    cases root with
    | name n =>
      simp only [Machine.get?, same.names]
      cases t.names.get? n with
      | some v => exact repeats_ofResult (.ok v)
      | none => exact repeats_ofResult (.error _)
    | var n => exact repeats_variable H same.agents (.inr rfl)
  var n := by
    apply repeats_get_bind
    intro s t same
    exact repeats_variable H same.agents (.inl rfl)
  view same name := repeats_liftM fun _ answered => H.reserved same.agents answered
  suspend c := (repeats_ask (· ++ [c]) fun overlaid answered => H.suspend overlaid answered).bind
    fun _ => repeats_ofResult _
  host name args := repeats_ask id fun overlaid answered => H.hostFunction overlaid answered

/-- Whatever has been run so far on the one side, has been run on the other, by the same calls. -/
def Reaches (Y : Yielding n) (left : List String) (before : AgentState)
    (x : Noted Option (α × Progress)) (y : Noted n (α × Progress)) : Prop :=
  ∀ r e a calls calls', x.run calls = some ((r, ⟨e, a⟩), calls') → ¬ e.Wanting left →
    ∃ b, Y.yields (y.run calls) ((r, ⟨e, b⟩), calls') ∧ before.Overlaid a b

omit [LawfulMonad n] in
theorem reaches_done {a b : AgentState} (overlaid : before.Overlaid a b) (r : α) (e : Execution) :
    Y.Reaches left before (pure (r, ⟨e, a⟩)) (pure (r, ⟨e, b⟩)) := by
  rintro _ _ _ calls _ ⟨⟩ -
  exact ⟨b, Y.ofPure _, overlaid⟩

open Progress

/-- Where nothing can be saved, nothing goes wrong in saving, and no fault has been met when the
    next segment may run. -/
theorem runSegment_unsaved {h : Handler Option} {p : Progress} {segment : Segment}
    {r : Except StoreError Bool} {q : Progress}
    (ran : runSegment h unsaved p segment = some (r, q)) :
    ∃ more, r = .ok more ∧ q.execution.finalized = p.execution.finalized ∧
      (more = true → q.execution.fault = p.execution.fault) := by
  unfold runSegment at ran
  by_cases passed : (!segment.hasCode || p.execution.returned.isSome) = true
  · simp only [passed, if_true] at ran
    cases ran
    exact ⟨true, rfl, rfl, fun _ => rfl⟩
  simp only [passed] at ran
  cases parsed : parseProgram (String.ofList segment.text) with
  | error err =>
    rw [parsed] at ran
    cases ran
    exact ⟨false, rfl, rfl, nofun⟩
  | ok body =>
    rw [parsed] at ran
    obtain ⟨⟨outcome, s⟩, _, ran⟩ := Option.bind_eq_some_iff.1 ran
    cases outcome with
    | error fault =>
      cases ran
      exact ⟨false, rfl, rfl, nofun⟩
    | ok =>
      obtain ⟨⟨saved, q⟩, recorded, ended⟩ := Option.bind_eq_some_iff.1 ran
      cases suspended : s.suspended <;> rw [suspended] at recorded <;> cases recorded
      cases ended
      exact ⟨true, rfl, rfl, fun _ => rfl⟩

theorem run_unsaved {h : Handler Option} {p : Progress} {finished : Bool}
    {r : Except ExecutionError Unit} {q : Progress}
    (ran : run h unsaved p finished = some (r, q)) :
    r = .ok () ∧ q.execution.finalized = p.execution.finalized ∧
      (p.execution.fault.isSome = true → q = p) := by
  unfold run at ran
  cases met : p.execution.fault with
  | some f =>
    simp only [met, Option.isSome_some, if_true] at ran
    cases ran
    exact ⟨rfl, rfl, fun _ => rfl⟩
  | none =>
    simp only [met, Option.isSome_none, Bool.false_eq_true, if_false] at ran
    obtain ⟨⟨r₁, q₁⟩, ran, ended⟩ := Option.bind_eq_some_iff.1 ran
    have all : ∀ segs p, runSegments h unsaved p segs = some (r₁, q₁) →
        r₁ = .ok () ∧ q₁.execution.finalized = p.execution.finalized := by
      intro segs
      induction segs with
      | nil =>
        rintro p ⟨⟩
        exact ⟨rfl, rfl⟩
      | cons segment rest ih =>
        intro p ran
        obtain ⟨⟨r₂, p₂⟩, first, ran⟩ := Option.bind_eq_some_iff.1 ran
        obtain ⟨more, rfl, same, _⟩ := runSegment_unsaved first
        cases more with
        | false =>
          cases ran
          exact ⟨rfl, same⟩
        | true => exact (ih p₂ ran).imp id (·.trans same)
    obtain ⟨rfl, same⟩ := all _ _ ran
    cases ended
    exact ⟨rfl, same, nofun⟩

theorem continueWith_unsaved {h : Handler Option} {p : Progress} {response : String}
    {r : Except ExecutionError Unit} {q : Progress} (opened : p.execution.finalized = false)
    (ran : continueWith h unsaved p response = some (r, q)) :
    q.execution.finalized = false ∧ (r = .ok () ∨ ∃ bytes, r = .error (.divergent bytes)) := by
  simp only [continueWith, opened, Bool.false_eq_true, if_false] at ran
  cases rest : p.execution.remainder? response with
  | none =>
    rw [rest] at ran
    cases ran
    exact ⟨opened, .inr ⟨_, rfl⟩⟩
  | some text =>
    rw [rest] at ran
    obtain ⟨rfl, same, _⟩ := run_unsaved ran
    exact ⟨same, .inl rfl⟩

theorem finalize_unsaved {h : Handler Option} {p : Progress} {r : Except ExecutionError Summary}
    {q : Progress} (opened : p.execution.finalized = false)
    (ran : finalize h unsaved p = some (r, q)) :
    r = .ok q.execution.summary ∧ (p.execution.Wanting left → q.execution.Wanting left) := by
  simp only [finalize, opened, Bool.false_eq_true, if_false] at ran
  obtain ⟨⟨r₁, p₁⟩, first, ran⟩ := Option.bind_eq_some_iff.1 ran
  obtain ⟨rfl, _, same⟩ := run_unsaved first
  cases ran
  refine ⟨rfl, fun ⟨f, met, wanting⟩ => ?_⟩
  have met : p.execution.fault = some f := met
  rw [same (by rw [met]; rfl)]
  exact ⟨f, met, wanting⟩

section Running
variable {h : Handler Option} {g : Handler n} (H : Y.Handlers left before h g)
  (save : Saver (Noted n))
  {e : Execution} {a b : AgentState} (overlaid : before.Overlaid a b)
include H overlaid

theorem runSegment_reaches (segment : Segment) :
    Y.Reaches left before (runSegment h.noted unsaved.noted ⟨e, a⟩ segment)
      (runSegment g.noted save ⟨e, b⟩ segment) := by
  unfold runSegment
  by_cases passed : (!segment.hasCode || e.returned.isSome) = true
  · simp only [passed, if_true]
    exact reaches_done overlaid _ _
  simp only [passed]
  cases parseProgram (String.ofList segment.text) with
  | error err => exact reaches_done overlaid _ _
  | ok body =>
    intro r e' a' calls calls' ran supplied
    obtain ⟨⟨⟨outcome, s⟩, calls₁⟩, block, ran⟩ := Option.bind_eq_some_iff.1 ran
    have start : Machines before ⟨e.names, a, false, none, none⟩ ⟨e.names, b, false, none, none⟩ :=
      ⟨rfl, overlaid, rfl, rfl, rfl⟩
    have repeats := (congruence H).block body _ _ s outcome _ _ start block
    cases outcome with
    | error fault =>
      cases ran
      have stated : ∀ f, (Except.error fault : Except Fault Unit) = .error f →
          ¬ f.Wanting left := by
        rintro _ ⟨⟩ wanting
        exact supplied ⟨_, rfl, wanting⟩
      obtain ⟨t, yields, machines⟩ := repeats stated
      refine ⟨t.agent, Y.ofBind yields ?_, machines.agents⟩
      simp only [machines.absorbed, machines.agents.stack]
      exact Y.ofPure _
    | ok =>
      obtain ⟨t, yields, machines⟩ := repeats nofun
      -- Had a call suspended, there would have been something to save.
      have silent : s.suspended = false := by
        cases suspended : s.suspended with
        | false => rfl
        | true =>
          simp only [suspended] at ran
          cases ran
      simp only [silent] at ran
      cases ran
      refine ⟨t.agent, Y.ofBind yields ?_, machines.agents⟩
      simp only [machines.absorbed, machines.suspended.symm.trans silent]
      have recorded : ∀ p, record save p segment.text false = pure (.ok (), p) := by
        intro p
        cases save <;> rfl
      rw [recorded, pure_bind]
      exact Y.ofPure _

theorem runSegments_reaches (sound : e.fault = none) (segs : List Segment) :
    Y.Reaches left before (runSegments h.noted unsaved.noted ⟨e, a⟩ segs)
      (runSegments g.noted save ⟨e, b⟩ segs) := by
  induction segs generalizing e a b with
  | nil => exact reaches_done overlaid _ _
  | cons segment rest ih =>
    intro r e' a' calls calls' ran supplied
    obtain ⟨⟨⟨more, e₁, a₁⟩, calls₁⟩, first, ran⟩ := Option.bind_eq_some_iff.1 ran
    have reaches := runSegment_reaches H save overlaid segment more e₁ a₁ _ _ first
    rcases more with fault | _ | _
    · cases ran
      obtain ⟨b₁, yields, overlaid₁⟩ := reaches supplied
      exact ⟨b₁, Y.ofBind yields (Y.ofPure _), overlaid₁⟩
    · cases ran
      obtain ⟨b₁, yields, overlaid₁⟩ := reaches supplied
      exact ⟨b₁, Y.ofBind yields (Y.ofPure _), overlaid₁⟩
    · have unnoted := run_of_noted (Comparison.runSegment_alike (forgetting_handlers h)
        (forgetting_savers unsaved) rfl segment) (fun _ _ => Likeness.Runs.eq) first
      obtain ⟨_, ⟨⟩, _, onward⟩ := runSegment_unsaved unnoted
      have sound₁ : e₁.fault = none := (onward rfl).trans sound
      have early : ¬ e₁.Wanting left := by
        rintro ⟨f, met, _⟩
        cases sound₁.symm.trans met
      obtain ⟨b₁, yields, overlaid₁⟩ := reaches early
      obtain ⟨b', yields', overlaid'⟩ := ih overlaid₁ sound₁ r e' a' _ _ ran supplied
      exact ⟨b', Y.ofBind yields yields', overlaid'⟩

theorem run_reaches (finished : Bool) :
    Y.Reaches left before (run h.noted unsaved.noted ⟨e, a⟩ finished)
      (run g.noted save ⟨e, b⟩ finished) := by
  unfold run
  cases met : e.fault with
  | some f =>
    simp only [Option.isSome_some, if_true]
    exact reaches_done overlaid _ _
  | none =>
    simp only [Option.isSome_none, Bool.false_eq_true, if_false]
    intro r e' a' calls calls' ran supplied
    obtain ⟨⟨⟨r₁, e₁, a₁⟩, calls₁⟩, first, ran⟩ := Option.bind_eq_some_iff.1 ran
    cases ran
    obtain ⟨b', yields, overlaid'⟩ :=
      runSegments_reaches H save overlaid met _ r₁ _ _ _ _ first supplied
    exact ⟨b', Y.ofBind yields (Y.ofPure _), overlaid'⟩

theorem continueWith_reaches (response : String) :
    Y.Reaches left before (continueWith h.noted unsaved.noted ⟨e, a⟩ response)
      (continueWith g.noted save ⟨e, b⟩ response) := by
  unfold continueWith
  by_cases ended : e.finalized = true
  · simp only [ended, if_true]
    exact reaches_done overlaid _ _
  simp only [ended]
  cases e.remainder? response with
  | none => exact reaches_done overlaid _ _
  | some rest => exact run_reaches H save overlaid false

theorem finalize_reaches :
    Y.Reaches left before (finalize h.noted unsaved.noted ⟨e, a⟩)
      (finalize g.noted save ⟨e, b⟩) := by
  unfold finalize
  by_cases ended : e.finalized = true
  · simp only [ended, if_true]
    exact reaches_done overlaid _ _
  simp only [ended]
  intro r e' a' calls calls' ran supplied
  obtain ⟨⟨⟨r₁, e₁, a₁⟩, calls₁⟩, first, ran⟩ := Option.bind_eq_some_iff.1 ran
  have reaches := run_reaches H save overlaid true r₁ e₁ a₁ _ _ first
  cases r₁ <;> cases ran
  all_goals
    obtain ⟨b', yields, overlaid'⟩ := reaches supplied
    exact ⟨b', Y.ofBind yields (Y.ofPure _), overlaid'⟩

end Running

end Yielding
end Script
end Playbook
