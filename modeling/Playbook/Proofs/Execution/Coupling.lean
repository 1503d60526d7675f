import Playbook.Proofs.Execution.Comparison

/- Two runs of a program side by side. A coupling relates the agents and the worlds of the one to
   those of the other; as long as the two handlers answer alike on coupled agents and worlds, every
   program comes to the same outcome on both sides and leaves coupled machines behind. -/
namespace Playbook.Script
variable {S T α β : Type}

def Eval.from (x : Eval (StateM S) α) (s : Machine) (w : S) : (Except Fault α × Machine) × S :=
  x.run.run s w

namespace Eval

@[simp] theorem from_get (s : Machine) (w : S) :
    (get : Eval (StateM S) Machine).from s w = ((.ok s, s), w) := rfl

@[simp] theorem from_liftM (x : StateM S α) (s : Machine) (w : S) :
    (liftM x : Eval (StateM S) α).from s w = ((.ok (x w).1, s), (x w).2) := rfl

theorem from_bind (x : Eval (StateM S) α) (f : α → Eval (StateM S) β) (s : Machine) (w : S) :
    (x >>= f).from s w = match x.from s w with
      | ((.ok a, s), w) => (f a).from s w
      | ((.error e, s), w) => ((.error e, s), w) := by
  simp only [Eval.from, ExceptT.run_bind, StateT.run_bind]
  cases h : x.run.run s w with
  | mk p w' =>
    obtain ⟨r, s'⟩ := p
    cases r with
    | error e =>
      simp [bind, StateT.bind, h]
      rfl
    | ok a => simp [bind, StateT.bind, h]

end Eval

/-- Agents and worlds that belong together. Coupled agents show a program the same variables and
    stand at the same steps, and stay coupled through the changes that a program makes by itself. -/
structure Coupling (S T : Type) where
  agents : AgentState → AgentState → Prop
  worlds : S → T → Prop
  vars {a b : AgentState} (h : agents a b) (name : String) : a.vars.get? name = b.vars.get? name
  pointers {a b : AgentState} (h : agents a b) :
    a.stack.map (·.pointer) = b.stack.map (·.pointer)
  set {a b : AgentState} (h : agents a b) (name : String) (v : Value) :
    agents (a.set name v) (b.set name v)
  advance {a b : AgentState} (h : agents a b) (step : String) :
    agents { a with stack := a.stack.advance step } { b with stack := b.stack.advance step }

namespace Coupling
variable (K : Coupling S T)

/-- The same answer, and agents and worlds that are still coupled. -/
structure Answers (p : (α × AgentState) × S) (q : (α × AgentState) × T) : Prop where
  answer : p.1.1 = q.1.1
  agents : K.agents p.1.2 q.1.2
  worlds : K.worlds p.2 q.2

structure Handlers (h : Handler (StateM S)) (g : Handler (StateM T)) : Prop where
  suspend {a b : AgentState} {w : S} {v : T} (agents : K.agents a b) (worlds : K.worlds w v)
    (c : SuspendCall) : K.Answers (h.suspend a c w) (g.suspend b c v)
  hostFunction {a b : AgentState} {w : S} {v : T} (agents : K.agents a b) (worlds : K.worlds w v)
    (name : String) (args : List Value) :
    K.Answers (h.hostFunction a name args w) (g.hostFunction b name args v)
  reserved {a b : AgentState} {w : S} {v : T} (agents : K.agents a b) (worlds : K.worlds w v)
    (name : String) : (h.reserved a name w).1 = (g.reserved b name v).1 ∧
      K.worlds (h.reserved a name w).2 (g.reserved b name v).2

def likeness : Likeness := ⟨K.agents, K.vars, K.pointers, K.set, K.advance⟩

structure Outcomes (p : (α × Machine) × S) (q : (α × Machine) × T) : Prop where
  outcome : p.1.1 = q.1.1
  machines : K.likeness.Machines p.1.2 q.1.2
  worlds : K.worlds p.2 q.2

def comparison : Comparison (StateM S) (StateM T) where
  rel φ x y := ∀ (w : S) (v : T), K.worlds w v → φ (x w).1 (y v).1 ∧ K.worlds (x w).2 (y v).2
  ofPure alike _ _ worlds := ⟨alike, worlds⟩
  ofBind first next w v worlds := by
    obtain ⟨alike, worlds'⟩ := first w v worlds
    exact next _ _ alike _ _ worlds'

variable {K}

theorem Handlers.compared {h : Handler (StateM S)} {g : Handler (StateM T)} (H : K.Handlers h g) :
    K.comparison.Handlers K.likeness h g where
  suspend agents c _ _ worlds := by
    obtain ⟨answer, agents', worlds'⟩ := H.suspend agents worlds c
    exact ⟨⟨answer, agents'⟩, worlds'⟩
  hostFunction agents name args _ _ worlds := by
    obtain ⟨answer, agents', worlds'⟩ := H.hostFunction agents worlds name args
    exact ⟨⟨answer, agents'⟩, worlds'⟩
  reserved agents name _ _ worlds := H.reserved agents worlds name

/-- Coupled agents and worlds stay coupled over a block, which shows and leaves the same on both
    sides. -/
theorem runBlock_coupled {h : Handler (StateM S)} {g : Handler (StateM T)} (H : K.Handlers h g)
    {a b : AgentState} {w : S} {v : T} (names : Namespace) (agents : K.agents a b)
    (worlds : K.worlds w v) (body : List Stmt) :
    K.Outcomes (runBlock h names a body w) (runBlock g names b body v) := by
  obtain ⟨⟨outcome, machines⟩, worlds'⟩ :=
    Comparison.runBlock_alike H.compared names agents body w v worlds
  exact ⟨outcome, machines, worlds'⟩

end Coupling
end Playbook.Script
