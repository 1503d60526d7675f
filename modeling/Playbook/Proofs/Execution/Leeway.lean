import Playbook.Proofs.Execution.Coupling

/- What a program can do to a machine by itself. A relation between machines that holds over each of
   these changes, and over the answers of the handler, holds over every program, also over one that
   stops half-way. -/
namespace Playbook.Script
variable {S α β : Type}

def Root.Free : Root → Prop
  | .name n => isReserved n = false
  | .var _ => True

theorem Target.free_of_untouched {target : Target} (free : target.touchesReserved = false) :
    target.root.Free := by
  obtain ⟨root, path⟩ := target
  rw [touchesReserved, Bool.or_eq_false_iff] at free
  cases root with
  | name n => exact free.1
  | var n => trivial

/-- A relation that lets programs have their way: it holds over whatever leaves the names and the
    agent alone, over a step, and over an assignment to a free name. -/
structure Leeway (R : Machine → Machine → Prop) : Prop where
  trans {s t u : Machine} : R s t → R t u → R s u
  aside {s t : Machine} : t.names = s.names → t.agent = s.agent → R s t
  advance (s : Machine) (step : String) :
    R s { s with suspended := true, agent := { s.agent with stack := s.agent.stack.advance step } }
  set (s : Machine) {root : Root} (v : Value) : root.Free → R s (s.set root v)

namespace Leeway
variable {R : Machine → Machine → Prop}

theorem refl (L : Leeway R) (s : Machine) : R s s := L.aside rfl rfl

structure Handlers (R : Machine → Machine → Prop) (h : Handler (StateM S)) : Prop where
  suspend (s : Machine) (c : SuspendCall) (w : S) :
    R s { s with agent := (h.suspend s.agent c w).1.2 }
  hostFunction (s : Machine) (name : String) (args : List Value) (w : S) :
    R s { s with agent := (h.hostFunction s.agent name args w).1.2 }

def Keeps (R : Machine → Machine → Prop) (x : Eval (StateM S) α) : Prop :=
  ∀ s w, R s (x.from s w).1.2

section Rules
variable (L : Leeway R)
include L

theorem keeps_pure (a : α) : Keeps R (pure a : Eval (StateM S) α) := fun s _ => L.refl s

theorem keeps_throw (f : Fault) : Keeps R (throw f : Eval (StateM S) α) := fun s _ => L.refl s

theorem keeps_result (r : Result α) : Keeps R (ofResult r : Eval (StateM S) α) :=
  fun s _ => L.refl s

theorem keeps_bind {x : Eval (StateM S) α} {f : α → Eval (StateM S) β} (first : Keeps R x)
    (next : ∀ a, Keeps R (f a)) : Keeps R (x >>= f) := by
  intro s w
  have begun := first s w
  rw [Eval.from_bind]
  rcases ran : x.from s w with ⟨⟨r, t⟩, v⟩
  rw [ran] at begun
  cases r with
  | error e => exact begun
  | ok a => exact L.trans begun (next a t v)

omit L in
theorem keeps_modify {f : Machine → Machine} (keeps : ∀ s, R s (f s)) :
    Keeps R (modify f : Eval (StateM S) PUnit) := fun s _ => keeps s

omit L in
theorem keeps_get_bind {f : Machine → Eval (StateM S) α} (next : ∀ s, Keeps R (f s)) :
    Keeps R (get >>= f) := by
  intro s w
  rw [Eval.from_bind, Eval.from_get]
  exact next s s w

theorem keeps_lift (x : StateM S α) : Keeps R (liftM x : Eval (StateM S) α) := fun s _ => L.refl s

omit L in
theorem keeps_ask {q : AgentState → StateM S (α × AgentState)}
    (keeps : ∀ s w, R s { s with agent := (q s.agent w).1.2 }) : Keeps R (ask q) :=
  fun s w => keeps s w

end Rules

section Programs
variable {h : Handler (StateM S)} (L : Leeway R)
include L

theorem step_keeps (args : List Value) : Keeps R (step args : Eval (StateM S) Value) := by
  match args with
  | [] | _ :: _ :: _ => exact L.keeps_throw _
  | [label] => exact L.keeps_bind (keeps_modify fun s => L.advance s _) fun _ => L.keeps_pure _

theorem return_keeps (args : List Value) : Keeps R (return_ args : Eval (StateM S) Value) := by
  match args with
  | [] | [_] => exact L.keeps_bind (keeps_modify fun s => L.aside rfl rfl) fun _ => L.keeps_pure _
  | _ :: _ :: _ => exact L.keeps_throw _

theorem rootValue_keeps (root : Root) :
    Keeps R (rootValue root : Eval (StateM S) Value) := by
  apply keeps_get_bind
  intro s
  split
  · exact L.keeps_pure _
  · exact L.keeps_throw _

theorem assigned_keeps (root : Root) (keys : List Key) (op : AssignOp) (new : Value) :
    Keeps R (assigned root keys op new : Eval (StateM S) Value) := by
  cases op with
  | set => exact L.keeps_pure new
  | add | sub =>
    exact L.keeps_bind (L.rootValue_keeps root) fun _ => L.keeps_bind (L.keeps_result _) fun _ =>
      L.keeps_result _

theorem lookup_keeps (name : String) : Keeps R (lookup h name) := by
  apply keeps_get_bind
  intro s
  split
  · exact L.keeps_pure _
  · split
    · exact L.keeps_pure _
    · split
      · exact L.keeps_bind (L.keeps_lift _) fun _ => L.keeps_pure _
      · exact L.keeps_throw _

theorem call_keeps (H : Handlers R h) (name : String) (args : List Value) : Keeps R (call h name args) := by
  apply keeps_get_bind
  intro s
  apply L.keeps_bind (L.keeps_result _)
  intro function
  split
  · exact L.step_keeps args
  split
  · exact L.return_keeps args
  split
  · exact L.keeps_result _
  split
  · apply L.keeps_bind (L.keeps_result _)
    intro request
    refine L.keeps_bind (keeps_modify fun s => L.aside rfl rfl) fun _ => ?_
    apply L.keeps_bind (keeps_ask fun s w => H.suspend s request w)
    intro _
    exact L.keeps_result _
  · apply L.keeps_bind (keeps_ask fun s w => H.hostFunction s function args w)
    intro answer
    split
    · exact L.keeps_result _
    · exact L.keeps_throw _

mutual
theorem eval_keeps (H : Handlers R h) : ∀ e : Expr, Keeps R (eval h e)
  | .literal _ => L.keeps_pure _
  | .template parts => L.keeps_bind (parts_keeps H parts) fun _ => L.keeps_pure _
  | .name n => L.lookup_keeps n
  | .var n => by
    apply keeps_get_bind
    intro s
    split
    · exact L.keeps_pure _
    · exact L.keeps_throw _
  | .list items => L.keeps_bind (items_keeps H items) fun _ => L.keeps_pure _
  | .map entries => L.keeps_bind (entries_keeps H [] entries) fun _ => L.keeps_pure _
  | .attr object _ => L.keeps_bind (eval_keeps H object) fun _ => L.keeps_result _
  | .index object index =>
    L.keeps_bind (eval_keeps H object) fun _ => L.keeps_bind (eval_keeps H index) fun _ =>
      L.keeps_result _
  | .call function args =>
    L.keeps_bind (items_keeps H args) fun values => L.call_keeps H function values
  | .unary _ operand => L.keeps_bind (eval_keeps H operand) fun _ => L.keeps_result _
  | .binary _ left right =>
    L.keeps_bind (eval_keeps H left) fun _ => L.keeps_bind (eval_keeps H right) fun _ =>
      L.keeps_result _
  | .and left right => by
    apply L.keeps_bind (eval_keeps H left)
    intro v
    split
    · exact eval_keeps H right
    · exact L.keeps_pure v
  | .or left right => by
    apply L.keeps_bind (eval_keeps H left)
    intro v
    split
    · exact L.keeps_pure v
    · exact eval_keeps H right

theorem items_keeps (H : Handlers R h) : ∀ items : List Expr, Keeps R (evalItems h items)
  | [] => L.keeps_pure _
  | e :: rest =>
    L.keeps_bind (eval_keeps H e) fun _ => L.keeps_bind (items_keeps H rest) fun _ => L.keeps_pure _

theorem entries_keeps (H : Handlers R h) (before : Dict Value) : ∀ entries : List (Expr × Expr),
    Keeps R (evalEntries h before entries)
  | [] => L.keeps_pure _
  | (k, e) :: rest =>
    L.keeps_bind (eval_keeps H k) fun _ => L.keeps_bind (L.keeps_result _) fun key =>
      L.keeps_bind (eval_keeps H e) fun v => entries_keeps H (before.insert key v) rest

theorem parts_keeps (H : Handlers R h) : ∀ parts : List Part, Keeps R (evalParts h parts)
  | [] => L.keeps_pure _
  | .text _ :: rest => L.keeps_bind (parts_keeps H rest) fun _ => L.keeps_pure _
  | .hole e :: rest =>
    L.keeps_bind (eval_keeps H e) fun _ => L.keeps_bind (parts_keeps H rest) fun _ => L.keeps_pure _
end

theorem path_keeps (H : Handlers R h) : ∀ path : List Access, Keeps R (evalPath h path)
  | [] => L.keeps_pure _
  | .field _ :: rest => L.keeps_bind (path_keeps H rest) fun _ => L.keeps_pure _
  | .index e :: rest =>
    L.keeps_bind (L.eval_keeps H e) fun _ => L.keeps_bind (path_keeps H rest) fun _ => L.keeps_pure _

theorem assign_keeps (H : Handlers R h) {target : Target} (free : target.root.Free) (op : AssignOp)
    (value : Value) : Keeps R (assign h target op value) := by
  apply L.keeps_bind (L.path_keeps H target.path)
  intro keys
  apply L.keeps_bind (L.assigned_keeps target.root keys op value)
  intro new
  split
  · exact keeps_modify fun s => L.set s new free
  · exact L.keeps_bind (L.rootValue_keeps target.root) fun _ =>
      L.keeps_bind (L.keeps_result _) fun slot => keeps_modify fun s => L.set s slot free

mutual
theorem exec_keeps (H : Handlers R h) : ∀ statement : Stmt, Keeps R (exec h statement)
  | .expr e => by
    unfold exec
    split
    · exact L.keeps_pure _
    · exact L.keeps_bind (L.eval_keeps H e) fun _ => keeps_modify fun s => L.aside rfl rfl
  | .assign target op value => by
    unfold exec
    split
    · exact L.keeps_pure _
    · rename_i untouched
      have free : target.root.Free :=
        target.free_of_untouched ((Bool.not_eq_true _).mp untouched)
      exact L.keeps_bind (L.eval_keeps H value) fun v => L.assign_keeps H free op v
  | .branch branches none => L.keeps_bind (branches_keeps H branches) fun _ => L.keeps_pure _
  | .branch branches (some body) => by
    apply L.keeps_bind (branches_keeps H branches)
    intro found
    cases found
    · exact block_keeps H body
    · exact L.keeps_pure _

theorem branches_keeps (H : Handlers R h) :
    ∀ branches : List (Expr × List Stmt), Keeps R (execBranches h branches)
  | [] => L.keeps_pure _
  | (condition, body) :: rest => by
    apply L.keeps_bind (L.eval_keeps H condition)
    intro v
    split
    · exact L.keeps_bind (block_keeps H body) fun _ => L.keeps_pure true
    · exact branches_keeps H rest

theorem block_keeps (H : Handlers R h) : ∀ body : List Stmt, Keeps R (execBlock h body)
  | [] => L.keeps_pure _
  | statement :: rest => by
    apply keeps_get_bind
    intro s
    split
    · exact L.keeps_pure _
    · exact L.keeps_bind (exec_keeps H statement) fun _ => block_keeps H rest
end

end Programs
end Leeway
end Playbook.Script
