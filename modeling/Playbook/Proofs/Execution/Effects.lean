import Playbook.Proofs.Execution.Surroundings

/- What takes effect while a program runs: the calls for which it is suspended, and the steps that
   it announces. The effects are read off the syntax tree, along with what the evaluation comes to
   on the way. A program is suspended just when it has had an effect. -/
namespace Playbook.Script
variable {S α β : Type}

inductive Effect where
  | asked (call : SuspendCall)
  | stepped (label : String)

/-- What takes effect from a machine and a world, the earliest first. -/
abbrev Effects (S : Type) := Machine → S → List Effect

namespace Effects

def none : Effects S := fun _ _ => []

def andThen (x : Eval (StateM S) α) (first : Effects S) (next : α → Effects S) : Effects S :=
  fun s w => first s w ++ match x.from s w with
    | ((.ok a, s), w) => next a s w
    | _ => []

end Effects

/-- A step is announced with one label; a call suspends once its arguments have been checked. -/
def functionEffects (function : String) (args : List Value) : List Effect :=
  if function = "Step" then
    match args with
    | [label] => [.stepped label.display]
    | _ => []
  else if isSuspending function then
    match SuspendCall.ofArguments function args with
    | .ok call => [.asked call]
    | .error _ => []
  else []

def callEffects (name : String) (args : List Value) : Effects S := fun s _ =>
  match calledFunction s.names name with
  | .ok function => functionEffects function args
  | .error _ => []

section Programs
variable (h : Handler (StateM S))

mutual
def exprEffects : Expr → Effects S
  | .literal _ | .name _ | .var _ => .none
  | .template parts => partsEffects parts
  | .list items => itemsEffects items
  | .map entries => entriesEffects entries
  | .attr object _ => exprEffects object
  | .index object index => .andThen (eval h object) (exprEffects object) fun _ => exprEffects index
  | .call function args => .andThen (evalItems h args) (itemsEffects args) (callEffects function)
  | .unary _ operand => exprEffects operand
  | .binary _ left right => .andThen (eval h left) (exprEffects left) fun _ => exprEffects right
  | .and left right => .andThen (eval h left) (exprEffects left) fun v =>
    if v.truthy then exprEffects right else .none
  | .or left right => .andThen (eval h left) (exprEffects left) fun v =>
    if v.truthy then .none else exprEffects right

def itemsEffects : List Expr → Effects S
  | [] => .none
  | e :: rest => .andThen (eval h e) (exprEffects e) fun _ => itemsEffects rest

def entriesEffects : List (Expr × Expr) → Effects S
  | [] => .none
  | (k, e) :: rest => .andThen (eval h k) (exprEffects k) fun key =>
    match mapKey key with
    | .error _ => .none
    | .ok _ => .andThen (eval h e) (exprEffects e) fun _ => entriesEffects rest

def partsEffects : List Part → Effects S
  | [] => .none
  | .text _ :: rest => partsEffects rest
  | .hole e :: rest => .andThen (eval h e) (exprEffects e) fun _ => partsEffects rest
end

def pathEffects : List Access → Effects S
  | [] => .none
  | .field _ :: rest => pathEffects rest
  | .index e :: rest => .andThen (eval h e) (exprEffects h e) fun _ => pathEffects rest

mutual
def stmtEffects : Stmt → Effects S
  | .expr e => if (Stmt.expr e).isBare then .none else exprEffects h e
  | .assign target _ value =>
    if target.touchesReserved then .none
    else .andThen (eval h value) (exprEffects h value) fun _ => pathEffects h target.path
  | .branch branches none => branchesEffects branches
  | .branch branches (some body) => .andThen (execBranches h branches) (branchesEffects branches)
    fun found => if found then .none else blockEffects body

def branchesEffects : List (Expr × List Stmt) → Effects S
  | [] => .none
  | (condition, body) :: rest => .andThen (eval h condition) (exprEffects h condition) fun v =>
    if v.truthy then blockEffects body else branchesEffects rest

/-- Nothing takes effect after a return. -/
def blockEffects : List Stmt → Effects S
  | [] => .none
  | statement :: rest => fun s w =>
    if s.returned.isSome then []
    else Effects.andThen (exec h statement) (stmtEffects statement) (fun _ => blockEffects rest) s w
end

end Programs

/-- The calls among the effects. -/
def askedCalls (effects : List Effect) : List SuspendCall :=
  effects.filterMap fun
    | .asked call => some call
    | .stepped _ => none

/-- The calls that have been answered and for which the program has been suspended. -/
def suspendedCalls (calls : List NotedCall) : List SuspendCall :=
  calls.filterMap fun
    | .suspended call => some call
    | .function .. => none

namespace Surroundings
variable {σ τ : Type}

/-- An evaluation that is suspended by its effects only, and asks for just the calls among them. -/
structure HasEffects (x : Eval (StateM (Surroundings σ τ)) α)
    (effects : Effects (Surroundings σ τ)) : Prop where
  suspended (s : Machine) (w : Surroundings σ τ) :
    (x.from s w).1.2.suspended = true ↔ s.suspended = true ∨ effects s w ≠ []
  asked (s : Machine) (w : Surroundings σ τ) :
    suspendedCalls (x.from s w).2.calls = suspendedCalls w.calls ++ askedCalls (effects s w)

namespace HasEffects

theorem of_same {x : Eval (StateM (Surroundings σ τ)) α}
    (flag : ∀ s w, (x.from s w).1.2.suspended = s.suspended)
    (calls : ∀ s w, suspendedCalls (x.from s w).2.calls = suspendedCalls w.calls) :
    HasEffects x .none where
  suspended s w := by
    rw [flag]
    exact (or_iff_left fun some => some rfl).symm
  asked s w := by
    rw [calls]
    exact (List.append_nil _).symm

theorem of_pure (a : α) : HasEffects (pure a : Eval (StateM (Surroundings σ τ)) α) .none :=
  .of_same (fun _ _ => rfl) fun _ _ => rfl

theorem of_throw (f : Fault) : HasEffects (throw f : Eval (StateM (Surroundings σ τ)) α) .none :=
  .of_same (fun _ _ => rfl) fun _ _ => rfl

theorem of_result (r : Result α) :
    HasEffects (ofResult r : Eval (StateM (Surroundings σ τ)) α) .none :=
  .of_same (fun _ _ => rfl) fun _ _ => rfl

theorem of_modify {f : Machine → Machine} (keeps : ∀ s, (f s).suspended = s.suspended) :
    HasEffects (modify f : Eval (StateM (Surroundings σ τ)) PUnit) .none :=
  .of_same (fun s _ => keeps s) fun _ _ => rfl

theorem bind {x : Eval (StateM (Surroundings σ τ)) α} {f : α → Eval (StateM (Surroundings σ τ)) β}
    {first : Effects (Surroundings σ τ)} {next : α → Effects (Surroundings σ τ)}
    (now : HasEffects x first) (later : ∀ a, HasEffects (f a) (next a)) :
    HasEffects (x >>= f) (.andThen x first next) where
  suspended s w := by
    have flag := now.suspended s w
    rw [Eval.from_bind, Effects.andThen]
    rcases ran : x.from s w with ⟨⟨r, s'⟩, w'⟩
    rw [ran] at flag
    cases r with
    | error e =>
      rw [List.append_nil]
      exact flag
    | ok a =>
      have flag' := (later a).suspended s' w'
      rw [flag, or_assoc] at flag'
      have either : first s w ++ next a s' w' ≠ [] ↔ first s w ≠ [] ∨ next a s' w' ≠ [] := by
        rw [Ne, List.append_eq_nil_iff, not_and_or]
      rw [← either] at flag'
      exact flag'
  asked s w := by
    have calls := now.asked s w
    rw [Eval.from_bind, Effects.andThen]
    rcases ran : x.from s w with ⟨⟨r, s'⟩, w'⟩
    rw [ran] at calls
    cases r with
    | error e =>
      rw [List.append_nil]
      exact calls
    | ok a =>
      have calls' := (later a).asked s' w'
      rw [calls, List.append_assoc] at calls'
      rw [calls', askedCalls, askedCalls, askedCalls, List.filterMap_append]

theorem last {x : Eval (StateM (Surroundings σ τ)) α} {f : α → Eval (StateM (Surroundings σ τ)) β}
    {first : Effects (Surroundings σ τ)} (now : HasEffects x first)
    (later : ∀ a, HasEffects (f a) .none) : HasEffects (x >>= f) first := by
  have whole : Effects.andThen x first (fun _ => .none) = first := by
    funext s w
    unfold Effects.andThen
    split <;> exact List.append_nil _
  have both := now.bind later
  rwa [whole] at both

theorem get_bind {f : Machine → Eval (StateM (Surroundings σ τ)) α}
    (next : Machine → Effects (Surroundings σ τ)) (later : ∀ s, HasEffects (f s) (next s)) :
    HasEffects (get >>= f) fun s w => next s s w where
  suspended s w := by
    rw [Eval.from_bind, Eval.from_get]
    exact (later s).suspended s w
  asked s w := by
    rw [Eval.from_bind, Eval.from_get]
    exact (later s).asked s w

end HasEffects

section Programs
variable (h : Handler (StateM σ))

theorem lookup_effects (name : String) :
    HasEffects (lookup (noting (τ := τ) h) name) .none := by
  apply HasEffects.get_bind fun _ => .none
  intro s
  split
  · exact .of_pure _
  · split
    · exact .of_pure _
    · split
      · exact .of_same (fun _ _ => rfl) fun _ _ => rfl
      · exact .of_throw _

theorem step_effects (args : List Value) :
    HasEffects (step args : Eval (StateM (Surroundings σ τ)) Value)
      fun _ _ => functionEffects "Step" args := by
  match args with
  | [] | _ :: _ :: _ => exact .of_throw _
  | [label] =>
    constructor
    · intro s w
      exact ⟨fun _ => .inr (List.cons_ne_nil _ _), fun _ => rfl⟩
    · intro s w
      exact (List.append_nil _).symm

theorem return_effects (args : List Value) :
    HasEffects (return_ args : Eval (StateM (Surroundings σ τ)) Value) .none := by
  match args with
  | _ :: _ :: _ => exact .of_throw _
  | [] | [_] =>
    apply HasEffects.last
    · apply HasEffects.of_modify
      intro s
      rfl
    · intro _
      exact .of_pure _

theorem suspend_effects (request : SuspendCall) :
    HasEffects (do
      modify fun s => { s with suspended := true }
      let answer ← ask ((noting (τ := τ) h).suspend · request)
      ofResult (hostResult answer)) fun _ _ => [.asked request] := by
  constructor
  · intro s w
    exact ⟨fun _ => .inr (List.cons_ne_nil _ _), fun _ => rfl⟩
  · intro s w
    exact List.filterMap_append

theorem host_effects (function : String) (args : List Value) :
    HasEffects (do
      let answer ← ask ((noting (τ := τ) h).hostFunction · function args)
      match answer with
      | some result => ofResult (hostResult result)
      | none => throw (.undefinedName function)) .none := by
  apply HasEffects.last
  · apply HasEffects.of_same
    · intro s w
      rfl
    · intro s w
      exact List.filterMap_append.trans (List.append_nil _)
  · intro answer
    split
    · exact .of_result _
    · exact .of_throw _

theorem plain_of_suspending {function : String} (suspends : isSuspending function = true) :
    function ≠ "Return" ∧ isPure function = false := by
  simp only [isSuspending, suspendingBuiltins, List.contains_eq_mem, List.mem_cons,
    List.not_mem_nil, or_false, decide_eq_true_eq] at suspends
  rcases suspends with rfl | rfl | rfl | rfl | rfl <;> decide

theorem call_effects (name : String) (args : List Value) :
    HasEffects (call (noting (τ := τ) h) name args) (callEffects name args) := by
  apply HasEffects.get_bind fun s _ w => callEffects name args s w
  intro s
  simp only [callEffects]
  cases calledFunction s.names name with
  | error f => exact .of_throw f
  | ok function =>
    show HasEffects (if function = "Step" then _ else _) fun _ _ => functionEffects function args
    by_cases isStep : function = "Step"
    · rw [if_pos isStep, isStep]
      exact step_effects args
    rw [if_neg isStep]
    by_cases suspends : isSuspending function = true
    · obtain ⟨other, notPure⟩ := plain_of_suspending suspends
      unfold functionEffects
      rw [if_neg isStep, if_pos suspends, if_neg other, notPure, if_neg Bool.false_ne_true,
        if_pos suspends]
      cases SuspendCall.ofArguments function args with
      | error f => exact .of_throw f
      | ok request => exact suspend_effects h request
    · unfold functionEffects
      rw [if_neg isStep, if_neg suspends]
      split
      · exact return_effects args
      · split
        · exact .of_result _
        · exact host_effects h function args

mutual
theorem eval_effects : ∀ e : Expr,
    HasEffects (eval (noting (τ := τ) h) e) (exprEffects (noting h) e)
  | .literal _ => .of_pure _
  | .template parts => (parts_effects parts).last fun _ => .of_pure _
  | .name n => lookup_effects h n
  | .var n => by
    apply HasEffects.get_bind fun _ => .none
    intro s
    split
    · exact .of_pure _
    · exact .of_throw _
  | .list items => (items_effects items).last fun _ => .of_pure _
  | .map entries => (entries_effects [] entries).last fun _ => .of_pure _
  | .attr object _ => (eval_effects object).last fun _ => .of_result _
  | .index object index =>
    (eval_effects object).bind fun _ => (eval_effects index).last fun _ => .of_result _
  | .call function args => (items_effects args).bind fun values => call_effects h function values
  | .unary _ operand => (eval_effects operand).last fun _ => .of_result _
  | .binary _ left right =>
    (eval_effects left).bind fun _ => (eval_effects right).last fun _ => .of_result _
  | .and left right => by
    apply (eval_effects left).bind
    intro v
    split
    · exact eval_effects right
    · exact .of_pure v
  | .or left right => by
    apply (eval_effects left).bind
    intro v
    split
    · exact .of_pure v
    · exact eval_effects right

theorem items_effects : ∀ items : List Expr,
    HasEffects (evalItems (noting (τ := τ) h) items) (itemsEffects (noting h) items)
  | [] => .of_pure _
  | e :: rest =>
    (eval_effects e).bind fun _ => (items_effects rest).last fun _ => .of_pure _

theorem entries_effects (before : Dict Value) : ∀ entries : List (Expr × Expr),
    HasEffects (evalEntries (noting (τ := τ) h) before entries) (entriesEffects (noting h) entries)
  | [] => .of_pure _
  | (k, e) :: rest => by
    apply (eval_effects k).bind
    intro key
    cases mapKey key with
    | error f => exact .of_throw f
    | ok name => exact (eval_effects e).bind fun v => entries_effects (before.insert name v) rest

theorem parts_effects : ∀ parts : List Part,
    HasEffects (evalParts (noting (τ := τ) h) parts) (partsEffects (noting h) parts)
  | [] => .of_pure _
  | .text _ :: rest => (parts_effects rest).last fun _ => .of_pure _
  | .hole e :: rest =>
    (eval_effects e).bind fun _ => (parts_effects rest).last fun _ => .of_pure _
end

theorem path_effects : ∀ path : List Access,
    HasEffects (evalPath (noting (τ := τ) h) path) (pathEffects (noting h) path)
  | [] => .of_pure _
  | .field _ :: rest => (path_effects rest).last fun _ => .of_pure _
  | .index e :: rest =>
    (eval_effects h e).bind fun _ => (path_effects rest).last fun _ => .of_pure _

theorem rootValue_effects (root : Root) :
    HasEffects (rootValue root : Eval (StateM (Surroundings σ τ)) Value) .none := by
  apply HasEffects.get_bind fun _ => .none
  intro s
  split
  · exact .of_pure _
  · exact .of_throw _

theorem assigned_effects (root : Root) (keys : List Key) (op : AssignOp) (new : Value) :
    HasEffects (assigned root keys op new : Eval (StateM (Surroundings σ τ)) Value) .none := by
  cases op with
  | set => exact .of_pure new
  | add | sub =>
    exact (rootValue_effects root).last fun _ => (HasEffects.of_result _).last fun _ => .of_result _

theorem set_suspended (s : Machine) (root : Root) (v : Value) :
    (s.set root v).suspended = s.suspended := by
  cases root <;> rfl

theorem assign_effects (target : Target) (op : AssignOp) (value : Value) :
    HasEffects (assign (noting (τ := τ) h) target op value)
      (pathEffects (noting h) target.path) := by
  apply (path_effects h target.path).last
  intro keys
  apply (assigned_effects target.root keys op value).last
  intro new
  split
  · exact .of_modify fun s => set_suspended s target.root new
  · exact (rootValue_effects target.root).last fun _ => (HasEffects.of_result _).last fun slot =>
      .of_modify fun s => set_suspended s target.root slot

mutual
theorem exec_effects : ∀ statement : Stmt,
    HasEffects (exec (noting (τ := τ) h) statement) (stmtEffects (noting h) statement)
  | .expr e => by
    unfold exec stmtEffects
    split
    · exact .of_pure _
    · exact (eval_effects h e).last fun _ => .of_modify fun _ => rfl
  | .assign target op value => by
    unfold exec stmtEffects
    split
    · exact .of_pure _
    · exact (eval_effects h value).bind fun v => assign_effects h target op v
  | .branch branches none => (branches_effects branches).last fun _ => .of_pure _
  | .branch branches (some body) => by
    apply (branches_effects branches).bind
    intro found
    cases found
    · exact block_effects body
    · exact .of_pure _

theorem branches_effects : ∀ branches : List (Expr × List Stmt),
    HasEffects (execBranches (noting (τ := τ) h) branches) (branchesEffects (noting h) branches)
  | [] => .of_pure _
  | (condition, body) :: rest => by
    apply (eval_effects h condition).bind
    intro v
    split
    · exact (block_effects body).last fun _ => .of_pure true
    · exact branches_effects rest

theorem block_effects : ∀ body : List Stmt,
    HasEffects (execBlock (noting (τ := τ) h) body) (blockEffects (noting h) body)
  | [] => .of_pure _
  | statement :: rest => by
    apply HasEffects.get_bind fun t s w =>
      if t.returned.isSome then []
      else Effects.andThen (exec (noting h) statement) (stmtEffects (noting h) statement)
        (fun _ => blockEffects (noting h) rest) s w
    intro s
    cases s.returned with
    | some v => exact .of_pure _
    | none => exact (exec_effects statement).bind fun _ => block_effects rest
end

end Programs
end Surroundings
end Playbook.Script
