import Playbook.Script.Eval

/- What holds of the primitives of the language, in two monads side by side, holds of all programs. -/
namespace Playbook.Script
universe u v

/-- A relation between evaluations that the primitives keep to, as long as it starts from machines
    that belong together. -/
structure Congruence {m : Type → Type u} {n : Type → Type v} [Monad m] [Monad n] (h : Handler m)
    (g : Handler n) where
  rel {α : Type} : Eval m α → Eval n α → Prop
  machines : Machine → Machine → Prop
  names {s t : Machine} (same : machines s t) : s.names = t.names
  returned {s t : Machine} (same : machines s t) : s.returned = t.returned
  marked {s t : Machine} (same : machines s t) :
    machines { s with suspended := true } { t with suspended := true }
  ended {s t : Machine} (same : machines s t) (v : Value) :
    machines { s with returned := some v } { t with returned := some v }
  valued {s t : Machine} (same : machines s t) (v : Value) :
    machines { s with last := some v } { t with last := some v }
  set {s t : Machine} (same : machines s t) (root : Root) (v : Value) :
    machines (s.set root v) (t.set root v)
  ofPure {α : Type} (a : α) : rel (pure a) (pure a)
  ofResult {α : Type} (r : Result α) : rel (ofResult r) (ofResult r)
  ofBind {α β : Type} {x : Eval m α} {y : Eval n α} {f : α → Eval m β} {f' : α → Eval n β}
    (first : rel x y) (next : ∀ a, rel (f a) (f' a)) : rel (x >>= f) (y >>= f')
  ofGet {α : Type} {f : Machine → Eval m α} {f' : Machine → Eval n α}
    (next : ∀ {s t}, machines s t → rel (f s) (f' t)) : rel (get >>= f) (get >>= f')
  ofModify {f f' : Machine → Machine} (keeps : ∀ {s t}, machines s t → machines (f s) (f' t)) :
    rel (modify f) (modify f')
  step (args : List Value) : rel (step args) (step args)
  root (root : Root) : rel (rootValue root) (rootValue root)
  var (name : String) : rel (eval h (.var name)) (eval g (.var name))
  view {s t : Machine} (same : machines s t) (name : String) :
    rel (liftM (h.reserved s.agent name)) (liftM (g.reserved t.agent name))
  suspend (c : SuspendCall) :
    rel (ask (h.suspend · c) >>= fun answer => Script.ofResult (hostResult answer))
      (ask (g.suspend · c) >>= fun answer => Script.ofResult (hostResult answer))
  host (name : String) (args : List Value) :
    rel (ask (h.hostFunction · name args)) (ask (g.hostFunction · name args))

namespace Congruence
variable {m : Type → Type u} {n : Type → Type v} [Monad m] [Monad n] {h : Handler m}
  {g : Handler n} (C : Congruence h g)

theorem ofThrow {α : Type} (f : Fault) : C.rel (throw f : Eval m α) (throw f) :=
  C.ofResult (.error f)

theorem assigned (root : Root) (keys : List Key) (op : AssignOp) (new : Value) :
    C.rel (assigned root keys op new : Eval m Value) (assigned root keys op new) := by
  cases op with
  | set => exact C.ofPure new
  | add | sub =>
    exact C.ofBind (C.root root) fun _ => C.ofBind (C.ofResult _) fun _ => C.ofResult _

theorem return_ (args : List Value) :
    C.rel (return_ args : Eval m Value) (return_ args) := by
  match args with
  | [] | [_] => exact C.ofBind (C.ofModify fun same => C.ended same _) fun _ => C.ofPure _
  | _ :: _ :: _ => exact C.ofThrow _

theorem lookup (name : String) : C.rel (lookup h name) (lookup g name) := by
  apply C.ofGet
  intro s t same
  rw [C.names same]
  cases t.names.get? name with
  | some v => exact C.ofPure v
  | none =>
    by_cases builtin : isBuiltin name
    · simp only [builtin, if_true]
      exact C.ofPure _
    · simp only [builtin, Bool.false_eq_true, if_false]
      by_cases isReserved : isReserved name
      · simp only [isReserved, if_true]
        exact C.ofBind (C.view same name) fun view => C.ofPure _
      · simp only [isReserved, Bool.false_eq_true, if_false]
        exact C.ofThrow _

theorem call (name : String) (args : List Value) :
    C.rel (call h name args) (call g name args) := by
  apply C.ofGet
  intro s t same
  rw [C.names same]
  apply C.ofBind (C.ofResult _)
  intro function
  split
  · exact C.step args
  split
  · exact C.return_ args
  split
  · exact C.ofResult _
  split
  · apply C.ofBind (C.ofResult _)
    intro request
    exact C.ofBind (C.ofModify C.marked) fun _ => C.suspend request
  · refine C.ofBind (C.host function args) fun answer => ?_
    cases answer with
    | none => exact C.ofThrow _
    | some result => exact C.ofResult _

mutual
theorem eval (C : Congruence h g) : ∀ e : Expr, C.rel (eval h e) (eval g e)
  | .literal v => C.ofPure v
  | .template parts => C.ofBind (C.parts parts) fun _ => C.ofPure _
  | .name n => C.lookup n
  | .var n => C.var n
  | .list items => C.ofBind (C.items items) fun _ => C.ofPure _
  | .map entries => C.ofBind (C.entries [] entries) fun _ => C.ofPure _
  | .attr object _ => C.ofBind (C.eval object) fun _ => C.ofResult _
  | .index object index =>
    C.ofBind (C.eval object) fun _ => C.ofBind (C.eval index) fun _ => C.ofResult _
  | .call function args => C.ofBind (C.items args) fun values => C.call function values
  | .unary _ operand => C.ofBind (C.eval operand) fun _ => C.ofResult _
  | .binary _ left right =>
    C.ofBind (C.eval left) fun _ => C.ofBind (C.eval right) fun _ => C.ofResult _
  | .and left right => by
    apply C.ofBind (C.eval left)
    intro v
    split
    · exact C.eval right
    · exact C.ofPure v
  | .or left right => by
    apply C.ofBind (C.eval left)
    intro v
    split
    · exact C.ofPure v
    · exact C.eval right

theorem items (C : Congruence h g) : ∀ items : List Expr,
    C.rel (evalItems h items) (evalItems g items)
  | [] => C.ofPure []
  | e :: rest => C.ofBind (C.eval e) fun _ => C.ofBind (C.items rest) fun _ => C.ofPure _

theorem entries (C : Congruence h g) (before : Dict Value) : ∀ entries : List (Expr × Expr),
    C.rel (evalEntries h before entries) (evalEntries g before entries)
  | [] => C.ofPure before
  | (k, e) :: rest =>
    C.ofBind (C.eval k) fun _ => C.ofBind (C.ofResult _) fun key =>
      C.ofBind (C.eval e) fun v => C.entries (before.insert key v) rest

theorem parts (C : Congruence h g) : ∀ parts : List Part,
    C.rel (evalParts h parts) (evalParts g parts)
  | [] => C.ofPure ""
  | .text _ :: rest => C.ofBind (C.parts rest) fun _ => C.ofPure _
  | .hole e :: rest => C.ofBind (C.eval e) fun _ => C.ofBind (C.parts rest) fun _ => C.ofPure _
end

theorem path (C : Congruence h g) : ∀ path : List Access, C.rel (evalPath h path) (evalPath g path)
  | [] => C.ofPure []
  | .field _ :: rest => C.ofBind (C.path rest) fun _ => C.ofPure _
  | .index e :: rest => C.ofBind (C.eval e) fun _ => C.ofBind (C.path rest) fun _ => C.ofPure _

theorem assign (target : Target) (op : AssignOp) (value : Value) :
    C.rel (assign h target op value) (assign g target op value) := by
  apply C.ofBind (C.path target.path)
  intro keys
  apply C.ofBind (C.assigned target.root keys op value)
  intro new
  split
  · exact C.ofModify fun same => C.set same _ _
  · exact C.ofBind (C.root target.root) fun slot => C.ofBind (C.ofResult _) fun _ =>
      C.ofModify fun same => C.set same _ _

mutual
theorem exec (C : Congruence h g) : ∀ s : Stmt, C.rel (exec h s) (exec g s)
  | .expr e => by
    unfold Script.exec
    split
    · exact C.ofPure _
    · exact C.ofBind (C.eval e) fun v => C.ofModify fun same => C.valued same v
  | .assign target op value => by
    unfold Script.exec
    split
    · exact C.ofPure _
    · exact C.ofBind (C.eval value) fun v => C.assign target op v
  | .branch branches none => C.ofBind (C.branches branches) fun _ => C.ofPure _
  | .branch branches (some body) => by
    apply C.ofBind (C.branches branches)
    intro found
    cases found
    · exact C.block body
    · exact C.ofPure _

theorem branches (C : Congruence h g) : ∀ branches : List (Expr × List Stmt),
    C.rel (execBranches h branches) (execBranches g branches)
  | [] => C.ofPure false
  | (condition, body) :: rest => by
    apply C.ofBind (C.eval condition)
    intro v
    split
    · exact C.ofBind (C.block body) fun _ => C.ofPure true
    · exact C.branches rest

theorem block (C : Congruence h g) : ∀ body : List Stmt, C.rel (execBlock h body) (execBlock g body)
  | [] => C.ofPure _
  | s :: rest => by
    apply C.ofGet
    intro _ _ same
    rw [C.returned same]
    split
    · exact C.ofPure _
    · exact C.ofBind (C.exec s) fun _ => C.block rest
end

end Congruence
end Playbook.Script
