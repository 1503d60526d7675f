import Playbook.Proofs.Execution.Internals
import Playbook.Proofs.Printing.Printer

/- Adding to a place and taking from it are short for an assignment of the sum or the difference.
   The short form reads the place by its root and the computed steps, the long one evaluates it as
   an expression, where a name may also be that of a built-in function; as long as nothing is
   called, both come to the same. -/
namespace Playbook.Script
variable {S α β : Type}

mutual
/-- Nothing is called anywhere in the expression. -/
def Expr.callFree : Expr → Bool
  | .literal _ | .name _ | .var _ => true
  | .template parts => partsCallFree parts
  | .list items => itemsCallFree items
  | .map entries => entriesCallFree entries
  | .attr operand _ | .unary _ operand => operand.callFree
  | .index left right | .binary _ left right | .and left right | .or left right =>
    left.callFree && right.callFree
  | .call .. => false

def itemsCallFree : List Expr → Bool
  | [] => true
  | e :: rest => e.callFree && itemsCallFree rest

def entriesCallFree : List (Expr × Expr) → Bool
  | [] => true
  | (k, e) :: rest => k.callFree && e.callFree && entriesCallFree rest

def partsCallFree : List Part → Bool
  | [] => true
  | .text _ :: rest => partsCallFree rest
  | .hole e :: rest => e.callFree && partsCallFree rest
end

def pathCallFree : List Access → Bool
  | [] => true
  | .field _ :: rest => pathCallFree rest
  | .index e :: rest => e.callFree && pathCallFree rest

theorem pathCallFree_cons {step : Access} {path : List Access} :
    pathCallFree (step :: path) = true ↔ pathCallFree [step] = true ∧ pathCallFree path = true := by
  cases step <;> simp [pathCallFree]

theorem callFree_root (root : Root) : root.expr.callFree = true := by cases root <;> rfl

theorem callFree_from {object : Expr} (free : object.callFree = true) {step : Access}
    (free' : pathCallFree [step] = true) : (step.from object).callFree = true := by
  cases step with
  | field name => exact free
  | index position =>
    exact (Bool.and_eq_true _ _).mpr ⟨free, ((Bool.and_eq_true _ _).mp free').1⟩

theorem callFree_foldl_from : ∀ {path : List Access} {object : Expr}, pathCallFree path = true →
    object.callFree = true → (path.foldl Access.from object).callFree = true
  | [], _, _, start => start
  | _ :: rest, _, free, start => by
    obtain ⟨first, later⟩ := pathCallFree_cons.mp free
    rw [List.foldl_cons]
    exact callFree_foldl_from later (callFree_from start first)

/-- The operator by which an assignment changes what it finds. -/
def AssignOp.operator? : AssignOp → Option BinaryOp
  | .set => none
  | .add => some .add
  | .sub => some .sub

/-- To view a reserved name changes nothing in the world. -/
def Handler.Views (h : Handler (StateM S)) : Prop :=
  ∀ (a : AgentState) (name : String) (w : S), (h.reserved a name w).2 = w

namespace Eval

def result? (x : Eval (StateM S) α) (s : Machine) (w : S) : Option α := (x.from s w).1.1.toOption

def after? (x : Eval (StateM S) α) (s : Machine) (w : S) : Option Machine :=
  (x.from s w).1.1.toOption.map fun _ => (x.from s w).1.2

/-- The machine and the world stay as they are. -/
def Looks (x : Eval (StateM S) α) : Prop :=
  ∀ s w, (x.from s w).1.2 = s ∧ (x.from s w).2 = w

/-- The world stays as it is, and where there is a fault, the machine does. -/
def AllOrNothing (x : Eval (StateM S) α) : Prop :=
  ∀ s w, (x.from s w).2 = w ∧ ((x.from s w).1.1.toOption = none → (x.from s w).1.2 = s)

section Rules
variable {x : Eval (StateM S) α} {f : α → Eval (StateM S) β} {s : Machine} {w : S}

theorem looks_pure (a : α) : Looks (pure a : Eval (StateM S) α) := fun _ _ => ⟨rfl, rfl⟩

theorem looks_throw (fault : Fault) : Looks (throw fault : Eval (StateM S) α) :=
  fun _ _ => ⟨rfl, rfl⟩

theorem looks_result (r : Result α) : Looks (ofResult r : Eval (StateM S) α) :=
  fun _ _ => ⟨rfl, rfl⟩

theorem looks_get_bind {f : Machine → Eval (StateM S) β} (next : ∀ s, Looks (f s)) :
    Looks (get >>= f) := fun s w => next s s w

theorem Looks.from_bind (looks : x.Looks) (f : α → Eval (StateM S) β) (s : Machine) (w : S) :
    (x >>= f).from s w = match (x.from s w).1.1 with
      | .ok a => (f a).from s w
      | .error fault => ((.error fault, s), w) := by
  have stays := looks s w
  rw [Eval.from_bind]
  rcases ran : x.from s w with ⟨⟨r, t⟩, v⟩
  rw [ran] at stays
  obtain rfl : t = s := stays.1
  obtain rfl : v = w := stays.2
  cases r <;> rfl

theorem Looks.bind (looks : x.Looks) (next : ∀ a, (f a).Looks) : (x >>= f).Looks := by
  intro s w
  rw [looks.from_bind]
  split
  · exact next _ s w
  · exact ⟨rfl, rfl⟩

theorem result?_get_bind (f : Machine → Eval (StateM S) β) :
    (get >>= f).result? s w = (f s).result? s w := rfl

theorem Looks.result?_bind (looks : x.Looks) (f : α → Eval (StateM S) β) (s : Machine) (w : S) :
    (x >>= f).result? s w = (x.result? s w).bind fun a => (f a).result? s w := by
  rw [result?, looks.from_bind, result?]
  cases (x.from s w).1.1 <;> rfl

theorem Looks.after?_bind (looks : x.Looks) (f : α → Eval (StateM S) β) (s : Machine) (w : S) :
    (x >>= f).after? s w = (x.result? s w).bind fun a => (f a).after? s w := by
  rw [after?, looks.from_bind, result?]
  cases (x.from s w).1.1 <;> rfl

theorem Looks.allOrNothing_bind (looks : x.Looks) (next : ∀ a, (f a).AllOrNothing) :
    (x >>= f).AllOrNothing := by
  intro s w
  rw [looks.from_bind]
  split
  · exact next _ s w
  · exact ⟨rfl, fun _ => rfl⟩

theorem AllOrNothing.from {x : Eval (StateM S) Unit} (whole : x.AllOrNothing) (s : Machine)
    (w : S) :
    (∃ t, x.after? s w = some t ∧ x.from s w = ((.ok (), t), w)) ∨
      (x.after? s w = none ∧ ∃ fault, x.from s w = ((.error fault, s), w)) := by
  have kept := whole s w
  rw [after?]
  rcases ran : x.from s w with ⟨⟨r, t⟩, v⟩
  rw [ran] at kept
  obtain rfl : v = w := kept.1
  cases r with
  | ok u => exact .inl ⟨t, rfl, rfl⟩
  | error fault =>
    obtain rfl : t = s := kept.2 rfl
    exact .inr ⟨rfl, fault, rfl⟩

theorem allOrNothing_modify (f : Machine → Machine) :
    AllOrNothing (modify f : Eval (StateM S) PUnit) := fun _ _ => ⟨rfl, nofun⟩

end Rules
end Eval

open Eval

theorem rootValue_looks (root : Root) : Looks (rootValue root : Eval (StateM S) Value) := by
  apply looks_get_bind
  intro s
  split
  · exact looks_pure _
  · exact looks_throw _

theorem assigned_looks (root : Root) (keys : List Key) (op : AssignOp) (new : Value) :
    Looks (assigned root keys op new : Eval (StateM S) Value) := by
  cases op with
  | set => exact looks_pure new
  | add | sub =>
    exact (rootValue_looks root).bind fun _ => (looks_result _).bind fun _ => looks_result _

section Looking
variable {h : Handler (StateM S)}

theorem lookup_looks (views : h.Views) (name : String) : Looks (lookup h name) := by
  apply looks_get_bind
  intro s
  split
  · exact looks_pure _
  · split
    · exact looks_pure _
    · split
      · refine Looks.bind (fun t w => ?_) fun _ => looks_pure _
        rw [from_liftM]
        exact ⟨rfl, views s.agent name w⟩
      · exact looks_throw _

mutual
theorem eval_looks (views : h.Views) : ∀ e : Expr, e.callFree = true → Looks (eval h e)
  | .literal v, _ => looks_pure v
  | .template parts, free => (parts_looks views parts free).bind fun _ => looks_pure _
  | .name n, _ => lookup_looks views n
  | .var n, _ => by
    apply looks_get_bind
    intro s
    split
    · exact looks_pure _
    · exact looks_throw _
  | .list items, free => (items_looks views items free).bind fun _ => looks_pure _
  | .map entries, free => (entries_looks views [] entries free).bind fun _ => looks_pure _
  | .attr object _, free => (eval_looks views object free).bind fun _ => looks_result _
  | .index object position, free => by
    obtain ⟨first, second⟩ := (Bool.and_eq_true _ _).mp free
    exact (eval_looks views object first).bind fun _ =>
      (eval_looks views position second).bind fun _ => looks_result _
  | .unary _ operand, free => (eval_looks views operand free).bind fun _ => looks_result _
  | .binary _ left right, free => by
    obtain ⟨first, second⟩ := (Bool.and_eq_true _ _).mp free
    exact (eval_looks views left first).bind fun _ => (eval_looks views right second).bind fun _ =>
      looks_result _
  | .and left right, free => by
    obtain ⟨first, second⟩ := (Bool.and_eq_true _ _).mp free
    refine (eval_looks views left first).bind fun v => ?_
    split
    · exact eval_looks views right second
    · exact looks_pure v
  | .or left right, free => by
    obtain ⟨first, second⟩ := (Bool.and_eq_true _ _).mp free
    refine (eval_looks views left first).bind fun v => ?_
    split
    · exact looks_pure v
    · exact eval_looks views right second

theorem items_looks (views : h.Views) : ∀ items : List Expr, itemsCallFree items = true →
    Looks (evalItems h items)
  | [], _ => looks_pure []
  | e :: rest, free => by
    obtain ⟨first, later⟩ := (Bool.and_eq_true _ _).mp free
    exact (eval_looks views e first).bind fun _ => (items_looks views rest later).bind fun _ =>
      looks_pure _

theorem entries_looks (views : h.Views) (before : Dict Value) : ∀ entries : List (Expr × Expr),
    entriesCallFree entries = true → Looks (evalEntries h before entries)
  | [], _ => looks_pure before
  | (k, e) :: rest, free => by
    simp only [entriesCallFree, Bool.and_eq_true] at free
    obtain ⟨⟨key, value⟩, later⟩ := free
    exact (eval_looks views k key).bind fun _ => (looks_result _).bind fun name =>
      (eval_looks views e value).bind fun v => entries_looks views (before.insert name v) rest later

theorem parts_looks (views : h.Views) : ∀ parts : List Part, partsCallFree parts = true →
    Looks (evalParts h parts)
  | [], _ => looks_pure ""
  | .text _ :: rest, free => (parts_looks views rest free).bind fun _ => looks_pure _
  | .hole e :: rest, free => by
    obtain ⟨first, later⟩ := (Bool.and_eq_true _ _).mp free
    exact (eval_looks views e first).bind fun _ => (parts_looks views rest later).bind fun _ =>
      looks_pure _
end

theorem path_looks (views : h.Views) : ∀ path : List Access, pathCallFree path = true →
    Looks (evalPath h path)
  | [], _ => looks_pure []
  | .field _ :: rest, free => (path_looks views rest free).bind fun _ => looks_pure _
  | .index e :: rest, free => by
    obtain ⟨first, later⟩ := (Bool.and_eq_true _ _).mp free
    exact (eval_looks views e first).bind fun _ => (path_looks views rest later).bind fun _ =>
      looks_pure _

theorem assign_allOrNothing (views : h.Views) (target : Target)
    (free : pathCallFree target.path = true) (op : AssignOp) (v : Value) :
    AllOrNothing (assign h target op v) := by
  refine (path_looks views target.path free).allOrNothing_bind fun keys => ?_
  refine (assigned_looks target.root keys op v).allOrNothing_bind fun new => ?_
  split
  · exact allOrNothing_modify _
  · exact (rootValue_looks target.root).allOrNothing_bind fun _ =>
      (looks_result _).allOrNothing_bind fun _ => allOrNothing_modify _

theorem exec_allOrNothing (views : h.Views) {target : Target}
    (path : pathCallFree target.path = true) (op : AssignOp) {value : Expr}
    (free : value.callFree = true) : AllOrNothing (exec h (.assign target op value)) := by
  unfold exec
  split
  · exact fun _ _ => ⟨rfl, nofun⟩
  · exact (eval_looks views value free).allOrNothing_bind fun v =>
      assign_allOrNothing views target path op v

end Looking

def Machine.written? (s : Machine) (root : Root) (keys : List Key) (v : Value) : Option Machine :=
  if keys.isEmpty then some (s.set root v)
  else (s.get? root).bind fun slot => (setPath slot keys v).toOption.map (s.set root)

def evalAccess (h : Handler (StateM S)) : Access → Eval (StateM S) Key
  | .field name => return .field name
  | .index e => do return .index (← eval h e)

section Places
variable {h : Handler (StateM S)} {s : Machine} {w : S}

theorem result?_rootValue (root : Root) :
    (rootValue root : Eval (StateM S) Value).result? s w = s.get? root := by
  rw [rootValue, result?_get_bind]
  cases s.get? root <;> rfl

theorem result?_ofResult (r : Result α) :
    (ofResult r : Eval (StateM S) α).result? s w = r.toOption := rfl

theorem after?_assign (views : h.Views) (target : Target) (free : pathCallFree target.path = true)
    (op : AssignOp) (v : Value) :
    (assign h target op v).after? s w = ((evalPath h target.path).result? s w).bind fun keys =>
      ((assigned target.root keys op v : Eval (StateM S) Value).result? s w).bind fun new =>
        s.written? target.root keys new := by
  rw [assign, (path_looks views target.path free).after?_bind]
  refine Option.bind_congr fun keys _ => ?_
  rw [(assigned_looks target.root keys op v).after?_bind]
  refine Option.bind_congr fun new _ => ?_
  rw [Machine.written?]
  cases keys.isEmpty with
  | true => rfl
  | false =>
    simp only [Bool.false_eq_true, if_false]
    rw [(rootValue_looks target.root).after?_bind, result?_rootValue]
    refine Option.bind_congr fun slot _ => ?_
    rw [(looks_result _).after?_bind, result?_ofResult]
    cases setPath slot keys new <;> rfl

theorem result?_assigned {op : AssignOp} {b : BinaryOp} (short : op.operator? = some b)
    (root : Root) (keys : List Key) (v : Value) :
    (assigned root keys op v : Eval (StateM S) Value).result? s w = (s.get? root).bind fun top =>
      (getPath top keys).toOption.bind fun old => (b.apply old v).toOption := by
  have same : (assigned root keys op v : Eval (StateM S) Value) = rootValue root >>= fun top =>
      ofResult (getPath top keys) >>= fun old => ofResult (b.apply old v) := by
    cases op <;> cases short <;> rfl
  rw [same, (rootValue_looks root).result?_bind, result?_rootValue]
  refine Option.bind_congr fun top _ => ?_
  rw [(looks_result _).result?_bind, result?_ofResult]
  rfl

theorem result?_path_cons (views : h.Views) (step : Access) {path : List Access}
    (free : pathCallFree (step :: path) = true) :
    (evalPath h (step :: path)).result? s w = ((evalAccess h step).result? s w).bind fun key =>
      ((evalPath h path).result? s w).map (key :: ·) := by
  cases step with
  | field name =>
    rw [evalPath, (path_looks views path free).result?_bind]
    cases (evalPath h path).result? s w <;> rfl
  | index e =>
    obtain ⟨first, later⟩ := (Bool.and_eq_true _ _).mp free
    rw [evalPath, evalAccess, (eval_looks views e first).result?_bind,
      (eval_looks views e first).result?_bind, Option.bind_assoc]
    refine Option.bind_congr fun v _ => ?_
    rw [(path_looks views path later).result?_bind]
    cases (evalPath h path).result? s w <;> rfl

theorem result?_from (views : h.Views) {object : Expr} (free : object.callFree = true)
    (step : Access) (free' : pathCallFree [step] = true) :
    (eval h (step.from object)).result? s w = ((eval h object).result? s w).bind fun v =>
      ((evalAccess h step).result? s w).bind fun key => (getKey v key).toOption := by
  cases step with
  | field name =>
    rw [Access.from, eval, (eval_looks views object free).result?_bind]
    rfl
  | index position =>
    have index : position.callFree = true := ((Bool.and_eq_true _ _).mp free').1
    rw [Access.from, eval, (eval_looks views object free).result?_bind]
    refine Option.bind_congr fun v _ => ?_
    rw [evalAccess, (eval_looks views position index).result?_bind,
      (eval_looks views position index).result?_bind, Option.bind_assoc]
    rfl

theorem result?_foldl_from (views : h.Views) : ∀ {path : List Access} {object : Expr},
    pathCallFree path = true → object.callFree = true →
    (eval h (path.foldl Access.from object)).result? s w =
      ((eval h object).result? s w).bind fun v =>
        ((evalPath h path).result? s w).bind fun keys => (getPath v keys).toOption
  | [], object, _, _ => by
    show (eval h object).result? s w = ((eval h object).result? s w).bind some
    rw [Option.bind_fun_some]
  | step :: rest, object, free, start => by
    obtain ⟨first, later⟩ := pathCallFree_cons.mp free
    have walk := result?_foldl_from views later (callFree_from start first)
    rw [List.foldl_cons, walk, result?_from views start step first,
      result?_path_cons views step free]
    cases (eval h object).result? s w with
    | none => rfl
    | some v =>
      cases (evalAccess h step).result? s w with
      | none => rfl
      | some key =>
        have first_step (keys : List Key) : (getPath v (key :: keys)).toOption =
            (getKey v key).toOption.bind fun child => (getPath child keys).toOption := by
          rw [getPath, List.foldlM_cons]
          cases getKey v key <;> rfl
        cases (evalPath h rest).result? s w with
        | none => exact Option.bind_fun_none _
        | some keys => exact (first_step keys).symm

/-- Where an assignment starts is read as an expression in the same way, but for a name that nothing
    has been assigned to and that is the name of a built-in function. -/
theorem result?_root {root : Root} (unreserved : ∀ n, root = .name n → isReserved n = false) :
    (eval h root.expr).result? s w = s.get? root ∨
      s.get? root = none ∧ ∃ n, (eval h root.expr).result? s w = some (.builtin n) := by
  cases root with
  | var n =>
    left
    rw [Root.expr, eval, result?_get_bind, Machine.get?]
    cases s.agent.vars.get? n <;> rfl
  | name n =>
    rw [Root.expr, eval, lookup, result?_get_bind, Machine.get?]
    cases s.names.get? n with
    | some v => exact .inl rfl
    | none =>
      simp only [unreserved n rfl, Bool.false_eq_true, if_false]
      cases isBuiltin n with
      | true => exact .inr ⟨trivial, n, rfl⟩
      | false => exact .inl rfl

theorem builtin_inert {op : AssignOp} {b : BinaryOp} (short : op.operator? = some b) (n : String)
    (keys : List Key) (v : Value) : ((getPath (.builtin n) keys).toOption.bind fun old =>
      (b.apply old v).toOption) = none := by
  cases keys with
  | nil => cases op <;> cases short <;> rfl
  | cons key rest =>
    have nowhere : ∃ fault, getKey (.builtin n) key = .error fault := by
      cases key with
      | field name => exact ⟨_, rfl⟩
      | index i => exact ⟨_, rfl⟩
    obtain ⟨fault, nowhere⟩ := nowhere
    rw [getPath, List.foldlM_cons, nowhere]
    rfl

variable {target : Target} {e : Expr} {op : AssignOp} {b : BinaryOp}

/-- Both forms leave the same behind: the value read from the place, changed by that of the
    expression and written there. -/
theorem after?_augmented (views : h.Views) (path : pathCallFree target.path = true)
    (free : e.callFree = true) (short : op.operator? = some b) :
    (exec h (.assign target op e)).after? s w =
      (exec h (.assign target .set (.binary b target.expr e))).after? s w := by
  by_cases reserved : target.touchesReserved = true
  · unfold exec
    rw [if_pos reserved, if_pos reserved]
  have unreserved : ∀ n, target.root = .name n → isReserved n = false := by
    intro n root
    rw [Target.touchesReserved, root, Bool.or_eq_true, not_or] at reserved
    exact Bool.eq_false_iff.mpr reserved.1
  have place : target.expr.callFree = true := callFree_foldl_from path (callFree_root target.root)
  have sum : (Expr.binary b target.expr e).callFree = true :=
    (Bool.and_eq_true _ _).mpr ⟨place, free⟩
  have summed : (eval h (.binary b target.expr e)).result? s w =
      ((eval h target.expr).result? s w).bind fun left =>
        ((eval h e).result? s w).bind fun right => (b.apply left right).toOption := by
    rw [eval, (eval_looks views target.expr place).result?_bind]
    refine Option.bind_congr fun left _ => ?_
    rw [(eval_looks views e free).result?_bind]
    rfl
  have changed (v : Value) (keys : List Key) :
      (((eval h target.root.expr).result? s w).bind fun top =>
        (getPath top keys).toOption.bind fun old => (b.apply old v).toOption) =
      (s.get? target.root).bind fun top =>
        (getPath top keys).toOption.bind fun old => (b.apply old v).toOption := by
    rcases result?_root unreserved with read | ⟨unset, n, builtin⟩
    · rw [read]
    · rw [unset, builtin]
      exact builtin_inert short n keys v
  have kept (v : Value) (keys : List Key) :
      (assigned target.root keys .set v : Eval (StateM S) Value).result? s w = some v := rfl
  unfold exec
  rw [if_neg reserved, if_neg reserved, (eval_looks views e free).after?_bind,
    (eval_looks views _ sum).after?_bind, summed, Target.expr,
    result?_foldl_from views path (callFree_root target.root)]
  simp only [after?_assign views target path, result?_assigned short, kept]
  cases (eval h e).result? s w with
  | none => simp only [Option.bind_none, Option.bind_fun_none]
  | some v =>
    cases (evalPath h target.path).result? s w with
    | none => simp only [Option.bind_some, Option.bind_none, Option.bind_fun_none]
    | some keys =>
      simp only [Option.bind_some]
      rw [← changed v keys]
      simp only [Option.bind_assoc]

/-- To add to a place or to take from it is to assign it the sum or the difference: either both
    forms succeed and leave the same machine, or both fault and leave everything as it was. -/
theorem augmented_assignment_abbreviates (views : h.Views) (path : pathCallFree target.path = true)
    (free : e.callFree = true) (short : op.operator? = some b) (s : Machine) (w : S) :
    (∃ t, (exec h (.assign target op e)).from s w = ((.ok (), t), w) ∧
      (exec h (.assign target .set (.binary b target.expr e))).from s w = ((.ok (), t), w)) ∨
    (∃ f g, (exec h (.assign target op e)).from s w = ((.error f, s), w) ∧
      (exec h (.assign target .set (.binary b target.expr e))).from s w = ((.error g, s), w)) := by
  have place : target.expr.callFree = true := callFree_foldl_from path (callFree_root target.root)
  have sum : (Expr.binary b target.expr e).callFree = true :=
    (Bool.and_eq_true _ _).mpr ⟨place, free⟩
  have same := after?_augmented (s := s) (w := w) views path free short
  rcases (exec_allOrNothing views path op free).from s w with ⟨t, after, ran⟩ | ⟨after, f, ran⟩ <;>
    rcases (exec_allOrNothing views path .set sum).from s w with
      ⟨u, after', ran'⟩ | ⟨after', g, ran'⟩
  · obtain rfl : t = u := Option.some_inj.mp (after.symm.trans (same.trans after'))
    exact .inl ⟨t, ran, ran'⟩
  · cases after.symm.trans (same.trans after')
  · cases after.symm.trans (same.trans after')
  · exact .inr ⟨f, g, ran, ran'⟩

end Places

def innermost : Target := ⟨.name "x", [.field "items", .index (.var "i")]⟩

def stocked : Machine where
  names := [("x", .map [("items", .list [.int 1, .int 5])])]
  agent := { AgentState.fresh "a" "A" with vars := [("i", .int (-1))] }
  suspended := false
  returned := none
  last := none

theorem augmented_assignment_abbreviates_inside_a_list :
    (exec Progress.counting (.assign innermost .add (.literal (.int 2)))).from stocked 0 =
      (exec Progress.counting
        (.assign innermost .set (.binary .add innermost.expr (.literal (.int 2))))).from stocked 0 ∧
    (((exec Progress.counting
      (.assign innermost .add (.literal (.int 2)))).from stocked 0).1.2.names.map fun (n, v) =>
        (n, v.display)) = [("x", "\x7b\"items\": [1, 7]\x7d")] := by
  refine ⟨?_, by decide +kernel⟩
  have views : Progress.counting.Views := fun _ _ _ => rfl
  have path : pathCallFree innermost.path = true := rfl
  have free : (Expr.literal (.int 2)).callFree = true := rfl
  have short : AssignOp.add.operator? = some .add := rfl
  rcases augmented_assignment_abbreviates views path free short stocked 0 with
    ⟨t, ran, ran'⟩ | ⟨f, g, ran, -⟩
  · rw [ran, ran']
  · have succeeds : ((exec Progress.counting
        (.assign innermost .add (.literal (.int 2)))).from stocked 0).1.1.toOption = some () := by
      decide +kernel
    rw [ran] at succeeds
    cases succeeds

end Playbook.Script
