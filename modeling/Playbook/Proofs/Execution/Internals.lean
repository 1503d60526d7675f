import Playbook.Proofs.Execution.Attempts
import Playbook.Proofs.Execution.Leeway

/- What belongs to the system is out of reach of programs. They cannot bind the reserved names, they
   cannot turn the agent into another one or create agents for it, and of its call stack they change
   the step of the innermost frame at most. An assignment through a reserved name does nothing. -/
namespace Playbook

namespace CallStack
variable {stack stack' stack'' : CallStack}

structure SameButStep (stack stack' : CallStack) : Prop where
  length : stack'.length = stack.length
  below : stack'.dropLast = stack.dropLast
  innermost : ∀ frame ∈ stack.innermost?, ∃ step,
    stack'.innermost? = some { frame with pointer := frame.pointer.atStep step }

theorem SameButStep.refl (stack : CallStack) : stack.SameButStep stack where
  length := rfl
  below := rfl
  innermost frame here := ⟨frame.pointer.step, here⟩

theorem SameButStep.trans (first : stack.SameButStep stack') (second : stack'.SameButStep stack'') :
    stack.SameButStep stack'' where
  length := second.length.trans first.length
  below := second.below.trans first.below
  innermost frame here := by
    obtain ⟨step, there⟩ := first.innermost frame here
    obtain ⟨step', last⟩ := second.innermost _ there
    exact ⟨step', last⟩

theorem sameButStep_advance (stack : CallStack) (step : String) :
    stack.SameButStep (stack.advance step) := by
  rcases List.eq_nil_or_concat stack with rfl | ⟨below, frame, rfl⟩
  · exact .refl []
  · have last : CallStack.advance (below ++ [frame]) step =
        below ++ [{ frame with pointer := frame.pointer.atStep step }] := modifyInnermost_concat ..
    rw [List.concat_eq_append, last]
    refine ⟨by simp, by simp, fun frame' here => ⟨step, ?_⟩⟩
    have same : frame = frame' := by simpa [innermost?] using here
    simp [innermost?, same]

end CallStack

namespace Script
variable {S : Type}

/-- The reserved names are bound as before, the agent is still the same with the same sub-agents, and
    its stack has moved on by steps at most. -/
structure SameInternals (names : Namespace) (a : AgentState) (names' : Namespace) (b : AgentState) :
    Prop where
  reserved : ∀ name ∈ reservedNames, names'.get? name = names.get? name
  id : b.id = a.id
  klass : b.klass = a.klass
  agents : b.agents = a.agents
  stack : a.stack.SameButStep b.stack

theorem SameInternals.refl (names : Namespace) (a : AgentState) : SameInternals names a names a :=
  ⟨fun _ _ => rfl, rfl, rfl, rfl, .refl _⟩

theorem SameInternals.trans {names names' names'' : Namespace} {a b c : AgentState}
    (first : SameInternals names a names' b) (second : SameInternals names' b names'' c) :
    SameInternals names a names'' c where
  reserved name mem := (second.reserved name mem).trans (first.reserved name mem)
  id := second.id.trans first.id
  klass := second.klass.trans first.klass
  agents := second.agents.trans first.agents
  stack := first.stack.trans second.stack

theorem ne_of_free {name n : String} (reserved : name ∈ reservedNames)
    (free : isReserved n = false) : n ≠ name := by
  rintro rfl
  rw [isReserved, List.contains_iff_mem.2 reserved] at free
  cases free

/-- Programs have their way without touching the internals. -/
theorem internals_leeway :
    Leeway fun s t : Machine => SameInternals s.names s.agent t.names t.agent where
  trans first second := first.trans second
  aside {s t} names agent := by
    rw [names, agent]
    exact .refl s.names s.agent
  advance s step := ⟨fun _ _ => rfl, rfl, rfl, rfl, CallStack.sameButStep_advance s.agent.stack step⟩
  set s root v free := by
    cases root with
    | name n =>
      refine ⟨fun name mem => ?_, rfl, rfl, rfl, .refl _⟩
      exact Dict.get?_insert_of_ne _ _ (ne_of_free mem free)
    | var n => exact ⟨fun _ _ => rfl, rfl, rfl, rfl, .refl _⟩

/-- It starts at a reserved name, or a field on its way has one. -/
def Target.Inward (target : Target) : Prop :=
  ∃ name ∈ reservedNames, target.root = .name name ∨ .field name ∈ target.path

theorem Access.isReserved_iff {access : Access} :
    access.isReserved = true ↔ ∃ name ∈ reservedNames, access = .field name := by
  cases access with
  | field name => simp [isReserved, Playbook.isReserved, eq_comm]
  | index position => simp [isReserved]

theorem Target.touchesReserved_iff {target : Target} :
    target.touchesReserved = true ↔ target.Inward := by
  obtain ⟨root, path⟩ := target
  have inside : path.any Access.isReserved = true ↔
      ∃ name ∈ reservedNames, Access.field name ∈ path := by
    simp only [List.any_eq_true, Access.isReserved_iff]
    constructor
    · rintro ⟨_, on, name, mem, rfl⟩
      exact ⟨name, mem, on⟩
    · rintro ⟨name, mem, on⟩
      exact ⟨_, on, name, mem, rfl⟩
  rw [touchesReserved, Bool.or_eq_true, inside]
  simp only [Inward, and_or_left, exists_or]
  refine or_congr ?_ Iff.rfl
  cases root with
  | name n => simp [Playbook.isReserved, eq_comm]
  | var n => simp

theorem exec_inward (h : Handler (StateM S)) {target : Target} (inward : target.Inward)
    (op : AssignOp) (value : Expr) (s : Machine) (w : S) :
    (exec h (.assign target op value)).from s w = ((.ok ⟨⟩, s), w) := by
  rw [exec, if_pos (target.touchesReserved_iff.2 inward)]
  rfl

def Stmt.isInward : Stmt → Bool
  | .assign target _ _ => target.touchesReserved
  | _ => false

mutual
/-- The statement without the assignments in it that go through reserved names. -/
def Stmt.outward : Stmt → Stmt
  | .expr e => .expr e
  | .assign target op value => .assign target op value
  | .branch branches none => .branch (outwardBranches branches) none
  | .branch branches (some body) => .branch (outwardBranches branches) (some (outwardBlock body))

def outwardBranches : List (Expr × List Stmt) → List (Expr × List Stmt)
  | [] => []
  | (condition, body) :: rest => (condition, outwardBlock body) :: outwardBranches rest

def outwardBlock : List Stmt → List Stmt
  | [] => []
  | statement :: rest =>
    if statement.isInward then outwardBlock rest else statement.outward :: outwardBlock rest
end

theorem execBlock_returned (h : Handler (StateM S)) (body : List Stmt) {s : Machine}
    (returned : s.returned.isSome = true) (w : S) :
    (execBlock h body).from s w = ((.ok ⟨⟩, s), w) := by
  cases body with
  | nil => rfl
  | cons statement rest =>
    rw [execBlock, Eval.from_bind, Eval.from_get]
    dsimp only
    rw [if_pos returned]
    rfl

theorem execBlock_unreturned (h : Handler (StateM S)) (statement : Stmt) (rest : List Stmt)
    {s : Machine} (unreturned : ¬s.returned.isSome = true) (w : S) :
    (execBlock h (statement :: rest)).from s w =
      (exec h statement >>= fun _ => execBlock h rest).from s w := by
  rw [execBlock, Eval.from_bind, Eval.from_get]
  dsimp only
  rw [if_neg unreturned]

theorem Eval.from_bind_congr {α β : Type} {x y : Eval (StateM S) α} {f g : α → Eval (StateM S) β}
    (first : ∀ s w, x.from s w = y.from s w) (next : ∀ a s w, (f a).from s w = (g a).from s w)
    (s : Machine) (w : S) : (x >>= f).from s w = (y >>= g).from s w := by
  rw [Eval.from_bind, Eval.from_bind, first]
  rcases y.from s w with ⟨⟨r, t⟩, v⟩
  cases r with
  | error e => rfl
  | ok a => exact next a t v

mutual
theorem exec_outward (h : Handler (StateM S)) : ∀ (statement : Stmt) (s : Machine) (w : S),
    (exec h statement).from s w = (exec h statement.outward).from s w
  | .expr e, s, w => by rw [Stmt.outward]
  | .assign target op value, s, w => by rw [Stmt.outward]
  | .branch branches none, s, w => by
    rw [Stmt.outward, exec, exec]
    exact Eval.from_bind_congr (execBranches_outward h branches) (fun _ _ _ => rfl) s w
  | .branch branches (some body), s, w => by
    rw [Stmt.outward, exec, exec]
    refine Eval.from_bind_congr (execBranches_outward h branches) (fun found s w => ?_) s w
    cases found with
    | true => rfl
    | false => exact execBlock_outward h body s w

theorem execBranches_outward (h : Handler (StateM S)) :
    ∀ (branches : List (Expr × List Stmt)) (s : Machine) (w : S),
      (execBranches h branches).from s w = (execBranches h (outwardBranches branches)).from s w
  | [], s, w => by rw [outwardBranches]
  | (condition, body) :: rest, s, w => by
    rw [outwardBranches, execBranches, execBranches]
    refine Eval.from_bind_congr (fun _ _ => rfl) (fun v s w => ?_) s w
    split
    · exact Eval.from_bind_congr (execBlock_outward h body) (fun _ _ _ => rfl) s w
    · exact execBranches_outward h rest s w

theorem execBlock_outward (h : Handler (StateM S)) : ∀ (body : List Stmt) (s : Machine) (w : S),
    (execBlock h body).from s w = (execBlock h (outwardBlock body)).from s w
  | [], s, w => by rw [outwardBlock]
  | statement :: rest, s, w => by
    by_cases returned : s.returned.isSome = true
    · rw [execBlock_returned h _ returned, execBlock_returned h _ returned]
    rw [execBlock_unreturned h statement rest returned, outwardBlock]
    split
    · rename_i inward
      cases statement with
      | expr e => cases inward
      | assign target op value =>
        rw [Eval.from_bind, exec_inward h (target.touchesReserved_iff.1 inward)]
        exact execBlock_outward h rest s w
      | branch branches otherwise => cases inward
    · rw [execBlock_unreturned h _ _ returned]
      exact Eval.from_bind_congr (exec_outward h statement)
        (fun _ => execBlock_outward h rest) s w
end

/-- Whatever is asked of it, the handler leaves the agent as it is. -/
structure Handler.Neutral (h : Handler (StateM S)) : Prop where
  suspend (a : AgentState) (c : SuspendCall) (w : S) : (h.suspend a c w).1.2 = a
  hostFunction (a : AgentState) (name : String) (args : List Value) (w : S) :
    (h.hostFunction a name args w).1.2 = a

theorem Handler.Neutral.leeway {h : Handler (StateM S)} (neutral : h.Neutral) :
    Leeway.Handlers (fun s t => SameInternals s.names s.agent t.names t.agent) h where
  suspend s c w := by
    rw [neutral.suspend]
    exact .refl s.names s.agent
  hostFunction s name args w := by
    rw [neutral.hostFunction]
    exact .refl s.names s.agent

namespace Progress

/-- An execution and an agent with the same internals as before. -/
def Sheltered (p q : Progress) : Prop :=
  SameInternals p.execution.names p.agent q.execution.names q.agent

section
variable {h : Handler (StateM S)} (neutral : h.Neutral) (save : Saver (StateM S))

theorem record_sheltered (p : Progress) (text : List Char) (suspended : Bool) (w : S) :
    p.Sheltered (record save p text suspended w).1.2 :=
  record_elim save p text suspended w (motive := fun r => p.Sheltered r.1.2)
    (fun _ => .refl _ _) (fun _ _ _ _ _ _ => .refl _ _) (fun _ _ _ _ _ _ => .refl _ _)

include neutral

theorem runSegment_sheltered (p : Progress) (segment : Segment) (w : S) :
    p.Sheltered (runSegment h save p segment w).1.2 := by
  have block := fun body => internals_leeway.block_keeps neutral.leeway body
    ⟨p.execution.names, p.agent, false, none, none⟩ w
  refine runSegment_elim h save p segment w (motive := fun r => p.Sheltered r.1.2) ?_ ?_ ?_ ?_
  · intro _
    exact .refl _ _
  · intro err _ _
    exact .refl _ _
  · intro body fault s w' _ _ ran
    have kept := block body
    rw [Eval.from, ← runBlock, ran] at kept
    exact kept
  · intro body s w' saved q v _ _ ran recorded
    have kept := block body
    rw [Eval.from, ← runBlock, ran] at kept
    have stored := record_sheltered save (p.succeed s segment body.length) segment.text s.suspended w'
    rw [recorded] at stored
    exact kept.trans stored

theorem carryOn_sheltered (p : Progress) (segs : List Segment) (w : S) :
    p.Sheltered (carryOn h save p segs w).1.2 := by
  induction segs generalizing p w with
  | nil =>
    rw [carryOn_nil]
    exact .refl _ _
  | cons segment rest ih =>
    by_cases fault : p.execution.fault.isSome = true
    · rw [carryOn_of_fault h save fault]
      exact .refl _ _
    · have first := runSegment_sheltered neutral save p segment w
      rw [carryOn_cons h save fault]
      rcases ran : runSegment h save p segment w with ⟨⟨r, q⟩, v⟩
      rw [ran] at first
      cases r with
      | error e => exact first
      | ok more => exact first.trans (ih q v)

theorem take_sheltered (p : Progress) (i : Input) (w : S) :
    p.Sheltered (take h save p i w).1.2 := by
  cases offer : p.offered i with
  | none =>
    obtain ⟨e, refused⟩ := take_of_refused h save offer w
    rw [refused]
    exact .refl _ _
  | some coming =>
    obtain ⟨code, finished⟩ := coming
    have ran : p.Sheltered (carryOn h save (p.await code) (segments finished code.toList) w).1.2 :=
      carryOn_sheltered neutral save (p.await code) (segments finished code.toList) w
    rw [take_of_offered h save offer]
    rcases carried : carryOn h save (p.await code) (segments finished code.toList) w with ⟨⟨r, q⟩, v⟩
    rw [carried] at ran
    have settled : (settle i r q).execution.names = q.execution.names ∧
        (settle i r q).agent = q.agent := by
      unfold settle
      split <;> exact ⟨rfl, rfl⟩
    show SameInternals _ _ (settle i r q).execution.names (settle i r q).agent
    rw [settled.1, settled.2]
    exact ran

theorem takeAll_sheltered (p : Progress) (inputs : List Input) (w : S) :
    p.Sheltered (takeAll h save p inputs w).1 := by
  induction inputs generalizing p w with
  | nil => exact .refl _ _
  | cons i rest ih =>
    have first := take_sheltered neutral save p i w
    rw [takeAll, bind_apply]
    rcases taken : take h save p i w with ⟨⟨r, q⟩, v⟩
    rw [taken] at first
    exact first.trans (ih q v)

/-- Whatever programs are fed to an execution, its internals stay as they are, and what is stored
    under a reserved name is not reached by assignments: they do nothing, wherever they stand. -/
theorem internals_stay_out_of_reach (p : Progress) (inputs : List Input) (w : S) :
    p.Sheltered (takeAll h save p inputs w).1 ∧
    (∀ target : Target, target.Inward → ∀ op value s v,
      (exec h (.assign target op value)).from s v = ((.ok ⟨⟩, s), v)) ∧
    ∀ body s v, (execBlock h body).from s v = (execBlock h (outwardBlock body)).from s v :=
  ⟨takeAll_sheltered neutral save p inputs w,
    fun _ inward op value s v => exec_inward h inward op value s v, execBlock_outward h⟩

end

def counting : Handler (StateM Nat) where
  suspend a _ := fun n => ((.ok .null, a), n + 1)
  hostFunction a _ _ := fun n => ((none, a), n + 1)
  reserved _ _ := fun n => (none, n)

def reaching : List Input :=
  [.chunk "Step(\"Main:02\")\nagent = Call(\"X\")\nx = (\x7b\"state\": true\x7d)\n",
    .chunk "x.state = 2\nif x.state \x7b\n  y = agent\n  Missing()\n\x7d\n", .ending]

def inside : Progress :=
  ⟨.start "main" [("agent", .str "A")],
    { AgentState.fresh "a" "A" with stack := [⟨⟨"Main", "01", none⟩, [], none, none⟩] }⟩

/-- The assignments to reserved names have not been run, all else has been, up to the fault. -/
theorem internals_stay_out_of_reach_up_to_a_fault :
    inside.Sheltered (takeAll counting none inside reaching 0).1 ∧
    ((takeAll counting none inside reaching 0).1.execution.names.map fun (n, v) =>
      (n, v.display)) = [("agent", "A"), ("x", "\x7b\"state\": true\x7d"), ("y", "A")] ∧
    (takeAll counting none inside reaching 0).1.agent.stack.pointers = ["Main:02"] ∧
    (takeAll counting none inside reaching 0).1.execution.fault.map CodeFault.message =
      some "NameError: name 'Missing' is not defined" ∧
    (takeAll counting none inside reaching 0).2 = 1 := by
  have neutral : counting.Neutral := ⟨fun _ _ _ => rfl, fun _ _ _ _ => rfl⟩
  exact ⟨(internals_stay_out_of_reach neutral none inside reaching 0).1, by decide +kernel⟩

end Progress
end Script
end Playbook
