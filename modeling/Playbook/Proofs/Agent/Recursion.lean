import Playbook.Proofs.Agent.Depth
import Playbook.Proofs.Agent.Waits

/- Playbooks that call each other. Calls are performed level by level, but the levels decide nothing:
   the bound on the frames ends every chain of calls before there are none left. What is performed
   comes to an end, since each level does with the one below it, and in the code of a level there is
   nothing that repeats. -/
namespace Playbook
open Script Activity

namespace Host
variable (host : Host)

/-- Performs a playbook by running its code, with the calls in it performed in a given way. -/
def performing (perform : Performer) : Performer := fun i a => do
  let execution ← Activity.change (World.assembled Assembly.mint)
  host.execute (host.handlerOver perform) none execution i a

/-- What becomes of a playbook for which there is no frame. -/
def refusal (playbook : String) : AgentError :=
  if host.repertoire.contains playbook then .tooDeep else .unknownPlaybook playbook

end Host

section Levels
variable {host : Host} {perform perform' : Performer}

theorem execute_of_full (h : Handler (Activity World)) (save : Saver (Activity World))
    (execution : ExecutionId) (i : Invocation) {a : AgentState} (full : maxDepth ≤ a.stack.length) :
    host.execute h save execution i a = .done (.error (host.refusal i.playbook), a) := by
  unfold Host.execute Host.refusal
  cases known : host.repertoire.contains i.playbook with
  | true =>
    simp only [full, Bool.not_true, Bool.false_eq_true, if_false, if_true]
    rfl
  | false =>
    simp only [Bool.not_false, Bool.false_eq_true, if_false, if_true]
    rfl

theorem handlerOver_same {kind : CallStack → Prop}
    (agree : ∀ i (a : AgentState), kind a.stack → perform' i a = perform i a) :
    SameFor kind (host.handlerOver perform) (host.handlerOver perform') where
  suspend {a} known := by
    have calls : ∀ i, Host.call perform' i a = Host.call perform i a := by
      intro i
      rw [Host.call, agree i a known, ← Host.call]
    funext c
    cases c with
    | say | sendMessage | waitForMessage => rfl
    | call playbook args => exact calls _
    | createMeeting playbook topic required optional =>
      show host.holdMeeting perform' a .. = host.holdMeeting perform a ..
      simp only [Host.holdMeeting, calls]
  hostFunction _ := rfl
  reserved _ := rfl

/-- Two ways to perform that are the same from some depth on. -/
def AgreeFrom (depth : Nat) (perform perform' : Performer) : Prop :=
  ∀ i (a : AgentState), depth ≤ a.stack.length → perform i a = perform' i a

theorem agree_of_full (perform perform' : Performer) :
    AgreeFrom maxDepth (host.performing perform) (host.performing perform') := by
  intro i a full
  unfold Host.performing
  congr 1
  funext execution
  rw [execute_of_full _ _ _ _ full, execute_of_full _ _ _ _ full]

theorem agree_above {depth levels : Nat}
    (agree : AgreeFrom (depth + 1) perform (host.performer levels)) :
    AgreeFrom depth (host.performing perform) (host.performing (host.performer levels)) := by
  intro i a deep
  unfold Host.performing
  congr 1
  funext execution
  have same : Indistinct (within a execution i) i host host (host.handlerOver (host.performer levels))
      (host.handlerOver perform) none none := by
    refine ⟨rfl, fun _ => rfl, handlerOver_same fun j b inside => agree j b ?_, .none⟩
    obtain ⟨⟨step, inside⟩, -⟩ := inside
    rw [inside, List.length_append, List.length_singleton]
    exact Nat.succ_le_succ deep
  have balanced : Balanced Watch.nothing (host.handlerOver (host.performer levels)) :=
    handlerOver_balanced (performer_performs host levels)
  exact ((execute_indistinct balanced same).eq fun _ _ kept => kept.1).symm

/-- By induction on the levels; each frame makes up for one of them. -/
theorem agree_of_recursive (recursive : perform = host.performing perform) (levels : Nat) :
    AgreeFrom (maxDepth - levels) perform (host.performer (levels + 1)) := by
  induction levels with
  | zero =>
    rw [recursive]
    exact agree_of_full perform (host.performer 0)
  | succ levels ih =>
    rw [recursive]
    refine agree_above fun i a deep => ih i a ?_
    omega

theorem performer_stable (levels : Nat) :
    AgreeFrom (maxDepth - levels) (host.performer (levels + 2)) (host.performer (levels + 1)) := by
  induction levels with
  | zero => exact agree_of_full (host.performer 1) (host.performer 0)
  | succ levels ih =>
    refine agree_above fun i a deep => ih i a ?_
    omega

/-- The levels that there are solve the recursion, and nothing else does. -/
theorem recursive_iff (host : Host) (perform : Performer) :
    perform = host.performing perform ↔ perform = host.performer (maxDepth + 1) := by
  constructor
  · intro recursive
    funext i a
    exact agree_of_recursive recursive maxDepth i a (by omega)
  · rintro rfl
    funext i a
    exact (performer_stable maxDepth i a (by omega)).symm

end Levels

section Endings
variable {C : Course World} {α : Type}

def endings (C : Course World) : Comparison (Activity World) (Activity World) where
  rel φ x _ := ∀ p, Finishes C (fun a _ => ∃ b, φ a b) ⟨x, p⟩
  ofPure alike _ := .done ⟨_, alike⟩
  ofBind first next p := (first p).bind fun a q found => next a found.choose found.choose_spec q

theorem Activity.Ending.related {x : Activity World α} {φ : α → α → Prop} (ends : Ending C x)
    (alike : ∀ a, φ a a) : (endings C).rel φ x x :=
  fun p => (ends p).weaken fun a _ _ => ⟨a, alike a⟩

theorem Activity.Ending.answers {x : Activity World (α × AgentState)} (ends : Ending C x) :
    (endings C).rel Likeness.same.Answers x x :=
  ends.related fun _ => ⟨rfl, rfl⟩

end Endings

section Performing
variable {C : Course World} {host : Host} {perform : Performer}

theorem call_ends (ends : ∀ i a, Ending C (perform i a)) (i : Invocation) (a : AgentState) :
    Ending C (Host.call perform i a) := by
  refine (ends i a).bind fun (r, b) => ?_
  cases r with
  | error e => exact .done _
  | ok s => cases fault : s.fault <;> simp only [fault] <;> exact .done _

theorem holdMeeting_ends (waits : host.WaitsEnd C) (ends : ∀ i a, Ending C (perform i a))
    (a : AgentState) (playbook topic : String) (required optional : List String) :
    Ending C (host.holdMeeting perform a playbook topic required optional) := by
  unfold Host.holdMeeting
  extract_lets goOn
  have onward : ∀ created, Ending C (goOn created) := by
    rintro (e | id)
    · exact .done _
    · simp only [goOn]
      split
      · exact .done _
      · exact (call_ends ends _ a).bind fun _ => .act fun _ => .done _
  cases MeetingRequest.ofNames playbook topic required optional with
  | error e => exact onward (.error e)
  | ok r => exact (ending_iff.2 (waits.meeting a.signature r)).bind onward

theorem suspend_ends (waits : host.WaitsEnd C)
    (ends : ∀ i a, Ending C (perform i a)) (a : AgentState) (c : SuspendCall) :
    Ending C (host.suspend perform a c) := by
  cases c with
  | say | sendMessage => exact .act fun _ => .done _
  | waitForMessage source => exact (ending_iff.2 (waits.message a source)).bind fun _ => .done _
  | call playbook args => exact call_ends ends _ a
  | createMeeting playbook topic required optional =>
    exact holdMeeting_ends waits ends a playbook topic required optional

theorem hostFunction_ends (a : AgentState) (name : String) (args : List Value) :
    Ending C (Host.hostFunction a name args) := by
  unfold Host.hostFunction
  split
  · exact .act fun _ => .done _
  · exact .act fun _ => .done _
  · exact .act fun _ => .done _
  · exact .done _

theorem handlers_ending (waits : host.WaitsEnd C)
    (ends : ∀ i a, Ending C (perform i a)) :
    (endings C).Handlers Likeness.same (host.handlerOver perform) (host.handlerOver perform) where
  suspend := by
    rintro a _ rfl c
    exact (suspend_ends waits ends a c).answers
  hostFunction := by
    rintro a _ rfl name args
    exact (hostFunction_ends a name args).answers
  reserved := by
    rintro a _ rfl name
    exact Ending.related (.act fun _ => .done _) fun _ => rfl

section Running
variable {h : Handler (Activity World)} {save : Saver (Activity World)}
  (H : (endings C).Handlers Likeness.same h h)
  (V : (endings C).Savers Likeness.same save save) (execution : ExecutionId) (i : Invocation)
  (a : AgentState)
include H V

theorem drive_ends : Ending C (host.drive h save execution i a) := by
  intro p
  have generated : Ending C (host.generate (i.request a)) := .act fun _ => .done _
  have ran : (endings C).rel Likeness.same.Answers (host.drive h save execution i a)
      (host.drive h save execution i a) :=
    drive_related H V (generated.related fun _ => rfl) rfl execution
  exact (ran p).weaken fun _ _ _ => trivial

theorem execute_ends : Ending C (host.execute h save execution i a) := by
  unfold Host.execute
  split
  · exact .done _
  split
  · exact .done _
  exact (drive_ends H V execution i _).bind fun (r, b) => .done _

end Running

theorem performer_ends (waits : host.WaitsEnd C) (levels : Nat) :
    ∀ i a, Ending C (host.performer levels i a) := by
  induction levels with
  | zero => exact fun i a => .done _
  | succ levels ih =>
    intro i a
    exact .act fun execution => execute_ends (handlers_ending waits ih) .none execution i a

theorem savers_ending (a : Agent) : (endings C).Savers Likeness.same a.saver a.saver := by
  unfold Agent.saver
  cases a.store with
  | none => exact .none
  | some store =>
    refine .some fun r b agents => ?_
    obtain rfl : r.agent = b := agents
    exact Ending.related (.act fun _ => .done _) fun _ => rfl

theorem perform_ends {a : Agent} (waits : a.host.WaitsEnd C) (i : Invocation) :
    Ending C (a.perform i) := by
  have handlers : (endings C).Handlers Likeness.same a.host.handler a.host.handler :=
    handlers_ending waits (performer_ends waits (maxDepth + 1))
  exact (execute_ends handlers (savers_ending a) a.execution i a.state).bind fun _ => .done _

end Performing
end Playbook
