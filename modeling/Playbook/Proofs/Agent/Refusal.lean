import Playbook.Proofs.Activity.Provisos
import Playbook.Proofs.Agent.Recursion

/- Calls for which there is no frame left. They are answered at once, without a word to the engine.
   Wherever in its code a statement makes such a call, what it is answered is its fault: whoever
   comes to another end comes to it as well if these calls are never answered. -/
namespace Playbook
open Script

section Suspending
universe v
variable {m : Type → Type v} [Monad m] [LawfulMonad m]

theorem Script.run_suspend (h : Handler m) (c : SuspendCall) (s : Machine) :
    (ask (h.suspend · c) >>= fun answer => ofResult (hostResult answer) : Eval m Value).run.run s =
      (do
        let p ← h.suspend s.agent c
        return (hostResult p.1, { s with agent := p.2 })) := by
  simp only [ExceptT.run_bind, StateT.run_bind, run_ask, bind_assoc, pure_bind]
  simp only [run_ofResult]

end Suspending

namespace Activity
variable {ω ι α β : Type} {others : List ι → ω → ω → Prop} {x y : Activity ω α}
  {refused held : α → Prop}

theorem Move.bind {a b : Underway ω α} (move : Move a b) (f : α → Activity ω β) :
    Move ⟨a.left.bind f, a.time, a.world⟩ ⟨b.left.bind f, b.time, b.world⟩ := by
  cases move with
  | act run next t w => exact .act run (fun b => (next b).bind f) t w
  | heard signal deadline next t w =>
    exact .heard signal deadline (fun heard => (next heard).bind f) t w
  | late signal deadline next t w past =>
    exact .late signal deadline (fun heard => (next heard).bind f) t w past
  | woken time next t w past => exact .woken time (fun u => (next u).bind f) t w past
  | round state round next t w =>
    show Move ⟨.loop state round fun b => (next b).bind f, t, w⟩ _
    rw [bind_assoc, afterRound_bind]
    exact .round state round (fun b => (next b).bind f) t w

theorem Under.bind {a b : Underway ω α} (ran : Under others .none a b) (f : α → Activity ω β) :
    Under others .none ⟨a.left.bind f, a.time, a.world⟩ ⟨b.left.bind f, b.time, b.world⟩ := by
  induction ran with
  | none => exact .none _
  | more _ _ one ih =>
    cases one with
    | others done => exact .more ih trivial (.others done)
    | time later => exact .more ih trivial (.time later)
    | own move => exact .more ih trivial (.own (move.bind f))

theorem Under.trans {a b c : Underway ω α} (first : Under others .none a b)
    (second : Under others .none b c) : Under others .none a c := by
  induction second with
  | none => exact first
  | more _ met one ih => exact .more ih met one

theorem Alike.within {allowed : ω → ω → Prop} {φ : α → α → Prop} (alike : Alike allowed φ x y) :
    Within allowed x := by
  induction alike with
  | done => exact .done _
  | act keeps _ ih => exact .act keeps ih
  | listen _ ih => exact .listen ih
  | sleepUntil _ ih => exact .sleepUntil ih
  | loop keeps _ ih => exact .loop keeps ih

theorem Under.result {t t' : Nat} {w w' : ω} {r : α} (upholds : Upholds (fun _ => True) held x)
    (ran : Under others .none ⟨x, t, w⟩ ⟨.done r, t', w'⟩) : held r := by
  have covers : Covers others fun _ _ => True :=
    ⟨fun _ => trivial, fun _ _ => trivial, fun _ => trivial⟩
  exact ((Leads.of_upholds covers fun _ => upholds).ends ran).2

/-- What the one comes to is a refusal, or the other can come to it in the same way. -/
structure UnlessRefused (refused held : α → Prop) (x y : Activity ω α) : Prop where
  ends {ι : Type} {others : List ι → ω → ω → Prop} {r : α} {t t' : Nat} {w w' : ω}
    (ran : Under others .none ⟨x, t, w⟩ ⟨.done r, t', w'⟩) :
    refused r ∨ held r ∧ Under others .none ⟨y, t, w⟩ ⟨.done r, t', w'⟩

namespace UnlessRefused

theorem same (upholds : Upholds (fun _ => True) held x) : UnlessRefused refused held x x :=
  ⟨fun ran => .inr ⟨ran.result upholds, ran⟩⟩

theorem of_refused (upholds : Upholds (fun _ => True) refused x) : UnlessRefused refused held x y :=
  ⟨fun ran => .inl (ran.result upholds)⟩

theorem and {held' : α → Prop} (same : UnlessRefused refused held x y)
    (upholds : Upholds (fun _ => True) held' x) : UnlessRefused refused held' x y :=
  ⟨fun ran => (same.ends ran).imp id fun ⟨_, ran'⟩ => ⟨ran.result upholds, ran'⟩⟩

theorem bind {refused' held' : β → Prop} {f g : α → Activity ω β}
    (first : UnlessRefused refused held x y)
    (refusal : ∀ a, refused a → Upholds (fun _ => True) refused' (f a))
    (next : ∀ a, held a → UnlessRefused refused' held' (f a) (g a)) :
    UnlessRefused refused' held' (x.bind f) (y.bind g) := by
  refine ⟨fun {ι others r t t' w w'} ran => ?_⟩
  obtain ⟨a, t₁, w₁, early, late⟩ := ran.bind_done
  rcases first.ends early with refused | ⟨holds, early'⟩
  · exact .inl (late.result (refusal a refused))
  · exact ((next a holds).ends late).imp id fun ⟨holds', late'⟩ =>
      ⟨holds', (early'.bind g).trans late'⟩

end UnlessRefused
end Activity

open Activity

/-- A way to perform in which no playbook that the agent knows ever comes to an end. -/
def Host.silent (host : Host) : Performer := fun i a =>
  if host.repertoire.contains i.playbook then .iterate () fun _ => return .inl ()
  else do
    let _ ← Activity.change (World.assembled Assembly.mint)
    return (.error (.unknownPlaybook i.playbook), a)

/-- The engine has not been asked for anything. -/
def World.Unasked (w w' : World) : Prop := w'.requests = w.requests

section Full
variable {host : Host} {a : AgentState} {levels : Nat}

theorem performer_of_full (levels : Nat) (i : Invocation) (full : maxDepth ≤ a.stack.length) :
    host.performer (levels + 1) i a = (do
      let _ ← Activity.change (World.assembled Assembly.mint)
      return (.error (host.refusal i.playbook), a)) := by
  unfold Host.performer
  congr 1
  funext execution
  exact execute_of_full _ _ _ _ full

theorem silent_never_ends {i : Invocation} (known : host.repertoire.contains i.playbook = true)
    (result : Performed) : ¬ (host.silent i a).CanEnd result := by
  unfold Host.silent
  rw [if_pos known]
  have endless : Upholds (ω := World) (fun _ => True) (fun _ : Performed => False)
      (.iterate () fun _ => return .inl ()) :=
    .loop (fun _ => True) (fun _ => False) trivial (fun _ _ => .done trivial) nofun
  exact endless.of_canEnd

section Asked
variable (full : maxDepth ≤ a.stack.length)
include full

theorem suspend_unasked (levels : Nat) (c : SuspendCall) :
    Alike World.Unasked (Kept a) (host.suspend (host.performer (levels + 1)) a c)
      (host.suspend (host.performer (levels + 1)) a c) := by
  refine suspend_kept (fun _ _ quiet => quiet.requests) (fun i => ?_) c
  rw [performer_of_full levels i full]
  exact ((quiet_assembled _).weaken fun _ _ quiet => quiet.requests).alike.bind fun _ _ _ =>
    .done ⟨rfl, rfl⟩

theorem call_unless (levels : Nat) (i : Invocation) :
    UnlessRefused (·.1 = .error AgentError.tooDeep.message) (fun _ => True)
      (Host.call (host.performer (levels + 1)) i a) (Host.call host.silent i a) := by
  rw [Host.call, performer_of_full levels i full, Host.refusal]
  by_cases known : host.repertoire.contains i.playbook = true
  · rw [if_pos known]
    exact .of_refused (.act (fun _ _ _ => trivial) fun _ _ _ => .done rfl)
  · rw [if_neg known, Host.call, Host.silent, if_neg known]
    exact .same (.act (fun _ _ _ => trivial) fun _ _ _ => .done trivial)

theorem holdMeeting_unless (levels : Nat) (playbook topic : String)
    (required optional : List String) :
    UnlessRefused (·.1 = .error AgentError.tooDeep.message) (fun _ => True)
      (host.holdMeeting (host.performer (levels + 1)) a playbook topic required optional)
      (host.holdMeeting host.silent a playbook topic required optional) := by
  unfold Host.holdMeeting
  extract_lets goOn goOn'
  have onward : ∀ created, UnlessRefused (·.1 = .error AgentError.tooDeep.message) (fun _ => True)
      (goOn created) (goOn' created) := by
    rintro (e | id)
    · exact .same (.done trivial)
    · simp only [goOn, goOn']
      split
      · exact .same (.done trivial)
      · refine (call_unless full levels _).bind ?_ ?_
        · rintro ⟨_, b⟩ rfl
          exact .act (fun _ _ _ => trivial) fun _ _ _ => .done rfl
        · exact fun _ _ => .same (.act (fun _ _ _ => trivial) fun _ _ _ => .done trivial)
  cases MeetingRequest.ofNames playbook topic required optional with
  | error e => exact onward (.error e)
  | ok r =>
    have convened : UnlessRefused (fun _ => False) (fun _ => True)
        (convene a.signature host.inbox host.meetingTimeout r) _ :=
      .same ((quiet_convene ..).weaken fun _ _ _ _ => trivial).upholds
    exact convened.bind (fun _ => False.elim) fun created _ => onward created

theorem suspend_unless (levels : Nat) (c : SuspendCall) :
    UnlessRefused (·.1 = .error AgentError.tooDeep.message)
      (fun p => maxDepth ≤ p.2.stack.length)
      (host.suspend (host.performer (levels + 1)) a c) (host.suspend host.silent a c) := by
  have kept : Alike (fun _ _ => True → True) (Kept a)
      (host.suspend (host.performer (levels + 1)) a c) _ :=
    suspend_kept (fun _ _ _ => id) (performer_performs (W := .nothing) host _ · a) c
  have same : UnlessRefused (·.1 = .error AgentError.tooDeep.message) (fun _ => True)
      (host.suspend (host.performer (levels + 1)) a c) (host.suspend host.silent a c) := by
    cases c with
    | say | sendMessage | waitForMessage =>
      exact .same (Within.of_all (fun _ _ _ => trivial) _).upholds
    | call playbook args => exact call_unless full levels _
    | createMeeting playbook topic required optional => exact holdMeeting_unless full levels ..
  refine same.and (kept.upholds fun p _ kept => ?_)
  obtain ⟨rfl, unchanged⟩ := kept
  exact unchanged ▸ full

end Asked

section Programs
variable {α β : Type}

theorem full_advance {stack : CallStack} (step : String) (full : maxDepth ≤ stack.length) :
    maxDepth ≤ (stack.advance step).length := by
  rwa [CallStack.advance, CallStack.length_modifyInnermost]

abbrev outOfFrames : Likeness := .ofStack (fun stack => maxDepth ≤ stack.length) full_advance

theorem Kept.answers {a : AgentState} {p q : α × AgentState} (kept : Kept a p q)
    (full : maxDepth ≤ a.stack.length) : outOfFrames.Answers p q := by
  obtain ⟨rfl, unchanged⟩ := kept
  exact ⟨rfl, rfl, unchanged ▸ full⟩

theorem handler_alike (host : Host) (levels : Nat) :
    Watch.nothing.comparison.Handlers outOfFrames
      (host.handlerOver (host.performer (levels + 1)))
      (host.handlerOver (host.performer (levels + 1))) :=
  (handlerOver_balanced (performer_performs host _)).handlers full_advance (.refl _ _)

/-- Wherever there is no frame left, the one faults for it, or the other comes to the same. -/
def UnlessTooDeep (x y : Eval (Activity World) α) : Prop :=
  ∀ s : Machine, maxDepth ≤ s.agent.stack.length →
    UnlessRefused (·.1 = .error (.host AgentError.tooDeep.message))
      (fun p => maxDepth ≤ p.2.agent.stack.length) (x.run.run s) (y.run.run s)

namespace UnlessTooDeep

theorem of_alike {x : Eval (Activity World) α}
    (alike : Watch.nothing.comparison.Alike outOfFrames x x) : UnlessTooDeep x x := by
  intro s full
  have kept : Alike Watch.nothing.allowed outOfFrames.Outcomes (x.run.run s) (x.run.run s) :=
    alike s s ⟨rfl, ⟨rfl, full⟩, rfl, rfl, rfl⟩
  refine .same (kept.upholds fun p q outcomes => ?_)
  exact outcomes.machines.agents.2

theorem bind {x y : Eval (Activity World) α} {f g : α → Eval (Activity World) β}
    (first : UnlessTooDeep x y) (next : ∀ a, UnlessTooDeep (f a) (g a)) :
    UnlessTooDeep (x >>= f) (y >>= g) := by
  intro s full
  rw [ExceptT.run_bind, ExceptT.run_bind, StateT.run_bind, StateT.run_bind]
  refine (first s full).bind ?_ ?_
  · rintro ⟨_, t⟩ rfl
    exact .done rfl
  · rintro ⟨r, t⟩ full'
    cases r with
    | ok a => exact next a t full'
    | error fault => exact .same (.done full')

theorem get_bind {f g : Machine → Eval (Activity World) α}
    (next : ∀ s : Machine, maxDepth ≤ s.agent.stack.length → UnlessTooDeep (f s) (g s)) :
    UnlessTooDeep (get >>= f) (get >>= g) := by
  intro s full
  rw [ExceptT.run_bind, ExceptT.run_bind, StateT.run_bind, StateT.run_bind, run_get, pure_bind,
    pure_bind]
  exact next s full s full

theorem suspend (host : Host) (levels : Nat) (c : SuspendCall) :
    UnlessTooDeep
      (ask ((host.handlerOver (host.performer (levels + 1))).suspend · c) >>= fun answer =>
        Script.ofResult (hostResult answer))
      (ask ((host.handlerOver host.silent).suspend · c) >>= fun answer =>
        Script.ofResult (hostResult answer)) := by
  intro s full
  rw [run_suspend, run_suspend]
  refine (suspend_unless full levels c).bind ?_ ?_
  · rintro ⟨_, b⟩ rfl
    exact .done rfl
  · exact fun p full' => .same (.done full')

def congruence (host : Host) (levels : Nat) :
    Congruence (host.handlerOver (host.performer (levels + 1))) (host.handlerOver host.silent) where
  rel := UnlessTooDeep
  machines s t := s = t ∧ maxDepth ≤ s.agent.stack.length
  names same := same.1 ▸ rfl
  returned same := same.1 ▸ rfl
  marked same := ⟨same.1 ▸ rfl, same.2⟩
  ended same _ := ⟨same.1 ▸ rfl, same.2⟩
  valued same _ := ⟨same.1 ▸ rfl, same.2⟩
  set same root v := ⟨same.1 ▸ rfl, by cases root <;> exact same.2⟩
  ofPure a := of_alike (Comparison.alike_pure a)
  ofResult r := of_alike (Comparison.alike_ofResult r)
  ofBind := bind
  ofGet next := get_bind fun s full => next ⟨rfl, full⟩
  ofModify := by
    intro f g keeps s full
    obtain ⟨same, full'⟩ := @keeps s s ⟨rfl, full⟩
    rw [run_modify, run_modify, ← same]
    exact .same (.done full')
  step args := of_alike (Comparison.step_alike args)
  root root := of_alike (Comparison.rootValue_alike root)
  var name := of_alike (Comparison.var_alike name)
  view := by
    rintro s _ ⟨rfl, full⟩ name
    exact of_alike (Comparison.alike_liftM ((handler_alike host levels).reserved ⟨rfl, full⟩ name))
  suspend := suspend host levels
  host name args := of_alike (Comparison.alike_ask fun agents =>
    (handler_alike host levels).hostFunction agents name args)

end UnlessTooDeep

variable {save : Saver (Activity World)} {p : Progress}

theorem runSegment_unasked (levels : Nat) (saves : ∀ f ∈ save, ∀ r, Within World.Unasked (f r))
    (full : maxDepth ≤ p.agent.stack.length) (segment : Segment) :
    Within World.Unasked
      (Progress.runSegment (host.handlerOver (host.performer (levels + 1))) save p segment) := by
  let unasked : Comparison (Activity World) (Activity World) := ⟨Alike World.Unasked, .done, .bind⟩
  have handlers : unasked.Handlers outOfFrames (host.handlerOver (host.performer (levels + 1)))
      (host.handlerOver (host.performer (levels + 1))) := by
    constructor
    · rintro a _ ⟨rfl, full⟩ c
      exact (suspend_unasked full levels c).weaken fun _ _ kept => kept.answers full
    · rintro a _ ⟨rfl, full⟩ name args
      have kept := hostFunction_kept (a := a) (fun _ _ quiet => quiet.requests) name args
      exact kept.weaken fun _ _ kept => kept.answers full
    · rintro a _ ⟨rfl, -⟩ name
      exact ((quiet_ask _).weaken fun _ _ quiet => quiet.requests).alike
  have savers : unasked.Savers outOfFrames save save := by
    cases save with
    | none => exact .none
    | some f =>
      refine .some fun r b agents => ?_
      obtain ⟨rfl, -⟩ := agents
      exact (saves f rfl r).alike
  obtain ⟨e, a⟩ := p
  have ran := Comparison.runSegment_alike (e := e) handlers savers ⟨rfl, full⟩ segment
  exact Alike.within ran

/-- The fault of the statement that has called, after which no statement is run. -/
def Script.Progress.FailedTooDeep (p : Progress) (segment : Segment)
    (outcome : Except StoreError Bool × Progress) : Prop :=
  outcome.1 = .ok false ∧ outcome.2.execution.fault =
    some (.failed (.host AgentError.tooDeep.message) (String.ofList (Text.trim segment.text))
      p.execution.line outcome.2.agent.stack.pointers)

theorem runSegment_unless (levels : Nat) (full : maxDepth ≤ p.agent.stack.length)
    (segment : Segment) :
    UnlessRefused (p.FailedTooDeep segment) (fun _ => True)
      (Progress.runSegment (host.handlerOver (host.performer (levels + 1))) save p segment)
      (Progress.runSegment (host.handlerOver host.silent) save p segment) := by
  have free {γ : Type} (x : Activity World γ) : Upholds (fun _ => True) (fun _ => True) x :=
    (Within.of_all (fun _ _ _ => trivial) x).upholds
  unfold Progress.runSegment
  dsimp only
  split
  · exact .same (free _)
  cases parseProgram (String.ofList segment.text) with
  | error err => exact .same (free _)
  | ok body =>
    have block := (UnlessTooDeep.congruence host levels).block body
      ⟨p.execution.names, p.agent, false, none, none⟩ full
    refine block.bind ?_ ?_
    · rintro ⟨_, s⟩ rfl
      exact .done ⟨rfl, rfl⟩
    · exact fun _ _ => .same (free _)

end Programs
end Full

/-- What calls come to that would need a frame too many. -/
structure Host.RefusesDeeper (host : Host) : Prop where
  /-- Nothing is done, the engine is not asked. -/
  execute (h : Handler (Activity World)) (save : Saver (Activity World)) (execution : ExecutionId)
    (i : Invocation) (a : AgentState) (full : maxDepth ≤ a.stack.length)
    (known : host.repertoire.contains i.playbook = true) :
    host.execute h save execution i a = return (.error .tooDeep, a)
  /-- Whatever code is run from the last frame, nothing is generated on the way. -/
  unasked (levels : Nat) {save : Saver (Activity World)} {p : Progress}
    (saves : ∀ f ∈ save, ∀ r, Within World.Unasked (f r)) (full : maxDepth ≤ p.agent.stack.length)
    (segment : Segment) :
    Within World.Unasked
      (Progress.runSegment (host.handlerOver (host.performer (levels + 1))) save p segment)
  /-- Whoever calls a playbook that the agent knows waits for the silent performer for ever. -/
  silent {i : Invocation} (known : host.repertoire.contains i.playbook = true) (a : AgentState)
    (result : Performed) : ¬ (host.silent i a).CanEnd result
  /-- The statement that has called has the fault and none is run after it, wherever in it the call
      stands. For all other ends no answer to such a call is needed. -/
  refused (levels : Nat) {save : Saver (Activity World)} {p : Progress}
    (full : maxDepth ≤ p.agent.stack.length) (segment : Segment) :
    UnlessRefused (p.FailedTooDeep segment) (fun _ => True)
      (Progress.runSegment (host.handlerOver (host.performer (levels + 1))) save p segment)
      (Progress.runSegment (host.handlerOver host.silent) save p segment)

theorem refusesDeeper (host : Host) : host.RefusesDeeper where
  execute h save execution i a full known := by
    rw [execute_of_full h save execution i full, Host.refusal, if_pos known]
    rfl
  unasked levels _ _ saves full segment := runSegment_unasked levels saves full segment
  silent known _ result := silent_never_ends known result
  refused levels _ _ full segment := runSegment_unless levels full segment

/-- Playbooks that call each other come to an end, whatever the engine streams for them and wherever
    the agent stands. The recursion through the calls has one solution. In what is performed no run
    goes on for ever, whatever the others do meanwhile, as long as no single wait does. And no wait
    does if it is over at its deadline and only so many signals come before. Calls from the last
    frame there is are refused: nothing more is generated, and the statement that has called is left
    with the fault. -/
theorem nested_calls_come_to_an_end (a : Agent) :
    (∀ perform, perform = a.host.performing perform ↔
      perform = a.host.performer (maxDepth + 1)) ∧
    (∀ C, a.host.WaitsEnd C → ∀ i p, Terminates C ⟨a.perform i, p⟩) ∧
    (0 < a.host.maxBatchMessages → ∀ calls, a.host.WaitsEnd (.prompt calls)) ∧
    a.host.RefusesDeeper :=
  ⟨recursive_iff a.host, fun _ waits i p => (perform_ends waits i p).terminates,
    Host.waitsEnd_prompt, refusesDeeper a.host⟩

section Circle

/-- Two playbooks that call each other, one of them in a condition. -/
def circle : ScriptBook :=
  (ScriptBook.empty.add "Ping" "Call(\"Pong\")\n").add "Pong"
    "if [Call(\"Ping\")] \x7b\n  Say(\"user\", \"again\")\n\x7d\n"

def player : Agent where
  state :=
    { AgentState.fresh "player" "Player" with
      stack := List.replicate 30 (Host.frame "player" (.plain "Ping" [])) }
  host :=
    { inbox := 0
      repertoire := (Repertoire.empty.addPlaybook "Ping").addPlaybook "Pong"
      engine := circle.engine
      batchTimeout := 0
      maxBatchMessages := 1
      meetingTimeout := 0 }
  execution := "player"
  store := none

theorem nested_calls_come_to_an_end_in_a_circle :
    (∀ calls p, Terminates (.prompt calls) ⟨player.perform (.plain "Ping" []), p⟩) ∧
    player.host.RefusesDeeper ∧
    ((player.perform (.plain "Ping" [])).atOnce 0
      (World.start 0 "2024-01-01T00:00:00Z" .empty)).map
        (fun p => (p.2.requests.map (·.stack.length), p.1.1.toOption.map (·.fault))) =
      some ([31, 32], some (some (.failed
        (.host "Pong failed: RuntimeError: Maximum call depth of 32 exceeded") "Call(\"Pong\")" 1
        (List.replicate 31 "Ping:01")))) := by
  obtain ⟨-, ends, waits, refuses⟩ := nested_calls_come_to_an_end player
  exact ⟨fun calls => ends _ (waits Nat.one_pos calls) _, refuses, by decide +kernel⟩

end Circle
end Playbook
