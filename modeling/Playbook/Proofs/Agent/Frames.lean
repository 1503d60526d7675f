import Playbook.Agent.Host
import Playbook.Proofs.Activity.Outcomes
import Playbook.Proofs.Execution.Comparison
import Playbook.Proofs.Inbox.Batches

/- The frames of an agent while it performs a playbook. A frame is added for each performance and
   left in any case; what lies below it is the same for everything that is asked on the way. -/
namespace Playbook
open Script Activity

structure World.Quiet (w w' : World) : Prop where
  memory : w'.memory = w.memory
  files : w'.files = w.files
  requests : w'.requests = w.requests

section Quiet
variable {α : Type}

theorem World.Quiet.refl (w : World) : World.Quiet w w := ⟨rfl, rfl, rfl⟩

theorem quiet_change {f : World → α × World} (quiet : ∀ w, World.Quiet w (f w).2) :
    Within World.Quiet (Activity.change f) :=
  .act (fun _ w => quiet w) .done

theorem quiet_assembled (f : Assembly → α × Assembly) :
    Within World.Quiet (Activity.change (World.assembled f)) :=
  quiet_change fun _ => ⟨rfl, rfl, rfl⟩

theorem quiet_ask (f : World → α) : Within World.Quiet (Activity.ask f) :=
  .act (fun _ w => .refl w) .done

theorem quiet_now : Within World.Quiet (Activity.now : Activity World Nat) :=
  .act (fun _ w => .refl w) .done

theorem quiet_collectBatch (n : Nat) (r : BatchRequest) :
    Within World.Quiet (collectBatch n r) :=
  within_collectBatch n r .refl fun _ _ => ⟨rfl, rfl, rfl⟩

theorem quiet_convene (owner : Signature) (inbox timeout : Nat) (r : MeetingRequest) :
    Within World.Quiet (convene owner inbox timeout r) := by
  refine (quiet_assembled _).bind fun c => quiet_now.bind fun t => ?_
  refine .loop (fun c => quiet_now.bind fun now => ?_) fun c => quiet_assembled _
  split
  · exact .done _
  · exact (quiet_collectBatch _ _).bind fun batch => (quiet_assembled _).bind fun c => .done _

theorem quiet_speak (a : AgentState) (target content : String) (closeTurn : Bool) (w : World) :
    World.Quiet w (a.speak target content closeTurn w).2 := by
  unfold AgentState.speak
  split
  · exact ⟨rfl, rfl, rfl⟩
  split
  · cases a.stack.currentMeeting? <;> exact ⟨rfl, rfl, rfl⟩
  · cases checkId .agent target <;> exact ⟨rfl, rfl, rfl⟩

theorem quiet_setState (a : AgentState) (function : String) (args : List Value) (w : World) :
    World.Quiet w (Host.setState a function args w).2 := by
  unfold Host.setState
  cases Host.stateAccess a function args w <;> exact ⟨rfl, rfl, rfl⟩

theorem within_waitForMessage {allowed : World → World → Prop} (host : Host) (a : AgentState)
    (name : String) (stays : ∀ w, allowed w w)
    (reads : ∀ (w : World) left, allowed w { w with post := w.post.setBox host.inbox left }) :
    Within allowed (host.waitForMessage a name) := by
  have clock : Within allowed (Activity.now : Activity World Nat) :=
    .act (fun _ w => stays w) .done
  refine .bind (.act (fun _ w => stays w) .done) fun source => ?_
  cases source with
  | error text => exact .done _
  | ok source =>
    refine .bind (clock.bind fun started => .loop (fun _ => ?_) .done) fun batch => .done _
    refine clock.bind fun now => (within_collectBatch _ _ stays reads).bind fun batch => ?_
    exact clock.bind fun elapsed => .done _

end Quiet

/-- What is watched of the world: something about the checkpoints in it and the requests to the
    engine, which those from so many frames do not spoil. -/
structure Watch where
  kept : World → Prop
  fits : Nat → Prop
  small {n : Nat} : n ≤ maxDepth → fits n
  quiet {w w' : World} : kept w → World.Quiet w w' → kept w'
  asked {w : World} {r : GenerationRequest} : kept w → fits r.stack.length →
    kept { w with requests := w.requests ++ [r] }

namespace Watch
variable (W : Watch)

def allowed (w w' : World) : Prop := W.kept w → W.kept w'

theorem of_quiet {α : Type} {x : Activity World α} (quiet : Within World.Quiet x) :
    Within W.allowed x :=
  quiet.weaken fun _ _ same kept => W.quiet kept same

def comparison : Comparison (Activity World) (Activity World) where
  rel := Alike W.allowed
  ofPure := .done
  ofBind := .bind

end Watch

def Script.Likeness.ofStack (kind : CallStack → Prop)
    (advance : ∀ {stack} step, kind stack → kind (stack.advance step)) : Likeness where
  agents a b := a = b ∧ kind a.stack
  vars := by
    rintro a _ ⟨rfl, -⟩ name
    rfl
  pointers := by
    rintro a _ ⟨rfl, -⟩
    rfl
  set := by
    rintro a _ ⟨rfl, known⟩ name v
    exact ⟨rfl, known⟩
  advance := by
    rintro a _ ⟨rfl, known⟩ step
    exact ⟨rfl, advance step known⟩

namespace CallStack

/-- Nothing below the frame of a performance has changed; the frame itself is at some step. -/
def Inside (below : CallStack) (frame : Frame) (stack : CallStack) : Prop :=
  (∃ step, stack = below ++ [{ frame with pointer := frame.pointer.atStep step }]) ∧
    stack.length ≤ maxDepth

theorem Inside.advance {below stack : CallStack} {frame : Frame} (step : String)
    (inside : Inside below frame stack) : Inside below frame (stack.advance step) := by
  obtain ⟨⟨_, rfl⟩, bounded⟩ := inside
  refine ⟨⟨step, modifyInnermost_concat ..⟩, ?_⟩
  rw [CallStack.advance, length_modifyInnermost]
  exact bounded

end CallStack

section Performing
variable {W : Watch} {h h' : Handler (Activity World)} {save save' : Saver (Activity World)}
  {α : Type} {L : Likeness} {a b : AgentState}

/-- The same result, with the stack that there was before. -/
def Kept (a : AgentState) (p q : α × AgentState) : Prop := p = q ∧ p.2.stack = a.stack

structure Balanced (W : Watch) (h : Handler (Activity World)) : Prop where
  suspend (a : AgentState) (c : SuspendCall) :
    Alike W.allowed (Kept a) (h.suspend a c) (h.suspend a c)
  hostFunction (a : AgentState) (name : String) (args : List Value) :
    Alike W.allowed (Kept a) (h.hostFunction a name args) (h.hostFunction a name args)
  reserved (a : AgentState) (name : String) : Within W.allowed (h.reserved a name)

/-- Handlers that cannot be told apart by agents with such a stack. -/
structure SameFor (kind : CallStack → Prop) (h h' : Handler (Activity World)) : Prop where
  suspend {a : AgentState} (known : kind a.stack) : h'.suspend a = h.suspend a
  hostFunction {a : AgentState} (known : kind a.stack) : h'.hostFunction a = h.hostFunction a
  reserved {a : AgentState} (known : kind a.stack) : h'.reserved a = h.reserved a

inductive SavesFor (kind : CallStack → Prop) (W : Watch) :
    Saver (Activity World) → Saver (Activity World) → Prop
  | none : SavesFor kind W none none
  | some {f g : SaveRequest → Activity World (Except StoreError CheckpointId)}
    (same : ∀ r : SaveRequest, kind r.agent.stack → g r = f r ∧ Within W.allowed (f r)) :
    SavesFor kind W (some f) (some g)

theorem feed_alike {C : Comparison (Activity World) (Activity World)} (H : C.Handlers L h h')
    (V : C.Savers L save save') {e : Execution} (agents : L.agents a b) (broken : Option String)
    (chunks : List String) :
    C.rel L.Runs (Host.feed h save ⟨e, a⟩ broken chunks)
      (Host.feed h' save' ⟨e, b⟩ broken chunks) := by
  induction chunks generalizing e a b with
  | nil => cases broken <;> exact C.ofPure (.same _ e agents)
  | cons chunk rest ih =>
    refine C.ofBind (Comparison.addChunk_alike H V agents chunk) ?_
    rintro _ _ ⟨r, e, agents⟩
    cases r with
    | error fault => exact C.ofPure (.same _ e agents)
    | ok =>
      by_cases ended : (e.fault.isSome || e.returned.isSome) = true
      · simp only [ended, if_true]
        exact C.ofPure (.same _ e agents)
      · simp only [ended]
        exact ih agents

theorem drive_related {C : Comparison (Activity World) (Activity World)} {host host' : Host}
    {i : Invocation} (H : C.Handlers L h h') (V : C.Savers L save save')
    (generated : C.rel (· = ·) (host.generate (i.request a)) (host'.generate (i.request b)))
    (agents : L.agents a b) (execution : ExecutionId) :
    C.rel L.Answers (host.drive h save execution i a) (host'.drive h' save' execution i b) := by
  refine C.ofBind generated ?_
  rintro g _ rfl
  cases g with
  | error fault => exact C.ofPure ⟨rfl, agents⟩
  | ok g =>
    refine C.ofBind (feed_alike H V agents g.broken g.chunks) ?_
    rintro _ _ ⟨r, e, agents⟩
    cases r with
    | error fault => exact C.ofPure ⟨rfl, agents⟩
    | ok =>
      refine C.ofBind (Comparison.finalize_alike H V agents) ?_
      rintro _ _ ⟨r, e, agents⟩
      exact C.ofPure ⟨rfl, agents⟩

section Stacks
variable {kind : CallStack → Prop}
  (advance : ∀ {stack : CallStack} (step : String), kind stack → kind (stack.advance step))

theorem Balanced.handlers (balanced : Balanced W h) (same : SameFor kind h h') :
    W.comparison.Handlers (.ofStack kind advance) h h' where
  suspend := by
    rintro a _ ⟨rfl, known⟩ c
    rw [same.suspend known]
    refine (balanced.suspend a c).weaken fun p q kept => ?_
    obtain ⟨rfl, unchanged⟩ := kept
    exact ⟨rfl, rfl, unchanged ▸ known⟩
  hostFunction := by
    rintro a _ ⟨rfl, known⟩ name args
    rw [same.hostFunction known]
    refine (balanced.hostFunction a name args).weaken fun p q kept => ?_
    obtain ⟨rfl, unchanged⟩ := kept
    exact ⟨rfl, rfl, unchanged ▸ known⟩
  reserved := by
    rintro a _ ⟨rfl, known⟩ name
    rw [same.reserved known]
    exact (balanced.reserved a name).alike

theorem SavesFor.savers (saves : SavesFor kind W save save') :
    W.comparison.Savers (.ofStack kind advance) save save' := by
  cases saves with
  | none => exact .none
  | some same =>
    refine .some fun r b agents => ?_
    obtain ⟨rfl, known⟩ := agents
    obtain ⟨equal, within⟩ := same r known
    rw [equal]
    exact within.alike

variable {host host' : Host} {i : Invocation}

theorem generate_alike {r : GenerationRequest} (fits : W.fits r.stack.length)
    (engine : host'.engine r = host.engine r) :
    Alike W.allowed (· = ·) (host.generate r) (host'.generate r) := by
  have same : host'.generate r = host.generate r := by
    simp only [Host.generate, engine]
  rw [same]
  exact .act (fun _ w kept => W.asked kept fits) fun _ => .done rfl

theorem drive_alike (balanced : Balanced W h) (same : SameFor kind h h')
    (saves : SavesFor kind W save save') (deep : ∀ {stack}, kind stack → W.fits stack.length)
    (engine : host'.engine (i.request a) = host.engine (i.request a)) (execution : ExecutionId)
    (known : kind a.stack) :
    Alike W.allowed (Likeness.ofStack kind advance).Answers (host.drive h save execution i a)
      (host'.drive h' save' execution i a) := by
  have handlers := balanced.handlers advance same
  have savers := saves.savers advance
  have fits : W.fits (i.request a).stack.length := by
    have length : (i.request a).stack.length = a.stack.length := List.length_map ..
    rw [length]
    exact deep known
  exact drive_related handlers savers (generate_alike fits engine) ⟨rfl, known⟩ execution

end Stacks

section Levels
variable {host host' : Host} {i : Invocation} {execution : ExecutionId}

abbrev within (a : AgentState) (execution : ExecutionId) (i : Invocation) : CallStack → Prop :=
  CallStack.Inside a.stack (Host.frame execution i)

theorem execute_kept (balanced : Balanced W h)
    (same : SameFor (within a execution i) h h')
    (saves : SavesFor (within a execution i) W save save')
    (knows : host'.repertoire = host.repertoire)
    (engine : ∀ b : AgentState, within a execution i b.stack →
      host'.engine (i.request b) = host.engine (i.request b)) :
    Alike W.allowed (Kept a) (host.execute h save execution i a)
      (host'.execute h' save' execution i a) := by
  unfold Host.execute
  rw [knows]
  split
  · exact .done ⟨rfl, rfl⟩
  split
  · exact .done ⟨rfl, rfl⟩
  rename_i shallow
  let pushed := { a with stack := a.stack.push (Host.frame execution i) }
  have length : pushed.stack.length = a.stack.length + 1 := by
    simp [pushed, CallStack.push]
  have known : within a execution i pushed.stack := ⟨⟨_, rfl⟩, by omega⟩
  refine (drive_alike CallStack.Inside.advance balanced same saves
    (fun inside => W.small inside.2) (engine pushed known) execution known).bind ?_
  rintro ⟨r, b⟩ ⟨r', b'⟩ ⟨(rfl : r = r'), (rfl : b = b'), inside⟩
  obtain ⟨⟨step, (inside : b.stack = _)⟩, -⟩ := inside
  refine .done ⟨rfl, ?_⟩
  simp only [inside, CallStack.pop, List.dropLast_concat]

theorem SameFor.refl (kind : CallStack → Prop) (h : Handler (Activity World)) : SameFor kind h h where
  suspend _ := rfl
  hostFunction _ := rfl
  reserved _ := rfl

/-- Performing that leaves every stack as it was. -/
def Performs (W : Watch) (perform : Performer) : Prop :=
  ∀ i a, Alike W.allowed (Kept a) (perform i a) (perform i a)

section Kept
variable {allowed : World → World → Prop}

theorem kept_of_within {α β : Type} {x : Activity World α} (within : Within allowed x)
    (a : AgentState) (f : α → β) :
    Alike allowed (Kept a) (x.bind fun r => .done (f r, a)) (x.bind fun r => .done (f r, a)) := by
  refine within.alike.bind ?_
  rintro r _ rfl
  exact .done ⟨rfl, rfl⟩

variable {perform : Performer} {a : AgentState}
  (quiet : ∀ w w', World.Quiet w w' → allowed w w')
  (performs : ∀ i, Alike allowed (Kept a) (perform i a) (perform i a))

include performs in
theorem call_kept (i : Invocation) :
    Alike allowed (Kept a) (Host.call perform i a) (Host.call perform i a) := by
  refine (performs i).bind ?_
  rintro ⟨r, b⟩ _ ⟨rfl, kept⟩
  cases r with
  | error fault => exact .done ⟨rfl, kept⟩
  | ok s =>
    cases fault : s.fault with
    | none => simp only [fault]; exact .done ⟨rfl, kept⟩
    | some f => simp only [fault]; exact .done ⟨rfl, kept⟩

include quiet performs in
theorem holdMeeting_kept (playbook topic : String) (required optional : List String) :
    Alike allowed (Kept a) (host.holdMeeting perform a playbook topic required optional)
      (host.holdMeeting perform a playbook topic required optional) := by
  unfold Host.holdMeeting
  extract_lets goOn
  have onward : ∀ created, Alike allowed (Kept a) (goOn created) (goOn created) := by
    rintro (e | id)
    · exact .done ⟨rfl, rfl⟩
    · simp only [goOn]
      split
      · exact .done ⟨rfl, rfl⟩
      · refine (call_kept performs _).bind ?_
        rintro ⟨outcome, b⟩ _ ⟨rfl, kept⟩
        exact ((quiet_assembled _).weaken quiet).alike.bind fun _ _ _ => .done ⟨rfl, kept⟩
  cases MeetingRequest.ofNames playbook topic required optional with
  | error e => exact onward (.error e)
  | ok r =>
    refine ((quiet_convene ..).weaken quiet).alike.bind ?_
    rintro created _ rfl
    exact onward created

include quiet performs in
theorem suspend_kept (c : SuspendCall) :
    Alike allowed (Kept a) (host.suspend perform a c) (host.suspend perform a c) := by
  cases c with
  | say target content =>
    exact kept_of_within ((quiet_change (quiet_speak a target content true)).weaken quiet) a id
  | sendMessage target content =>
    exact kept_of_within ((quiet_change (quiet_speak a target content false)).weaken quiet) a id
  | waitForMessage source =>
    have reads : Within World.Quiet (host.waitForMessage a source) :=
      within_waitForMessage host a source .refl fun _ _ => ⟨rfl, rfl, rfl⟩
    exact kept_of_within (reads.weaken quiet) a id
  | call playbook args => exact call_kept performs _
  | createMeeting playbook topic required optional => exact holdMeeting_kept quiet performs ..

include quiet in
theorem hostFunction_kept (name : String) (args : List Value) :
    Alike allowed (Kept a) (Host.hostFunction a name args) (Host.hostFunction a name args) := by
  unfold Host.hostFunction
  split
  · exact kept_of_within ((quiet_ask _).weaken quiet) a some
  · exact kept_of_within ((quiet_change (quiet_setState a _ args)).weaken quiet) a some
  · exact kept_of_within ((quiet_ask _).weaken quiet) a some
  · exact .done ⟨rfl, rfl⟩

end Kept

theorem handlerOver_balanced {perform : Performer} (performs : Performs W perform) :
    Balanced W (host.handlerOver perform) where
  suspend a c := suspend_kept (fun _ _ same kept => W.quiet kept same) (performs · a) c
  hostFunction _ name args := hostFunction_kept (fun _ _ same kept => W.quiet kept same) name args
  reserved _ _ := W.of_quiet (quiet_ask _)

theorem performer_performs (host : Host) (levels : Nat) : Performs W (host.performer levels) := by
  induction levels with
  | zero => exact fun i a => .done ⟨rfl, rfl⟩
  | succ levels ih =>
    intro i a
    refine (W.of_quiet (quiet_assembled _)).alike.bind ?_
    rintro execution _ rfl
    exact execute_kept (handlerOver_balanced ih) (.refl _ _) .none rfl fun _ _ => rfl

end Levels
end Performing
end Playbook
