import Playbook.Agent.Service
import Playbook.Proofs.Agent.Frames
import Playbook.Proofs.Checkpoint.Recording
import Playbook.Proofs.Checkpoint.Manager

/- Whatever an agent is told to do, and however it ends: the frames that it has added are gone
   afterwards, and there are never too many of them. -/
namespace Playbook
open Script Activity

/-- A store that does not spoil what is watched. It is given frames that fit, and gives back such
    frames only. -/
structure Watch.Keeps (W : Watch) (store : CheckpointStore World) : Prop where
  saved (id : CheckpointId) {data : CheckpointData} {w : World} : W.kept w →
    data.toJson.Whole → W.fits data.state.stack.length → W.kept (store.save id data w).2
  deleted (id : CheckpointId) {w : World} : W.kept w → W.kept (store.delete id w).2
  loaded {id : CheckpointId} {data : CheckpointData} {w : World} : W.kept w →
    store.load id w = .ok (some data) → W.fits data.state.stack.length

namespace Watch.Keeps
variable {W : Watch} {store : CheckpointStore World} (keeps : W.Keeps store) {w : World}
include keeps

theorem managed (m : CheckpointManager) (now : String) {r : SaveRequest}
    (fits : W.fits r.agent.stack.length) (kept : W.kept w) :
    W.kept (m.save store now r w).2.2 := by
  refine CheckpointManager.save_keeps (fun id _ kept => keeps.deleted id kept) m now r ?_
  intro number bound
  have depth : (CheckpointManager.dataFor r now number).state.stack.length =
      r.agent.stack.length := List.length_map ..
  exact keeps.saved _ kept (CheckpointManager.dataFor_whole bound) (depth ▸ fits)

theorem recovered {m : Option CheckpointManager} {a a' : AgentState} {c : Checkpoint}
    (kept : W.kept w) (found : CheckpointManager.recover store m a w = .ok (c, a')) :
    W.fits c.data.state.stack.length ∧ a' = a.restore c.data.state := by
  cases m with
  | none => cases found
  | some m =>
    simp only [CheckpointManager.recover] at found
    split at found
    · cases found
    · cases found
    · rename_i newest
      cases found
      refine ⟨?_, rfl⟩
      simp only [CheckpointManager.latest] at newest
      split at newest
      · cases newest
      split at newest
      · cases newest
      rename_i id _
      simp only [CheckpointManager.load] at newest
      cases loaded : store.load id w with
      | error fault =>
        rw [loaded] at newest
        cases newest
      | ok data =>
        rw [loaded] at newest
        cases data with
        | none => cases newest
        | some data =>
          cases newest
          exact keeps.loaded kept loaded

end Watch.Keeps

namespace Agent
variable {W : Watch} {a b : Agent}

/-- An agent whose store does not spoil what is watched. -/
def Watched (W : Watch) (a : Agent) : Prop := ∀ store, a.store = some store → W.Keeps store

structure Follows (a b : Agent) : Prop where
  host : b.host = a.host
  store : b.store = a.store
  stack : b.state.stack = a.state.stack

theorem Follows.refl (a : Agent) : Follows a a := ⟨rfl, rfl, rfl⟩

theorem Follows.trans {c : Agent} (first : Follows a b) (second : Follows b c) : Follows a c :=
  ⟨second.host.trans first.host, second.store.trans first.store, second.stack.trans first.stack⟩

theorem Follows.watched (follows : Follows a b) (watched : Watched W a) : Watched W b :=
  fun store here => watched store (follows.store ▸ here)

theorem Watched.saves (watched : Watched W a) {kind : CallStack → Prop}
    (deep : ∀ {stack}, kind stack → W.fits stack.length) : SavesFor kind W a.saver a.saver := by
  unfold saver
  cases here : a.store with
  | none => exact .none
  | some store =>
    refine .some fun r known => ⟨rfl, .act (fun _ w kept => ?_) .done⟩
    unfold save
    cases w.managers.get? a.state.id with
    | none => exact kept
    | some m => exact W.quiet ((watched store here).managed m _ (deep known) kept) ⟨rfl, rfl, rfl⟩

theorem perform_upholds (watched : Watched W a) (i : Invocation) :
    Upholds W.kept (fun p => Follows a p.2) (a.perform i) := by
  have balanced : Balanced W a.host.handler := handlerOver_balanced (performer_performs _ _)
  have saves : SavesFor (within a.state a.execution i) W a.saver a.saver :=
    watched.saves fun inside => W.small inside.2
  have kept : Alike W.allowed (Kept a.state)
      (a.host.execute a.host.handler a.saver a.execution i a.state) _ :=
    execute_kept balanced (.refl _ _) saves rfl fun _ _ => rfl
  refine (kept.upholds fun p _ kept => kept.2).bind ?_
  rintro ⟨r, state⟩ stack
  exact .done ⟨rfl, rfl, stack⟩

theorem quiet_upholds {α : Type} {x : Activity World α} (quiet : Within World.Quiet x) :
    Upholds W.kept (fun _ => True) x :=
  (W.of_quiet quiet).upholds

namespace Handling
variable {h : Handling}

def Goes (h k : Handling) : Prop := Follows h.agent k.agent

theorem perform_upholds (watched : Watched W h.agent) (i : Invocation) :
    Upholds W.kept h.Goes (h.perform i) := by
  refine (Agent.perform_upholds watched i).bind ?_
  rintro ⟨r, b⟩ follows
  cases r with
  | error fault => exact .done follows
  | ok summary => exact .done follows

theorem attend_upholds (watched : Watched W h.agent) (m : Message) :
    Upholds W.kept h.Goes (h.attend m) := by
  refine (quiet_upholds (quiet_assembled _)).bind fun outcome _ => ?_
  split
  · refine (perform_upholds watched _).bind fun k goes => ?_
    exact (quiet_upholds (quiet_assembled _)).bind fun _ _ => .done goes
  · exact .done (.refl _)

theorem receive_upholds (watched : Watched W h.agent) (m : Message) :
    Upholds W.kept h.Goes (h.receive m) := by
  unfold receive
  split
  · exact attend_upholds watched m
  · exact (quiet_upholds (quiet_assembled _)).bind fun _ _ => .done (.refl _)
  · refine .done ?_
    split <;> exact Follows.refl _
  · refine .done ?_
    split <;> exact Follows.refl _

theorem receiveAll_upholds (watched : Watched W h.agent) (batch : List Message) :
    Upholds W.kept h.Goes (h.receiveAll batch) := by
  induction batch generalizing h with
  | nil => exact .done (.refl _)
  | cons m rest ih =>
    refine (receive_upholds watched m).bind fun k goes => ?_
    exact (ih (goes.watched watched)).weaken fun _ more => Follows.trans goes more

theorem converse_upholds (watched : Watched W h.agent) (handler : String)
    (groups : List (Option MeetingId × List Message)) :
    Upholds W.kept h.Goes (h.converse handler groups) := by
  induction groups generalizing h with
  | nil => exact .done (.refl _)
  | cons group rest ih =>
    refine (perform_upholds watched _).bind fun k goes => ?_
    exact (ih (goes.watched watched)).weaken fun _ more => Follows.trans goes more

end Handling

theorem handleBatch_upholds (watched : Watched W a) (batch : List Message) :
    Upholds W.kept (fun p => Follows a p.2) (a.handleBatch batch) := by
  refine (Handling.receiveAll_upholds watched batch).bind fun h goes => ?_
  split
  · exact .done goes
  · refine (Handling.converse_upholds (goes.watched watched) _ _).bind fun k more => ?_
    exact .done (Follows.trans goes more)

section Resuming

theorem fits_advance {stack : CallStack} (step : String) (fits : W.fits stack.length) :
    W.fits (stack.advance step).length := by
  rwa [CallStack.advance, CallStack.length_modifyInnermost]

abbrev bounded (W : Watch) : Likeness :=
  .ofStack (fun stack => W.fits stack.length) fits_advance

variable {state : AgentState} (watched : Watched W a) (fits : W.fits state.stack.length)
include fits

include watched

end Resuming

end Agent
end Playbook
