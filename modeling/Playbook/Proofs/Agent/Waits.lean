import Playbook.Agent.Host
import Playbook.Proofs.Activity.Ending
import Playbook.Proofs.Meeting.Rendezvous

/- The waits of an agent come to an end. Every look into an inbox that does not end a wait uses up a
   message, of which there are only so many as long as nobody else acts, or a signal, or the time. -/
namespace Playbook
open Activity

theorem shorter_of_complete {r : BatchRequest} {inbox taken left : List Message}
    (room : r.most ≠ some 0) (least : 0 < r.least)
    (looked : r.collect [] inbox = (taken, left, true)) : left.length < inbox.length := by
  obtain ⟨taken', left', complete, marker, same, divided, ended, -⟩ :=
    (BatchRequest.Divided.start r inbox).collect
  cases looked.symm.trans same
  have whole : taken.length + marker.toList.length + left.length = inbox.length := by
    have perm := divided.whole.length_eq
    rwa [List.length_append, List.length_append] at perm
  rcases ended rfl with marked | full | enough
  · obtain ⟨m, rfl⟩ := Option.isSome_iff_exists.1 marked
    simp only [Option.toList_some, List.length_singleton] at whole
    omega
  · have positive : taken.length ≠ 0 := fun none => room (none ▸ full)
    omega
  · omega

variable {calls : Nat →o Nat} {n : Nat}

/-- What a wait that is over has used up: its time, a signal, or a message at least. -/
structure Spent (calls : Nat →o Nat) (n deadline : Nat) (p q : Point World) : Prop where
  later : p.time ≤ q.time
  cost : deadline ≤ q.time ∨ (p.heard < q.heard ∧ q.heard ≤ calls q.time) ∨
    (q.heard = p.heard ∧ (q.world.post.box n).length < (p.world.post.box n).length)

/-- What there is to be used up: the signals up to the deadline, and the messages until the next of
    them. -/
def supply (calls : Nat →o Nat) (n deadline : Nat) (p : Point World) : Nat × Nat :=
  (if deadline ≤ p.time then 0 else calls deadline - p.heard + 1, (p.world.post.box n).length)

abbrev Less : Nat × Nat → Nat × Nat → Prop := Prod.Lex (· < ·) (· < ·)

theorem less_wf : WellFounded Less := (Prod.lex Nat.lt_wfRel Nat.lt_wfRel).wf

theorem Spent.less {deadline : Nat} {p q : Point World} (spent : Spent calls n deadline p q)
    (early : p.time < deadline) : Less (supply calls n deadline q) (supply calls n deadline p) := by
  simp only [supply, if_neg (Nat.not_le.2 early)]
  by_cases late : deadline ≤ q.time
  · rw [if_pos late]
    exact .left _ _ (Nat.succ_pos _)
  rw [if_neg late]
  rcases spent.cost with past | ⟨more, called⟩ | ⟨same, fewer⟩
  · exact absurd past late
  · have bound : calls q.time ≤ calls deadline := calls.monotone (by omega)
    exact .left _ _ (by omega)
  · rw [same]
    exact .right _ fewer

section Collecting
variable {r : BatchRequest} {p : Point World}

def Looking (calls : Nat →o Nat) (start : Point World) (batch : List Message) (p : Point World) :
    Prop :=
  (batch = [] ∧ p = start) ∨
    (start.time ≤ p.time ∧ start.heard < p.heard ∧ p.heard ≤ calls p.time)

theorem Looking.later {start : Point World} {batch : List Message}
    (looking : Looking calls start batch p) : start.time ≤ p.time ∧ start.heard ≤ p.heard := by
  rcases looking with ⟨-, rfl⟩ | ⟨later, more, -⟩
  · exact ⟨Nat.le_refl _, Nat.le_refl _⟩
  · exact ⟨later, Nat.le_of_lt more⟩

theorem Looking.complete {start : Point World} {deadline : Nat} {batch taken : List Message}
    {w : World} (looking : Looking calls start batch p) (room : r.most ≠ some 0)
    (least : 0 < r.least) (looked : World.collect n r batch p.world = ((taken, true), w)) :
    Spent calls n deadline start { p with world := w } := by
  refine ⟨looking.later.1, .inr ?_⟩
  rcases looking with ⟨rfl, rfl⟩ | ⟨-, more, called⟩
  · refine .inr ⟨rfl, ?_⟩
    simp only [World.collect, Prod.mk.injEq] at looked
    obtain ⟨⟨-, complete⟩, rfl⟩ := looked
    have fewer : _ < (p.world.post.box n).length := shorter_of_complete room least
      (Prod.ext rfl (Prod.ext rfl complete))
    have inside : n < p.world.post.boxes.length := by
      by_contra outside
      rw [PostOffice.box, List.getD_eq_getElem?_getD,
        List.getElem?_eq_none (Nat.not_lt.1 outside)] at fewer
      exact absurd fewer (Nat.not_lt_zero _)
    rw [box_of_get (setBox_get (List.getElem?_eq_getElem inside) _)]
    exact fewer
  · exact .inl ⟨more, called⟩

theorem collectBatch_finishes (n : Nat) (room : r.most ≠ some 0) (least : 0 < r.least)
    (p : Point World) :
    Finishes (.prompt calls) (fun _ q => Spent calls n (p.time + r.timeout) p q) ⟨collectBatch n r, p⟩ := by
  rw [collectBatch_eq]
  generalize deadline_eq : p.time + r.timeout = deadline
  refine .act_promptly ?_
  simp only [deadline_eq]
  refine .repeats Nat.lt_wfRel.wf (fun _ q => calls (max q.time deadline) - q.heard)
    (Looking calls p) ?_ (.inl ⟨rfl, rfl⟩)
  intro batch q looking
  rw [batchRound_eq]
  refine .act_promptly ?_
  generalize looked : World.collect n r batch q.world = outcome
  obtain ⟨⟨taken, complete⟩, w⟩ := outcome
  cases complete with
  | true => exact .done (.done (looking.complete room least looked))
  | false =>
    obtain ⟨later, heard⟩ := looking.later
    refine .listen ?_ ?_
    · rintro q' ⟨after, early, called, more⟩
      dsimp only at after early called more
      refine .done ⟨.inr ⟨Nat.le_trans later after, by omega, by omega⟩, ?_⟩
      -- The deadline stays, so no more signals are to come than before.
      have span : max q'.time deadline = max q.time deadline := by omega
      have bound : calls q'.time ≤ calls (max q'.time deadline) :=
        calls.monotone (Nat.le_max_left ..)
      show calls (max q'.time deadline) - q'.heard < calls (max q.time deadline) - q.heard
      rw [span] at bound ⊢
      omega
    · rintro q' ⟨after, past, same⟩
      exact .act_promptly (.done (.done ⟨Nat.le_trans later after, .inl past⟩))

end Collecting

def awaitRound (inbox : Nat) (accepts : Message → Bool) (timeout most started : Nat) (_ : Unit) :
    Activity World (Unit ⊕ List Message) :=
  .act (fun t w => (t, w)) fun now =>
    (collectBatch inbox ⟨accepts, timeout - (now - started), 1, some most⟩).bind fun batch =>
      .act (fun t w => (t, w)) fun later =>
        .done (if batch.isEmpty && later - started < timeout then .inl () else .inr batch)

theorem awaitBatch_eq (inbox : Nat) (accepts : Message → Bool) (timeout most : Nat) :
    awaitBatch inbox accepts timeout most = .act (fun t w => (t, w)) fun started =>
      .loop () (awaitRound inbox accepts timeout most started) .done := rfl

theorem awaitBatch_ends (inbox : Nat) (accepts : Message → Bool) (timeout : Nat) {most : Nat}
    (room : 0 < most) : Ending (.prompt calls) (awaitBatch inbox accepts timeout most) := by
  intro p
  rw [awaitBatch_eq]
  refine .act_promptly ?_
  generalize p.time = started
  refine .repeats less_wf (fun _ q => supply calls inbox (started + timeout) q)
    (fun _ q => started ≤ q.time) ?_ (Nat.le_refl _)
  intro _ q after
  have most_room : some most ≠ some 0 := fun none =>
    absurd (Option.some.inj none) (Nat.pos_iff_ne_zero.1 room)
  refine .act_promptly ((collectBatch_finishes inbox most_room Nat.one_pos q).bind ?_)
  intro batch q' spent
  refine .act_promptly (.done ?_)
  have later := spent.later
  dsimp only at later spent ⊢
  by_cases again : (batch.isEmpty && decide (q'.time - started < timeout)) = true
  · simp only [again, if_true]
    have early : q'.time - started < timeout := of_decide_eq_true (Bool.and_eq_true_iff.1 again).2
    have deadline : q.time + (timeout - (q.time - started)) = started + timeout := by omega
    rw [deadline] at spent
    exact ⟨by omega, spent.less (by omega)⟩
  · simp only [again]
    exact .done trivial

theorem box_of_hearAll (c : Convening) (n : Nat) (batch : List Message) (w : World) :
    (World.assembled (c.hearAll · batch) w).2.post.box n = w.post.box n :=
  congrArg (·.box n) (c.hearAll_noting w.toAssembly batch).2

theorem convene_ends (owner : Signature) (inbox timeout : Nat) (r : MeetingRequest) :
    Ending (.prompt calls) (convene owner inbox timeout r) := by
  intro p
  rw [convene_eq]
  refine .act_promptly (.act_promptly ?_)
  generalize p.time + timeout = deadline
  refine .repeats less_wf (fun _ q => supply calls inbox deadline q) (fun _ _ => True) ?_ trivial
  intro c q _
  refine .act_promptly ?_
  dsimp only
  split
  · exact .done (.act_promptly (.done trivial))
  · rename_i going
    have early : q.time < deadline := by
      simp only [Bool.or_eq_true, decide_eq_true_eq, not_or, Nat.not_le] at going
      exact going.2
    refine (collectBatch_finishes inbox (fun none => by cases none) Nat.one_pos q).bind ?_
    intro batch q' spent
    refine .act_promptly (.done ⟨trivial, ?_⟩)
    have span : q.time + (deadline - q.time) = deadline := by omega
    dsimp only at spent
    rw [span] at spent
    have less := spent.less early
    simpa only [supply, box_of_hearAll] using less

namespace Host

/-- Every single wait comes to an end, the one for a message and the one for the answers to an
    invitation. -/
structure WaitsEnd (host : Host) (C : Course World) : Prop where
  message (a : AgentState) (source : String) (p : Point World) :
    Terminates C ⟨host.waitForMessage a source, p⟩
  meeting (owner : Signature) (r : MeetingRequest) (p : Point World) :
    Terminates C ⟨convene owner host.inbox host.meetingTimeout r, p⟩

/-- Waits come to an end by their timeouts. Without any room for messages an agent would look for
    them again and again while the clock stands still. -/
theorem waitsEnd_prompt {host : Host} (room : 0 < host.maxBatchMessages) (calls : Nat →o Nat) :
    host.WaitsEnd (.prompt calls) where
  message a source := by
    refine ending_iff.1 (.act fun source => ?_)
    cases source with
    | error text => exact .done _
    | ok source => exact (awaitBatch_ends _ _ _ room).bind fun batch => .done _
  meeting owner r := ending_iff.1 (convene_ends owner host.inbox host.meetingTimeout r)

end Host
end Playbook
