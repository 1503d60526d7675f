import Playbook.Proofs.Meeting.Visits

/- What the owner of a meeting does to it while it waits for the answers: it takes answers out of
   its inbox and lets in whoever has accepted. -/
namespace Playbook
open Activity Prompt Convening
namespace Occasion

variable {o : Occasion} {s : Phase} {deeds : List (Nat × Deed)} {w : World} {c : Convening}

structure Arranges (o : Occasion) (c : Convening) : Prop where
  room : c.room = o.room
  meeting : c.meeting = o.id

/-- A batch of answers, none of which makes a member of anybody else. -/
def FairBatch (o : Occasion) (batch : List Message) : Prop := ∀ m ∈ batch, o.Fair m

theorem sustained_hosted (o : Occasion) (s : Phase) : Sustained o.Visits (Hosted o s) where
  others hosted done := hosted.visited _ done
  signals hosted :=
    ⟨hosted.address, hosted.box, hosted.entry, hosted.standing, hosted.room, hosted.noted,
      hosted.told⟩

theorem Hosted.setBox (hosted : Hosted o s deeds w) {left : Inbox}
    (fair : ∀ m ∈ left, isAnswer o.id m = true → o.Fair m) :
    Hosted o s deeds { w with post := w.post.setBox o.inbox left } := by
  obtain ⟨inbox, box, _⟩ := hosted.box
  exact ⟨hosted.address, ⟨left, setBox_get box left, fair⟩, hosted.entry, hosted.standing,
    hosted.room, hosted.noted, hosted.told⟩

theorem Hosted.collects (hosted : Hosted o s deeds w) (timeout : Nat) : ∃ batch complete w',
    World.collect o.inbox ⟨isAnswer o.id, timeout, 1, none⟩ [] w = ((batch, complete), w') ∧
      Hosted o s deeds w' ∧ o.FairBatch batch ∧ (complete = false → batch = []) := by
  obtain ⟨inbox, box, fair⟩ := hosted.box
  refine ⟨_, _, _, collect_of_box box (collect_answers o.id timeout inbox), hosted.setBox ?_,
    ?_, ?_⟩
  · intro m mem
    exact fair m (List.mem_filter.1 mem).1
  · intro m mem
    obtain ⟨among, about⟩ := List.mem_filter.1 mem
    exact fair m among about
  · intro incomplete
    simpa using incomplete

theorem Hosted.givesUp (hosted : Hosted o s deeds w) (timeout : Nat) : ∃ w',
    World.giveUp o.inbox ⟨isAnswer o.id, timeout, 1, none⟩ [] w = ([], w') ∧
      Hosted o s deeds w' := by
  obtain ⟨inbox, box, fair⟩ := hosted.box
  exact ⟨_, giveUp_of_box box, hosted.setBox fair⟩

theorem guards_batchRound (o : Occasion) (timeout deadline : Nat) :
    Guards (Hosted o s) (Sum.elim (· = []) o.FairBatch)
      (batchRound o.inbox ⟨isAnswer o.id, timeout, 1, none⟩ deadline []) := by
  rw [batchRound_eq]
  refine .act ?_ ?_
  · intro deeds _ w hosted
    obtain ⟨batch, complete, w', looked, hosted', _⟩ := hosted.collects timeout
    rw [looked]
    exact hosted'
  intro deeds _ w hosted
  obtain ⟨batch, complete, w', looked, _, fair, none⟩ := hosted.collects timeout
  rw [looked]
  cases complete with
  | true => exact .done fair
  | false =>
    cases none rfl
    refine .listen fun heard => ?_
    cases heard with
    | true => exact .done rfl
    | false =>
      refine .act ?_ ?_
      · intro deeds _ w hosted
        obtain ⟨w', gave, hosted'⟩ := hosted.givesUp timeout
        rw [gave]
        exact hosted'
      · intro deeds _ w hosted
        obtain ⟨w', gave, _⟩ := hosted.givesUp timeout
        rw [gave]
        exact .done nofun

theorem guards_collectBatch (o : Occasion) (timeout : Nat) :
    Guards (Hosted o s) o.FairBatch (collectBatch o.inbox ⟨isAnswer o.id, timeout, 1, none⟩) := by
  rw [collectBatch_eq]
  refine .act (fun _ _ _ hosted => hosted) fun _ t _ _ => ?_
  refine .loop (· = []) o.FairBatch rfl ?_ fun batch fair => .done fair
  rintro _ rfl
  exact guards_batchRound o timeout _

theorem Hosted.applied (hosted : Hosted o s deeds w) {r : InvitationResponse}
    (fair : r.accepted = true → o.guests r.attendee ∧ o.willing r.attendee = true) :
    Hosted o s deeds { w with house := Assembly.applied w.house o.room r } := by
  unfold Assembly.applied
  split
  · rename_i accepted
    obtain ⟨room, here, gathers⟩ := hosted.room
    obtain ⟨guest, willing⟩ := fair accepted
    refine ⟨hosted.address, hosted.box, hosted.entry,
      hosted.standing.of_house rfl (fun owned => owned) rfl,
      ⟨room.addMember r.attendee, ?_, gathers.addMember guest willing⟩, hosted.noted, hosted.told⟩
    rw [MeetingHouse.room?_modifyRoom, if_pos rfl, here]
    rfl
  · exact hosted

theorem Hosted.hears (hosted : Hosted o s deeds w) (arranges : o.Arranges c) {m : Message}
    (fair : o.Fair m) :
    Hosted o s deeds { w with toAssembly := (c.hear m w.toAssembly).2 } ∧
      o.Arranges (c.hear m w.toAssembly).1 := by
  cases read : m.response with
  | error e =>
    rw [Assembly.hear_unread read]
    exact ⟨hosted, arranges⟩
  | ok r =>
    obtain ⟨house, room, meeting⟩ := Assembly.hear_applied (c := c) read w.toAssembly
    rw [house, arranges.room]
    exact ⟨hosted.applied (fair r read), room.trans arranges.room, meeting.trans arranges.meeting⟩

theorem Hosted.hearsAll (hosted : Hosted o s deeds w) (arranges : o.Arranges c)
    {batch : List Message} (fair : o.FairBatch batch) :
    Hosted o s deeds (World.assembled (c.hearAll · batch) w).2 ∧
      o.Arranges (World.assembled (c.hearAll · batch) w).1 := by
  induction batch generalizing c w with
  | nil => exact ⟨hosted, arranges⟩
  | cons m rest ih =>
    obtain ⟨hosted', arranges'⟩ := hosted.hears arranges (fair m List.mem_cons_self)
    exact ih hosted' arranges' fun m' mem => fair m' (List.mem_cons_of_mem _ mem)

theorem guards_conveneRound (arranges : o.Arranges c) (deadline : Nat) :
    Guards (Hosted o s) (Sum.elim o.Arranges o.Arranges) (conveneRound o.inbox deadline c) := by
  refine .act (fun _ _ _ hosted => hosted) fun _ now _ _ => ?_
  split
  · exact .done arranges
  · rw [arranges.meeting]
    refine (guards_collectBatch o _).bind fun batch fair => ?_
    refine .act ?_ ?_
    · intro deeds _ w hosted
      exact (hosted.hearsAll arranges fair).1
    · intro deeds _ w hosted
      exact .done (hosted.hearsAll arranges fair).2

theorem guards_conveneLoop (arranges : o.Arranges c) (deadline : Nat) :
    Guards (Hosted o s) o.Arranges (.loop c (conveneRound o.inbox deadline) .done) :=
  .loop o.Arranges o.Arranges arranges (fun _ fits => guards_conveneRound fits deadline)
    fun _ fits => .done fits

end Occasion
end Playbook
