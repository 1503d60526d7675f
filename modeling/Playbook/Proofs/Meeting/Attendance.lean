import Playbook.Proofs.Meeting.Steps

/- Who takes part in a meeting after a run: those who were invited and have accepted, and of those
   who have left only the ones let in since. -/
namespace Playbook

namespace Deed
variable {d : Deed} {who : AgentId} {id : MeetingId} {room : Room} {log late : List Deed}

theorem mem_onRoom : who ∈ (d.onRoom room).members ↔
    d.Admits who room.id ∨ who ∈ room.members ∧ d ≠ .leave who room.id := by
  unfold onRoom
  split
  · rename_i other id
    have lets : Deed.Admits (.answer other id true) other id := .inl rfl
    rw [admits_iff_of_admits lets]
    split
    · rename_i same
      simp [Room.mem_members_addMember, same, or_comm]
    · rename_i apart
      simp [apart]
  · rename_i other id
    have lets : Deed.Admits (.takeIn other id true) other id := .inr rfl
    rw [admits_iff_of_admits lets]
    split
    · rename_i same
      simp [Room.mem_members_addMember, same, or_comm]
    · rename_i apart
      simp [apart]
  · rename_i other id
    split
    · rename_i same
      simp [Room.mem_members_removeMember, Admits, same, eq_comm]
    · rename_i apart
      have unmoved : Deed.leave other id ≠ .leave who room.id := by
        intro same
        cases same
        exact apart rfl
      simp [Admits, unmoved]
  · rename_i answer takeIn leave
    have shut : ¬ d.Admits who room.id := by
      rintro (rfl | rfl)
      · exact answer _ _ rfl
      · exact takeIn _ _ rfl
    have stays : d ≠ .leave who room.id := fun same => leave _ _ same
    simp [shut, stays]

theorem onRoom_of_settled (inside : ∀ who, d.Admits who room.id → who ∈ room.members)
    (stays : ∀ who, d ≠ .leave who room.id) : d.onRoom room = room := by
  have again : ∀ {who}, who ∈ room.members → room.addMember who = room := by
    intro who mem
    rw [Room.addMember, if_pos]
    simpa [Room.hasMember] using mem
  unfold onRoom
  split
  · split
    · rename_i same
      subst same
      exact again (inside _ (.inl rfl))
    · rfl
  · split
    · rename_i same
      subst same
      exact again (inside _ (.inr rfl))
    · rfl
  · split
    · rename_i same
      subst same
      exact absurd rfl (stays _)
    · rfl
  · rfl

/-- Somebody has been let in and has not left since. -/
def LetIn (log : List Deed) (who : AgentId) (id : MeetingId) : Prop :=
  ∃ early d late, log = early ++ d :: late ∧ d.Admits who id ∧ .leave who id ∉ late

theorem letIn_snoc : LetIn (log ++ [d]) who id ↔
    d.Admits who id ∨ LetIn log who id ∧ d ≠ .leave who id := by
  constructor
  · rintro ⟨early, e, late, both, admits, stays⟩
    rcases List.eq_nil_or_concat late with rfl | ⟨front, last, rfl⟩
    · obtain ⟨_, same⟩ := List.append_inj' both rfl
      cases same
      exact .inl admits
    · rw [List.concat_eq_append] at both stays
      have regrouped : log ++ [d] = (early ++ e :: front) ++ [last] := by simp [both]
      obtain ⟨rfl, same⟩ := List.append_inj' regrouped rfl
      cases same
      simp only [List.mem_append, List.mem_singleton, not_or] at stays
      exact .inr ⟨⟨early, e, front, rfl, admits, stays.1⟩, Ne.symm stays.2⟩
  · rintro (admits | ⟨⟨early, e, late, rfl, admits, stays⟩, different⟩)
    · exact ⟨log, d, [], rfl, admits, by simp⟩
    · refine ⟨early, e, late ++ [d], by simp, admits, ?_⟩
      simp only [List.mem_append, List.mem_singleton, not_or]
      exact ⟨stays, Ne.symm different⟩

theorem letIn_after_leave : LetIn (.leave who id :: late) who id ↔ LetIn late who id := by
  constructor
  · rintro ⟨early, e, rest, both, admits, stays⟩
    cases early with
    | nil =>
      cases both
      rcases admits with same | same <;> cases same
    | cons first early =>
      cases both
      exact ⟨early, e, rest, rfl, admits, stays⟩
  · rintro ⟨early, e, rest, rfl, admits, stays⟩
    exact ⟨.leave who id :: early, e, rest, rfl, admits, stays⟩

end Deed

namespace Gathering

/- A host and the one guest that it invites. -/
namespace Visit

def host : Signature := ⟨"host", "Host"⟩

def guest : Signature := ⟨"guest", "Guest"⟩

def request : MeetingRequest := ⟨"Planning", "plans", [], ["guest"]⟩

def meeting : MeetingId := Uuid.ofBits 0

def invitation : Invitation := ⟨meeting, "host", "Planning", "plans"⟩

def invited : Message :=
  (Convening.invitationDraft host invitation "guest").toMessage (Uuid.ofBits 1) "now"

def accepted : Message :=
  (Assembly.answerDraft guest invitation true none).toMessage (Uuid.ofBits 2) "now"

def post (boxes : List Inbox) (arrivals : List Nat) (nextId : Nat) : PostOffice :=
  ⟨boxes, [("guest", 0), ("host", 1)], arrivals, nextId, "now"⟩

def room (members : List AgentId) : Room := ⟨meeting, "host", "plans", "Planning", members, []⟩

def house (members : List AgentId) (joined : Dict JoinedMeeting) : MeetingHouse :=
  ⟨[room members], [0], [(meeting, 0)], [("guest", ⟨[], joined⟩)]⟩

def arrangement : Arrangement := ⟨host, request, ⟨meeting, 0, [], []⟩⟩

def received : Gathering :=
  ⟨⟨post [[invited], []] [0] 2, ⟨[room ["host"]], [0], [(meeting, 0)], []⟩⟩, [invited],
    [arrangement]⟩

def joined : Gathering :=
  ⟨⟨post [[invited], [accepted]] [0, 1] 3,
    house ["host", "guest"] [(meeting, ⟨0, meeting, "host", "plans"⟩)]⟩, [invited], [arrangement]⟩

def recalled : Gathering :=
  ⟨⟨post [[invited], [accepted]] [0, 1] 3, house ["host", "guest"] []⟩, [accepted, invited],
    [arrangement]⟩

theorem invited_read : invited.invitation = .ok invitation :=
  Message.invitation_written (Uuid.valid_ofBits 0) (by decide) rfl

theorem accepted_read : accepted.response = .ok ⟨meeting, "guest", true, none⟩ :=
  Message.response_written (Uuid.valid_ofBits 0) (by decide) rfl

theorem run_received :
    Run (start 0 "now") [.other, .convene "host" request meeting, .other] received := by
  have arrived : Run (start 0 "now") [.other] ⟨⟨post [[], []] [] 0, .empty⟩, [], []⟩ := by
    refine Run.snoc .nil (.traffic _ ⟨Nat.le_refl 0, ?_⟩)
    rintro m ⟨inbox, among, mem⟩
    simp only [post, List.mem_cons, List.not_mem_nil, or_false, or_self] at among
    rw [among] at mem
    cases mem
  have convened : Run (start 0 "now") [.other, .convene "host" request meeting]
      ⟨⟨post [[invited], []] [0] 2, ⟨[room ["host"]], [0], [(meeting, 0)], []⟩⟩, [], [arrangement]⟩ :=
    arrived.snoc (.convene host request (by decide))
  exact convened.snoc (.receive invited ⟨[invited], by simp [post], by simp⟩)

theorem run_joined : Run (start 0 "now")
    [.other, .convene "host" request meeting, .other, .answer "guest" meeting true] joined := by
  have answered := run_received.snoc
    (.answer guest (fun _ => true) invited (by decide) (by simp [received]) (by rfl))
  simp only [received, Deed.handled, Assembly.handleInvitation, invited_read] at answered
  exact answered

theorem run_recalled : Run (start 0 "now")
    ([.other, .convene "host" request meeting, .other, .answer "guest" meeting true] ++
      .leave "guest" meeting :: [.other, .takeIn "guest" meeting true]) recalled := by
  have left : Run (start 0 "now") [.other, .convene "host" request meeting, .other,
      .answer "guest" meeting true, .leave "guest" meeting]
      ⟨⟨post [[invited], [accepted]] [0, 1] 3, house ["host"] []⟩, [invited], [arrangement]⟩ :=
    run_joined.snoc (.leave "guest" meeting)
  have received := left.snoc (.receive accepted ⟨[accepted], by simp [post], by simp⟩)
  have recorded := received.snoc (.record accepted (by simp) rfl)
  have looked : Assembly.lookup ⟨post [[invited], [accepted]] [0, 1] 3, house ["host"] []⟩ meeting =
      (some 0, ⟨post [[invited], [accepted]] [0, 1] 3, house ["host"] []⟩) := by
    rfl
  have about : accepted.meeting = some meeting := rfl
  simp only [Assembly.recordResponse, about, looked, Assembly.applyResponse_of_ok accepted_read]
    at recorded
  exact recorded

end Visit

variable {first n : Nat} {date : String} {before log : List Deed} {g g' : Gathering} {d : Deed}
  {room : Room} {who : AgentId} {id : MeetingId}

/-- Rooms are followed through a run by their numbers. Whoever is in one that still lives was let in
    during the run and has not left since, or was in it before and has not left at all. -/
theorem Run.members (run : Run g log g') (orderly : g.Orderly first before)
    (few : g'.assembly.post.nextId ≤ first + 2 ^ 122)
    (here : g.assembly.house.room? n = some room) :
    ∃ room', g'.assembly.house.room? n = some room' ∧ room'.id = room.id ∧
      (g'.assembly.house.alive n = true → g.assembly.house.alive n = true ∧
        ∀ who, who ∈ room'.members ↔ Deed.LetIn log who room.id ∨
          who ∈ room.members ∧ .leave who room.id ∉ log) := by
  induction run with
  | nil =>
    refine ⟨room, here, rfl, fun alive => ⟨alive, fun who => ?_⟩⟩
    simp [Deed.LetIn]
  | @snoc log d g₁ g₂ run step ih =>
    have few₁ := Nat.le_trans step.ids_le few
    obtain ⟨room₁, here₁, same₁, known⟩ := ih few₁
    have proceeds := step.proceeds (run.orderly orderly few₁) few
    obtain ⟨room₂, here₂, same₂, _⟩ := proceeds.evolves.stays_same here₁
    refine ⟨room₂, here₂, same₂.trans same₁, fun alive => ?_⟩
    obtain ⟨alive₀, known⟩ := known (proceeds.evolves.gone here₁ alive)
    refine ⟨alive₀, fun who => ?_⟩
    obtain ⟨room₂', here₂', change⟩ := proceeds.evolves.stays here₁
    cases here₂.symm.trans here₂'
    rcases change with rfl | ⟨dead, _⟩
    · rw [Deed.mem_onRoom, known who, Deed.letIn_snoc, same₁]
      simp only [List.mem_append, List.mem_singleton, ne_eq, not_or, eq_comm (a := d)]
      grind
    · rw [alive] at dead
      cases dead

/-- In every room, whether it still lives or not, there are its owner, before all others, and people
    whom the owner has invited and who have accepted, nobody twice. What neither lets a new member
    in nor lets one out does not touch the list. -/
theorem members_have_accepted (run : Run (start first date) log g)
    (few : g.assembly.post.nextId ≤ first + 2 ^ 122)
    (here : g.assembly.house.room? n = some room) :
    room.members.head? = some room.owner ∧ room.members.Nodup ∧
      (∀ who ∈ room.members, who = room.owner ∨
        Invited log room.owner room.id who ∧ .answer who room.id true ∈ log) ∧
      ∀ d g', Step g d g' → g'.assembly.post.nextId ≤ first + 2 ^ 122 →
        (∀ who, d.Admits who room.id → who ∈ room.members) → (∀ who, d ≠ .leave who room.id) →
        ∃ room', g'.assembly.house.room? n = some room' ∧ room'.id = room.id ∧
          room'.members = room.members := by
  have orderly := run.orderly (start_orderly first date) few
  rw [List.nil_append] at orderly
  obtain ⟨others, members, nodup, admitted⟩ := orderly.filled n room here
  refine ⟨by rw [members]; rfl, nodup, ?_, ?_⟩
  · intro who mem
    rw [members] at mem
    exact (List.mem_cons.1 mem).imp id (admitted who)
  · intro d g' step few' inside stays
    have evolves := (step.proceeds orderly few').evolves
    obtain ⟨room', there, change⟩ := evolves.stays here
    rcases change with rfl | ⟨_, rfl⟩
    · refine ⟨_, there, (d.onRoom_id room).1, ?_⟩
      rw [Deed.onRoom_of_settled inside stays]
    · exact ⟨_, there, rfl, rfl⟩

theorem members_have_accepted_when_a_guest_joins :
    Run (start 0 "now")
      [.other, .convene "host" Visit.request Visit.meeting, .other, .answer "guest" Visit.meeting true]
      Visit.joined ∧
    Visit.joined.assembly.post.nextId ≤ 0 + 2 ^ 122 ∧
    Visit.joined.assembly.house.room? 0 = some (Visit.room ["host", "guest"]) ∧
    ∀ who ∈ ["host", "guest"], who = "host" ∨
      Invited [.other, .convene "host" Visit.request Visit.meeting, .other,
        .answer "guest" Visit.meeting true] "host" Visit.meeting who ∧
      Deed.answer who Visit.meeting true ∈ [.other, .convene "host" Visit.request Visit.meeting,
        .other, .answer "guest" Visit.meeting true] :=
  have here : Visit.joined.assembly.house.room? 0 = some (Visit.room ["host", "guest"]) := rfl
  ⟨Visit.run_joined, by decide, here,
    (members_have_accepted Visit.run_joined (by decide) here).2.2.1⟩

/-- Somebody who has left a meeting is a member of its living room just when, after that, it has
    accepted an invitation again or an acceptance of it, however old, has been taken in, and it has
    not left once more since. -/
theorem back_only_when_let_in {after : List Deed}
    (run : Run (start first date) (before ++ .leave who id :: after) g)
    (few : g.assembly.post.nextId ≤ first + 2 ^ 122)
    (here : g.assembly.house.room? n = some room) (named : room.id = id)
    (alive : g.assembly.house.alive n = true) :
    who ∈ room.members ↔ Deed.LetIn after who id := by
  obtain ⟨g₁, run₁, run₂⟩ := run.split
  have few₁ := Nat.le_trans run₂.ids_le few
  have orderly₁ := run₁.orderly (start_orderly first date) few₁
  have orderly := run₂.orderly orderly₁ few
  obtain ⟨g₂, step, rest⟩ := run₂.head
  have few₂ := Nat.le_trans rest.ids_le few
  obtain ⟨_, ⟨k, room₁, here₁, same₁, _⟩, _⟩ := (step.proceeds orderly₁ few₂).leaves rfl
  obtain ⟨room', there, same', known⟩ := run₂.members orderly₁ few here₁
  obtain rfl := orderly.sound.distinct here there (by rw [named, same', same₁])
  cases here.symm.trans there
  rw [(known alive).2 who, same₁, Deed.letIn_after_leave]
  simp

theorem back_only_when_let_in_by_an_old_answer :
    Run (start 0 "now")
      ([.other, .convene "host" Visit.request Visit.meeting, .other,
          .answer "guest" Visit.meeting true] ++
        .leave "guest" Visit.meeting :: [.other, .takeIn "guest" Visit.meeting true]) Visit.recalled ∧
    Visit.recalled.assembly.post.nextId ≤ 0 + 2 ^ 122 ∧
    Visit.recalled.assembly.house.room? 0 = some (Visit.room ["host", "guest"]) ∧
    Visit.recalled.assembly.house.alive 0 = true ∧
    ("guest" ∈ ["host", "guest"] ↔
      Deed.LetIn [.other, .takeIn "guest" Visit.meeting true] "guest" Visit.meeting) :=
  have here : Visit.recalled.assembly.house.room? 0 = some (Visit.room ["host", "guest"]) := rfl
  ⟨Visit.run_recalled, by decide, here, rfl,
    back_only_when_let_in Visit.run_recalled (by decide) here rfl rfl⟩

end Gathering
end Playbook
