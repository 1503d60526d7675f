import Playbook.Meeting.Attendance
import Playbook.Message.Payload
import Playbook.Proofs.Json.RoundTrip
import Playbook.Proofs.Meeting.House
import Playbook.Proofs.PostOffice

/- What each operation on meetings does to the rooms, the books and the inboxes. The documents in
   invitations and answers are read as they were written. -/
namespace Playbook

theorem checkId_of_valid {kind : IdKind} {id : String} (valid : ValidId kind id) :
    checkId kind id = .ok id := by
  rw [checkId, valid]

namespace Message

theorem idOfRaw?_str {kind : IdKind} {id : String} (valid : ValidId kind id) :
    idOfRaw? kind (.scalar (.str id)) = some id := by
  rw [idOfRaw?, RawJson.string?, Option.bind_some, checkId_of_valid valid]
  rfl

theorem readPayload_compress {α : Type} {read : RawJson → Option α} {m : Message} {j : Json}
    {value : α} (legible : j.Legible) (shallow : j.depth ≤ RawJson.deepest)
    (written : m.content = j.compress) (reads : read (.ofJson j) = some value) :
    readPayload read m = .ok value := by
  rw [readPayload, written, Json.parse?_compress legible shallow, Option.bind_some, reads]

variable {m : Message}

theorem invitation_written {i : Invitation} (meeting : ValidId .meeting i.meeting)
    (owner : ValidId .agent i.owner) (written : m.content = i.toJson.compress) :
    m.invitation = .ok i := by
  apply readPayload_compress _ _ written
  · have meeting' := idOfRaw?_str meeting
    have owner' := idOfRaw?_str owner
    simp [Invitation.ofRaw?, Invitation.toJson, RawJson.ofJson, RawJson.membersOfJson,
      RawJson.fields?, meeting', owner', RawJson.string?]
  · exact ⟨trivial, trivial, trivial, trivial, trivial⟩
  · show 1 ≤ RawJson.deepest
    decide

theorem response_written {r : InvitationResponse} (meeting : ValidId .meeting r.meeting)
    (attendee : ValidId .agent r.attendee) (written : m.content = r.toJson.compress) :
    m.response = .ok r := by
  obtain ⟨meetingId, attendeeId, accepted, reason⟩ := r
  have meeting' := idOfRaw?_str meeting
  have attendee' := idOfRaw?_str attendee
  cases reason with
  | none =>
    apply readPayload_compress _ _ written
    · simp [InvitationResponse.ofRaw?, InvitationResponse.toJson, optionalField, RawJson.ofJson,
        RawJson.membersOfJson, RawJson.fields?, meeting', attendee', RawJson.null,
        RawJson.optionalString?]
    · exact ⟨trivial, trivial, trivial, trivial⟩
    · show 1 ≤ RawJson.deepest
      decide
  | some text =>
    apply readPayload_compress _ _ written
    · simp [InvitationResponse.ofRaw?, InvitationResponse.toJson, optionalField, RawJson.ofJson,
        RawJson.membersOfJson, RawJson.fields?, meeting', attendee', RawJson.optionalString?]
    · exact ⟨trivial, trivial, trivial, trivial, trivial⟩
    · show 1 ≤ RawJson.deepest
      decide

end Message

/-- At most the directory has lost entries. -/
def MeetingHouse.Forgets (h h' : MeetingHouse) : Prop :=
  ∃ directory : Dict Nat, h' = { h with directory } ∧ directory ⊆ h.directory

theorem MeetingHouse.Forgets.refl (h : MeetingHouse) : h.Forgets h :=
  ⟨h.directory, rfl, List.Subset.refl _⟩

namespace Assembly

theorem deliver_house (a : Assembly) (m : Message) : (a.deliver m).2.house = a.house := by
  unfold deliver withPost
  cases a.post.deliver m <;> rfl

theorem adds_deliver (a : Assembly) (m : Message) : a.post.Adds (· = m) (a.deliver m).2.post := by
  unfold deliver withPost
  cases delivered : a.post.deliver m with
  | error e => exact .refl _ _
  | ok post => exact PostOffice.adds_deliver delivered

theorem adds_posted (a : Assembly) (d : Draft) :
    a.post.Adds (fun m => ∃ id date, m = d.toMessage id date)
      ((a.write d).2.deliver (a.write d).1).2.post := by
  have minted : a.post.Adds (fun m => ∃ id date, m = d.toMessage id date) (a.write d).2.post :=
    a.post.adds_mint _
  exact minted.trans (((a.write d).2.adds_deliver _).mono fun m same => ⟨_, _, same⟩)

def answerDraft (who : Signature) (i : Invitation) (accepted : Bool) (reason : Option String) :
    Draft :=
  ⟨who.id, who.klass, some i.owner, some i.meeting,
    (InvitationResponse.toJson ⟨i.meeting, who.id, accepted, reason⟩).compress, .response⟩

/-- An invitation is passed over, declined or accepted. -/
inductive Answers (who : Signature) (m : Message) (a a' : Assembly) : Prop where
  /-- Nobody is told. -/
  | silent (house : a.house.Forgets a'.house) (post : a'.post = a.post)
  | declined (i : Invitation) (reason : Option String) (kind : m.kind = .invitation)
    (read : m.invitation = .ok i) (house : a'.house = a.house)
    (post : a.post.Adds (fun m => ∃ id date, m = (answerDraft who i false reason).toMessage id date)
      a'.post)
  | joined (i : Invitation) (n : Nat) (room : Room) (h : MeetingHouse) (kind : m.kind = .invitation)
    (read : m.invitation = .ok i) (new : (a.house.book who.id).contains i.meeting = false)
    (found : (a.house.lookup i.meeting).1 = some n) (here : a.house.room? n = some room)
    (forgets : a.house.Forgets h)
    (house : a'.house = (h.modifyRoom n (·.addMember who.id)).setBook who.id
      ((h.book who.id).addJoined ⟨n, room.id, room.owner, room.topic⟩))
    (post : a.post.Adds (fun m => ∃ id date, m = (answerDraft who i true none).toMessage id date)
      a'.post)

theorem handleInvitation_answers (who : Signature) (knows : String → Bool) (m : Message)
    (a : Assembly) : Answers who m a (a.handleInvitation who knows m).2 := by
  unfold handleInvitation
  split
  · exact .silent (.refl _) rfl
  rename_i kind
  rw [ne_eq, Decidable.not_not] at kind
  split
  · exact .silent (.refl _) rfl
  rename_i i read
  split
  · exact .silent (.refl _) rfl
  rename_i absent
  split
  · exact .declined i _ kind read (deliver_house ..) (adds_posted a (answerDraft who i false _))
  have forgets : a.house.Forgets (a.lookup i.meeting).2.house := a.house.lookup_house i.meeting
  have same : (a.lookup i.meeting).2.house.rooms = a.house.rooms := by
    obtain ⟨directory, only, _⟩ := forgets
    rw [only]
  simp only
  split
  · exact .silent forgets rfl
  · rename_i n room found
    obtain ⟨n', looked, here⟩ := Option.bind_eq_some_iff.1 found
    obtain ⟨room', here, equal⟩ := Option.map_eq_some_iff.1 here
    cases equal
    refine .joined i n room _ kind read (by simpa using absent) looked ?_ forgets (deliver_house ..) ?_
    · rw [MeetingHouse.room?, ← same]
      exact here
    · exact adds_posted ((a.lookup i.meeting).2.join who n room).2 (answerDraft who i true none)

variable {a a' : Assembly} {m : Message} {n : Nat} {id : MeetingId} {who : Signature}
  {agent : AgentId}

def applied (h : MeetingHouse) (n : Nat) (r : InvitationResponse) : MeetingHouse :=
  if r.accepted then h.modifyRoom n (·.addMember r.attendee) else h

theorem applyResponse_of_ok {r : InvitationResponse} (read : m.response = .ok r) (n : Nat)
    (a : Assembly) : Convening.applyResponse n m a = (.ok r, { a with house := applied a.house n r }) := by
  simp only [Convening.applyResponse, read, applied, modifyRoom]
  split <;> rfl

theorem applyResponse_of_error {e : PostError} (unread : m.response = .error e) (n : Nat)
    (a : Assembly) : Convening.applyResponse n m a = (.error e, a) := by
  simp only [Convening.applyResponse, unread]

inductive Records (m : Message) (a a' : Assembly) : Except MeetingError InvitationResponse → Prop where
  | taken (id : MeetingId) (n : Nat) (h : MeetingHouse) (r : InvitationResponse)
    (about : m.meeting = some id) (found : (a.house.lookup id).1 = some n)
    (read : m.response = .ok r) (forgets : a.house.Forgets h) (house : a'.house = applied h n r)
    (post : a'.post = a.post) : Records m a a' (.ok r)
  | refused (e : MeetingError) (house : a.house.Forgets a'.house) (post : a'.post = a.post) :
    Records m a a' (.error e)

theorem recordResponse_records (m : Message) (a : Assembly) :
    Records m a (a.recordResponse m).2 (a.recordResponse m).1 := by
  unfold recordResponse
  split
  · exact .refused _ (.refl _) rfl
  rename_i id about
  have forgets : a.house.Forgets (a.lookup id).2.house := a.house.lookup_house id
  split
  · rename_i a₁ looked
    rw [looked] at forgets
    exact .refused _ forgets (congrArg (·.2.post) looked).symm
  · rename_i n a₁ looked
    have post : a₁.post = a.post := (congrArg (·.2.post) looked).symm
    rw [looked] at forgets
    cases read : m.response with
    | error e =>
      rw [applyResponse_of_error read]
      exact .refused _ forgets post
    | ok r =>
      rw [applyResponse_of_ok read]
      exact .taken id n _ r about (congrArg (·.1) looked) read forgets rfl post

theorem hear_applied {c : Convening} {r : InvitationResponse} (read : m.response = .ok r)
    (a : Assembly) :
    (c.hear m a).2 = { a with house := applied a.house c.room r } ∧
      (c.hear m a).1.room = c.room ∧ (c.hear m a).1.meeting = c.meeting := by
  unfold Convening.hear
  rw [applyResponse_of_ok read]
  simp only
  split
  · refine ⟨rfl, ?_⟩
    split <;> exact ⟨rfl, rfl⟩
  · exact ⟨rfl, rfl, rfl⟩

theorem hear_unread {c : Convening} {e : PostError} (unread : m.response = .error e)
    (a : Assembly) : c.hear m a = (c, a) := by
  unfold Convening.hear
  rw [applyResponse_of_error unread]

/-- An arrangement comes about, and the owner notes the meeting, or the room is let go. -/
theorem settle_house (c : Convening) (who : Signature) (r : MeetingRequest) (a : Assembly) :
    (c.settle who r a).2.post = a.post ∧
      ((c.settle who r a).2.house = a.house.release c.room ∨
        (c.settle who r a).2.house = (a.house.release c.room).setBook who.id
          (((a.house.release c.room).book who.id).addOwned c.meeting
            ⟨c.room, r.required, r.optional⟩)) := by
  unfold Convening.settle
  split
  · exact ⟨rfl, .inl rfl⟩
  · exact ⟨rfl, .inr rfl⟩

theorem leaveMeeting_cases (agent : AgentId) (id : MeetingId) (a : Assembly) :
    (a.leaveMeeting agent id = (false, a)) ∨
      ∃ j, (a.house.book agent).joined.get? id = some j ∧
        ∃ h : MeetingHouse, h = a.house.setBook agent ((a.house.book agent).leave id) ∧
          a.leaveMeeting agent id = (true, { a with
            house :=
              if h.alive j.room then h.modifyRoom j.room (·.removeMember agent) else h }) := by
  unfold leaveMeeting
  simp only
  split
  · exact .inl rfl
  · rename_i j found
    exact .inr ⟨j, found, _, rfl, rfl⟩

theorem closeMeeting_house (agent : AgentId) (id : MeetingId) (a : Assembly) :
    (a.closeMeeting agent id).2.post = a.post ∧
      ((a.closeMeeting agent id).2.house = a.house ∨
        (a.closeMeeting agent id).2.house =
          (a.house.setBook agent ((a.house.book agent).close id)).prune) := by
  unfold closeMeeting
  simp only
  split
  · exact ⟨rfl, .inr rfl⟩
  · exact ⟨rfl, .inl rfl⟩

theorem sayToMeeting_only_speaks (who : Signature) (id : MeetingId) (content : String)
    (a : Assembly) :
    a.house.Forgets (a.sayToMeeting who id content).2.house ∧
      a.post.Adds (·.kind.isControl = false) (a.sayToMeeting who id content).2.post := by
  have forgets : a.house.Forgets (a.lookup id).2.house := a.house.lookup_house id
  unfold sayToMeeting
  simp only
  split
  · exact ⟨forgets, .refl _ _⟩
  split
  · exact ⟨forgets, .refl _ _⟩
  have minted := PostOffice.adds_mint a.post (·.kind.isControl = false)
  split
  · exact ⟨forgets, minted⟩
  · rename_i said
    exact ⟨forgets, minted.trans (PostOffice.adds_broadcast said)⟩

end Assembly

namespace Convening
variable {owner : Signature} {i : Invitation}

def invitationDraft (owner : Signature) (i : Invitation) (attendee : AgentId) : Draft :=
  ⟨owner.id, owner.klass, some attendee, some i.meeting, i.toJson.compress, .invitation⟩

def invite (owner : Signature) (i : Invitation) (attendee : AgentId) (a : Assembly) :
    Except PostError Unit × Assembly :=
  (a.write (invitationDraft owner i attendee)).2.deliver
    (a.write (invitationDraft owner i attendee)).1

def awaiting (c : Convening) (attendee : AgentId) : Except PostError Unit → Bool → Convening
  | .ok (), true => { c with pending := c.pending ++ [attendee] }
  | .error _, true => { c with rejected := c.rejected ++ [attendee] }
  | _, false => c

theorem awaiting_room (c : Convening) (attendee : AgentId) (delivered : Except PostError Unit)
    (required : Bool) : (c.awaiting attendee delivered required).room = c.room := by
  unfold awaiting
  split <;> rfl

theorem awaiting_meeting (c : Convening) (attendee : AgentId) (delivered : Except PostError Unit)
    (required : Bool) : (c.awaiting attendee delivered required).meeting = c.meeting := by
  unfold awaiting
  split <;> rfl

theorem inviteAll_cons {c : Convening} (named : c.meeting = i.meeting) (a : Assembly)
    (attendee : AgentId) (required : Bool) (rest : List (AgentId × Bool)) :
    inviteAll owner i c a ((attendee, required) :: rest) =
      if attendee = owner.id then inviteAll owner i c a rest
      else inviteAll owner i (c.awaiting attendee (invite owner i attendee a).1 required)
        (invite owner i attendee a).2 rest := by
  rw [inviteAll, invite, invitationDraft, ← named]
  rfl

theorem inviteAll_invites (owner : Signature) (i : Invitation) (c : Convening)
    (named : c.meeting = i.meeting) (a : Assembly) (invitees : List (AgentId × Bool)) :
    (inviteAll owner i c a invitees).1.room = c.room ∧
      (inviteAll owner i c a invitees).1.meeting = c.meeting ∧
      (inviteAll owner i c a invitees).2.house = a.house ∧
      a.post.Adds (fun m => ∃ attendee ∈ invitees.map Prod.fst, attendee ≠ owner.id ∧
        ∃ id date, m = (invitationDraft owner i attendee).toMessage id date)
        (inviteAll owner i c a invitees).2.post := by
  induction invitees generalizing c a with
  | nil => exact ⟨rfl, rfl, rfl, .refl _ _⟩
  | cons first rest ih =>
    obtain ⟨attendee, required⟩ := first
    rw [inviteAll_cons named]
    split
    · obtain ⟨room, meeting, house, post⟩ := ih c named a
      refine ⟨room, meeting, house, post.mono ?_⟩
      rintro m ⟨who, among, invited⟩
      exact ⟨who, List.mem_cons_of_mem _ among, invited⟩
    · rename_i different
      obtain ⟨room, meeting, house, post⟩ := ih
        (c.awaiting attendee (invite owner i attendee a).1 required)
        ((awaiting_meeting ..).trans named) (invite owner i attendee a).2
      refine ⟨room.trans (awaiting_room ..), meeting.trans (awaiting_meeting ..),
        house.trans (Assembly.deliver_house ..), ?_⟩
      apply ((a.adds_posted (invitationDraft owner i attendee)).mono _).trans (post.mono _)
      · rintro m ⟨id, date, same⟩
        exact ⟨attendee, List.mem_cons_self .., different, id, date, same⟩
      · rintro m ⟨who, among, invited⟩
        exact ⟨who, List.mem_cons_of_mem _ among, invited⟩

theorem start_opens (owner : Signature) (r : MeetingRequest) (a : Assembly) :
    ∃ i : Invitation, i = ⟨Uuid.ofBits a.post.nextId, owner.id, r.playbook, r.topic⟩ ∧
      (start owner r a).1.meeting = i.meeting ∧
      (start owner r a).1.room = a.house.rooms.length ∧
      (start owner r a).2.house = (a.house.build
        (Room.start i.meeting owner.id r.topic r.playbook)).2.register i.meeting a.house.rooms.length ∧
      a.post.nextId + 1 ≤ (start owner r a).2.post.nextId ∧
      a.post.Adds (fun m => ∃ attendee, (attendee ∈ r.required ∨ attendee ∈ r.optional) ∧
        attendee ≠ owner.id ∧ ∃ id date, m = (invitationDraft owner i attendee).toMessage id date)
        (start owner r a).2.post := by
  refine ⟨_, rfl, ?_⟩
  unfold start
  simp only [Assembly.mint, PostOffice.mint, MeetingHouse.build]
  generalize opened : (Assembly.mk { a.post with nextId := a.post.nextId + 1 } _) = a₁
  obtain ⟨room, meeting, house, post⟩ := inviteAll_invites owner
    ⟨Uuid.ofBits a.post.nextId, owner.id, r.playbook, r.topic⟩
    ⟨Uuid.ofBits a.post.nextId, a.house.rooms.length, [], []⟩ rfl a₁ (invitees r)
  refine ⟨meeting, room, ?_, ?_, ?_⟩
  · rw [house, ← opened]
  · have later := post.ids
    rw [← opened] at later ⊢
    exact later
  · have minted := PostOffice.adds_mint a.post fun m => ∃ attendee,
      (attendee ∈ r.required ∨ attendee ∈ r.optional) ∧ attendee ≠ owner.id ∧ ∃ id date,
        m = (invitationDraft owner ⟨Uuid.ofBits a.post.nextId, owner.id, r.playbook, r.topic⟩
          attendee).toMessage id date
    refine minted.trans ?_
    have same : a.post.mint.2 = a₁.post := by
      rw [← opened]
      rfl
    rw [same]
    refine post.mono ?_
    rintro m ⟨attendee, among, different, invited⟩
    refine ⟨attendee, ?_, different, invited⟩
    simpa [invitees, Function.comp_def] using among

end Convening
end Playbook
