import Playbook.Proofs.Meeting.Operations

/- What the answers to an invitation make of a meeting. The first answer of each attendee counts;
   what is in the rooms does not. -/
namespace Playbook

def OwnAnswer (id : MeetingId) (m : Message) : Prop :=
  ∃ accepted reason, m.response = .ok ⟨id, m.sender, accepted, reason⟩

theorem ownAnswer_of_written {who : Signature} {i : Invitation} {accepted : Bool}
    {reason : Option String} {id : MeetingId} {m : Message} (attendee : ValidId .agent who.id)
    (meeting : ValidId .meeting id) (about : Convening.isAnswer id m = true)
    (written : ∃ id date, m = (Assembly.answerDraft who i accepted reason).toMessage id date) :
    OwnAnswer id m := by
  obtain ⟨_, _, rfl⟩ := written
  have same : i.meeting = id := by
    simpa [Convening.isAnswer, Assembly.answerDraft, Draft.toMessage] using about
  subst same
  exact ⟨accepted, reason, Message.response_written meeting attendee rfl⟩

namespace Convening

def noting (c : Convening) (m : Message) : Convening :=
  match m.response with
  | .error _ => c
  | .ok r =>
    if c.pending.contains r.attendee then
      let c := { c with pending := c.pending.erase r.attendee }
      if r.accepted then c else { c with rejected := c.rejected ++ [r.attendee] }
    else c

theorem meeting_noting (c : Convening) (m : Message) : (c.noting m).meeting = c.meeting := by
  unfold noting
  split
  · rfl
  · split
    · split <;> rfl
    · rfl

theorem meeting_foldl_noting (heard : List Message) (c : Convening) :
    (heard.foldl noting c).meeting = c.meeting := by
  induction heard generalizing c with
  | nil => rfl
  | cons m rest ih => exact (ih (c.noting m)).trans (meeting_noting c m)

theorem hear_noting (c : Convening) (m : Message) (a : Assembly) : (c.hear m a).1 = c.noting m := by
  unfold noting
  cases read : m.response with
  | error e => rw [Assembly.hear_unread read]
  | ok r =>
    unfold hear
    rw [Assembly.applyResponse_of_ok read]
    simp only
    split <;> rfl

theorem hear_post (c : Convening) (m : Message) (a : Assembly) : (c.hear m a).2.post = a.post := by
  cases read : m.response with
  | error e => rw [Assembly.hear_unread read]
  | ok r => rw [(Assembly.hear_applied read a).1]

theorem hearAll_noting (c : Convening) (a : Assembly) (heard : List Message) :
    (c.hearAll a heard).1 = heard.foldl noting c ∧ (c.hearAll a heard).2.post = a.post := by
  induction heard generalizing c a with
  | nil => exact ⟨rfl, rfl⟩
  | cons m rest ih =>
    obtain ⟨noted, post⟩ := ih (c.hear m a).1 (c.hear m a).2
    refine ⟨?_, post.trans (hear_post c m a)⟩
    rw [List.foldl_cons, ← hear_noting c m a]
    exact noted

def accepting (m : Message) : Bool :=
  match m.response with
  | .ok r => r.accepted
  | .error _ => false

/-- The first answer of an attendee, if there is any. -/
def firstAnswer (heard : List Message) (attendee : AgentId) : Option Bool :=
  (heard.find? (·.sender = attendee)).map accepting

theorem firstAnswer_cons (m : Message) (rest : List Message) (attendee : AgentId) :
    firstAnswer (m :: rest) attendee =
      if m.sender = attendee then some (accepting m) else firstAnswer rest attendee := by
  unfold firstAnswer
  rw [List.find?_cons]
  by_cases same : m.sender = attendee <;> simp [same]

theorem firstAnswer_append {heard : List Message} {attendee : AgentId} {accepted : Bool}
    (answered : firstAnswer heard attendee = some accepted) (more : List Message) :
    firstAnswer (heard ++ more) attendee = some accepted := by
  obtain ⟨m, found, rfl⟩ := Option.map_eq_some_iff.1 answered
  rw [firstAnswer, List.find?_append, found]
  rfl

/-- How far the answers heard so far have decided: each attendee asked is noted where its first
    answer has put it. -/
structure Noted (c : Convening) (heard : List Message) (c' : Convening) : Prop where
  meeting : c'.meeting = c.meeting
  nodup : (c'.pending ++ c'.rejected).Nodup
  pending : ∀ a, a ∈ c'.pending ↔ a ∈ c.pending ∧ firstAnswer heard a = none
  rejected : ∀ a, a ∈ c'.rejected ↔
    a ∈ c.rejected ∨ a ∈ c.pending ∧ firstAnswer heard a = some false

theorem noted_noting {c : Convening} (nodup : (c.pending ++ c.rejected).Nodup) {m : Message}
    {id : MeetingId} (own : OwnAnswer id m) : Noted c [m] (c.noting m) := by
  obtain ⟨accepted, reason, read⟩ := own
  obtain ⟨pendingNodup, rejectedNodup, apart⟩ := List.nodup_append.1 nodup
  have verdict : ∀ a, firstAnswer [m] a = if m.sender = a then some accepted else none := by
    intro a
    rw [firstAnswer_cons]
    simp only [accepting, read]
    rfl
  simp only [noting, read]
  split
  case isFalse absent =>
    have absent : m.sender ∉ c.pending := by simpa using absent
    refine ⟨rfl, nodup, ?_, ?_⟩
    · intro a
      rw [verdict]
      grind
    · intro a
      rw [verdict]
      grind
  case isTrue present =>
    have present : m.sender ∈ c.pending := by simpa using present
    have erased : ∀ a, a ∈ c.pending.erase m.sender ↔ a ≠ m.sender ∧ a ∈ c.pending :=
      fun a => pendingNodup.mem_erase_iff
    have fewer : (c.pending.erase m.sender).Nodup := pendingNodup.erase _
    cases accepted with
    | true =>
      refine ⟨rfl, ?_, ?_, ?_⟩
      · rw [if_pos rfl, List.nodup_append]
        exact ⟨fewer, rejectedNodup, fun a mem => apart a ((erased a).1 mem).2⟩
      · intro a
        simp only [if_true, erased, verdict]
        grind
      · intro a
        simp only [if_true, verdict]
        grind
    | false =>
      refine ⟨rfl, ?_, ?_, ?_⟩
      · simp only [Bool.false_eq_true, if_false]
        rw [List.nodup_append, List.nodup_append]
        refine ⟨fewer, ⟨rejectedNodup, by simp, ?_⟩, ?_⟩
        · intro a mem b same
          rw [List.mem_singleton.1 same]
          exact (apart _ present a mem).symm
        · intro a mem b among
          obtain ⟨different, before⟩ := (erased a).1 mem
          rcases List.mem_append.1 among with old | same
          · exact apart a before b old
          · rw [List.mem_singleton.1 same]
            exact different
      · intro a
        simp only [Bool.false_eq_true, if_false, erased, verdict]
        grind
      · intro a
        simp only [Bool.false_eq_true, if_false, List.mem_append, List.mem_singleton, verdict]
        grind

theorem noted_foldl {c : Convening} (nodup : (c.pending ++ c.rejected).Nodup) {id : MeetingId}
    {heard : List Message} (own : ∀ m ∈ heard, OwnAnswer id m) :
    Noted c heard (heard.foldl noting c) := by
  induction heard generalizing c with
  | nil => exact ⟨rfl, nodup, by simp [firstAnswer], by simp [firstAnswer]⟩
  | cons m rest ih =>
    have one := noted_noting nodup (own m List.mem_cons_self)
    have others := ih one.nodup fun m' mem => own m' (List.mem_cons_of_mem _ mem)
    refine ⟨others.meeting.trans one.meeting, others.nodup, ?_, ?_⟩
    · intro a
      rw [List.foldl_cons, others.pending, one.pending, firstAnswer_cons, firstAnswer_cons]
      by_cases same : m.sender = a <;> simp [same, firstAnswer]
    · intro a
      rw [List.foldl_cons, others.rejected, one.rejected, one.pending, firstAnswer_cons,
        firstAnswer_cons]
      by_cases same : m.sender = a <;> simp [same, firstAnswer]

/-- The required attendees, but for the owner. -/
def asked (owner : AgentId) (r : MeetingRequest) : List AgentId := r.required.filter (· ≠ owner)

/-- What has come of asking an attendee, if anything has: one without inbox has declined. -/
def verdict (p : PostOffice) (answers : List Message) (attendee : AgentId) : Option Bool :=
  if (p.boxOf? attendee).isSome then firstAnswer answers attendee else some false

/-- What verdicts make of a meeting. -/
inductive Decided (id : MeetingId) (asked : List AgentId) (verdict : AgentId → Option Bool) :
    Except MeetingError MeetingId → Prop where
  | accepted (all : ∀ a ∈ asked, verdict a = some true) : Decided id asked verdict (.ok id)
  | rejected (names : List AgentId) (nodup : names.Nodup) (some_name : names ≠ [])
    (exactly : ∀ a, a ∈ names ↔ a ∈ asked ∧ verdict a = some false) :
    Decided id asked verdict (.error (.rejected id names))
  | timedOut (names : List AgentId) (nodup : names.Nodup) (some_name : names ≠ [])
    (exactly : ∀ a, a ∈ names ↔ a ∈ asked ∧ verdict a = none)
    (unrejected : ∀ a ∈ asked, verdict a ≠ some false) :
    Decided id asked verdict (.error (.timedOut id names))

def outcome (c : Convening) : Except MeetingError MeetingId :=
  match c.fault? with
  | some e => .error e
  | none => .ok c.meeting

theorem settle_outcome (c : Convening) (owner : Signature) (r : MeetingRequest) (a : Assembly) :
    (c.settle owner r a).1 = c.outcome := by
  unfold settle outcome
  split <;> simp [*]

theorem decided_outcome {c : Convening} {asked : List AgentId} {verdict : AgentId → Option Bool}
    (nodup : (c.pending ++ c.rejected).Nodup)
    (pending : ∀ a, a ∈ c.pending ↔ a ∈ asked ∧ verdict a = none)
    (rejected : ∀ a, a ∈ c.rejected ↔ a ∈ asked ∧ verdict a = some false) :
    Decided c.meeting asked verdict c.outcome := by
  obtain ⟨pendingNodup, rejectedNodup, _⟩ := List.nodup_append.1 nodup
  unfold outcome fault?
  by_cases refused : c.rejected = []
  · have unrejected : ∀ a ∈ asked, verdict a ≠ some false := by
      intro a among rejects
      have mem := (rejected a).2 ⟨among, rejects⟩
      rw [refused] at mem
      cases mem
    by_cases waiting : c.pending = []
    · simp only [refused, waiting, List.isEmpty_nil, Bool.not_true, Bool.false_eq_true, if_false]
      refine .accepted fun a among => ?_
      cases found : verdict a with
      | none =>
        have mem := (pending a).2 ⟨among, found⟩
        rw [waiting] at mem
        cases mem
      | some accepted =>
        cases accepted with
        | true => rfl
        | false => exact absurd found (unrejected a among)
    · have open_ : c.pending.isEmpty = false := by simpa using waiting
      simp only [refused, open_, List.isEmpty_nil, Bool.not_true, Bool.not_false, Bool.false_eq_true,
        if_false, if_true]
      exact .timedOut c.pending pendingNodup waiting pending unrejected
  · have faulty : c.rejected.isEmpty = false := by simpa using refused
    simp only [faulty, Bool.not_false, if_true]
    exact .rejected c.rejected rejectedNodup refused rejected

theorem decided_of_noted {p : PostOffice} {c c' : Convening} {owner : AgentId} {r : MeetingRequest}
    {heard answers : List Message} (noted : Noted c heard c')
    (pending : ∀ a, a ∈ c.pending ↔ a ∈ asked owner r ∧ (p.boxOf? a).isSome = true)
    (rejected : ∀ a, a ∈ c.rejected ↔ a ∈ asked owner r ∧ (p.boxOf? a).isSome = false)
    (same : ∀ a ∈ c.pending, firstAnswer answers a = firstAnswer heard a) :
    Decided c.meeting (asked owner r) (verdict p answers) c'.outcome := by
  rw [← noted.meeting]
  apply decided_outcome noted.nodup
  · intro a
    rw [noted.pending]
    constructor
    · rintro ⟨mem, silent⟩
      obtain ⟨among, reached⟩ := (pending a).1 mem
      exact ⟨among, by rw [verdict, if_pos reached, same a mem, silent]⟩
    · rintro ⟨among, silent⟩
      unfold verdict at silent
      split at silent
      · rename_i reached
        have mem := (pending a).2 ⟨among, reached⟩
        exact ⟨mem, by rw [← same a mem, silent]⟩
      · cases silent
  · intro a
    rw [noted.rejected]
    constructor
    · rintro (mem | ⟨mem, refused⟩)
      · obtain ⟨among, unreached⟩ := (rejected a).1 mem
        exact ⟨among, by rw [verdict, if_neg (by simp [unreached])]⟩
      · obtain ⟨among, reached⟩ := (pending a).1 mem
        exact ⟨among, by rw [verdict, if_pos reached, same a mem, refused]⟩
    · rintro ⟨among, refused⟩
      unfold verdict at refused
      split at refused
      · rename_i reached
        have mem := (pending a).2 ⟨among, reached⟩
        exact .inr ⟨mem, by rw [← same a mem, refused]⟩
      · rename_i unreached
        exact .inl ((rejected a).2 ⟨among, by simpa using unreached⟩)

theorem invite_reaches (owner : Signature) (i : Invitation) (attendee : AgentId) (a : Assembly) :
    (invite owner i attendee a).2.post.addresses = a.post.addresses ∧
      (match (invite owner i attendee a).1 with
        | .ok _ => ∃ k, a.post.boxOf? attendee = some k
        | .error _ => a.post.boxOf? attendee = none) ∧
      ∀ n, a.post.boxOf? attendee ≠ some n →
        (invite owner i attendee a).2.post.boxes[n]? = a.post.boxes[n]? := by
  have same : (a.write (invitationDraft owner i attendee)).2.post.boxOf? attendee =
      a.post.boxOf? attendee := rfl
  unfold invite Assembly.deliver PostOffice.deliver
  simp only [Assembly.write, PostOffice.write, PostOffice.mint, Draft.toMessage, invitationDraft]
    at same ⊢
  rw [same]
  cases found : a.post.boxOf? attendee with
  | none => exact ⟨rfl, rfl, fun n _ => rfl⟩
  | some k =>
    refine ⟨rfl, ⟨k, rfl⟩, fun n different => ?_⟩
    exact List.getElem?_set_ne fun equal => different (congrArg some equal)

theorem awaiting_invite (owner : Signature) (i : Invitation) (c : Convening) (attendee : AgentId)
    (required : Bool) (a : Assembly) :
    (c.awaiting attendee (invite owner i attendee a).1 required).pending = c.pending ++
        (if required && (a.post.boxOf? attendee).isSome then [attendee] else []) ∧
      (c.awaiting attendee (invite owner i attendee a).1 required).rejected = c.rejected ++
        (if required && (a.post.boxOf? attendee).isNone then [attendee] else []) := by
  obtain ⟨_, reached, _⟩ := invite_reaches owner i attendee a
  cases required with
  | false => simp [awaiting]
  | true =>
    cases delivered : (invite owner i attendee a).1 with
    | ok _ =>
      rw [delivered] at reached
      obtain ⟨k, found⟩ := reached
      simp [awaiting, found]
    | error _ =>
      rw [delivered] at reached
      have none : a.post.boxOf? attendee = none := reached
      simp [awaiting, none]

theorem inviteAll_asks (owner : Signature) {i : Invitation} {c : Convening}
    (named : c.meeting = i.meeting) (a : Assembly) (invitees : List (AgentId × Bool)) :
    (inviteAll owner i c a invitees).1.pending = c.pending ++
        ((invitees.filter (·.2)).map Prod.fst).filter
          (fun x => x ≠ owner.id && (a.post.boxOf? x).isSome) ∧
      (inviteAll owner i c a invitees).1.rejected = c.rejected ++
        ((invitees.filter (·.2)).map Prod.fst).filter
          (fun x => x ≠ owner.id && (a.post.boxOf? x).isNone) ∧
      (inviteAll owner i c a invitees).2.post.addresses = a.post.addresses ∧
      ∀ n, (∀ x, a.post.boxOf? x = some n → x = owner.id) →
        (inviteAll owner i c a invitees).2.post.boxes[n]? = a.post.boxes[n]? := by
  induction invitees generalizing c a with
  | nil => exact ⟨by simp [inviteAll], by simp [inviteAll], rfl, fun _ _ => rfl⟩
  | cons first rest ih =>
    obtain ⟨attendee, required⟩ := first
    rw [inviteAll_cons named]
    split
    · rename_i self
      obtain ⟨pending, rejected, same, boxes⟩ := ih named a
      refine ⟨?_, ?_, same, boxes⟩
      · rw [pending]
        cases required <;> simp [self]
      · rw [rejected]
        cases required <;> simp [self]
    · rename_i different
      obtain ⟨addresses, _, untouched⟩ := invite_reaches owner i attendee a
      have boxOf? : ∀ x, (invite owner i attendee a).2.post.boxOf? x = a.post.boxOf? x := by
        intro x
        rw [PostOffice.boxOf?, addresses, ← PostOffice.boxOf?]
      obtain ⟨pending, rejected, same, boxes⟩ := ih
        ((awaiting_meeting c attendee (invite owner i attendee a).1 required).trans named)
        (invite owner i attendee a).2
      simp only [boxOf?] at pending rejected boxes
      obtain ⟨waited, refused⟩ := awaiting_invite owner i c attendee required a
      refine ⟨?_, ?_, same.trans addresses, ?_⟩
      · rw [pending, waited, List.append_assoc]
        cases required <;> cases found : a.post.boxOf? attendee <;> simp [different, found]
      · rw [rejected, refused, List.append_assoc]
        cases required <;> cases found : a.post.boxOf? attendee <;> simp [different, found]
      · intro n alone
        rw [boxes n alone]
        exact untouched n fun found => different (alone attendee found)

/-- How arranging begins: with a meeting that has a new id, with each required attendee waited for,
    or counted as one that has declined, as often as it is named, and with nothing put into the inbox
    of the owner. -/
theorem start_waits (owner : Signature) (r : MeetingRequest) (a : Assembly) :
    (start owner r a).1.meeting = Uuid.ofBits a.post.nextId ∧
      (start owner r a).1.pending =
        r.required.filter (fun x => x ≠ owner.id && (a.post.boxOf? x).isSome) ∧
      (start owner r a).1.rejected =
        r.required.filter (fun x => x ≠ owner.id && (a.post.boxOf? x).isNone) ∧
      (start owner r a).2.post.addresses = a.post.addresses ∧
      ∀ n, (∀ x, a.post.boxOf? x = some n → x = owner.id) →
        (start owner r a).2.post.boxes[n]? = a.post.boxes[n]? := by
  obtain ⟨_, rfl, meeting, _⟩ := start_opens owner r a
  have required : ((invitees r).filter (·.2)).map Prod.fst = r.required := by
    simp only [invitees, List.filter_append, List.filter_map, Function.comp_def, List.map_append,
      List.map_map]
    rw [List.filter_eq_self.2 (by simp), List.filter_eq_nil_iff.2 (by simp)]
    simp
  obtain ⟨pending, rejected, addresses, boxes⟩ := inviteAll_asks owner
    (i := ⟨Uuid.ofBits a.post.nextId, owner.id, r.playbook, r.topic⟩)
    (c := ⟨Uuid.ofBits a.post.nextId, a.house.rooms.length, [], []⟩) rfl
    ⟨a.post.mint.2, (a.house.build (Room.start (Uuid.ofBits a.post.nextId) owner.id r.topic
      r.playbook)).2.register (Uuid.ofBits a.post.nextId) a.house.rooms.length⟩ (invitees r)
  rw [required, List.nil_append] at pending rejected
  exact ⟨meeting, pending, rejected, addresses, boxes⟩

theorem start_asks (owner : Signature) {r : MeetingRequest} (distinct : r.required.Nodup)
    (a : Assembly) :
    (start owner r a).1.meeting = Uuid.ofBits a.post.nextId ∧
      ((start owner r a).1.pending ++ (start owner r a).1.rejected).Nodup ∧
      (∀ x, x ∈ (start owner r a).1.pending ↔
        x ∈ asked owner.id r ∧ (a.post.boxOf? x).isSome = true) ∧
      (∀ x, x ∈ (start owner r a).1.rejected ↔
        x ∈ asked owner.id r ∧ (a.post.boxOf? x).isSome = false) ∧
      ∀ n, (∀ x, a.post.boxOf? x = some n → x = owner.id) →
        (start owner r a).2.post.boxes[n]? = a.post.boxes[n]? := by
  obtain ⟨meeting, pending, rejected, _, boxes⟩ := start_waits owner r a
  refine ⟨meeting, ?_, ?_, ?_, boxes⟩
  · rw [pending, rejected, List.nodup_append]
    refine ⟨distinct.sublist List.filter_sublist, distinct.sublist List.filter_sublist, ?_⟩
    intro x mem y among same
    subst same
    have reached := (List.mem_filter.1 mem).2
    have unreached := (List.mem_filter.1 among).2
    simp only [Bool.and_eq_true, Option.isNone_iff_eq_none] at reached unreached
    rw [unreached.2] at reached
    cases reached.2
  · intro x
    simp [pending, asked, and_assoc]
  · intro x
    simp [rejected, asked, and_assoc]

end Convening
end Playbook
