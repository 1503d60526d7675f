import Playbook.Proofs.Activity.Rounds
import Playbook.Proofs.Meeting.Failure
import Playbook.Proofs.Meeting.Rendezvous

/- Guests who answer invitations to a meeting while its owner waits for their answers. A guest who
   does not know the playbook declines each time; one who does accepts the first time, becomes a
   member, and says nothing from then on. -/
namespace Playbook
open Activity Prompt Convening

namespace Assembly
variable {who : Signature} {knows : String → Bool} {m : Message} {a : Assembly} {i : Invitation}
  {n k : Nat} {room : Room}

def posting (a : Assembly) (k : Nat) (d : Draft) : Assembly :=
  { a with post := (a.write d).2.post.put k (a.write d).1 }

theorem deliver_posting {d : Draft} {x : AgentId} (addressee : d.recipient = some x)
    (reachable : a.post.boxOf? x = some k) :
    (a.write d).2.deliver (a.write d).1 = (.ok (), a.posting k d) := by
  have addressee : (a.write d).1.recipient = some x := addressee
  have there : (a.write d).2.post.boxOf? x = some k := reachable
  simp only [deliver, PostOffice.deliver, addressee, there]
  rfl

theorem respond_posting {accepted : Bool} {reason : Option String}
    (reachable : a.post.boxOf? i.owner = some k) :
    a.respond who i accepted reason =
      (.ok (), a.posting k (answerDraft who i accepted reason)) := by
  have posted := deliver_posting (d := answerDraft who i accepted reason) rfl reachable
  simp only [answerDraft] at posted
  simp only [respond, posted]
  rfl

theorem handleInvitation_declines (kind : m.kind = .invitation) (read : m.invitation = .ok i)
    (new : (a.house.book who.id).contains i.meeting = false) (unknown : knows i.playbook = false)
    (reachable : a.post.boxOf? i.owner = some k) :
    ∃ reason,
      (a.handleInvitation who knows m).2 = a.posting k (answerDraft who i false reason) := by
  refine ⟨some s!"unknown playbook '{i.playbook}'", ?_⟩
  simp only [handleInvitation, kind, ne_eq, not_true_eq_false, if_false, read, new, unknown,
    Bool.false_eq_true, Bool.not_false, if_true, respond_posting reachable]

theorem handleInvitation_joins (kind : m.kind = .invitation) (read : m.invitation = .ok i)
    (new : (a.house.book who.id).contains i.meeting = false) (known : knows i.playbook = true)
    (entry : a.house.directory.get? i.meeting = some n) (alive : a.house.alive n = true)
    (here : a.house.room? n = some room) (reachable : a.post.boxOf? i.owner = some k) :
    (a.handleInvitation who knows m).2 =
      (a.join who n room).2.posting k (answerDraft who i true none) := by
  have looked : a.lookup i.meeting = (some n, a) := by
    simp only [lookup, MeetingHouse.lookup, entry, alive, if_true]
  have reachable : (a.join who n room).2.post.boxOf? i.owner = some k := reachable
  simp only [handleInvitation, kind, ne_eq, not_true_eq_false, if_false, read, new, known,
    Bool.false_eq_true, Bool.not_true, looked, Option.bind_some, here, Option.map_some,
    respond_posting reachable]

end Assembly

theorem Answering.mail_eq {n : Nat} {id : MeetingId} {mail mail' : List Message} {w w' : World}
    {inbox : Inbox} (brings : Answering n id mail w w') (box : w.post.boxes[n]? = some inbox)
    (box' : w'.post.boxes[n]? = some (inbox ++ mail')) : mail = mail' :=
  List.append_cancel_left (Option.some.inj ((brings.feeds inbox box).symm.trans box'))

/-- A meeting under arrangement, and who is invited to it. -/
structure Occasion where
  invitation : Invitation
  /-- The inbox of the owner. -/
  inbox : Nat
  room : Nat
  guests : AgentId → Prop
  knows : AgentId → String → Bool
  proper : ValidId .meeting invitation.meeting
  others : ¬ guests invitation.owner

namespace Occasion

def id (o : Occasion) : MeetingId := o.invitation.meeting

def owner (o : Occasion) : AgentId := o.invitation.owner

def willing (o : Occasion) (x : AgentId) : Bool := o.knows x o.invitation.playbook

structure Deed where
  /-- Who handles an invitation to the meeting, if somebody does. -/
  guest : Option AgentId
  /-- What it puts into the inbox of the owner. -/
  mail : List Message

structure Spares (o : Occasion) (w w' : World) : Prop where
  address : w'.post.boxOf? o.owner = w.post.boxOf? o.owner
  entry : w'.house.directory.get? o.id = w.house.directory.get? o.id
  room : w'.house.room? o.room = w.house.room? o.room
  held : w'.house.held.count o.room = w.house.held.count o.room
  owned : w'.house.Owned o.room ↔ w.house.Owned o.room
  book : w'.house.book o.owner = w.house.book o.owner
  noted : ∀ x, (w'.house.book x).contains o.id = (w.house.book x).contains o.id

/-- What the others do: a guest handles an invitation to the meeting, or somebody does anything
    else. -/
inductive Visits (o : Occasion) : List Deed → World → World → Prop
  | answers (who : Signature) (m : Message) (mail : List Message) (w : World)
    (valid : ValidId .agent who.id) (guest : o.guests who.id) (kind : m.kind = .invitation)
    (read : m.invitation = .ok o.invitation)
    (brings : Answering o.inbox o.id mail w
      (w.assembled (Assembly.handleInvitation who (o.knows who.id) m)).2) :
    Visits o [⟨some who.id, mail⟩] w
      (w.assembled (Assembly.handleInvitation who (o.knows who.id) m)).2
  | elsewhere (mail : List Message) (w w' : World) (brings : Answering o.inbox o.id mail w w')
    (silent : ∀ m ∈ mail, isAnswer o.id m = false) (spares : o.Spares w w') :
    Visits o [⟨none, mail⟩] w w'

variable {o : Occasion} {deeds : List (Nat × Deed)} {t : Nat} {w w' : World} {x : AgentId}
  {mail : List Message}

theorem ne_owner (guest : o.guests x) : x ≠ o.owner := by
  rintro rfl
  exact o.others guest

def visits (deeds : List (Nat × Deed)) (x : AgentId) : Nat := deeds.countP (·.2.guest = some x)

/-- All answers that have come. -/
def answers (o : Occasion) (deeds : List (Nat × Deed)) : List Message :=
  (deeds.flatMap (·.2.mail)).filter (isAnswer o.id)

theorem visits_snoc (deeds : List (Nat × Deed)) (t : Nat) (d : Deed) (x : AgentId) :
    visits (deeds ++ [(t, d)]) x = visits deeds x + if d.guest = some x then 1 else 0 := by
  simp [visits, List.countP_append, List.countP_cons]

theorem visits_snoc_pos {d : Deed} :
    0 < visits (deeds ++ [(t, d)]) x ↔ 0 < visits deeds x ∨ d.guest = some x := by
  rw [visits_snoc]
  by_cases came : d.guest = some x <;> simp [came]

theorem answers_snoc (o : Occasion) (deeds : List (Nat × Deed)) (t : Nat) (d : Deed) :
    o.answers (deeds ++ [(t, d)]) = o.answers deeds ++ d.mail.filter (isAnswer o.id) := by
  simp [answers]

/-- Each guest tells whether it is willing, once if it is and every time if it is not. -/
structure Told (o : Occasion) (deeds : List (Nat × Deed)) : Prop where
  truthful : ∀ m ∈ o.answers deeds, ∃ reason,
    m.response = .ok ⟨o.id, m.sender, o.willing m.sender, reason⟩
  tally : ∀ x, (o.answers deeds).countP (·.sender = x) =
    if o.willing x then min 1 (visits deeds x) else visits deeds x
  silent : ∀ e ∈ deeds, e.2.guest = none → ∀ m ∈ e.2.mail, isAnswer o.id m = false

theorem told_nil (o : Occasion) : Told o [] :=
  ⟨by simp [answers], by simp [answers, visits], nofun⟩

theorem Told.silent_snoc (told : Told o deeds) (t : Nat) {d : Deed}
    (silent : d.guest = none → ∀ m ∈ d.mail, isAnswer o.id m = false) :
    ∀ e ∈ deeds ++ [(t, d)], e.2.guest = none → ∀ m ∈ e.2.mail, isAnswer o.id m = false := by
  intro e mem
  rcases List.mem_append.1 mem with old | new
  · exact told.silent e old
  · cases List.mem_singleton.1 new
    exact silent

theorem Told.elsewhere (told : Told o deeds) (t : Nat)
    (silent : ∀ m ∈ mail, isAnswer o.id m = false) :
    Told o (deeds ++ [(t, ⟨none, mail⟩)]) := by
  have none : mail.filter (isAnswer o.id) = [] :=
    List.filter_eq_nil_iff.2 fun m mem => by simp [silent m mem]
  refine ⟨?_, ?_, told.silent_snoc t fun _ => silent⟩
  · rw [answers_snoc, none, List.append_nil]
    exact told.truthful
  · intro x
    rw [answers_snoc, none, List.append_nil, visits_snoc, told.tally]
    rfl

theorem Told.passes (told : Told o deeds) (t : Nat) (willing : o.willing x = true)
    (before : 0 < visits deeds x) : Told o (deeds ++ [(t, ⟨some x, []⟩)]) := by
  refine ⟨?_, ?_, told.silent_snoc t nofun⟩
  · rw [answers_snoc, List.filter_nil, List.append_nil]
    exact told.truthful
  · intro y
    rw [answers_snoc, List.filter_nil, List.append_nil, visits_snoc, told.tally]
    by_cases same : x = y
    · subst same
      simp only [willing, if_true]
      omega
    · simp [same]

theorem Told.speaks (told : Told o deeds) (t : Nat) {m : Message} (about : isAnswer o.id m = true)
    {reason : Option String}
    (read : m.response = .ok ⟨o.id, m.sender, o.willing m.sender, reason⟩)
    (first : o.willing m.sender = true → visits deeds m.sender = 0) :
    Told o (deeds ++ [(t, ⟨some m.sender, [m]⟩)]) := by
  have one : [m].filter (isAnswer o.id) = [m] := by simp [about]
  refine ⟨?_, ?_, told.silent_snoc t nofun⟩
  · rw [answers_snoc, one]
    intro m' mem
    rcases List.mem_append.1 mem with old | new
    · exact told.truthful m' old
    · cases List.mem_singleton.1 new
      exact ⟨reason, read⟩
  · intro x
    rw [answers_snoc, one, List.countP_append, visits_snoc, told.tally]
    by_cases same : m.sender = x
    · subst same
      cases willing : o.willing m.sender with
      | true => simp [first willing]
      | false => simp
    · simp [same]

def Fair (o : Occasion) (m : Message) : Prop :=
  ∀ r, m.response = .ok r → r.accepted = true → o.guests r.attendee ∧ o.willing r.attendee = true

inductive Phase where
  | arranging
  | settled

/-- First whoever arranges the meeting holds the room, and nobody else; then its owner has it. -/
def Stands (o : Occasion) : Phase → MeetingHouse → Prop
  | .arranging, h => h.held.count o.room = 1 ∧ ¬ h.Owned o.room
  | .settled, h => ∃ e ∈ (h.book o.owner).owned, e.2.room = o.room

theorem Stands.of_house {s : Phase} {h h' : MeetingHouse} (stands : o.Stands s h)
    (held : h'.held.count o.room = h.held.count o.room) (owned : h'.Owned o.room → h.Owned o.room)
    (book : h'.book o.owner = h.book o.owner) : o.Stands s h' := by
  cases s with
  | arranging => exact ⟨held.trans stands.1, fun there => stands.2 (owned there)⟩
  | settled =>
    rw [Stands, book]
    exact stands

/-- Members are the owner and guests that are willing, and all of those who have handled an
    invitation. -/
structure Gathers (o : Occasion) (deeds : List (Nat × Deed)) (room : Room) : Prop where
  named : room.id = o.id
  owner : o.owner ∈ room.members
  only : ∀ x ∈ room.members, x = o.owner ∨ o.guests x ∧ o.willing x = true
  all : ∀ x, o.willing x = true → 0 < visits deeds x → x ∈ room.members

theorem Gathers.of_visits {deeds' : List (Nat × Deed)} {room : Room} (gathers : o.Gathers deeds room)
    (come : ∀ x, o.willing x = true → 0 < visits deeds' x → 0 < visits deeds x ∨ x ∈ room.members) :
    o.Gathers deeds' room := by
  refine ⟨gathers.named, gathers.owner, gathers.only, fun x willing visited => ?_⟩
  exact (come x willing visited).elim (gathers.all x willing) fun member => member

theorem Gathers.addMember {room : Room} (gathers : o.Gathers deeds room) (guest : o.guests x)
    (willing : o.willing x = true) : o.Gathers deeds (room.addMember x) := by
  refine ⟨(room.addMember_id x).trans gathers.named, ?_, ?_, ?_⟩
  · exact (room.mem_members_addMember x _).2 (.inl gathers.owner)
  · intro y mem
    rcases (room.mem_members_addMember x y).1 mem with old | rfl
    · exact gathers.only y old
    · exact .inr ⟨guest, willing⟩
  · intro y fits visited
    exact (room.mem_members_addMember x y).2 (.inl (gathers.all y fits visited))

/-- Those have the meeting on record who are willing and have handled an invitation. -/
def Recorded (o : Occasion) (deeds : List (Nat × Deed)) (h : MeetingHouse) : Prop :=
  ∀ x, x ≠ o.owner →
    ((h.book x).contains o.id = true ↔ o.willing x = true ∧ 0 < visits deeds x)

structure Hosted (o : Occasion) (s : Phase) (deeds : List (Nat × Deed)) (w : World) : Prop where
  address : w.post.boxOf? o.owner = some o.inbox
  box : ∃ inbox, w.post.boxes[o.inbox]? = some inbox ∧
    ∀ m ∈ inbox, isAnswer o.id m = true → o.Fair m
  entry : w.house.directory.get? o.id = some o.room
  standing : o.Stands s w.house
  room : ∃ room, w.house.room? o.room = some room ∧ o.Gathers deeds room
  noted : o.Recorded deeds w.house
  told : Told o deeds

variable {inbox : Inbox} {s : Phase}

theorem Hosted.spared (hosted : Hosted o s deeds w) (t : Nat)
    (brings : Answering o.inbox o.id mail w w')
    (silent : ∀ m ∈ mail, isAnswer o.id m = false) (spares : o.Spares w w') :
    Hosted o s (deeds ++ [(t, ⟨none, mail⟩)]) w' := by
  obtain ⟨inbox, box, fair⟩ := hosted.box
  obtain ⟨room, here, gathers⟩ := hosted.room
  refine ⟨spares.address.trans hosted.address, ⟨_, brings.feeds inbox box, ?_⟩,
    spares.entry.trans hosted.entry, ?_, ?_, ?_, hosted.told.elsewhere t silent⟩
  · intro m mem about
    rcases List.mem_append.1 mem with old | new
    · exact fair m old about
    · rw [silent m new] at about
      cases about
  · exact hosted.standing.of_house spares.held spares.owned.1 spares.book
  · refine ⟨room, spares.room.trans here, gathers.of_visits fun x _ visited => .inl ?_⟩
    simpa [visits_snoc_pos] using visited
  · intro x different
    rw [spares.noted, hosted.noted x different]
    simp [visits_snoc_pos]

theorem Hosted.passed (hosted : Hosted o s deeds w) (t : Nat) (guest : o.guests x)
    (noted : (w.house.book x).contains o.id = true) :
    Hosted o s (deeds ++ [(t, ⟨some x, []⟩)]) w := by
  have different : x ≠ o.owner := ne_owner guest
  obtain ⟨willing, before⟩ := (hosted.noted x different).1 noted
  obtain ⟨room, here, gathers⟩ := hosted.room
  have again : ∀ y, 0 < visits (deeds ++ [(t, ⟨some x, []⟩)]) y ↔ 0 < visits deeds y := by
    intro y
    rw [visits_snoc_pos]
    refine ⟨?_, .inl⟩
    rintro (old | new)
    · exact old
    · cases new
      exact before
  refine ⟨hosted.address, hosted.box, hosted.entry, hosted.standing, ⟨room, here, ?_⟩, ?_,
    hosted.told.passes t willing before⟩
  · exact gathers.of_visits fun y _ visited => .inl ((again y).1 visited)
  · intro y other
    rw [again]
    exact hosted.noted y other

theorem posting_box {n : Nat} {a : Assembly} (box : a.post.boxes[n]? = some inbox) (d : Draft) :
    (a.posting n d).post.boxes[n]? = some (inbox ++ [(a.write d).1]) := by
  have box : (a.write d).2.post.boxes[n]? = some inbox := box
  rw [Assembly.posting, PostOffice.put, box_of_get box]
  exact setBox_get box _

theorem answer_written (o : Occasion) {who : Signature} (valid : ValidId .agent who.id)
    (accepted : Bool) (reason : Option String) (a : Assembly) :
    isAnswer o.id (a.write (Assembly.answerDraft who o.invitation accepted reason)).1 = true ∧
      (a.write (Assembly.answerDraft who o.invitation accepted reason)).1.sender = who.id ∧
      (a.write (Assembly.answerDraft who o.invitation accepted reason)).1.response =
        .ok ⟨o.id, who.id, accepted, reason⟩ := by
  refine ⟨?_, rfl, Message.response_written o.proper valid rfl⟩
  simp [isAnswer, Assembly.write, PostOffice.write, Draft.toMessage, Assembly.answerDraft, id]

theorem Hosted.answered {who : Signature} {h : MeetingHouse} (reason : Option String)
    (hosted : Hosted o s deeds w) (t : Nat)
    (valid : ValidId .agent who.id) (guest : o.guests who.id)
    (first : o.willing who.id = true → visits deeds who.id = 0)
    (same : w'.toAssembly = (Assembly.mk w.post h).posting o.inbox
      (Assembly.answerDraft who o.invitation (o.willing who.id) reason))
    (brings : Answering o.inbox o.id mail w w')
    (entry : h.directory = w.house.directory) (held : h.held = w.house.held)
    (owned : h.Owned o.room → w.house.Owned o.room) (book : h.book o.owner = w.house.book o.owner)
    (room : ∃ room, h.room? o.room = some room ∧
      o.Gathers (deeds ++ [(t, ⟨some who.id, mail⟩)]) room)
    (noted : o.Recorded (deeds ++ [(t, ⟨some who.id, mail⟩)]) h) :
    Hosted o s (deeds ++ [(t, ⟨some who.id, mail⟩)]) w' := by
  obtain ⟨inbox, box, fair⟩ := hosted.box
  have house : w'.house = h := congrArg (·.house) same
  have post : w'.post = _ := congrArg (·.post) same
  obtain ⟨about, sender, read⟩ :=
    o.answer_written valid (o.willing who.id) reason (Assembly.mk w.post h)
  have box' := posting_box (a := Assembly.mk w.post h) box
    (Assembly.answerDraft who o.invitation (o.willing who.id) reason)
  rw [← post] at box'
  have mail := brings.mail_eq box box'
  subst mail
  refine ⟨?_, ⟨_, box', ?_⟩, ?_, ?_, ?_, ?_, ?_⟩
  · rw [post]
    exact hosted.address
  · intro m mem aboutIt
    rcases List.mem_append.1 mem with old | new
    · exact fair m old aboutIt
    · rw [List.mem_singleton] at new
      subst new
      intro r read' accepted
      cases read.symm.trans read'
      exact ⟨guest, accepted⟩
  · rw [house, entry]
    exact hosted.entry
  · rw [house]
    exact hosted.standing.of_house (by rw [held]) owned book
  · rw [house]
    exact room
  · rw [house]
    exact noted
  · rw [← sender] at read first ⊢
    exact hosted.told.speaks t about read first

theorem Hosted.alive (hosted : Hosted o s deeds w) : w.house.alive o.room = true := by
  rw [MeetingHouse.alive_iff]
  have standing := hosted.standing
  cases s with
  | arranging => exact .inl (List.count_pos_iff.1 (by rw [standing.1]; decide))
  | settled =>
    obtain ⟨e, mem, same⟩ := standing
    rw [← same]
    exact .inr (MeetingHouse.owned_of_book mem)

theorem Hosted.declined {who : Signature} {m : Message} (hosted : Hosted o s deeds w) (t : Nat)
    (valid : ValidId .agent who.id) (guest : o.guests who.id) (kind : m.kind = .invitation)
    (read : m.invitation = .ok o.invitation)
    (new : (w.house.book who.id).contains o.id = false) (unwilling : o.willing who.id = false)
    (brings : Answering o.inbox o.id mail w
      (w.assembled (Assembly.handleInvitation who (o.knows who.id) m)).2) :
    Hosted o s (deeds ++ [(t, ⟨some who.id, mail⟩)])
      (w.assembled (Assembly.handleInvitation who (o.knows who.id) m)).2 := by
  obtain ⟨reason, same⟩ := Assembly.handleInvitation_declines (a := w.toAssembly) kind read new
    unwilling hosted.address
  have still : ∀ x, o.willing x = true →
      (0 < visits (deeds ++ [(t, ⟨some who.id, mail⟩)]) x ↔ 0 < visits deeds x) := by
    intro x willing
    have different : who.id ≠ x := by
      rintro rfl
      rw [unwilling] at willing
      cases willing
    simp [visits_snoc_pos, different]
  refine hosted.answered reason (h := w.house) t valid guest ?_ ?_ brings rfl rfl (fun h => h) rfl
    ?_ ?_
  · rw [unwilling]
    exact nofun
  · rw [unwilling]
    exact same
  · obtain ⟨room, here, gathers⟩ := hosted.room
    exact ⟨room, here, gathers.of_visits fun x willing visited =>
      .inl ((still x willing).1 visited)⟩
  · intro x different
    rw [hosted.noted x different]
    exact ⟨fun h => ⟨h.1, (still x h.1).2 h.2⟩, fun h => ⟨h.1, (still x h.1).1 h.2⟩⟩

theorem Hosted.joined {who : Signature} {m : Message} (hosted : Hosted o s deeds w) (t : Nat)
    (valid : ValidId .agent who.id) (guest : o.guests who.id) (kind : m.kind = .invitation)
    (read : m.invitation = .ok o.invitation)
    (new : (w.house.book who.id).contains o.id = false) (willing : o.willing who.id = true)
    (brings : Answering o.inbox o.id mail w
      (w.assembled (Assembly.handleInvitation who (o.knows who.id) m)).2) :
    Hosted o s (deeds ++ [(t, ⟨some who.id, mail⟩)])
      (w.assembled (Assembly.handleInvitation who (o.knows who.id) m)).2 := by
  obtain ⟨room, here, gathers⟩ := hosted.room
  have same := Assembly.handleInvitation_joins (a := w.toAssembly) kind read new willing
    hosted.entry hosted.alive here hosted.address
  have stranger : visits deeds who.id = 0 := by
    refine Nat.eq_zero_of_not_pos fun visited => ?_
    have noted := (hosted.noted who.id (ne_owner guest)).2 ⟨willing, visited⟩
    rw [new] at noted
    cases noted
  refine hosted.answered none (h := (w.toAssembly.join who o.room room).2.house) t valid guest
    (fun _ => stranger) ?_ brings rfl rfl ?_ ?_ ?_ ?_
  · rw [willing]
    exact same
  · intro owned
    rcases MeetingHouse.owned_of_setBook owned with ⟨e, mem, same⟩ | before
    · rw [← same]
      exact MeetingHouse.owned_of_book mem
    · exact before
  · exact MeetingHouse.book_setBook_of_ne _ _ (ne_owner guest)
  · refine ⟨room.addMember who.id, ?_, (gathers.addMember guest willing).of_visits ?_⟩
    · show (w.house.modifyRoom o.room (·.addMember who.id)).room? o.room = _
      rw [MeetingHouse.room?_modifyRoom, if_pos rfl, here]
      rfl
    · intro x _ visited
      rcases visits_snoc_pos.1 visited with before | now
      · exact .inl before
      · cases now
        exact .inr ((room.mem_members_addMember who.id _).2 (.inr rfl))
  · intro x different
    by_cases same : who.id = x
    · subst same
      have noted : ((w.house.book who.id).addJoined
          ⟨o.room, room.id, room.owner, room.topic⟩).contains o.id = true := by
        rw [← gathers.named]
        exact MeetingBook.contains_addJoined _ _
      have book :
          ((w.toAssembly.join who o.room room).2.house.book who.id).contains o.id = true := by
        simp only [Assembly.join, MeetingHouse.book_setBook_self]
        exact noted
      simp [book, willing, visits_snoc_pos]
    · have book : (w.toAssembly.join who o.room room).2.house.book x = w.house.book x :=
        MeetingHouse.book_setBook_of_ne _ _ same
      rw [book, hosted.noted x different]
      simp [visits_snoc_pos, same]

theorem Hosted.visited {done : List Deed} (hosted : Hosted o s deeds w) (t : Nat)
    (one : o.Visits done w w') : Hosted o s (deeds ++ done.map (t, ·)) w' := by
  cases one with
  | elsewhere mail w w' brings silent spares => exact hosted.spared t brings silent spares
  | answers who m mail w valid guest kind read brings =>
    cases new : (w.house.book who.id).contains o.id with
    | true =>
      have same : (w.assembled (Assembly.handleInvitation who (o.knows who.id) m)).2 = w := by
        simp only [World.assembled, Assembly.handleInvitation_of_noted kind read new]
      rw [same] at brings ⊢
      obtain ⟨inbox, box, _⟩ := hosted.box
      have mail : mail = [] := brings.mail_eq box (by rwa [List.append_nil])
      subst mail
      exact hosted.passed t guest new
    | false =>
      cases willing : o.willing who.id with
      | true => exact hosted.joined t valid guest kind read new willing brings
      | false => exact hosted.declined t valid guest kind read new willing brings

structure Dropped (o : Occasion) (w : World) : Prop where
  dead : w.house.alive o.room = false
  entry : w.house.directory.get? o.id = some o.room ∨ w.house.directory.get? o.id = none

theorem Dropped.lookup (dropped : Dropped o w) : (w.house.lookup o.id).1 = none := by
  rcases dropped.entry with there | gone
  · simp only [MeetingHouse.lookup, there, dropped.dead, Bool.false_eq_true, if_false]
  · simp only [MeetingHouse.lookup, gone]

theorem Dropped.of_house (dropped : Dropped o w) (house : w'.house = w.house) : Dropped o w' := by
  obtain ⟨dead, entry⟩ := dropped
  rw [← house] at dead entry
  exact ⟨dead, entry⟩

theorem Dropped.looked (dropped : Dropped o w) :
    Dropped o { w with toAssembly := (w.toAssembly.lookup o.id).2 } := by
  have house : (w.toAssembly.lookup o.id).2.house = (w.house.lookup o.id).2 := rfl
  rcases dropped.entry with there | gone
  · have erased : (w.house.lookup o.id).2 =
        { w.house with directory := w.house.directory.erase o.id } := by
      simp only [MeetingHouse.lookup, there, dropped.dead, Bool.false_eq_true, if_false]
    refine ⟨?_, .inr ?_⟩
    · show (w.toAssembly.lookup o.id).2.house.alive o.room = false
      rw [house, erased]
      exact dropped.dead
    · show (w.toAssembly.lookup o.id).2.house.directory.get? o.id = none
      rw [house, erased]
      exact Dict.get?_erase_self ..
  · refine dropped.of_house ?_
    show (w.house.lookup o.id).2 = w.house
    simp only [MeetingHouse.lookup, gone]

theorem Dropped.handled {who : Signature} {m : Message} (dropped : Dropped o w)
    (kind : m.kind = .invitation) (read : m.invitation = .ok o.invitation) :
    Dropped o (w.assembled (Assembly.handleInvitation who (o.knows who.id) m)).2 := by
  simp only [World.assembled, Assembly.handleInvitation, kind, ne_eq, not_true_eq_false, if_false,
    read]
  split
  · exact dropped
  split
  · exact dropped.of_house (Assembly.deliver_house ..)
  have none : (w.toAssembly.lookup o.invitation.meeting).1 = none := dropped.lookup
  simp only [none, Option.bind_none]
  exact dropped.looked

theorem Dropped.visited {done : List Deed} (dropped : Dropped o w) (one : o.Visits done w w') :
    Dropped o w' := by
  cases one with
  | answers _ _ _ _ _ _ kind read => exact dropped.handled kind read
  | elsewhere _ _ _ _ _ spares =>
    constructor
    · rw [Bool.eq_false_iff, ne_eq, MeetingHouse.alive_iff, spares.owned, ← List.count_pos_iff,
        spares.held, List.count_pos_iff, ← MeetingHouse.alive_iff, dropped.dead]
      decide
    · rw [spares.entry]
      exact dropped.entry

end Occasion
end Playbook
