import Playbook.Proofs.Meeting.Attendance

/- Answers to invitations that fail. Whoever declines says so before anything is noted; whoever
   accepts becomes a member and notes the meeting first, and nothing of that is taken back when the
   answer cannot be posted. -/
namespace Playbook

theorem MeetingBook.contains_addJoined (b : MeetingBook) (j : JoinedMeeting) :
    (b.addJoined j).contains j.id = true := by
  rw [contains, addJoined, Bool.or_eq_true]
  right
  rw [Dict.contains, Dict.get?_insert_self, Option.isSome_some]

namespace Assembly

variable {who : Signature} {knows : String → Bool} {m : Message} {a : Assembly} {i : Invitation}
  {n : Nat} {room : Room} {accepted : Bool} {reason : Option String} {e : MeetingError}

theorem respond_of_reachable {k : Nat} (reachable : a.post.boxOf? i.owner = some k) :
    (a.respond who i accepted reason).1 = .ok () := by
  have there : a.post.mint.2.boxOf? i.owner = some k := reachable
  simp only [respond, write, PostOffice.write, Draft.toMessage, deliver, PostOffice.deliver, there]
  rfl

theorem respond_of_unreachable (unreachable : a.post.boxOf? i.owner = none) :
    a.respond who i accepted reason =
      (.error (.post (.agentNotFound i.owner)), { a with post := a.post.mint.2 }) := by
  have nowhere : a.post.mint.2.boxOf? i.owner = none := unreachable
  simp only [respond, write, PostOffice.write, Draft.toMessage, deliver, PostOffice.deliver, nowhere]
  rfl

/-- The books, the rooms and the inboxes are what they were. -/
structure Untouched (a a' : Assembly) : Prop where
  books : a'.house.books = a.house.books
  rooms : a'.house.rooms = a.house.rooms
  boxes : a'.post.boxes = a.post.boxes

theorem Untouched.refl (a : Assembly) : Untouched a a := ⟨rfl, rfl, rfl⟩

theorem untouched_lookup (a : Assembly) (id : MeetingId) : Untouched a (a.lookup id).2 := by
  obtain ⟨directory, only, -⟩ := a.house.lookup_house id
  have house : (a.lookup id).2.house = { a.house with directory } := only
  exact ⟨by rw [house], by rw [house], rfl⟩

/-- An invitation that is accepted, while nobody has the address of the owner whom it names. -/
structure Stranded (who : Signature) (knows : String → Bool) (m : Message) (a : Assembly)
    (i : Invitation) (n : Nat) (room : Room) : Prop where
  kind : m.kind = .invitation
  read : m.invitation = .ok i
  new : (a.house.book who.id).contains i.meeting = false
  known : knows i.playbook = true
  found : (a.house.lookup i.meeting).1 = some n
  here : a.house.room? n = some room
  unreachable : a.post.boxOf? i.owner = none

theorem room?_lookup (a : Assembly) (id : MeetingId) (n : Nat) :
    (a.lookup id).2.house.room? n = a.house.room? n := by
  rw [MeetingHouse.room?, (a.untouched_lookup id).rooms, ← MeetingHouse.room?]

/-- An answer that fails leaves everything as it was, if it is no acceptance that cannot be
    posted. -/
theorem untouched_or_stranded (failed : (a.handleInvitation who knows m).1 = .error e) :
    Untouched a (a.handleInvitation who knows m).2 ∨
      ∃ i n room, Stranded who knows m a i n room := by
  by_cases kind : m.kind = .invitation
  case neg =>
    rw [handleInvitation, if_pos kind]
    exact .inl (.refl a)
  cases read : m.invitation with
  | error fault =>
    simp only [handleInvitation, kind, ne_eq, not_true_eq_false, if_false, read]
    exact .inl (.refl a)
  | ok i =>
    cases new : (a.house.book who.id).contains i.meeting with
    | true => simp [handleInvitation, kind, read, new] at failed
    | false =>
      cases known : knows i.playbook with
      | false =>
        simp only [handleInvitation, kind, ne_eq, not_true_eq_false, if_false, read, new, known,
          Bool.false_eq_true, Bool.not_false, if_true] at failed ⊢
        cases box : a.post.boxOf? i.owner with
        | none =>
          rw [respond_of_unreachable box]
          exact .inl ⟨rfl, rfl, rfl⟩
        | some k =>
          rw [respond_of_reachable box] at failed
          cases failed
      | true =>
        simp only [handleInvitation, kind, ne_eq, not_true_eq_false, if_false, read, new, known,
          Bool.false_eq_true, Bool.not_true] at failed ⊢
        cases found : (a.lookup i.meeting).1.bind fun n =>
            ((a.lookup i.meeting).2.house.room? n).map (n, ·) with
        | none =>
          exact .inl (a.untouched_lookup i.meeting)
        | some entry =>
          obtain ⟨n, room⟩ := entry
          obtain ⟨n', looked, here⟩ := Option.bind_eq_some_iff.1 found
          obtain ⟨room', here, equal⟩ := Option.map_eq_some_iff.1 here
          cases equal
          rw [room?_lookup] at here
          simp only [found] at failed
          cases box : a.post.boxOf? i.owner with
          | none => exact .inr ⟨i, n, room, kind, read, new, known, looked, here, box⟩
          | some k =>
            have reachable : ((a.lookup i.meeting).2.join who n room).2.post.boxOf? i.owner = some k :=
              box
            rw [respond_of_reachable reachable] at failed
            cases failed

theorem handleInvitation_of_stranded (stranded : Stranded who knows m a i n room) :
    a.handleInvitation who knows m = (.error (.post (.agentNotFound i.owner)),
      { ((a.lookup i.meeting).2.join who n room).2 with post := a.post.mint.2 }) := by
  obtain ⟨kind, read, new, known, looked, here, unreachable⟩ := stranded
  have found : (a.lookup i.meeting).1.bind (fun n =>
      ((a.lookup i.meeting).2.house.room? n).map (n, ·)) = some (n, room) := by
    have looked : (a.lookup i.meeting).1 = some n := looked
    rw [looked, Option.bind_some, room?_lookup, here, Option.map_some]
  have nowhere : ((a.lookup i.meeting).2.join who n room).2.post.boxOf? i.owner = none := unreachable
  simp only [handleInvitation, kind, ne_eq, not_true_eq_false, if_false, read, new, known,
    Bool.false_eq_true, Bool.not_true, found, respond_of_unreachable nowhere]
  rfl

theorem handleInvitation_of_noted {i' : Invitation} (kind : m.kind = .invitation)
    (read : m.invitation = .ok i') (noted : (a.house.book who.id).contains i'.meeting = true) :
    a.handleInvitation who knows m = (.ok (.alreadyJoined i'.meeting), a) := by
  simp only [handleInvitation, kind, ne_eq, not_true_eq_false, if_false, read, noted, if_true]

/-- A failed answer leaves the books, the rooms and the inboxes as they were, unless the attendee
    accepts and the owner has no address. Then it fails although the attendee is a member and has
    noted the meeting, and whoever invites it there again gets no answer. -/
theorem failed_answer_leaves_no_trace_unless_accepted (who : Signature) (knows : String → Bool)
    (m : Message) (a : Assembly) :
    (∀ e, (a.handleInvitation who knows m).1 = .error e →
      Untouched a (a.handleInvitation who knows m).2 ∨
        ∃ i n room, Stranded who knows m a i n room) ∧
    ∀ i n room, Stranded who knows m a i n room → ∃ a',
      a.handleInvitation who knows m = (.error (.post (.agentNotFound i.owner)), a') ∧
      a'.post.boxes = a.post.boxes ∧
      a'.house.rooms = a.house.rooms.modify n (·.addMember who.id) ∧
      a'.house.books = a.house.books.insert who.id
        ((a.house.book who.id).addJoined ⟨n, room.id, room.owner, room.topic⟩) ∧
      (room.id = i.meeting → ¬ Untouched a a') ∧
      ∀ knows' m' i', m'.kind = .invitation → m'.invitation = .ok i' → i'.meeting = room.id →
        a'.handleInvitation who knows' m' = (.ok (.alreadyJoined room.id), a') := by
  refine ⟨fun e failed => untouched_or_stranded failed, fun i n room stranded => ?_⟩
  have looked := a.untouched_lookup i.meeting
  let a' : Assembly :=
    { ((a.lookup i.meeting).2.join who n room).2 with post := a.post.mint.2 }
  have books : a'.house.books = a.house.books.insert who.id
      ((a.house.book who.id).addJoined ⟨n, room.id, room.owner, room.topic⟩) := by
    show (a.lookup i.meeting).2.house.books.insert who.id
      (((a.lookup i.meeting).2.house.book who.id).addJoined ⟨n, room.id, room.owner, room.topic⟩) = _
    rw [MeetingHouse.book, looked.books, ← MeetingHouse.book]
  have noted : (a'.house.book who.id).contains room.id = true := by
    rw [MeetingHouse.book, books, Dict.get?_insert_self]
    exact MeetingBook.contains_addJoined _ _
  refine ⟨a', handleInvitation_of_stranded stranded, rfl, ?_, books, ?_, ?_⟩
  · show (a.lookup i.meeting).2.house.rooms.modify n (·.addMember who.id) = _
    rw [looked.rooms]
  · intro named untouched
    have absent := stranded.new
    rw [MeetingHouse.book, untouched.books, ← MeetingHouse.book, named, absent] at noted
    cases noted
  · intro knows' m' i' kind read named
    rw [← named] at noted ⊢
    exact handleInvitation_of_noted kind read noted

end Assembly

namespace Gathering.Visit
open Assembly

def hostless : Assembly :=
  ⟨⟨[[invited]], [("guest", 0)], [], 2, "now"⟩, ⟨[room ["host"]], [0], [(meeting, 0)], []⟩⟩

theorem stranded_hostless : Stranded guest (fun _ => true) invited hostless invitation 0
    (room ["host"]) :=
  ⟨rfl, invited_read, rfl, rfl, rfl, rfl, rfl⟩

/-- Declining leaves no trace, accepting does. -/
theorem failed_answer_leaves_no_trace_unless_accepted_by_a_guest :
    (∃ e, (hostless.handleInvitation guest (fun _ => false) invited).1 = .error e ∧
      Untouched hostless (hostless.handleInvitation guest (fun _ => false) invited).2) ∧
    Stranded guest (fun _ => true) invited hostless invitation 0 (room ["host"]) ∧
    ∃ a', hostless.handleInvitation guest (fun _ => true) invited =
        (.error (.post (.agentNotFound "host")), a') ∧
      ¬ Untouched hostless a' ∧
      a'.handleInvitation guest (fun _ => true) invited = (.ok (.alreadyJoined meeting), a') := by
  constructor
  · have refused : (hostless.handleInvitation guest (fun _ => false) invited).1 =
        .error (.post (.agentNotFound "host")) := by
      simp only [handleInvitation, invited_read]
      rfl
    refine ⟨_, refused, ?_⟩
    rcases (failed_answer_leaves_no_trace_unless_accepted guest (fun _ => false) invited
      hostless).1 _ refused with untouched | ⟨i, n, room, stranded⟩
    · exact untouched
    · cases stranded.known
  · obtain ⟨a', failed, -, -, -, trace, silent⟩ :=
      (failed_answer_leaves_no_trace_unless_accepted guest (fun _ => true) invited hostless).2
        invitation 0 (room ["host"]) stranded_hostless
    exact ⟨stranded_hostless, a', failed, trace rfl, silent _ invited invitation rfl invited_read rfl⟩

end Gathering.Visit
end Playbook
