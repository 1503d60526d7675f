import Playbook.Proofs.Meeting.Elsewhere
import Playbook.Proofs.Meeting.Failure

/- The meetings of one agent from their beginning to their end. A meeting that is being arranged is held
   once; when it has failed or is closed, it is lost, and all other meetings of its owner are as they
   were. Who attends a meeting has noted it, and strikes it off again. -/
namespace Playbook
namespace MeetingHouse
variable {h₀ h h' : MeetingHouse} {first next n : Nat} {id : MeetingId} {who : AgentId}

/-- A meeting is being arranged. All others of its owner are as before. -/
structure Opening (who : AgentId) (id : MeetingId) (n : Nat) (h₀ h : MeetingHouse) : Prop where
  new : h₀.label n = none
  led : h.label n = some (id, who)
  once : h.held.count n = 1
  book : h.book who = h₀.book who
  absent : (h₀.book who).contains id = false
  labels : ∀ {k l}, h₀.label k = some l → h.label k = some l
  held : ∀ {k other}, h.label k = some (other, who) → k ≠ n →
    h₀.label k = some (other, who) ∧ h.held.count k = h₀.held.count k

def Settled (h : MeetingHouse) (who : AgentId) (id : MeetingId) : Prop :=
  ∃ n, h.label n = some (id, who) ∧ n ∉ h.held

theorem Opening.bypassed (opening : Opening who id n h₀ h) (bypasses : Bypasses who h h') :
    Opening who id n h₀ h' where
  new := opening.new
  led := bypasses.labels opening.led
  once := by rw [(bypasses.held (bypasses.labels opening.led)).2, opening.once]
  book := bypasses.book.trans opening.book
  absent := opening.absent
  labels labelled := bypasses.labels (opening.labels labelled)
  held labelled different := by
    obtain ⟨before, count⟩ := bypasses.held labelled
    obtain ⟨begun, count'⟩ := opening.held before different
    exact ⟨begun, count.trans count'⟩

namespace Opening
variable (opening : Opening who id n h₀ h)
include opening

theorem release : Restores who h₀ (h.release n) ∧ (h.release n).Settled who id := by
  have free : n ∉ h.held.erase n := by
    rw [← List.count_eq_zero, List.count_erase_self, opening.once]
  refine ⟨⟨?_, congrArg (·.joined) opening.book, opening.labels, ?_, ?_⟩, n, opening.led, free⟩
  · intro other o found
    rw [← opening.book] at found
    exact found
  · intro k other labelled
    have different : k ≠ n := by
      rintro rfl
      cases opening.new.symm.trans labelled
    rw [← (opening.held (opening.labels labelled) different).2]
    exact List.count_erase_of_ne different
  · intro k other labelled new
    by_cases same : k = n
    · rw [same]
      exact free
    · cases new.symm.trans (opening.held labelled same).1

theorem dropped : Restores who h₀ (h.release n) ∧ (h.release n).Ended who id := by
  obtain ⟨restores, settled⟩ := opening.release
  refine ⟨restores, settled, ?_⟩
  show (h.book who).contains id = false
  rw [opening.book, opening.absent]

theorem noted (o : OwnedMeeting) :
    Restores who h₀ ((h.release n).setBook who (((h.release n).book who).addOwned id o)) ∧
      ((h.release n).setBook who (((h.release n).book who).addOwned id o)).Settled who id := by
  obtain ⟨restores, settled⟩ := opening.release
  refine ⟨⟨?_, ?_, restores.labels, restores.held, restores.freed⟩, settled⟩
  · intro other o' found
    have different : id ≠ other := by
      rintro rfl
      have absent := opening.absent
      rw [MeetingBook.contains, Dict.contains, found] at absent
      cases absent
    rw [book_setBook_self, MeetingBook.addOwned, Dict.get?_insert_of_ne _ _ different]
    exact restores.owned found
  · rw [book_setBook_self]
    exact restores.joined

end Opening

theorem Restores.settled (restores : Restores who h h') (settled : h.Settled who id) :
    h'.Settled who id := by
  obtain ⟨n, led, free⟩ := settled
  refine ⟨n, restores.labels led, ?_⟩
  rw [← List.count_eq_zero] at free ⊢
  rw [restores.held led, free]

theorem Ended.bypassed (ended : h.Ended who id) (bypasses : Bypasses who h h') :
    h'.Ended who id where
  led := bypasses.restores.settled ended.led
  absent := by rw [bypasses.book, ended.absent]

/-- What has come of arranging a meeting: its owner has it, or has let go of it. -/
inductive Convened (who : AgentId) (id : MeetingId) (h : MeetingHouse) :
    Except MeetingError MeetingId → Prop
  | held (settled : h.Settled who id) : Convened who id h (.ok id)
  | failed (e : MeetingError) (ended : h.Ended who id) : Convened who id h (.error e)

theorem Convened.bypassed {result : Except MeetingError MeetingId}
    (convened : Convened who id h result) (bypasses : Bypasses who h h') :
    Convened who id h' result := by
  cases convened with
  | held settled => exact .held (bypasses.restores.settled settled)
  | failed e ended => exact .failed e (ended.bypassed bypasses)

theorem Restores.close (restores : Restores who h₀ h)
    (absent : (h₀.book who).contains id = false) (settled : h.Settled who id) :
    Restores who h₀ (h.setBook who ((h.book who).close id)).prune ∧
      (h.setBook who ((h.book who).close id)).prune.Ended who id := by
  obtain ⟨unowned, unjoined⟩ : (h₀.book who).owned.contains id = false ∧
      (h₀.book who).joined.contains id = false := by
    simpa [MeetingBook.contains] using absent
  have book : (h.setBook who ((h.book who).close id)).prune.book who = (h.book who).close id :=
    book_setBook_self ..
  refine ⟨⟨?_, ?_, restores.labels, restores.held, restores.freed⟩, settled, ?_⟩
  · intro other o found
    have different : id ≠ other := by
      rintro rfl
      rw [Dict.contains, found] at unowned
      cases unowned
    rw [book, MeetingBook.close, Dict.get?_erase_of_ne _ different]
    exact restores.owned found
  · rw [book]
    exact restores.joined
  · have erased : ((h.book who).close id).owned.contains id = false := by
      rw [MeetingBook.close, Dict.contains, Dict.get?_erase_self]
      rfl
    rw [book, MeetingBook.contains, erased, Bool.false_or]
    show (h.book who).joined.contains id = false
    rw [restores.joined, unjoined]

end MeetingHouse

namespace Assembly
open MeetingHouse
variable {a a' : Assembly} {first : Nat} {who : Signature} {h₀ : MeetingHouse} {id : MeetingId}

theorem start_opening (who : Signature) (r : MeetingRequest)
    (consistent : a.house.Consistent first a.post.nextId)
    (few : (Convening.start who r a).2.post.nextId ≤ first + 2 ^ 122) :
    (Convening.start who r a).2.house.Consistent first (Convening.start who r a).2.post.nextId ∧
      Opening who.id (Convening.start who r a).1.meeting (Convening.start who r a).1.room a.house
        (Convening.start who r a).2.house := by
  obtain ⟨i, same, meeting, room, house, later, _⟩ := Convening.start_opens who r a
  have named : i.meeting = Uuid.ofBits a.post.nextId := congrArg (·.meeting) same
  have free : a.post.nextId < first + 2 ^ 122 := Nat.lt_of_succ_le (Nat.le_trans later few)
  rw [house, meeting, room]
  refine ⟨(consistent.build free named).later later, ?_⟩
  have unheld : a.house.rooms.length ∉ a.house.held := by
    intro mem
    obtain ⟨l, led⟩ := consistent.held mem
    rw [label_beyond] at led
    cases led
  have fresh : ∀ {n owner}, a.house.label n ≠ some (i.meeting, owner) := by
    rw [named]
    exact consistent.new free
  have bypassed : ∀ {k l}, a.house.label k = some l →
      k ≠ a.house.rooms.length := by
    rintro k l labelled rfl
    rw [label_beyond] at labelled
    cases labelled
  refine ⟨label_beyond _, (label_build ..).trans (if_pos rfl), ?_, rfl, ?_, ?_, ?_⟩
  · show (a.house.rooms.length :: a.house.held).count a.house.rooms.length = 1
    rw [List.count_cons_self, List.count_eq_zero.2 unheld]
  · rw [MeetingBook.contains, Dict.contains, Dict.contains, Bool.or_eq_false_iff,
      Option.isSome_eq_false_iff, Option.isSome_eq_false_iff, Option.isNone_iff_eq_none,
      Option.isNone_iff_eq_none]
    constructor
    · cases found : (a.house.book who.id).owned.get? i.meeting with
      | none => rfl
      | some o => exact absurd (consistent.owned found) fresh
    · cases found : (a.house.book who.id).joined.get? i.meeting with
      | none => rfl
      | some j =>
        obtain ⟨owner, led⟩ := consistent.joined found
        exact absurd led fresh
  · intro k l labelled
    rw [label_build, if_neg (bypassed labelled), labelled]
  · intro k other labelled different
    rw [label_build, if_neg different] at labelled
    exact ⟨labelled, List.count_cons_of_ne (Ne.symm different)⟩

theorem settle_opening {c : Convening} (r : MeetingRequest)
    (consistent : a.house.Consistent first a.post.nextId)
    (opening : Opening who.id c.meeting c.room h₀ a.house) :
    (c.settle who r a).2.house.Consistent first (c.settle who r a).2.post.nextId ∧
      Restores who.id h₀ (c.settle who r a).2.house ∧
      Convened who.id c.meeting (c.settle who r a).2.house (c.settle who r a).1 := by
  have free := consistent.release c.room
  unfold Convening.settle
  split
  · rename_i e _
    obtain ⟨restores, ended⟩ := opening.dropped
    exact ⟨free, restores, .failed e ended⟩
  · obtain ⟨restores, settled⟩ := opening.noted ⟨c.room, r.required, r.optional⟩
    exact ⟨free.addOwned opening.led, restores, .held settled⟩

/-- The owner closes a meeting that it has opened since, whether its book still has it or not. -/
theorem closeMeeting_ended {agent : AgentId} (restores : Restores agent h₀ a.house)
    (absent : (h₀.book agent).contains id = false) (settled : a.house.Settled agent id) :
    Restores agent h₀ (a.closeMeeting agent id).2.house ∧
      (a.closeMeeting agent id).2.house.Ended agent id := by
  unfold closeMeeting
  simp only
  split
  · exact restores.close absent settled
  · rename_i unowned
    refine ⟨restores, settled, ?_⟩
    rw [MeetingBook.contains, Bool.or_eq_false_iff] at absent ⊢
    exact ⟨by simpa using unowned, by rw [restores.joined]; exact absent.2⟩

inductive Handled (who : AgentId) (m : Message) (a a' : Assembly) :
    Except MeetingError InvitationOutcome → Prop where
  | joined (j : JoinedMeeting) (i : Invitation)
    (absent : (a.house.book who).joined.get? j.id = none)
    (noted : (a'.house.book who).joined = (a.house.book who).joined.insert j.id j) :
    Handled who m a a' (.ok (.joined j i))
  | passed {result : Except MeetingError InvitationOutcome}
    (plain : ∀ j i, result ≠ .ok (.joined j i))
    (same : (a'.house.book who).joined = (a.house.book who).joined) : Handled who m a a' result
  /-- The answer could not be posted. -/
  | stranded (e : MeetingError) (i : Invitation) (read : m.invitation = .ok i)
    (unreachable : a.post.boxOf? i.owner = none) : Handled who m a a' (.error e)

theorem respond_house (who : Signature) (i : Invitation) (accepted : Bool) (reason : Option String)
    (a : Assembly) : (a.respond who i accepted reason).2.house = a.house :=
  deliver_house ..

theorem except_map_eq_ok {ε α β : Type} {r : Except ε α} {f : α → β} {b : β}
    (mapped : r.map f = .ok b) : ∃ a, f a = b := by
  cases r with
  | error e => cases mapped
  | ok a => exact ⟨a, Except.ok.inj mapped⟩

theorem handleInvitation_handled (consistent : a.house.Consistent first a.post.nextId)
    (who : Signature) (knows : String → Bool) (m : Message) :
    Handled who.id m a (a.handleInvitation who knows m).2 (a.handleInvitation who knows m).1 := by
  cases result : (a.handleInvitation who knows m).1 with
  | error e =>
    rcases untouched_or_stranded result with untouched | ⟨i, n, room, stranded⟩
    · exact .passed nofun (congrArg (·.joined) (book_of_books untouched.books who.id))
    · exact .stranded e i stranded.read stranded.unreachable
  | ok outcome =>
    generalize done : a.handleInvitation who knows m = done' at result ⊢
    unfold handleInvitation at done
    split at done
    · subst done
      cases result
    split at done
    · subst done
      cases result
    rename_i i read
    split at done
    · subst done
      cases result
      exact .passed nofun rfl
    rename_i new
    split at done
    · subst done
      obtain ⟨_, rfl⟩ := except_map_eq_ok result
      exact .passed nofun (by rw [respond_house])
    simp only at done
    split at done
    · subst done
      cases result
    rename_i n room found
    subst done
    obtain ⟨_, rfl⟩ := except_map_eq_ok result
    obtain ⟨n', looked, here⟩ := Option.bind_eq_some_iff.1 found
    obtain ⟨room', here, equal⟩ := Option.map_eq_some_iff.1 here
    cases equal
    rw [room?_lookup] at here
    have named : room.id = i.meeting := by
      obtain ⟨owner, led⟩ := consistent.directed (mem_directory_of_lookup looked).1
      rw [label_of_room here] at led
      exact (Prod.mk.inj (Option.some.inj led)).1
    have books : (a.lookup i.meeting).2.house.book who.id = a.house.book who.id :=
      book_of_books (untouched_lookup a i.meeting).books who.id
    refine .joined _ i ?_ ?_
    · have absent : (a.house.book who.id).contains i.meeting = false := by simpa using new
      rw [MeetingBook.contains, Bool.or_eq_false_iff] at absent
      show (a.house.book who.id).joined.get? room.id = none
      rw [named]
      exact Option.isSome_eq_false_iff.1 absent.2 |> Option.isNone_iff_eq_none.1
    · rw [respond_house, join, book_setBook_self, ← books]
      rfl

end Assembly
end Playbook
