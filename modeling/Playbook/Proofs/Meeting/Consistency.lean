import Playbook.Proofs.Meeting.OneRoom

/- The books of one agent while others are at work. Whatever all of them do, rooms, books and directory
   stay consistent; and of an agent's own meetings others change nothing. A meeting that it has opened
   and that neither it nor anybody on its behalf has any more is lost. -/
namespace Playbook
namespace MeetingHouse

/-- All entries lead to rooms of the meetings that they are about, and meetings have ids of their own,
    given out since the first one. -/
structure Consistent (h : MeetingHouse) (first next : Nat) : Prop where
  begun : first ≤ next
  books : h.books.Sorted
  records : ∀ who, (h.book who).owned.Sorted
  owned : ∀ {who id o}, (h.book who).owned.get? id = some o → h.label o.room = some (id, who)
  joined : ∀ {who id j}, (h.book who).joined.get? id = some j →
    ∃ owner, h.label j.room = some (id, owner)
  minted : ∀ {n id owner}, h.label n = some (id, owner) →
    ∃ k, first ≤ k ∧ k < next ∧ id = Uuid.ofBits k
  distinct : ∀ {n n' id owner owner'}, h.label n = some (id, owner) →
    h.label n' = some (id, owner') → n = n'
  directed : ∀ {e}, e ∈ h.directory → ∃ owner, h.label e.2 = some (e.1, owner)
  held : ∀ {n}, n ∈ h.held → ∃ l, h.label n = some l

structure Tends (h h' : MeetingHouse) : Prop where
  retains : h.Retains h'
  fewer : h'.directory ⊆ h.directory
  joined : ∀ {who id j}, (h'.book who).joined.get? id = some j →
    (h.book who).joined.get? id = some j ∨ ∃ owner, h.label j.room = some (id, owner)

variable {h h' h'' : MeetingHouse} {first next next' n k : Nat} {id : MeetingId}
  {who agent owner : AgentId} {b : MeetingBook} {room : Room} {f : Room → Room}

section Tends

theorem Tends.refl (h : MeetingHouse) : h.Tends h := ⟨.refl h, List.Subset.refl _, .inl⟩

theorem book_of_books (same : h'.books = h.books) (who : AgentId) : h'.book who = h.book who := by
  rw [book, same, ← book]

theorem tends_of_books (retains : h.Retains h') (fewer : h'.directory ⊆ h.directory)
    (same : h'.books = h.books) : h.Tends h' where
  retains := retains
  fewer := fewer
  joined found := by
    left
    rwa [book_of_books same] at found

theorem Forgets.directory (forgets : h.Forgets h') : h'.directory ⊆ h.directory := by
  obtain ⟨_, rfl, fewer⟩ := forgets
  exact fewer

theorem tends_of_forgets (forgets : h.Forgets h') (weeds : h.Weeds h') : h.Tends h' :=
  tends_of_books (.of_directory forgets.rooms forgets.held forgets.books weeds) forgets.directory
    forgets.books

theorem Tends.modifyRoom (tends : h.Tends h') (n : Nat) (id : ∀ room, (f room).id = room.id)
    (owner : ∀ room, (f room).owner = room.owner) : h.Tends (h'.modifyRoom n f) where
  retains := tends.retains.modifyRoom n id owner
  fewer := tends.fewer
  joined := tends.joined

theorem Tends.setBook (tends : h.Tends h') (same : b.owned = (h'.book agent).owned)
    (led : ∀ {id j}, b.joined.get? id = some j →
      (h'.book agent).joined.get? id = some j ∨ ∃ owner, h.label j.room = some (id, owner)) :
    h.Tends (h'.setBook agent b) where
  retains := tends.retains.setBook same
  fewer := tends.fewer
  joined {who id j} found := by
    by_cases own : agent = who
    · subst own
      rw [book_setBook_self] at found
      exact (led found).elim tends.joined .inr
    · rw [book_setBook_of_ne _ _ own] at found
      exact tends.joined found

theorem tends_lookup (h : MeetingHouse) (id : MeetingId) : h.Tends (h.lookup id).2 :=
  tends_of_forgets (h.lookup_house id) (h.weeds_lookup id)

theorem tends_prune (h : MeetingHouse) : h.Tends h.prune :=
  tends_of_forgets h.forgets_prune h.weeds_prune

end Tends

namespace Consistent

theorem later (consistent : h.Consistent first next) (le : next ≤ next') :
    h.Consistent first next' where
  begun := Nat.le_trans consistent.begun le
  books := consistent.books
  records := consistent.records
  owned := consistent.owned
  joined := consistent.joined
  minted labelled := by
    obtain ⟨k, low, high, same⟩ := consistent.minted labelled
    exact ⟨k, low, Nat.lt_of_lt_of_le high le, same⟩
  distinct := consistent.distinct
  directed := consistent.directed
  held := consistent.held

theorem tends (consistent : h.Consistent first next) (tends : h.Tends h') :
    h'.Consistent first next := by
  obtain ⟨retains, fewer, joined⟩ := tends
  have labels : ∀ n, h'.label n = h.label n := retains.labels
  refine ⟨consistent.begun, retains.books consistent.books, ?_, ?_, ?_, ?_, ?_, ?_, ?_⟩
  · intro who
    rw [retains.owned]
    exact consistent.records who
  · intro who id o found
    rw [retains.owned] at found
    exact (labels _).trans (consistent.owned found)
  · intro who id j found
    rw [labels]
    exact (joined found).elim consistent.joined fun led => led
  · intro n id owner labelled
    exact consistent.minted ((labels n).symm.trans labelled)
  · intro n n' id owner owner' one other
    exact consistent.distinct ((labels n).symm.trans one) ((labels n').symm.trans other)
  · intro e mem
    rw [labels]
    exact consistent.directed (fewer mem)
  · intro n mem
    rw [labels]
    exact consistent.held (retains.held ▸ mem)

theorem setBook (consistent : h.Consistent first next) (sorted : b.owned.Sorted)
    (owned : ∀ {id o}, b.owned.get? id = some o → h.label o.room = some (id, agent))
    (joined : ∀ {id j}, b.joined.get? id = some j → ∃ owner, h.label j.room = some (id, owner)) :
    (h.setBook agent b).Consistent first next where
  begun := consistent.begun
  books := Dict.sorted_insert consistent.books agent b
  records who := by
    by_cases own : agent = who
    · subst own
      rwa [book_setBook_self]
    · rw [book_setBook_of_ne _ _ own]
      exact consistent.records who
  owned {who id o} found := by
    by_cases own : agent = who
    · subst own
      rw [book_setBook_self] at found
      exact owned found
    · rw [book_setBook_of_ne _ _ own] at found
      exact consistent.owned found
  joined {who id j} found := by
    by_cases own : agent = who
    · subst own
      rw [book_setBook_self] at found
      exact joined found
    · rw [book_setBook_of_ne _ _ own] at found
      exact consistent.joined found
  minted := consistent.minted
  distinct := consistent.distinct
  directed := consistent.directed
  held := consistent.held

theorem release (consistent : h.Consistent first next) (n : Nat) :
    (h.release n).Consistent first next where
  begun := consistent.begun
  books := consistent.books
  records := consistent.records
  owned := consistent.owned
  joined := consistent.joined
  minted := consistent.minted
  distinct := consistent.distinct
  directed := consistent.directed
  held mem := consistent.held (List.erase_subset mem)

theorem addOwned (consistent : h.Consistent first next) {o : OwnedMeeting}
    (led : h.label o.room = some (id, agent)) :
    (h.setBook agent ((h.book agent).addOwned id o)).Consistent first next := by
  refine consistent.setBook (Dict.sorted_insert (consistent.records agent) id o) ?_ consistent.joined
  intro other o' found
  by_cases same : id = other
  · subst same
    rw [MeetingBook.addOwned, Dict.get?_insert_self] at found
    cases found
    exact led
  · rw [MeetingBook.addOwned, Dict.get?_insert_of_ne _ _ same] at found
    exact consistent.owned found

theorem close (consistent : h.Consistent first next) (agent : AgentId) (id : MeetingId) :
    (h.setBook agent ((h.book agent).close id)).Consistent first next := by
  refine consistent.setBook (Dict.sorted_erase (consistent.records agent) id) ?_ consistent.joined
  intro other o found
  have different : id ≠ other := by
    rintro rfl
    rw [MeetingBook.close, Dict.get?_erase_self] at found
    cases found
  rw [MeetingBook.close, Dict.get?_erase_of_ne _ different] at found
  exact consistent.owned found

theorem new (consistent : h.Consistent first next) (few : next < first + 2 ^ 122) :
    h.label n ≠ some (Uuid.ofBits next, owner) := by
  intro labelled
  obtain ⟨k, low, high, same⟩ := consistent.minted labelled
  exact Uuid.ofBits_ne low high few same.symm

theorem build (consistent : h.Consistent first next) (few : next < first + 2 ^ 122)
    (named : room.id = Uuid.ofBits next) :
    ((h.build room).2.register room.id h.rooms.length).Consistent first (next + 1) := by
  have labels : ∀ n, ((h.build room).2.register room.id h.rooms.length).label n =
      if n = h.rooms.length then some (room.id, room.owner) else h.label n := h.label_build room
  have old : ∀ {n l}, h.label n = some l →
      ((h.build room).2.register room.id h.rooms.length).label n = some l := by
    intro n l labelled
    rw [labels, if_neg, labelled]
    rintro rfl
    rw [label_beyond] at labelled
    cases labelled
  have fresh : ∀ {n owner}, h.label n ≠ some (room.id, owner) := named ▸ consistent.new few
  refine ⟨Nat.le_succ_of_le consistent.begun, consistent.books, consistent.records,
    fun found => old (consistent.owned found), ?_, ?_, ?_, ?_, ?_⟩
  · intro who id j found
    obtain ⟨owner, led⟩ := consistent.joined found
    exact ⟨owner, old led⟩
  · intro n id owner labelled
    rw [labels] at labelled
    split at labelled
    · cases labelled
      exact ⟨next, consistent.begun, Nat.lt_succ_self next, named⟩
    · exact (consistent.later (Nat.le_succ next)).minted labelled
  · intro n n' id owner owner' one other
    rw [labels] at one other
    split at one <;> split at other
    · rename_i first second
      rw [first, second]
    · cases one
      exact absurd other fresh
    · cases other
      exact absurd one fresh
    · exact consistent.distinct one other
  · intro e mem
    rcases Dict.mem_of_mem_insert mem with rfl | before
    · exact ⟨room.owner, (labels _).trans (if_pos rfl)⟩
    · obtain ⟨owner, led⟩ := consistent.directed before
      exact ⟨owner, old led⟩
  · intro n mem
    rcases List.mem_cons.1 mem with rfl | before
    · exact ⟨_, (labels _).trans (if_pos rfl)⟩
    · obtain ⟨l, led⟩ := consistent.held before
      exact ⟨l, old led⟩

end Consistent

/-- An agent has let go of a meeting of its own. -/
structure Ended (h : MeetingHouse) (who : AgentId) (id : MeetingId) : Prop where
  led : ∃ n, h.label n = some (id, who) ∧ n ∉ h.held
  absent : (h.book who).contains id = false

section Ended
variable (consistent : h.Consistent first next) (ended : h.Ended who id)
include consistent ended

theorem Ended.dead (labelled : h.label n = some (id, owner)) : h.alive n = false := by
  obtain ⟨⟨k, led, free⟩, absent⟩ := ended
  obtain rfl := consistent.distinct labelled led
  rw [Bool.eq_false_iff]
  intro alive
  rcases alive_iff.1 alive with held | ⟨e, among, o, mem, same⟩
  · exact free held
  · have book := book_of_mem consistent.books among
    have found : (h.book e.1).owned.get? o.1 = some o.2 := by
      apply Dict.get?_of_mem (consistent.records e.1)
      rw [book]
      exact mem
    have there := consistent.owned found
    rw [same, led] at there
    obtain ⟨rfl, rfl⟩ := Prod.mk.inj (Option.some.inj there)
    rw [MeetingBook.contains, Dict.contains, found] at absent
    cases absent

theorem Ended.lookup : (h.lookup id).1 = none := by
  cases found : (h.lookup id).1 with
  | none => rfl
  | some n =>
    obtain ⟨mem, alive⟩ := mem_directory_of_lookup found
    obtain ⟨owner, labelled⟩ := consistent.directed mem
    rw [ended.dead consistent labelled] at alive
    cases alive

theorem Ended.roomOf (other : AgentId) : h.roomOf other id = .error (.notFound id) := by
  rcases roomOf_found other id h with ⟨n, reached⟩ | refused
  · have alive := (alive_of_roomOf reached).2
    have labelled : ∃ owner, h.label n = some (id, owner) := by
      unfold MeetingHouse.roomOf at reached
      split at reached
      · cases reached
        exact ⟨other, consistent.owned (by assumption)⟩
      · split at reached
        · split at reached <;> cases reached
          exact consistent.joined (by assumption)
        · cases reached
    obtain ⟨owner, labelled⟩ := labelled
    rw [ended.dead consistent labelled] at alive
    cases alive
  · exact refused

end Ended

/-- A meeting of an owner is over and nobody reaches it, and all that the owner had before it still
    has. -/
structure WoundUp (owner : AgentId) (id : MeetingId) (h h' : MeetingHouse) : Prop where
  struck : (h'.book owner).contains id = false
  lost : (h'.lookup id).1 = none
  unreachable : ∀ who, h'.roomOf who id = .error (.notFound id)
  owned : ∀ {other o}, (h.book owner).owned.get? other = some o →
    (h'.book owner).owned.get? other = some o

/-- What happens has nothing to do with the meetings of an agent. -/
structure Bypasses (who : AgentId) (h h' : MeetingHouse) : Prop where
  book : h'.book who = h.book who
  labels : ∀ {n l}, h.label n = some l → h'.label n = some l
  held : ∀ {n id}, h'.label n = some (id, who) →
    h.label n = some (id, who) ∧ h'.held.count n = h.held.count n

/-- The meetings of an agent are as before, but for those that it has opened meanwhile. -/
structure Restores (who : AgentId) (h h' : MeetingHouse) : Prop where
  owned : ∀ {id o}, (h.book who).owned.get? id = some o → (h'.book who).owned.get? id = some o
  joined : (h'.book who).joined = (h.book who).joined
  labels : ∀ {n l}, h.label n = some l → h'.label n = some l
  held : ∀ {n id}, h.label n = some (id, who) → h'.held.count n = h.held.count n
  freed : ∀ {n id}, h'.label n = some (id, who) → h.label n = none → n ∉ h'.held

section
variable (who)

theorem Bypasses.refl (h : MeetingHouse) : Bypasses who h h :=
  ⟨rfl, fun labelled => labelled, fun labelled => ⟨labelled, rfl⟩⟩

theorem Restores.refl (h : MeetingHouse) : Restores who h h :=
  ⟨fun found => found, rfl, fun labelled => labelled, fun _ => rfl,
    fun labelled none => absurd (labelled.symm.trans none) nofun⟩

end

theorem Bypasses.trans (one : Bypasses who h h') (other : Bypasses who h' h'') :
    Bypasses who h h'' where
  book := other.book.trans one.book
  labels labelled := other.labels (one.labels labelled)
  held labelled := by
    obtain ⟨before, count⟩ := other.held labelled
    obtain ⟨begun, count'⟩ := one.held before
    exact ⟨begun, count.trans count'⟩

theorem Restores.trans (one : Restores who h h') (other : Restores who h' h'') :
    Restores who h h'' where
  owned found := other.owned (one.owned found)
  joined := other.joined.trans one.joined
  labels labelled := other.labels (one.labels labelled)
  held labelled := (other.held (one.labels labelled)).trans (one.held labelled)
  freed {n id} labelled new := by
    cases between : h'.label n with
    | none => exact other.freed labelled between
    | some l =>
      cases (other.labels between).symm.trans labelled
      have free := one.freed between new
      rw [← List.count_eq_zero] at free ⊢
      rw [other.held between, free]

theorem Bypasses.restores (bypasses : Bypasses who h h') : Restores who h h' where
  owned found := by rwa [bypasses.book]
  joined := by rw [bypasses.book]
  labels := bypasses.labels
  held labelled := (bypasses.held (bypasses.labels labelled)).2
  freed labelled new := by
    cases new.symm.trans (bypasses.held labelled).1

theorem Restores.woundUp (restores : Restores who h h') (consistent : h'.Consistent first next)
    (ended : h'.Ended who id) : WoundUp who id h h' where
  struck := ended.absent
  lost := ended.lookup consistent
  unreachable := ended.roomOf consistent
  owned := restores.owned

theorem Tends.bypasses (tends : h.Tends h') (same : h'.book who = h.book who) :
    Bypasses who h h' where
  book := same
  labels labelled := (tends.retains.labels _).trans labelled
  held labelled := ⟨(tends.retains.labels _).symm.trans labelled, by rw [tends.retains.held]⟩

theorem bypasses_setBook (h : MeetingHouse) (b : MeetingBook) (different : agent ≠ who) :
    Bypasses who h (h.setBook agent b) where
  book := book_setBook_of_ne h b different
  labels labelled := labelled
  held labelled := ⟨labelled, rfl⟩

theorem bypasses_release (led : h.label n = some (id, owner)) (different : owner ≠ who) :
    Bypasses who h (h.release n) where
  book := rfl
  labels labelled := labelled
  held {k other} labelled := by
    refine ⟨labelled, List.count_erase_of_ne ?_⟩
    rintro rfl
    exact different (Prod.mk.inj (Option.some.inj (led.symm.trans labelled))).2

theorem bypasses_build (h : MeetingHouse) (id : MeetingId) (different : room.owner ≠ who) :
    Bypasses who h ((h.build room).2.register id h.rooms.length) where
  book := rfl
  labels {n l} labelled := by
    rw [label_build, if_neg, labelled]
    rintro rfl
    rw [label_beyond] at labelled
    cases labelled
  held {n other} labelled := by
    rw [label_build] at labelled
    split at labelled
    · cases labelled
      exact absurd rfl different
    · rename_i old
      exact ⟨labelled, List.count_cons_of_ne (Ne.symm old)⟩

end MeetingHouse

/-- After any history rooms, books and directory are consistent. -/
theorem Gathering.Kept.consistent {g : Gathering} {first : Nat} {log : List Event}
    (kept : g.Kept first log) : g.assembly.house.Consistent first g.assembly.post.nextId where
  begun := kept.orderly.begun
  books := kept.staked.regular.books
  records := kept.staked.regular.records
  owned := kept.staked.regular.owned
  joined found := by
    obtain ⟨room, here, rfl, _⟩ := kept.orderly.sound.joined found
    exact ⟨room.owner, MeetingHouse.label_of_room here⟩
  minted labelled := by
    obtain ⟨room, here, rfl, _⟩ := MeetingHouse.room_of_label labelled
    exact kept.orderly.sound.minted here
  distinct one other := (kept.orderly.sound.label_unique one other).1
  directed mem := by
    obtain ⟨room, here, named⟩ := kept.orderly.sound.directed mem
    exact ⟨room.owner, by rw [MeetingHouse.label_of_room here, named]⟩
  held mem := by
    obtain ⟨arr, among, rfl⟩ := List.mem_map.1 (kept.orderly.held.subset mem)
    exact ⟨_, kept.staked.led arr.stake (List.mem_map_of_mem among)⟩

end Playbook
