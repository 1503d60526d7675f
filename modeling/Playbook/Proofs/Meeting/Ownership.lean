import Playbook.Proofs.Meeting.Steps

/- What keeps a room alive. Every living room stands in the directory under the id of its meeting,
   and a meeting stands in no other book than that of its owner; so a room lives while its meeting is
   being arranged or stands in that book, and no longer. -/
namespace Playbook

theorem Dict.get?_filter {α : Type} {d : Dict α} {p : String × α → Bool} {key : String} {value : α}
    (found : d.get? key = some value) (stays : p (key, value) = true) :
    Dict.get? (d.filter p) key = some value := by
  induction d with
  | nil => cases found
  | cons e rest ih =>
    obtain ⟨k, v⟩ := e
    rw [Dict.get?] at found
    split at found
    · rename_i same
      subst same
      cases found
      rw [List.filter_cons_of_pos stays, Dict.get?, if_pos rfl]
    · rename_i different
      rw [List.filter_cons]
      split
      · rw [Dict.get?, if_neg different]
        exact ih found
      · exact ih found

theorem MeetingBook.unrecorded_close {b : MeetingBook} {id other : MeetingId}
    (absent : b.owned.get? other = none) : (b.close id).owned.get? other = none := by
  unfold close
  by_cases same : id = other
  · subst same
    exact Dict.get?_erase_self ..
  · rw [Dict.get?_erase_of_ne _ same]
    exact absent

namespace MeetingHouse

variable {h h' : MeetingHouse} {agent who : AgentId} {id : MeetingId} {n k : Nat} {room : Room}
  {b : MeetingBook} {f : Room → Room} {d : Deed}

def Weeds (h h' : MeetingHouse) : Prop :=
  ∀ {id n}, h.directory.get? id = some n → h.alive n = true → h'.directory.get? id = some n

theorem weeds_of_directory (same : h'.directory = h.directory) : h.Weeds h' := by
  intro id n found _
  rw [same, found]

theorem weeds_lookup (h : MeetingHouse) (id : MeetingId) : h.Weeds (h.lookup id).2 := by
  intro other n found alive
  unfold lookup
  split
  · exact found
  rename_i k here
  split
  · exact found
  rename_i dead
  have different : id ≠ other := by
    rintro rfl
    cases here.symm.trans found
    exact dead alive
  exact (Dict.get?_erase_of_ne _ different).trans found

theorem weeds_prune (h : MeetingHouse) : h.Weeds h.prune := by
  intro id n found alive
  exact Dict.get?_filter found alive

def label (h : MeetingHouse) (n : Nat) : Option (MeetingId × AgentId) :=
  (h.room? n).map fun room => (room.id, room.owner)

theorem label_of_room (here : h.room? n = some room) : h.label n = some (room.id, room.owner) := by
  rw [label, here]
  rfl

theorem room_of_label {owner : AgentId} (labelled : h.label n = some (id, owner)) :
    ∃ room, h.room? n = some room ∧ room.id = id ∧ room.owner = owner := by
  obtain ⟨room, here, same⟩ := Option.map_eq_some_iff.1 labelled
  cases same
  exact ⟨room, here, rfl, rfl⟩

theorem label_of_rooms (rooms : h'.rooms = h.rooms) (n : Nat) : h'.label n = h.label n := by
  rw [label, room?, rooms, ← room?, ← label]

theorem label_modifyRoom (h : MeetingHouse) (k : Nat) (id : ∀ room, (f room).id = room.id)
    (owner : ∀ room, (f room).owner = room.owner) (n : Nat) :
    (h.modifyRoom k f).label n = h.label n := by
  rw [label, room?_modifyRoom, label]
  split
  · cases h.room? n with
    | none => rfl
    | some room => simp [id, owner]
  · rfl

structure Retains (h h' : MeetingHouse) : Prop where
  held : h'.held = h.held
  books : h.books.Sorted → h'.books.Sorted
  owned : ∀ who, (h'.book who).owned = (h.book who).owned
  labels : ∀ n, h'.label n = h.label n
  weeds : h.Weeds h'

theorem Retains.of_directory (rooms : h'.rooms = h.rooms) (held : h'.held = h.held)
    (books : h'.books = h.books) (weeds : h.Weeds h') : h.Retains h' where
  held := held
  books sorted := books ▸ sorted
  owned who := by rw [book, books, ← book]
  labels := label_of_rooms rooms
  weeds := weeds

theorem retains_lookup (h : MeetingHouse) (id : MeetingId) : h.Retains (h.lookup id).2 := by
  obtain ⟨directory, same, _⟩ := h.lookup_house id
  exact .of_directory (by rw [same]) (by rw [same]) (by rw [same]) (h.weeds_lookup id)

theorem Retains.refl (h : MeetingHouse) : h.Retains h :=
  .of_directory rfl rfl rfl (weeds_of_directory rfl)

theorem Retains.modifyRoom (retains : h.Retains h') (k : Nat) (id : ∀ room, (f room).id = room.id)
    (owner : ∀ room, (f room).owner = room.owner) : h.Retains (h'.modifyRoom k f) where
  held := retains.held
  books := retains.books
  owned := retains.owned
  labels n := (h'.label_modifyRoom k id owner n).trans (retains.labels n)
  weeds := retains.weeds

theorem Retains.setBook (retains : h.Retains h')
    (same : b.owned = (h'.book agent).owned) : h.Retains (h'.setBook agent b) where
  held := retains.held
  books sorted := Dict.sorted_insert (retains.books sorted) agent b
  owned who := by
    rw [← retains.owned]
    by_cases own : agent = who
    · subst own
      rw [book_setBook_self, same]
    · rw [book_setBook_of_ne _ _ own]
  labels := retains.labels
  weeds := retains.weeds

/-- The records of owners lead to rooms of their own, and the directory to all rooms that live. -/
structure Regular (h : MeetingHouse) : Prop where
  books : h.books.Sorted
  records : ∀ who, (h.book who).owned.Sorted
  owned : ∀ {who id o}, (h.book who).owned.get? id = some o → h.label o.room = some (id, who)
  listed : ∀ {n id owner}, h.label n = some (id, owner) → h.alive n = true →
    h.directory.get? id = some n

theorem book_of_mem {e : AgentId × MeetingBook} (sorted : h.books.Sorted) (mem : e ∈ h.books) :
    h.book e.1 = e.2 := by
  rw [book, Dict.get?_of_mem sorted mem, Option.getD_some]

theorem Regular.owned_iff (regular : h.Regular) :
    h.Owned n ↔ ∃ who id o, (h.book who).owned.get? id = some o ∧ o.room = n := by
  constructor
  · rintro ⟨e, among, o, mem, same⟩
    have here := book_of_mem regular.books among
    refine ⟨e.1, o.1, o.2, Dict.get?_of_mem (regular.records e.1) ?_, same⟩
    rw [here]
    exact mem
  · rintro ⟨who, id, o, found, rfl⟩
    exact owned_of_book (Dict.mem_of_get? found)

theorem Retains.records (regular : h.Regular) (retains : h.Retains h') (who : AgentId) :
    (h'.book who).owned.Sorted := by
  rw [retains.owned]
  exact regular.records who

theorem Retains.alive (regular : h.Regular) (retains : h.Retains h')
    (alive : h'.alive n = true) : h.alive n = true := by
  rcases alive_iff.1 alive with held | ⟨e, among, o, mem, same⟩
  · exact alive_iff.2 (.inl (retains.held ▸ held))
  · apply alive_iff.2
    right
    have here := book_of_mem (retains.books regular.books) among
    refine regular.owned_iff.2 ⟨e.1, o.1, o.2, ?_, same⟩
    apply Dict.get?_of_mem (regular.records e.1)
    rw [← retains.owned, here]
    exact mem

theorem Regular.change (regular : h.Regular) (labels : ∀ n, h'.label n = h.label n)
    (weeds : h.Weeds h') (alive : ∀ {n}, h'.alive n = true → h.alive n = true)
    (books : h'.books.Sorted) (records : ∀ who, (h'.book who).owned.Sorted)
    (owned : ∀ {who id o}, (h'.book who).owned.get? id = some o → h.label o.room = some (id, who)) :
    h'.Regular where
  books := books
  records := records
  owned found := (labels _).trans (owned found)
  listed {n id owner} labelled living := by
    rw [labels] at labelled
    exact weeds (regular.listed labelled (alive living)) (alive living)

theorem Retains.regular (regular : h.Regular) (retains : h.Retains h') : h'.Regular := by
  apply regular.change retains.labels retains.weeds (retains.alive regular)
    (retains.books regular.books) (retains.records regular)
  intro who id o found
  rw [retains.owned] at found
  exact regular.owned found

theorem Regular.setBook (regular : h.Regular) (sorted : b.owned.Sorted)
    (living : ∀ o ∈ b.owned, h.alive o.2.room = true)
    (led : ∀ {id o}, b.owned.get? id = some o → h.label o.room = some (id, agent)) :
    (h.setBook agent b).Regular := by
  refine regular.change (fun _ => rfl) (weeds_of_directory rfl) (alive_of_setBook living)
    (Dict.sorted_insert regular.books agent b) ?_ ?_
  · intro who
    by_cases own : agent = who
    · subst own
      rw [book_setBook_self]
      exact sorted
    · rw [book_setBook_of_ne _ _ own]
      exact regular.records who
  · intro who id o found
    by_cases own : agent = who
    · subst own
      rw [book_setBook_self] at found
      exact led found
    · rw [book_setBook_of_ne _ _ own] at found
      exact regular.owned found

theorem Regular.addOwned (regular : h.Regular) {o : OwnedMeeting}
    (living : h.alive o.room = true) (led : h.label o.room = some (id, agent)) :
    (h.setBook agent ((h.book agent).addOwned id o)).Regular := by
  apply regular.setBook (Dict.sorted_insert (regular.records agent) id o)
  · intro entry mem
    rcases Dict.mem_of_mem_insert mem with rfl | old
    · exact living
    · exact alive_iff.2 (.inr (owned_of_book old))
  · intro other o' found
    by_cases same : id = other
    · subst same
      rw [MeetingBook.addOwned, Dict.get?_insert_self] at found
      cases found
      exact led
    · rw [MeetingBook.addOwned, Dict.get?_insert_of_ne _ _ same] at found
      exact regular.owned found

theorem Regular.close (regular : h.Regular) (agent : AgentId) (id : MeetingId) :
    (h.setBook agent ((h.book agent).close id)).Regular := by
  apply regular.setBook (Dict.sorted_erase (regular.records agent) id)
  · intro entry mem
    have old : entry ∈ (h.book agent).owned := List.filter_sublist.subset mem
    exact alive_iff.2 (.inr (owned_of_book old))
  · intro other o found
    have different : id ≠ other := by
      rintro rfl
      rw [MeetingBook.close, Dict.get?_erase_self] at found
      cases found
    rw [MeetingBook.close, Dict.get?_erase_of_ne _ different] at found
    exact regular.owned found

theorem Regular.release (regular : h.Regular) (n : Nat) : (h.release n).Regular :=
  regular.change (fun _ => rfl) (weeds_of_directory rfl) alive_of_release regular.books
    regular.records regular.owned

theorem Regular.prune (regular : h.Regular) : h.prune.Regular :=
  regular.change (fun _ => rfl) h.weeds_prune id regular.books regular.records regular.owned

theorem label_build (h : MeetingHouse) (room : Room) (n : Nat) :
    ((h.build room).2.register id h.rooms.length).label n =
      if n = h.rooms.length then some (room.id, room.owner) else h.label n := by
  have reads : ((h.build room).2.register id h.rooms.length).room? n = _ := room?_build h room n
  rw [label, reads, label]
  split <;> rfl

theorem label_beyond (h : MeetingHouse) : h.label h.rooms.length = none := by
  rw [label, room?, List.getElem?_eq_none (Nat.le_refl _)]
  rfl

theorem Regular.build (regular : h.Regular) {first next : Nat}
    (sound : ((h.build room).2.register room.id h.rooms.length).Sound first next) :
    ((h.build room).2.register room.id h.rooms.length).Regular := by
  have labels : ∀ n, ((h.build room).2.register room.id h.rooms.length).label n =
      if n = h.rooms.length then some (room.id, room.owner) else h.label n := h.label_build room
  have old : ∀ {n id owner}, h.label n = some (id, owner) →
      n ≠ h.rooms.length ∧ ((h.build room).2.register room.id h.rooms.length).label n =
        some (id, owner) := by
    intro n id owner labelled
    have before : n ≠ h.rooms.length := by
      rintro rfl
      rw [label_beyond] at labelled
      cases labelled
    exact ⟨before, by rw [labels, if_neg before, labelled]⟩
  refine ⟨regular.books, regular.records, fun found => (old (regular.owned found)).2, ?_⟩
  intro n id owner labelled alive
  obtain ⟨other, here, named, _⟩ := room_of_label labelled
  rw [labels] at labelled
  split at labelled
  · rename_i new
    cases labelled
    rw [new]
    exact Dict.get?_insert_self ..
  · rename_i before
    have different : room.id ≠ id := by
      intro same
      apply before
      have there : ((h.build room).2.register room.id h.rooms.length).room? h.rooms.length =
          some room := (room?_build ..).trans (if_pos rfl)
      exact sound.distinct here there (named.trans same.symm)
    have living : h.alive n = true := by
      rcases alive_iff.1 alive with held | owned
      · exact alive_iff.2 (.inl ((List.mem_cons.1 held).resolve_left before))
      · exact alive_iff.2 (.inr owned)
    exact (Dict.get?_insert_of_ne _ _ different).trans (regular.listed labelled living)

theorem regular_empty : MeetingHouse.empty.Regular where
  books := .nil
  records _ := .nil
  owned found := nomatch found
  listed labelled := nomatch labelled

end MeetingHouse

namespace Assembly
variable {a : Assembly} {who : Signature} {agent : AgentId} {id : MeetingId} {m : Message}

theorem retains_handleInvitation (who : Signature) (knows : String → Bool) (m : Message)
    (a : Assembly) : a.house.Retains (a.handleInvitation who knows m).2.house := by
  unfold handleInvitation
  split
  · exact .refl _
  split
  · exact .refl _
  rename_i i read
  split
  · exact .refl _
  split
  · show a.house.Retains (a.respond who i false (some _)).2.house
    rw [respond, deliver_house]
    exact .refl _
  simp only
  split
  · exact a.house.retains_lookup i.meeting
  · rename_i n room found
    have joined : a.house.Retains ((a.lookup i.meeting).2.join who n room).2.house :=
      ((a.house.retains_lookup i.meeting).modifyRoom n (·.addMember_id who.id)
        (·.addMember_owner who.id)).setBook rfl
    rw [respond, deliver_house]
    exact joined

theorem retains_applied (h : MeetingHouse) (n : Nat) (r : InvitationResponse) :
    h.Retains (applied h n r) := by
  unfold applied
  split
  · exact (MeetingHouse.Retains.refl h).modifyRoom n (·.addMember_id r.attendee)
      (·.addMember_owner r.attendee)
  · exact .refl h

theorem retains_recordResponse (m : Message) (a : Assembly) :
    a.house.Retains (a.recordResponse m).2.house := by
  unfold recordResponse
  split
  · exact .refl _
  rename_i id about
  have looked : a.house.Retains (a.lookup id).2.house := a.house.retains_lookup id
  split
  · rename_i a₁ found
    rw [found] at looked
    exact looked
  · rename_i n a₁ found
    rw [found] at looked
    cases read : m.response with
    | error e =>
      rw [applyResponse_of_error read]
      exact looked
    | ok r =>
      rw [applyResponse_of_ok read]
      simp only [applied]
      split
      · exact looked.modifyRoom n (·.addMember_id r.attendee) (·.addMember_owner r.attendee)
      · exact looked

theorem retains_hear (c : Convening) (m : Message) (a : Assembly) :
    a.house.Retains (c.hear m a).2.house := by
  cases read : m.response with
  | error e =>
    rw [hear_unread read]
    exact .refl _
  | ok r =>
    rw [(hear_applied read a).1]
    exact retains_applied a.house c.room r

theorem retains_leaveMeeting (agent : AgentId) (id : MeetingId) (a : Assembly) :
    a.house.Retains (a.leaveMeeting agent id).2.house := by
  rcases a.leaveMeeting_cases agent id with same | ⟨j, _, h, rfl, left⟩
  · rw [same]
    exact .refl _
  · rw [left]
    have struck : a.house.Retains (a.house.setBook agent ((a.house.book agent).leave id)) :=
      (MeetingHouse.Retains.refl a.house).setBook rfl
    simp only
    split
    · exact struck.modifyRoom j.room (fun _ => rfl) fun _ => rfl
    · exact struck

theorem retains_sayToMeeting (who : Signature) (id : MeetingId) (content : String) (a : Assembly) :
    a.house.Retains (a.sayToMeeting who id content).2.house := by
  have looked : a.house.Retains (a.lookup id).2.house := a.house.retains_lookup id
  unfold sayToMeeting
  simp only
  split
  · exact looked
  split
  · exact looked
  split <;> exact looked

end Assembly
end Playbook
