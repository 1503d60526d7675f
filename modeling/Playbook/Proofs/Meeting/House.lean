import Playbook.Meeting.House
import Playbook.Proofs.Dict
import Playbook.Proofs.Uuid

/- What the operations on meetings change in the house: its rooms, the entries that lead to them,
   and what keeps them alive. -/
namespace Playbook

theorem Room.addMember_id (room : Room) (who : AgentId) : (room.addMember who).id = room.id := by
  unfold addMember
  split <;> rfl

theorem Room.addMember_owner (room : Room) (who : AgentId) :
    (room.addMember who).owner = room.owner := by
  unfold addMember
  split <;> rfl

namespace MeetingHouse

variable {h : MeetingHouse} {agent other : AgentId} {id : MeetingId} {n : Nat} {room : Room}
  {b : MeetingBook} {f : Room → Room} {directory : Dict Nat}

theorem book_setBook_self (h : MeetingHouse) (agent : AgentId) (b : MeetingBook) :
    (h.setBook agent b).book agent = b := by
  rw [book, setBook, Dict.get?_insert_self, Option.getD_some]

theorem book_setBook_of_ne (h : MeetingHouse) (b : MeetingBook) (different : agent ≠ other) :
    (h.setBook agent b).book other = h.book other := by
  rw [book, setBook, Dict.get?_insert_of_ne _ _ different, ← book]

theorem room?_modifyRoom (h : MeetingHouse) (k : Nat) (f : Room → Room) (n : Nat) :
    (h.modifyRoom k f).room? n = if k = n then (h.room? n).map f else h.room? n := by
  rw [room?, modifyRoom, List.getElem?_modify, ← room?]
  split <;> cases h.room? n <;> rfl

theorem room?_build (h : MeetingHouse) (r : Room) (n : Nat) :
    (h.build r).2.room? n = if n = h.rooms.length then some r else h.room? n := by
  rw [room?, build, List.getElem?_append]
  split
  · rename_i old
    rw [if_neg (Nat.ne_of_lt old), room?]
  · rename_i new
    split
    · rename_i last
      simp [last]
    · rw [room?, List.getElem?_eq_none (by simp; omega), List.getElem?_eq_none (Nat.le_of_not_lt new)]

theorem lookup_house (h : MeetingHouse) (id : MeetingId) :
    ∃ directory : Dict Nat, (h.lookup id).2 = { h with directory } ∧ directory ⊆ h.directory := by
  unfold lookup
  split
  · exact ⟨h.directory, rfl, List.Subset.refl _⟩
  · split
    · exact ⟨h.directory, rfl, List.Subset.refl _⟩
    · exact ⟨_, rfl, List.filter_sublist.subset⟩

theorem mem_directory_of_lookup (found : (h.lookup id).1 = some n) :
    (id, n) ∈ h.directory ∧ h.alive n = true := by
  unfold lookup at found
  split at found
  · cases found
  · split at found
    · cases found
      exact ⟨Dict.mem_of_get? (by assumption), by assumption⟩
    · cases found

/-- Some book has the room of a meeting of its owner. -/
def Owned (h : MeetingHouse) (n : Nat) : Prop := ∃ e ∈ h.books, ∃ o ∈ e.2.owned, o.2.room = n

theorem alive_iff : h.alive n = true ↔ n ∈ h.held ∨ h.Owned n := by
  simp [alive, Owned]

theorem owned_of_setBook (owned : (h.setBook agent b).Owned n) :
    (∃ o ∈ b.owned, o.2.room = n) ∨ h.Owned n := by
  obtain ⟨e, mem, o, among, same⟩ := owned
  rcases Dict.mem_of_mem_insert mem with rfl | old
  · exact .inl ⟨o, among, same⟩
  · exact .inr ⟨e, old, o, among, same⟩

theorem owned_of_book {o : MeetingId × OwnedMeeting} (mem : o ∈ (h.book agent).owned) :
    h.Owned o.2.room := by
  unfold book at mem
  cases found : h.books.get? agent with
  | none =>
    rw [found] at mem
    cases mem
  | some b =>
    rw [found] at mem
    exact ⟨_, Dict.mem_of_get? found, o, mem, rfl⟩

theorem alive_of_setBook (living : ∀ o ∈ b.owned, h.alive o.2.room = true)
    (alive : (h.setBook agent b).alive n = true) : h.alive n = true := by
  rcases alive_iff.1 alive with held | owned
  · exact alive_iff.2 (.inl held)
  · rcases owned_of_setBook owned with ⟨o, mem, rfl⟩ | before
    · exact living o mem
    · exact alive_iff.2 (.inr before)

theorem alive_of_setBook_of_subset (fewer : b.owned ⊆ (h.book agent).owned)
    (alive : (h.setBook agent b).alive n = true) : h.alive n = true :=
  alive_of_setBook (fun _ mem => alive_iff.2 (.inr (owned_of_book (fewer mem)))) alive

theorem alive_of_release {k : Nat} (alive : (h.release k).alive n = true) : h.alive n = true := by
  rcases alive_iff.1 alive with held | owned
  · exact alive_iff.2 (.inl (List.erase_subset held))
  · exact alive_iff.2 (.inr owned)

/-- Meetings have ids of their own, given out since the first one, and every entry leads to the room
    of its meeting. Nobody has joined a meeting of its own. -/
structure Sound (h : MeetingHouse) (first next : Nat) : Prop where
  minted : ∀ {n room}, h.room? n = some room →
    ∃ k, first ≤ k ∧ k < next ∧ room.id = Uuid.ofBits k
  distinct : ∀ {n n' room room'}, h.room? n = some room → h.room? n' = some room' →
    room.id = room'.id → n = n'
  directed : ∀ {e}, e ∈ h.directory → ∃ room, h.room? e.2 = some room ∧ room.id = e.1
  joined : ∀ {who id j}, (h.book who).joined.get? id = some j →
    ∃ room, h.room? j.room = some room ∧ room.id = id ∧ room.owner ≠ who

namespace Sound
variable {first next next' : Nat}

theorem empty (first : Nat) : MeetingHouse.empty.Sound first first where
  minted found := nomatch found
  distinct found := nomatch found
  directed mem := nomatch mem
  joined found := nomatch found

theorem later (sound : h.Sound first next) (le : next ≤ next') : h.Sound first next' where
  minted found := by
    obtain ⟨k, low, high, same⟩ := sound.minted found
    exact ⟨k, low, Nat.lt_of_lt_of_le high le, same⟩
  distinct := sound.distinct
  directed := sound.directed
  joined := sound.joined

theorem forget (sound : h.Sound first next) (fewer : directory ⊆ h.directory) :
    ({ h with directory } : MeetingHouse).Sound first next where
  minted := sound.minted
  distinct := sound.distinct
  directed mem := sound.directed (fewer mem)
  joined := sound.joined

theorem hold (sound : h.Sound first next) (held : List Nat) :
    ({ h with held } : MeetingHouse).Sound first next where
  minted := sound.minted
  distinct := sound.distinct
  directed := sound.directed
  joined := sound.joined

theorem modifyRoom (sound : h.Sound first next) (k : Nat) (id : ∀ room, (f room).id = room.id)
    (owner : ∀ room, (f room).owner = room.owner) : (h.modifyRoom k f).Sound first next := by
  have back : ∀ {n room'}, (h.modifyRoom k f).room? n = some room' →
      ∃ room, h.room? n = some room ∧ room'.id = room.id := by
    intro n room' found
    rw [room?_modifyRoom] at found
    split at found
    · obtain ⟨room, here, rfl⟩ := Option.map_eq_some_iff.1 found
      exact ⟨room, here, id room⟩
    · exact ⟨room', found, rfl⟩
  have forth : ∀ {n room}, h.room? n = some room → ∃ room', (h.modifyRoom k f).room? n = some room' ∧
      room'.id = room.id ∧ room'.owner = room.owner := by
    intro n room found
    rw [room?_modifyRoom]
    split
    · exact ⟨f room, by rw [found]; rfl, id room, owner room⟩
    · exact ⟨room, found, rfl, rfl⟩
  constructor
  · intro n room' found
    obtain ⟨room, here, same⟩ := back found
    rw [same]
    exact sound.minted here
  · intro n n' room₁' room₂' found₁ found₂ equal
    obtain ⟨room₁, here₁, same₁⟩ := back found₁
    obtain ⟨room₂, here₂, same₂⟩ := back found₂
    exact sound.distinct here₁ here₂ (by rw [← same₁, ← same₂, equal])
  · intro e mem
    obtain ⟨room, here, same⟩ := sound.directed mem
    obtain ⟨room', there, same', _⟩ := forth here
    exact ⟨room', there, same'.trans same⟩
  · intro who id' j found
    obtain ⟨room, here, same, different⟩ := sound.joined found
    obtain ⟨room', there, same', owner'⟩ := forth here
    exact ⟨room', there, same'.trans same, by rw [owner']; exact different⟩

theorem setBook (sound : h.Sound first next)
    (fine : ∀ {id j}, b.joined.get? id = some j →
      ∃ room, h.room? j.room = some room ∧ room.id = id ∧ room.owner ≠ agent) :
    (h.setBook agent b).Sound first next where
  minted := sound.minted
  distinct := sound.distinct
  directed := sound.directed
  joined {who id j} found := by
    by_cases same : agent = who
    · subst same
      rw [book_setBook_self] at found
      exact fine found
    · rw [book_setBook_of_ne h b same] at found
      exact sound.joined found

theorem join (sound : h.Sound first next) (here : h.room? n = some room)
    (guest : room.owner ≠ agent) :
    ((h.modifyRoom n (·.addMember agent)).setBook agent
      ((h.book agent).addJoined ⟨n, room.id, room.owner, room.topic⟩)).Sound first next := by
  have changed := sound.modifyRoom (f := (·.addMember agent)) n (·.addMember_id agent)
    (·.addMember_owner agent)
  refine changed.setBook ?_
  intro id j noted
  by_cases same : room.id = id
  · rw [MeetingBook.addJoined, ← same, Dict.get?_insert_self] at noted
    cases noted
    refine ⟨room.addMember agent, ?_, (room.addMember_id agent).trans same, ?_⟩
    · rw [room?_modifyRoom, if_pos rfl, here]
      rfl
    · rw [room.addMember_owner]
      exact guest
  · rw [MeetingBook.addJoined, Dict.get?_insert_of_ne _ _ same] at noted
    exact changed.joined noted

theorem leave (sound : h.Sound first next) (agent : AgentId) (id : MeetingId) :
    (h.setBook agent ((h.book agent).leave id)).Sound first next := by
  refine sound.setBook ?_
  intro other j noted
  have different : id ≠ other := by
    rintro rfl
    rw [MeetingBook.leave, Dict.get?_erase_self] at noted
    cases noted
  rw [MeetingBook.leave, Dict.get?_erase_of_ne _ different] at noted
  exact sound.joined noted

theorem open_ (sound : h.Sound first next) (few : next < first + 2 ^ 122) (low : first ≤ next)
    (named : room.id = Uuid.ofBits next) :
    ((h.build room).2.register room.id (h.build room).1).Sound first (next + 1) := by
  have fresh : ∀ {n room'}, h.room? n = some room' → room'.id ≠ room.id := by
    intro n room' found same
    obtain ⟨k, low', high, named'⟩ := sound.minted found
    rw [named, named'] at same
    exact Uuid.ofBits_ne low' high few same
  have cases_of : ∀ {n room'}, (h.build room).2.room? n = some room' →
      (n = h.rooms.length ∧ room' = room) ∨ h.room? n = some room' := by
    intro n room' found
    rw [room?_build] at found
    split at found
    · cases found
      exact .inl ⟨by assumption, rfl⟩
    · exact .inr found
  have old : ∀ {n room'}, h.room? n = some room' → (h.build room).2.room? n = some room' := by
    intro n room' found
    rw [room?_build, if_neg]
    · exact found
    · rintro rfl
      rw [room?, List.getElem?_eq_none (Nat.le_refl _)] at found
      cases found
  constructor
  · intro n room' found
    rcases cases_of found with ⟨_, rfl⟩ | here
    · exact ⟨next, low, Nat.lt_succ_self next, named⟩
    · obtain ⟨k, low, high, same⟩ := sound.minted here
      exact ⟨k, low, Nat.lt_succ_of_lt high, same⟩
  · intro n n' room₁ room₂ found₁ found₂ equal
    rcases cases_of found₁ with ⟨rfl, rfl⟩ | here₁
    · rcases cases_of found₂ with ⟨rfl, rfl⟩ | here₂
      · rfl
      · exact absurd equal.symm (fresh here₂)
    · rcases cases_of found₂ with ⟨rfl, rfl⟩ | here₂
      · exact absurd equal (fresh here₁)
      · exact sound.distinct here₁ here₂ equal
  · intro e mem
    rcases Dict.mem_of_mem_insert mem with rfl | before
    · exact ⟨room, by show (h.build room).2.room? h.rooms.length = _; rw [room?_build, if_pos rfl], rfl⟩
    · obtain ⟨room', here, same⟩ := sound.directed before
      exact ⟨room', old here, same⟩
  · intro who id j found
    obtain ⟨room', here, same, different⟩ := sound.joined found
    exact ⟨room', old here, same, different⟩

end Sound
end MeetingHouse
end Playbook
