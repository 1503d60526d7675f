import Playbook.Proofs.Meeting.Consistency

/- What other agents do, as it appears to one agent. Meetings are arranged, attended, left and closed by
   them; whatever that comes to, the agent's own book and its rooms are left alone. -/
namespace Playbook
open MeetingHouse

namespace Assembly

/-- Ids are only given out. While there are enough of them, what is consistent stays so, and the house
    changes as the relation has it. -/
structure Changes (S : MeetingHouse → MeetingHouse → Prop) (first : Nat) (a a' : Assembly) : Prop where
  ids : a.post.nextId ≤ a'.post.nextId
  house (consistent : a.house.Consistent first a.post.nextId)
    (few : a'.post.nextId ≤ first + 2 ^ 122) :
    a'.house.Consistent first a'.post.nextId ∧ S a.house a'.house

variable {S S' : MeetingHouse → MeetingHouse → Prop} {first : Nat} {a a' a'' : Assembly}
  {who : AgentId}

theorem Changes.refl (refl : ∀ h, S h h) (a : Assembly) : Changes S first a a :=
  ⟨Nat.le_refl _, fun consistent _ => ⟨consistent, refl _⟩⟩

theorem Changes.trans (trans : ∀ {h h' h''}, S h h' → S h' h'' → S h h'')
    (one : Changes S first a a') (other : Changes S first a' a'') : Changes S first a a'' where
  ids := Nat.le_trans one.ids other.ids
  house consistent few := by
    obtain ⟨between, before⟩ := one.house consistent (Nat.le_trans other.ids few)
    obtain ⟨after, behind⟩ := other.house between few
    exact ⟨after, trans before behind⟩

theorem Changes.mono (changes : Changes S first a a') (wider : ∀ {h h'}, S h h' → S' h h') :
    Changes S' first a a' where
  ids := changes.ids
  house consistent few := (changes.house consistent few).imp id wider

theorem changes_of_tends (ids : a.post.nextId ≤ a'.post.nextId) (tends : a.house.Tends a'.house)
    (related : S a.house a'.house) : Changes S first a a' where
  ids := ids
  house consistent _ := ⟨(consistent.tends tends).later ids, related⟩

theorem changes_of_post (ids : a.post.nextId ≤ a'.post.nextId) (same : a'.house = a.house)
    (refl : ∀ h, S h h) : Changes S first a a' :=
  changes_of_tends ids (same ▸ .refl _) (same ▸ refl _)

section Operations
variable (m : Message) (a)

theorem ids_handleInvitation (who : Signature) (knows : String → Bool) :
    a.post.nextId ≤ (a.handleInvitation who knows m).2.post.nextId := by
  cases a.handleInvitation_answers who knows m with
  | silent _ post => exact Nat.le_of_eq (congrArg (·.nextId) post).symm
  | declined _ _ _ _ _ post => exact post.ids
  | joined _ _ _ _ _ _ _ _ _ _ _ post => exact post.ids

theorem tends_handleInvitation (who : Signature) (knows : String → Bool) :
    a.house.Tends (a.handleInvitation who knows m).2.house := by
  have weeds : a.house.Weeds (a.handleInvitation who knows m).2.house :=
    (a.retains_handleInvitation who knows m).weeds
  cases a.handleInvitation_answers who knows m with
  | silent forgets => exact tends_of_forgets forgets weeds
  | declined _ _ _ _ house => exact house ▸ .refl _
  | joined i n room h _ _ _ _ here forgets house =>
    rw [house] at weeds ⊢
    refine ((tends_of_forgets forgets weeds).modifyRoom n (·.addMember_id who.id)
      (·.addMember_owner who.id)).setBook rfl ?_
    intro id j found
    by_cases same : room.id = id
    · rw [MeetingBook.addJoined, ← same, Dict.get?_insert_self] at found
      cases found
      exact .inr ⟨room.owner, same ▸ label_of_room here⟩
    · rw [MeetingBook.addJoined, Dict.get?_insert_of_ne _ _ same] at found
      exact .inl found

theorem book_handleInvitation {other : Signature} (different : other.id ≠ who)
    (knows : String → Bool) :
    (a.handleInvitation other knows m).2.house.book who = a.house.book who := by
  cases a.handleInvitation_answers other knows m with
  | silent forgets => exact book_of_books forgets.books who
  | declined _ _ _ _ house => rw [house]
  | joined _ _ _ _ _ _ _ _ _ forgets house =>
    rw [house, book_setBook_of_ne _ _ different]
    exact book_of_books forgets.books who

theorem applied_books (h : MeetingHouse) (n : Nat) (r : InvitationResponse) :
    (applied h n r).books = h.books ∧ (applied h n r).directory = h.directory := by
  unfold applied
  split <;> exact ⟨rfl, rfl⟩

theorem changes_hear (c : Convening) : Changes (Bypasses who) first a (c.hear m a).2 := by
  have retains := a.retains_hear c m
  cases read : m.response with
  | error e =>
    rw [hear_unread read]
    exact .refl (.refl who) a
  | ok r =>
    rw [(hear_applied read a).1] at retains ⊢
    obtain ⟨books, directory⟩ := applied_books a.house c.room r
    have tends : a.house.Tends (applied a.house c.room r) :=
      tends_of_books retains (directory ▸ List.Subset.refl _) books
    exact changes_of_tends (Nat.le_refl _) tends (tends.bypasses (book_of_books books who))

theorem changes_recordResponse : Changes (Bypasses who) first a (a.recordResponse m).2 := by
  have retains := a.retains_recordResponse m
  generalize done : a.recordResponse m = done' at retains
  have records := a.recordResponse_records m
  rw [done] at records
  obtain ⟨result, a'⟩ := done'
  have same : a'.post = a.post ∧ a'.house.books = a.house.books ∧
      a'.house.directory ⊆ a.house.directory := by
    cases records with
    | taken id n h r _ _ _ forgets house post =>
      obtain ⟨books, directory⟩ := applied_books h n r
      rw [house, books, directory]
      exact ⟨post, forgets.books, forgets.directory⟩
    | refused e house post => exact ⟨post, house.books, house.directory⟩
  obtain ⟨post, books, fewer⟩ := same
  have tends := tends_of_books retains fewer books
  exact changes_of_tends (Nat.le_of_eq (congrArg (·.nextId) post).symm) tends
    (tends.bypasses (book_of_books books who))

theorem changes_sayToMeeting (other : Signature) (id : MeetingId) (content : String) :
    Changes (Bypasses who) first a (a.sayToMeeting other id content).2 := by
  obtain ⟨forgets, adds⟩ := a.sayToMeeting_only_speaks other id content
  have tends := tends_of_books (a.retains_sayToMeeting other id content) forgets.directory
    forgets.books
  exact changes_of_tends adds.ids tends (tends.bypasses (book_of_books forgets.books who))

theorem tends_leaveMeeting (agent : AgentId) (id : MeetingId) :
    a.house.Tends (a.leaveMeeting agent id).2.house := by
  rcases a.leaveMeeting_cases agent id with same | ⟨j, _, h, rfl, left⟩
  · rw [same]
    exact .refl _
  · rw [left]
    have struck : a.house.Tends (a.house.setBook agent ((a.house.book agent).leave id)) := by
      refine (Tends.refl _).setBook rfl ?_
      intro other k found
      have different : id ≠ other := by
        rintro rfl
        rw [MeetingBook.leave, Dict.get?_erase_self] at found
        cases found
      rw [MeetingBook.leave, Dict.get?_erase_of_ne _ different] at found
      exact .inl found
    simp only
    split
    · exact struck.modifyRoom j.room (fun _ => rfl) fun _ => rfl
    · exact struck

theorem post_leaveMeeting (agent : AgentId) (id : MeetingId) :
    (a.leaveMeeting agent id).2.post = a.post := by
  rcases a.leaveMeeting_cases agent id with same | ⟨j, _, h, _, left⟩
  · rw [same]
  · rw [left]

theorem book_leaveMeeting (agent : AgentId) (id : MeetingId) :
    (a.leaveMeeting agent id).2.house.book who =
      if agent = who then (a.house.book who).leave id else a.house.book who := by
  unfold leaveMeeting
  simp only
  split
  · rename_i absent
    split
    · rename_i own
      rw [own] at absent
      rw [MeetingBook.leave, Dict.erase_of_absent absent]
    · rfl
  · have struck : ∀ h : MeetingHouse, h.books =
        (a.house.setBook agent ((a.house.book agent).leave id)).books → h.book who =
          if agent = who then (a.house.book who).leave id else a.house.book who := by
      intro h same
      rw [book_of_books same]
      split
      · rename_i own
        rw [own, book_setBook_self]
      · exact book_setBook_of_ne _ _ (by assumption)
    apply struck
    split <;> rfl

end Operations

/-- What anybody but one agent does to what all share. The rooms of arrangements belong to those who
    have made them, and an agent writes in no book but its own. -/
inductive Elsewhere (who : AgentId) (a : Assembly) : Assembly → Prop where
  | start (owner : Signature) (r : MeetingRequest) (other : owner.id ≠ who) :
    Elsewhere who a (Convening.start owner r a).2
  | hear (c : Convening) (m : Message) : Elsewhere who a (c.hear m a).2
  | settle (owner : Signature) (r : MeetingRequest) (c : Convening) (other : owner.id ≠ who)
    (led : a.house.label c.room = some (c.meeting, owner.id)) :
    Elsewhere who a (c.settle owner r a).2
  | answer (guest : Signature) (knows : String → Bool) (m : Message) (other : guest.id ≠ who) :
    Elsewhere who a (a.handleInvitation guest knows m).2
  | record (m : Message) : Elsewhere who a (a.recordResponse m).2
  | leave (agent : AgentId) (id : MeetingId) (other : agent ≠ who) :
    Elsewhere who a (a.leaveMeeting agent id).2
  | close (agent : AgentId) (id : MeetingId) (other : agent ≠ who) :
    Elsewhere who a (a.closeMeeting agent id).2
  | say (speaker : Signature) (id : MeetingId) (content : String) :
    Elsewhere who a (a.sayToMeeting speaker id content).2
  | look (id : MeetingId) : Elsewhere who a (a.lookup id).2
  | clear : Elsewhere who a { a with house := a.house.prune }
  | write (n : Nat) (key : String) (value : Value) :
    Elsewhere who a (a.modifyRoom n (·.set key value))
  /-- A new agent has an empty book. -/
  | enter (agent : AgentId) (other : agent ≠ who) :
    Elsewhere who a { a with house := a.house.setBook agent .empty }
  /-- Whatever else happens to inboxes and addresses. -/
  | traffic (post : PostOffice) (ids : a.post.nextId ≤ post.nextId) :
    Elsewhere who a { a with post }

theorem changes_start {owner : Signature} (other : owner.id ≠ who) (r : MeetingRequest)
    (a : Assembly) : Changes (Bypasses who) first a (Convening.start owner r a).2 := by
  obtain ⟨i, same, _, _, house, later, _⟩ := Convening.start_opens owner r a
  refine ⟨Nat.le_of_succ_le later, fun consistent few => ?_⟩
  rw [house]
  refine ⟨(consistent.build ?_ (congrArg (·.meeting) same)).later later, ?_⟩
  · exact Nat.lt_of_succ_le (Nat.le_trans later few)
  · exact bypasses_build a.house i.meeting other

theorem changes_settle {owner : Signature} {c : Convening} (other : owner.id ≠ who)
    (led : a.house.label c.room = some (c.meeting, owner.id)) (r : MeetingRequest) :
    Changes (Bypasses who) first a (c.settle owner r a).2 := by
  obtain ⟨post, house⟩ := settle_house c owner r a
  have released := bypasses_release led other
  refine ⟨Nat.le_of_eq (congrArg (·.nextId) post).symm, fun consistent _ => ?_⟩
  rw [post]
  have free := consistent.release c.room
  rcases house with dropped | noted
  · rw [dropped]
    exact ⟨free, released⟩
  · rw [noted]
    exact ⟨free.addOwned led, released.trans (bypasses_setBook _ _ other)⟩

theorem consistent_closeMeeting (consistent : a.house.Consistent first a.post.nextId)
    (agent : AgentId) (id : MeetingId) :
    (a.closeMeeting agent id).2.house.Consistent first (a.closeMeeting agent id).2.post.nextId := by
  obtain ⟨post, same | closed⟩ := a.closeMeeting_house agent id
  · rw [post, same]
    exact consistent
  · rw [post, closed]
    exact (consistent.close agent id).tends (tends_prune _)

theorem changes_closeMeeting {agent : AgentId} (other : agent ≠ who) (id : MeetingId)
    (a : Assembly) : Changes (Bypasses who) first a (a.closeMeeting agent id).2 := by
  obtain ⟨post, house⟩ := a.closeMeeting_house agent id
  refine ⟨Nat.le_of_eq (congrArg (·.nextId) post).symm, fun consistent _ => ?_⟩
  refine ⟨consistent_closeMeeting consistent agent id, ?_⟩
  rcases house with same | closed
  · rw [same]
    exact .refl who _
  · rw [closed]
    exact (bypasses_setBook _ _ other).trans ((tends_prune _).bypasses rfl)

theorem Elsewhere.changes (elsewhere : Elsewhere who a a') :
    Changes (Bypasses who) first a a' := by
  cases elsewhere with
  | start owner r other => exact changes_start other r a
  | hear c m => exact changes_hear a m c
  | settle owner r c other led => exact changes_settle other led r
  | answer guest knows m other =>
    have tends := tends_handleInvitation a m guest knows
    exact changes_of_tends (ids_handleInvitation a m guest knows) tends
      (tends.bypasses (book_handleInvitation a m other knows))
  | record m => exact changes_recordResponse a m
  | leave agent id other =>
    have tends := tends_leaveMeeting a agent id
    refine changes_of_tends (Nat.le_of_eq ?_) tends (tends.bypasses ?_)
    · rw [post_leaveMeeting]
    · rw [book_leaveMeeting, if_neg other]
  | close agent id other => exact changes_closeMeeting other id a
  | say speaker id content => exact changes_sayToMeeting a speaker id content
  | look id =>
    have forgets : a.house.Forgets (a.house.lookup id).2 := a.house.lookup_house id
    have tends := a.house.tends_lookup id
    exact changes_of_tends (Nat.le_refl _) tends (tends.bypasses (book_of_books forgets.books who))
  | clear => exact changes_of_tends (Nat.le_refl _) (tends_prune _) ((tends_prune _).bypasses rfl)
  | write n key value =>
    have tends := (Tends.refl a.house).modifyRoom n (f := (·.set key value)) (fun _ => rfl) fun _ => rfl
    exact changes_of_tends (Nat.le_refl _) tends (tends.bypasses rfl)
  | enter agent other =>
    refine ⟨Nat.le_refl _, fun consistent _ => ⟨?_, bypasses_setBook _ _ other⟩⟩
    exact consistent.setBook .nil nofun nofun
  | traffic post ids => exact changes_of_post ids rfl (.refl who)

end Assembly
end Playbook
