import Playbook.Proofs.Meeting.Membership

/- Every step of a gathering keeps the invariant of membership. -/
namespace Playbook

structure Deed.Inert (d : Deed) : Prop where
  room : ∀ room, d.onRoom room = room
  admits : ∀ {who id}, ¬ d.Admits who id
  leaves : ∀ {who id}, d ≠ .leave who id

theorem Deed.inert_other : Deed.Inert .other where
  room _ := rfl
  admits := by simp [Admits]
  leaves := by simp

theorem Deed.inert_answer (who : AgentId) (id : MeetingId) : Deed.Inert (.answer who id false) where
  room _ := rfl
  admits := by simp [Admits]
  leaves := by simp

theorem Deed.inert_takeIn (who : AgentId) (id : MeetingId) : Deed.Inert (.takeIn who id false) where
  room _ := rfl
  admits := by simp [Admits]
  leaves := by simp

theorem Deed.onRoom_of_admits {d : Deed} {who : AgentId} {id : MeetingId} (admits : d.Admits who id)
    (room : Room) : d.onRoom room = if room.id = id then room.addMember who else room := by
  rcases admits with rfl | rfl <;> rfl

theorem Deed.admits_iff_of_admits {d : Deed} {who other : AgentId} {id id' : MeetingId}
    (admits : d.Admits who id) : d.Admits other id' ↔ other = who ∧ id' = id := by
  constructor
  · intro admits'
    rcases admits with rfl | rfl <;> rcases admits' with same | same <;> cases same <;>
      exact ⟨rfl, rfl⟩
  · rintro ⟨rfl, rfl⟩
    exact admits

namespace Gathering
variable {first : Nat} {log : List Deed} {g g' : Gathering} {d : Deed} {a' : Assembly}
  {who : Signature} {id : MeetingId} {m : Message}

theorem sent_of_adds {new : Message → Prop} {house : MeetingHouse} {arranging : List Arrangement}
    (adds : g.assembly.post.Adds new a'.post)
    (sent : Sent ⟨⟨a'.post, house⟩, g.received, arranging⟩ m) : g.Sent m ∨ new m := by
  rcases sent with holds | received
  · exact (adds.only m holds).imp .inl id
  · exact .inl (.inr received)

theorem Proceeds.quiet (orderly : g.Orderly first log) (inert : d.Inert)
    (forgets : g.assembly.house.Forgets a'.house)
    (adds : g.assembly.post.Adds
      (fun m => m.kind.isControl = true → g.Sent m ∨ Genuine (log ++ [d]) a'.house m) a'.post) :
    Proceeds first log g d { g with assembly := a' } where
  evolves := MeetingHouse.evolves_of_rooms forgets.rooms inert.room fun _ alive => by
    rwa [← forgets.alive]
  sound := (forgets.sound orderly.sound).later adds.ids
  later := adds.ids
  held := forgets.held ▸ orderly.held
  leads _ mem := .inl mem
  sent m sent control := (sent_of_adds adds sent).elim .inl fun new => new control
  admits admits := absurd admits inert.admits
  leaves leaves := absurd leaves inert.leaves

theorem Proceeds.rearranged {arranging : List Arrangement}
    (proceeds : Proceeds first log g d g') (orderly : g.Orderly first log)
    (rooms : arranging.map (·.convening.room) = g'.arranging.map (·.convening.room))
    (same : ∀ arr ∈ arranging, ∃ old ∈ g.arranging, arr.convening.room = old.convening.room ∧
      arr.convening.meeting = old.convening.meeting) :
    Proceeds first log g d { g' with arranging } where
  evolves := proceeds.evolves
  sound := proceeds.sound
  later := proceeds.later
  held := rooms ▸ proceeds.held
  leads arr mem := by
    obtain ⟨old, among, sameRoom, sameMeeting⟩ := same arr mem
    obtain ⟨room, there, named⟩ := (orderly.leads old among).evolves proceeds.evolves
    exact .inr ⟨room, by rw [sameRoom]; exact there, by rw [sameMeeting]; exact named⟩
  sent := proceeds.sent
  admits := proceeds.admits
  leaves := proceeds.leaves

theorem evolves_letIn (orderly : g.Orderly first log) {agent : AgentId} (lets : d.Admits agent id)
    {h h' : MeetingHouse} {n : Nat} {room : Room} (here : g.assembly.house.room? n = some room)
    (named : room.id = id) (forgets : g.assembly.house.Forgets h)
    (rooms : h'.rooms = h.rooms.modify n (·.addMember agent))
    (alive : ∀ {k}, h'.alive k = true → h.alive k = true) : g.assembly.house.Evolves d h' := by
  refine MeetingHouse.evolves_of_modify (f := (·.addMember agent)) orderly.sound ?_ here ?_ ?_ ?_
  · rw [rooms, forgets.rooms]
  · rw [Deed.onRoom_of_admits lets, if_pos named]
  · intro other different
    rw [Deed.onRoom_of_admits lets, if_neg (named ▸ different)]
  · intro k _ _ living
    rw [← forgets.alive]
    exact alive living

theorem Proceeds.letIn (orderly : g.Orderly first log) {agent : AgentId} (lets : d.Admits agent id)
    (evolves : g.assembly.house.Evolves d a'.house)
    (sound : a'.house.Sound first a'.post.nextId)
    (later : g.assembly.post.nextId ≤ a'.post.nextId)
    (held : a'.house.held = g.assembly.house.held)
    (sent : ∀ m, Sent { g with assembly := a' } m → m.kind.isControl = true →
      g.Sent m ∨ Genuine (log ++ [d]) a'.house m)
    {owner : AgentId} (stands : g.assembly.house.Has id owner)
    (admitted : Admitted (log ++ [d]) owner id agent) :
    Proceeds first log g d { g with assembly := a' } where
  evolves := evolves
  sound := sound
  later := later
  held := held ▸ orderly.held
  leads _ mem := .inl mem
  sent := sent
  admits admits := by
    obtain ⟨rfl, rfl⟩ := (Deed.admits_iff_of_admits lets).1 admits
    exact ⟨owner, stands, admitted⟩
  leaves leaves := by
    rcases lets with rfl | rfl <;> cases leaves

theorem Proceeds.takenIn (orderly : g.Orderly first log) {r : InvitationResponse} {h : MeetingHouse}
    {n : Nat} {room : Room} (sent : g.Sent m) (kind : m.kind = .response)
    (read : m.response = .ok r) (here : g.assembly.house.room? n = some room)
    (about : m.meeting = some room.id) (forgets : g.assembly.house.Forgets h)
    (house : a'.house = Assembly.applied h n r) (post : a'.post = g.assembly.post) :
    Proceeds first log g (.takeIn r.attendee r.meeting r.accepted) { g with assembly := a' } := by
  cases orderly.sent m sent (by rw [kind]; rfl) with
  | invitation _ kind' =>
    rw [kind] at kind'
    cases kind'
  | response r' owner _ read' about' stands admitted =>
    cases read.symm.trans read'
    obtain ⟨meeting, attendee, accepted, reason⟩ := r
    obtain rfl : meeting = room.id := Option.some.inj (about'.symm.trans about)
    cases accepted with
    | false =>
      apply Proceeds.quiet orderly (Deed.inert_takeIn attendee room.id)
      · rw [house]
        exact forgets
      · rw [post]
        exact .refl _ _
    | true =>
      have house' : a'.house = h.modifyRoom n (·.addMember attendee) := house
      have lets : Deed.Admits (.takeIn attendee room.id true) attendee room.id := .inr rfl
      apply Proceeds.letIn orderly lets
      case evolves =>
        apply evolves_letIn orderly lets here rfl forgets
        · rw [house']
          rfl
        · intro k alive
          rw [house'] at alive
          exact alive
      case sound =>
        rw [house', post]
        exact (forgets.sound orderly.sound).modifyRoom n (·.addMember_id attendee)
          (·.addMember_owner attendee)
      case later => exact Nat.le_of_eq (congrArg _ post).symm
      case held =>
        rw [house']
        exact forgets.held
      case sent =>
        intro x sent' _
        have adds : g.assembly.post.Adds (fun _ => False) a'.post := post ▸ .refl _ _
        exact .inl ((sent_of_adds adds sent').elim (fun old => old) False.elim)
      case stands => exact stands
      case admitted => exact (admitted rfl).mono (List.subset_append_left ..)

theorem proceeds_hear (orderly : g.Orderly first log) {before after : List Arrangement}
    {arr : Arrangement} (arranging : g.arranging = before ++ arr :: after) (received : m ∈ g.received)
    (answers : Convening.isAnswer arr.convening.meeting m = true) :
    Proceeds first log g (.taken m.response)
      { g with
        assembly := (arr.convening.hear m g.assembly).2
        arranging := before ++
          { arr with convening := (arr.convening.hear m g.assembly).1 } :: after } := by
  have among : arr ∈ g.arranging := by simp [arranging]
  obtain ⟨room, here, named⟩ := orderly.leads arr among
  have kind : m.kind = .response ∧ m.meeting = some arr.convening.meeting := by
    simpa [Convening.isAnswer] using answers
  cases read : m.response with
  | error e =>
    rw [Assembly.hear_unread read, ← arranging]
    exact .quiet orderly Deed.inert_other (.refl _) (.refl _ _)
  | ok r =>
    obtain ⟨applied, sameRoom, sameMeeting⟩ := Assembly.hear_applied (c := arr.convening) read g.assembly
    have taken : Proceeds first log g (.taken (.ok r : Except PostError _))
        { g with assembly := (arr.convening.hear m g.assembly).2 } := by
      apply Proceeds.takenIn orderly (.inr received) kind.1 read here (by rw [kind.2, named]) (.refl _)
      · rw [applied]
      · rw [applied]
    apply taken.rearranged orderly
    · show _ = g.arranging.map _
      simp [arranging, sameRoom]
    · intro other mem
      rcases List.mem_append.1 mem with old | new
      · exact ⟨other, by simp [arranging, old], rfl, rfl⟩
      rcases List.mem_cons.1 new with rfl | old
      · exact ⟨arr, among, sameRoom, sameMeeting⟩
      · exact ⟨other, by simp [arranging, old], rfl, rfl⟩

theorem proceeds_record (orderly : g.Orderly first log) (received : m ∈ g.received)
    (kind : m.kind = .response) :
    Proceeds first log g (.taken (g.assembly.recordResponse m).1)
      { g with assembly := (g.assembly.recordResponse m).2 } := by
  have records := Assembly.recordResponse_records m g.assembly
  generalize (g.assembly.recordResponse m).1 = result at records ⊢
  cases records with
  | refused e house post =>
    exact .quiet orderly Deed.inert_other house (by rw [post]; exact .refl _ _)
  | taken id n h r about found read forgets house post =>
    obtain ⟨mem, _⟩ := MeetingHouse.mem_directory_of_lookup found
    obtain ⟨room, here, named⟩ := orderly.sound.directed mem
    exact .takenIn orderly (.inr received) kind read here (by rw [about, named]) forgets house post

theorem Orderly.valid_of_has (orderly : g.Orderly first log) {owner : AgentId}
    (has : g.assembly.house.Has id owner) : ValidId .meeting id := by
  obtain ⟨n, room, here, rfl, _⟩ := has
  obtain ⟨k, _, _, same⟩ := orderly.sound.minted here
  rw [same]
  exact Uuid.valid_ofBits k

theorem genuine_answer (valid : ValidId .agent who.id) {h : MeetingHouse} {i : Invitation}
    {accepted : Bool} {reason : Option String} (meeting : ValidId .meeting i.meeting)
    (stands : h.Has i.meeting i.owner)
    (admitted : accepted = true → Admitted log i.owner i.meeting who.id)
    (written : ∃ id date, m = (Assembly.answerDraft who i accepted reason).toMessage id date) :
    Genuine log h m := by
  obtain ⟨id, date, rfl⟩ := written
  exact .response ⟨i.meeting, who.id, accepted, reason⟩ i.owner rfl
    (Message.response_written meeting valid rfl) rfl stands admitted

theorem handled_of_same {a a' : Assembly} (same : a'.house.book who.id = a.house.book who.id) :
    (Deed.handled who.id m a a').Inert := by
  unfold Deed.handled
  split
  · rw [same, Bool.not_and_self]
    exact Deed.inert_answer _ _
  · exact Deed.inert_other

theorem Orderly.invited (orderly : g.Orderly first log) (received : m ∈ g.received)
    (addressed : m.recipient = some who.id) (kind : m.kind = .invitation) {i : Invitation}
    (read : m.invitation = .ok i) :
    g.assembly.house.Has i.meeting i.owner ∧ Invited log i.owner i.meeting who.id := by
  cases orderly.sent m (.inr received) (by rw [kind]; rfl) with
  | invitation i' _ read' stands invited =>
    cases read.symm.trans read'
    exact ⟨stands, invited who.id addressed⟩
  | response _ _ kind' =>
    rw [kind] at kind'
    cases kind'

theorem proceeds_answer (orderly : g.Orderly first log) (knows : String → Bool)
    (valid : ValidId .agent who.id) (received : m ∈ g.received)
    (addressed : m.recipient = some who.id) :
    Proceeds first log g (.handled who.id m g.assembly (g.assembly.handleInvitation who knows m).2)
      { g with assembly := (g.assembly.handleInvitation who knows m).2 } := by
  have answers := Assembly.handleInvitation_answers who knows m g.assembly
  generalize (g.assembly.handleInvitation who knows m).2 = a' at answers ⊢
  cases answers with
  | silent house post =>
    have same : a'.house.book who.id = g.assembly.house.book who.id := by
      rw [MeetingHouse.book, house.books, ← MeetingHouse.book]
    exact .quiet orderly (handled_of_same same) house (by rw [post]; exact .refl _ _)
  | declined i reason kind read house post =>
    obtain ⟨stands, _⟩ := orderly.invited received addressed kind read
    have same : a'.house.book who.id = g.assembly.house.book who.id := by rw [house]
    apply Proceeds.quiet orderly (handled_of_same same) (by rw [house]; exact .refl _)
    apply post.mono
    intro x written _
    exact .inr (genuine_answer valid (orderly.valid_of_has stands) (by rw [house]; exact stands)
      (by simp) written)
  | joined i n room h kind read new found here forgets house post =>
    obtain ⟨stands, invited⟩ := orderly.invited received addressed kind read
    obtain ⟨mem, _⟩ := MeetingHouse.mem_directory_of_lookup found
    obtain ⟨room', here', named⟩ := orderly.sound.directed mem
    cases here.symm.trans here'
    have named : room.id = i.meeting := named
    have owned : room.owner = i.owner :=
      orderly.sound.owner_unique ⟨n, room, here, named, rfl⟩ stands
    have noted : (a'.house.book who.id).contains i.meeting = true := by
      rw [house, MeetingHouse.book_setBook_self]
      simp [MeetingBook.contains, MeetingBook.addJoined, named, Dict.contains, Dict.get?_insert_self]
    have accepts : Deed.handled who.id m g.assembly a' = .answer who.id i.meeting true := by
      simp [Deed.handled, read, new, noted]
    rw [accepts]
    have lets : Deed.Admits (.answer who.id i.meeting true) who.id i.meeting := .inl rfl
    have admitted : Admitted (log ++ [.answer who.id i.meeting true]) i.owner i.meeting who.id :=
      ⟨invited.mono (List.subset_append_left ..), by simp⟩
    have evolves : g.assembly.house.Evolves (.answer who.id i.meeting true) a'.house := by
      apply evolves_letIn orderly lets here named forgets
      · rw [house]
        rfl
      · intro k alive
        rw [house] at alive
        refine MeetingHouse.alive_of_setBook_of_subset
          (h := h.modifyRoom n (·.addMember who.id)) ?_ alive
        exact List.Subset.refl _
    apply Proceeds.letIn orderly lets evolves
    case sound =>
      have here' : h.room? n = some room := by
        rw [MeetingHouse.room?, forgets.rooms]
        exact here
      have joined := (forgets.sound orderly.sound).join here' (owned ▸ invited.different.symm)
      rw [house]
      exact joined.later post.ids
    case later => exact post.ids
    case held =>
      rw [house]
      exact forgets.held
    case sent =>
      intro x sent _
      refine (sent_of_adds post sent).imp id fun written => ?_
      exact genuine_answer valid (orderly.valid_of_has stands) (evolves.has stands)
        (fun _ => admitted) written
    case stands => exact stands
    case admitted => exact admitted

theorem evolves_leave (orderly : g.Orderly first log) {h : MeetingHouse} {n : Nat} {room : Room}
    (here : g.assembly.house.room? n = some room) (rooms : h.rooms = g.assembly.house.rooms)
    (alive : ∀ {k}, h.alive k = true → g.assembly.house.alive k = true) (agent : AgentId) :
    g.assembly.house.Evolves (.leave agent room.id)
      (if h.alive n then h.modifyRoom n (·.removeMember agent) else h) := by
  have inert : ∀ other : Room, other.id ≠ room.id → Deed.onRoom (.leave agent room.id) other = other := by
    intro other apart
    simp [Deed.onRoom, apart]
  split
  · refine MeetingHouse.evolves_of_modify (f := (·.removeMember agent)) orderly.sound ?_ here
      ?_ inert fun _ living => alive living
    · rw [← rooms]
      rfl
    · simp [Deed.onRoom]
  · -- The room is gone already, and nothing is struck from its list.
    rename_i dead
    have same : ∀ k, h.room? k = g.assembly.house.room? k := by
      intro k
      rw [MeetingHouse.room?, rooms, ← MeetingHouse.room?]
    refine ⟨?_, ?_, fun _ living => alive living⟩
    · intro k other there
      refine ⟨other, by rw [same]; exact there, ?_⟩
      by_cases equal : other.id = room.id
      · right
        obtain rfl := orderly.sound.distinct there here equal
        exact ⟨by simpa using dead, rfl⟩
      · exact .inl (inert other equal).symm
    · intro k room' there new
      rw [same, new] at there
      cases there

theorem proceeds_leave (orderly : g.Orderly first log) (agent : AgentId) (id : MeetingId) :
    Proceeds first log g (.left agent id (g.assembly.leaveMeeting agent id).1)
      { g with assembly := (g.assembly.leaveMeeting agent id).2 } := by
  rcases g.assembly.leaveMeeting_cases agent id with same | ⟨j, noted, h, written, left⟩
  · rw [same]
    exact .quiet orderly Deed.inert_other (.refl _) (.refl _ _)
  rw [left]
  show Proceeds first log g (.leave agent id) _
  obtain ⟨room, here, named, different⟩ := orderly.sound.joined noted
  subst named
  have alive : ∀ {k}, h.alive k = true → g.assembly.house.alive k = true := by
    intro k living
    rw [written] at living
    refine MeetingHouse.alive_of_setBook_of_subset ?_ living
    exact List.Subset.refl _
  have sound : h.Sound first g.assembly.post.nextId := by
    rw [written]
    exact orderly.sound.leave agent room.id
  have held : h.held = g.assembly.house.held := by
    rw [written]
    rfl
  have evolves := evolves_leave orderly here (by rw [written]; rfl) alive agent
  generalize after : (if h.alive j.room then h.modifyRoom j.room (·.removeMember agent) else h) = h'
    at evolves
  constructor
  case evolves => exact evolves
  case sound =>
    show h'.Sound first _
    rw [← after]
    split
    · exact sound.modifyRoom j.room (fun _ => rfl) fun _ => rfl
    · exact sound
  case later => exact Nat.le_refl _
  case held =>
    have same : h'.held = g.assembly.house.held := by
      rw [← after, ← held]
      split <;> rfl
    show h'.held.Perm _
    rw [same]
    exact orderly.held
  case leads => exact fun _ old => .inl old
  case sent => exact fun _ old _ => .inl old
  case admits =>
    intro other id admits
    rcases admits with equal | equal <;> cases equal
  case leaves =>
    intro other id leaves
    cases leaves
    exact ⟨room.owner, ⟨j.room, room, here, rfl, rfl⟩, different⟩

theorem Proceeds.unsent {arranging : List Arrangement}
    (rooms : a'.house.rooms = g.assembly.house.rooms)
    (alive : ∀ {n room}, g.assembly.house.room? n = some room → a'.house.alive n = true →
      g.assembly.house.alive n = true)
    (sound : a'.house.Sound first g.assembly.post.nextId) (post : a'.post = g.assembly.post)
    (held : a'.house.held.Perm (arranging.map (·.convening.room)))
    (fewer : arranging ⊆ g.arranging) :
    Proceeds first log g .other { g with assembly := a', arranging } where
  evolves := MeetingHouse.evolves_of_rooms rooms Deed.inert_other.room alive
  sound := post ▸ sound
  later := Nat.le_of_eq (congrArg _ post).symm
  held := held
  leads _ mem := .inl (fewer mem)
  sent m sent _ := by
    have adds : g.assembly.post.Adds (fun _ => False) a'.post := post ▸ .refl _ _
    exact .inl ((sent_of_adds adds sent).elim id False.elim)
  admits admits := absurd admits Deed.inert_other.admits
  leaves leaves := absurd leaves Deed.inert_other.leaves

theorem proceeds_close (orderly : g.Orderly first log) (owner : AgentId) (id : MeetingId) :
    Proceeds first log g .other
      { g with assembly := (g.assembly.closeMeeting owner id).2 } := by
  obtain ⟨post, house⟩ := g.assembly.closeMeeting_house owner id
  rcases house with same | closed
  · exact .quiet orderly Deed.inert_other (by rw [same]; exact .refl _) (by rw [post]; exact .refl _ _)
  have forgets := MeetingHouse.forgets_prune
    (g.assembly.house.setBook owner ((g.assembly.house.book owner).close id))
  rw [← closed] at forgets
  apply Proceeds.unsent forgets.rooms _ _ post _ (List.Subset.refl _)
  · intro n room _ alive
    rw [forgets.alive] at alive
    exact MeetingHouse.alive_of_setBook_of_subset List.filter_sublist.subset alive
  · apply forgets.sound
    exact orderly.sound.setBook fun noted => orderly.sound.joined noted
  · exact forgets.held ▸ orderly.held

theorem proceeds_settle (orderly : g.Orderly first log) {before after : List Arrangement}
    {arr : Arrangement} (arranging : g.arranging = before ++ arr :: after) :
    Proceeds first log g .other
      { g with
        assembly := (arr.convening.settle arr.owner arr.request g.assembly).2
        arranging := before ++ after } := by
  obtain ⟨post, house⟩ := Assembly.settle_house arr.convening arr.owner arr.request g.assembly
  generalize (arr.convening.settle arr.owner arr.request g.assembly).2 = a' at post house ⊢
  have living : g.assembly.house.alive arr.convening.room = true := by
    apply MeetingHouse.alive_iff.2
    left
    rw [orderly.held.mem_iff, arranging]
    simp
  have released : (g.assembly.house.held.erase arr.convening.room).Perm
      ((before ++ after).map (·.convening.room)) := by
    have moved := orderly.held
    rw [arranging, (List.perm_middle.map _).congr_right] at moved
    simpa using moved.erase arr.convening.room
  have fewer : before ++ after ⊆ g.arranging := by
    rw [arranging]
    exact ((List.sublist_cons_self arr after).append_left before).subset
  have sound := orderly.sound.hold (g.assembly.house.held.erase arr.convening.room)
  rcases house with failed | came
  · apply Proceeds.unsent _ _ _ post _ fewer
    · rw [failed]
      rfl
    · intro n room _ alive
      rw [failed] at alive
      exact MeetingHouse.alive_of_release alive
    · rw [failed]
      exact sound
    · rw [failed]
      exact released
  · apply Proceeds.unsent _ _ _ post _ fewer
    · rw [came]
      rfl
    · intro n room _ alive
      rw [came] at alive
      have alive' := MeetingHouse.alive_of_release (h := g.assembly.house.setBook arr.owner.id _) alive
      refine MeetingHouse.alive_of_setBook ?_ alive'
      intro o mem
      rcases Dict.mem_of_mem_insert mem with rfl | old
      · exact living
      · exact MeetingHouse.alive_iff.2 (.inr (MeetingHouse.owned_of_book old))
    · rw [came]
      exact sound.setBook fun noted => sound.joined noted
    · rw [came]
      exact released

theorem proceeds_convene (orderly : g.Orderly first log) (owner : Signature)
    (request : MeetingRequest) (valid : ValidId .agent owner.id)
    (few : (Convening.start owner request g.assembly).2.post.nextId ≤ first + 2 ^ 122) :
    Proceeds first log g
      (.convene owner.id request (Convening.start owner request g.assembly).1.meeting)
      { g with
        assembly := (Convening.start owner request g.assembly).2
        arranging := ⟨owner, request, (Convening.start owner request g.assembly).1⟩ :: g.arranging } := by
  obtain ⟨i, named, meeting, room, house, ids, post⟩ := Convening.start_opens owner request g.assembly
  generalize Convening.start owner request g.assembly = p at few meeting room house ids post ⊢
  obtain ⟨c, a'⟩ := p
  simp only at few meeting room house ids post ⊢
  rw [meeting]
  have opened : a'.house.room? c.room =
      some (Room.start i.meeting owner.id request.topic request.playbook) := by
    rw [house, room]
    exact (MeetingHouse.room?_build ..).trans (if_pos rfl)
  have evolves : g.assembly.house.Evolves (.convene owner.id request i.meeting) a'.house := by
    rw [house]
    exact g.assembly.house.evolves_of_build request
      (Room.start i.meeting owner.id request.topic request.playbook) rfl
  refine ⟨evolves, ?_, post.ids, ?_, ?_, ?_, ?_, ?_⟩
  · show a'.house.Sound first a'.post.nextId
    rw [house]
    refine (orderly.sound.open_ (by omega) orderly.begun ?_).later ids
    rw [named]
    rfl
  · show a'.house.held.Perm _
    rw [house, List.map_cons, room]
    exact orderly.held.cons _
  · intro arr mem
    rcases List.mem_cons.1 mem with rfl | before
    · exact .inr ⟨_, opened, meeting.symm⟩
    · exact .inl before
  · intro m sent _
    refine (sent_of_adds post sent).imp id ?_
    rintro ⟨attendee, among, different, id, date, rfl⟩
    have owned : i.owner = owner.id := by rw [named]
    refine .invitation i rfl ?_ ⟨c.room, _, opened, rfl, owned.symm⟩ ?_
    · apply Message.invitation_written _ (owned ▸ valid) rfl
      rw [named]
      exact Uuid.valid_ofBits _
    · intro who addressed
      cases addressed
      rw [owned]
      exact ⟨request, by simp, among, different⟩
  · intro who id admits
    rcases admits with same | same <;> cases same
  · intro who id leaves
    cases leaves

theorem Step.proceeds (step : Step g d g') (orderly : g.Orderly first log)
    (few : g'.assembly.post.nextId ≤ first + 2 ^ 122) : Proceeds first log g d g' := by
  cases step with
  | convene owner request valid => exact proceeds_convene orderly owner request valid few
  | hear before after arr m arranging received answers _ =>
    exact proceeds_hear orderly arranging received answers
  | settle before after arr arranging => exact proceeds_settle orderly arranging
  | answer who knows m valid received addressed =>
    exact proceeds_answer orderly knows valid received addressed
  | record m received kind => exact proceeds_record orderly received kind
  | leave who id => exact proceeds_leave orderly who id
  | close owner id => exact proceeds_close orderly owner id
  | say who id content =>
    obtain ⟨forgets, post⟩ := g.assembly.sayToMeeting_only_speaks who id content
    refine .quiet orderly Deed.inert_other forgets (post.mono ?_)
    intro m plain control
    rw [plain] at control
    cases control
  | receive m held =>
    refine ⟨(MeetingHouse.Forgets.refl _).evolves, orderly.sound, Nat.le_refl _, orderly.held,
      fun _ => .inl, ?_, fun admits => absurd admits Deed.inert_other.admits,
      fun leaves => absurd leaves Deed.inert_other.leaves⟩
    intro x sent _
    rcases sent with holds | received
    · exact .inl (.inl holds)
    · rcases List.mem_cons.1 received with rfl | before
      · exact .inl (.inl held)
      · exact .inl (.inr before)
  | traffic post adds =>
    refine .quiet orderly Deed.inert_other (.refl _) (adds.mono ?_)
    intro m new control
    rcases new with plain | received
    · rw [plain] at control
      cases control
    · exact .inl (.inr received)

theorem Step.ids_le (step : Step g d g') : g.assembly.post.nextId ≤ g'.assembly.post.nextId := by
  have unchanged : ∀ {a' : Assembly}, a'.post = g.assembly.post →
      g.assembly.post.nextId ≤ a'.post.nextId := fun same => Nat.le_of_eq (congrArg _ same).symm
  cases step with
  | convene owner request =>
    obtain ⟨_, _, _, _, _, _, post⟩ := Convening.start_opens owner request g.assembly
    exact post.ids
  | hear before after arr m =>
    apply unchanged
    cases read : m.response with
    | error e => rw [Assembly.hear_unread read]
    | ok r => rw [(Assembly.hear_applied read g.assembly).1]
  | settle before after arr => exact unchanged (Assembly.settle_house ..).1
  | answer who knows m =>
    cases g.assembly.handleInvitation_answers who knows m with
    | silent _ post => exact unchanged post
    | declined _ _ _ _ _ post => exact post.ids
    | joined _ _ _ _ _ _ _ _ _ _ _ post => exact post.ids
  | record m =>
    have records := g.assembly.recordResponse_records m
    generalize (g.assembly.recordResponse m).1 = result at records
    cases records with
    | taken _ _ _ _ _ _ _ _ _ post => exact unchanged post
    | refused _ _ post => exact unchanged post
  | leave who id =>
    rcases g.assembly.leaveMeeting_cases who id with same | ⟨_, _, _, _, left⟩
    · exact unchanged (by rw [same])
    · exact unchanged (by rw [left])
  | close owner id => exact unchanged (g.assembly.closeMeeting_house owner id).1
  | say who id content => exact (g.assembly.sayToMeeting_only_speaks who id content).2.ids
  | receive => exact Nat.le_refl _
  | traffic post adds => exact adds.ids

theorem start_orderly (first : Nat) (date : String) : (start first date).Orderly first [] where
  sound := .empty first
  begun := Nat.le_refl first
  held := .refl _
  leads _ mem := nomatch mem
  sent m sent _ := by
    rcases sent with ⟨inbox, among, _⟩ | received
    · cases among
    · cases received
  filled n room here := by cases here

theorem Run.ids_le (run : Run g log g') : g.assembly.post.nextId ≤ g'.assembly.post.nextId := by
  induction run with
  | nil => exact Nat.le_refl _
  | snoc _ step ih => exact Nat.le_trans ih step.ids_le

theorem Run.orderly {before : List Deed} (run : Run g log g') (orderly : g.Orderly first before)
    (few : g'.assembly.post.nextId ≤ first + 2 ^ 122) : g'.Orderly first (before ++ log) := by
  induction run with
  | nil => simpa using orderly
  | snoc run step ih =>
    have reached := ih (Nat.le_trans step.ids_le few)
    rw [← List.append_assoc]
    exact (step.proceeds reached few).orderly reached

theorem Run.split {early late : List Deed} (run : Run g (early ++ late) g') :
    ∃ between, Run g early between ∧ Run between late g' := by
  generalize both : early ++ late = log at run
  induction run generalizing late with
  | nil =>
    obtain ⟨rfl, rfl⟩ := List.append_eq_nil_iff.1 both
    exact ⟨g, .nil, .nil⟩
  | @snoc log d g₁ g₂ run step ih =>
    rcases List.eq_nil_or_concat late with rfl | ⟨front, last, rfl⟩
    · rw [List.append_nil] at both
      subst both
      exact ⟨g₂, .snoc run step, .nil⟩
    · rw [List.concat_eq_append, ← List.append_assoc] at both
      obtain ⟨front_same, last_same⟩ := List.append_inj' both rfl
      cases last_same
      obtain ⟨between, first, second⟩ := ih front_same
      exact ⟨between, first, List.concat_eq_append ▸ .snoc second step⟩

theorem Run.head (run : Run g (d :: log) g') : ∃ g₁, Step g d g₁ ∧ Run g₁ log g' := by
  have cut : Run g ([d] ++ log) g' := run
  obtain ⟨g₁, single, rest⟩ := cut.split
  generalize alone : [d] = deeds at single
  cases single with
  | nil => cases alone
  | @snoc deeds last g₀ _ before step =>
    have same : [] ++ [d] = deeds ++ [last] := alone
    obtain ⟨rfl, equal⟩ := List.append_inj' same rfl
    cases equal
    generalize empty : ([] : List Deed) = deeds at before
    cases before with
    | nil => exact ⟨g₁, step, rest⟩
    | snoc => simp at empty

end Gathering
end Playbook
