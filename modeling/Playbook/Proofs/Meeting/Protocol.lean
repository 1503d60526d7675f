import Playbook.Proofs.Meeting.Operations

/- Owners and attendees at work on meetings, in any order. Whoever has received a message may handle
   it at any later time, and again; an owner that is arranging a meeting hears one answer at a time. -/
namespace Playbook

/-- A meeting that its owner is arranging. -/
structure Arrangement where
  owner : Signature
  request : MeetingRequest
  convening : Convening

/-- What is shared, the messages received so far, and the meetings being arranged. -/
structure Gathering where
  assembly : Assembly
  received : List Message
  arranging : List Arrangement

/-- What a step means for the members of meetings. -/
inductive Deed where
  | convene (owner : AgentId) (request : MeetingRequest) (meeting : MeetingId)
  /-- An attendee has handled an invitation. -/
  | answer (who : AgentId) (meeting : MeetingId) (accepted : Bool)
  /-- The answer of an attendee has been taken in. -/
  | takeIn (who : AgentId) (meeting : MeetingId) (accepted : Bool)
  | leave (who : AgentId) (meeting : MeetingId)
  | other
deriving DecidableEq

namespace Deed

/-- An attendee accepts when it notes a meeting that its book has not had. -/
def handled (who : AgentId) (m : Message) (a a' : Assembly) : Deed :=
  match m.invitation with
  | .ok i => .answer who i.meeting
    (!(a.house.book who).contains i.meeting && (a'.house.book who).contains i.meeting)
  | .error _ => .other

def taken {ε : Type} : Except ε InvitationResponse → Deed
  | .ok r => .takeIn r.attendee r.meeting r.accepted
  | .error _ => .other

def left (who : AgentId) (id : MeetingId) : Bool → Deed
  | true => .leave who id
  | false => .other

def onRoom : Deed → Room → Room
  | .answer who id true, room | .takeIn who id true, room =>
    if room.id = id then room.addMember who else room
  | .leave who id, room => if room.id = id then room.removeMember who else room
  | _, room => room

def Admits (d : Deed) (who : AgentId) (id : MeetingId) : Prop :=
  d = .answer who id true ∨ d = .takeIn who id true

end Deed

namespace Gathering

def start (first : Nat) (date : String) : Gathering := ⟨Assembly.start first date, [], []⟩

def Sent (g : Gathering) (m : Message) : Prop := g.assembly.post.Holds m ∨ m ∈ g.received

inductive Step (g : Gathering) : Deed → Gathering → Prop where
  | convene (owner : Signature) (request : MeetingRequest) (valid : ValidId .agent owner.id) :
    Step g (.convene owner.id request (Convening.start owner request g.assembly).1.meeting)
      { g with
        assembly := (Convening.start owner request g.assembly).2
        arranging := ⟨owner, request, (Convening.start owner request g.assembly).1⟩ :: g.arranging }
  | hear (before after : List Arrangement) (arr : Arrangement) (m : Message)
    (arranging : g.arranging = before ++ arr :: after) (received : m ∈ g.received)
    (answers : Convening.isAnswer arr.convening.meeting m = true)
    (addressed : m.recipient = some arr.owner.id) :
    Step g (.taken m.response)
      { g with
        assembly := (arr.convening.hear m g.assembly).2
        arranging := before ++
          { arr with convening := (arr.convening.hear m g.assembly).1 } :: after }
  | settle (before after : List Arrangement) (arr : Arrangement)
    (arranging : g.arranging = before ++ arr :: after) :
    Step g .other
      { g with
        assembly := (arr.convening.settle arr.owner arr.request g.assembly).2
        arranging := before ++ after }
  | answer (who : Signature) (knows : String → Bool) (m : Message)
    (valid : ValidId .agent who.id) (received : m ∈ g.received)
    (addressed : m.recipient = some who.id) :
    Step g (.handled who.id m g.assembly (g.assembly.handleInvitation who knows m).2)
      { g with assembly := (g.assembly.handleInvitation who knows m).2 }
  | record (m : Message) (received : m ∈ g.received) (kind : m.kind = .response) :
    Step g (.taken (g.assembly.recordResponse m).1)
      { g with assembly := (g.assembly.recordResponse m).2 }
  | leave (who : AgentId) (id : MeetingId) :
    Step g (.left who id (g.assembly.leaveMeeting who id).1)
      { g with assembly := (g.assembly.leaveMeeting who id).2 }
  | close (owner : AgentId) (id : MeetingId) :
    Step g .other { g with assembly := (g.assembly.closeMeeting owner id).2 }
  | say (who : Signature) (id : MeetingId) (content : String) :
    Step g .other { g with assembly := (g.assembly.sayToMeeting who id content).2 }
  | receive (m : Message) (held : g.assembly.post.Holds m) :
    Step g .other { g with received := m :: g.received }
  /-- Whatever else happens to inboxes and addresses. -/
  | traffic (post : PostOffice)
    (adds : g.assembly.post.Adds (fun m => m.kind.isControl = false ∨ m ∈ g.received) post) :
    Step g .other { g with assembly := { g.assembly with post } }

inductive Run (g : Gathering) : List Deed → Gathering → Prop where
  | nil : Run g [] g
  | snoc {log : List Deed} {d : Deed} {g' g'' : Gathering} (run : Run g log g')
    (step : Step g' d g'') : Run g (log ++ [d]) g''

end Gathering

namespace MeetingHouse

def Has (h : MeetingHouse) (id : MeetingId) (owner : AgentId) : Prop :=
  ∃ n room, h.room? n = some room ∧ room.id = id ∧ room.owner = owner

/-- What becomes of the rooms in a step: one that lives on changes as the deed says, a new one has
    only its owner, and none that is gone comes back. -/
structure Evolves (d : Deed) (h h' : MeetingHouse) : Prop where
  stays : ∀ {n room}, h.room? n = some room → ∃ room', h'.room? n = some room' ∧
    (room' = d.onRoom room ∨ h'.alive n = false ∧ room' = room)
  opened : ∀ {n room'}, h'.room? n = some room' → h.room? n = none →
    (∃ r, d = .convene room'.owner r room'.id) ∧ room'.members = [room'.owner]
  gone : ∀ {n room}, h.room? n = some room → h'.alive n = true → h.alive n = true

end MeetingHouse

theorem Deed.onRoom_id (d : Deed) (room : Room) :
    (d.onRoom room).id = room.id ∧ (d.onRoom room).owner = room.owner := by
  unfold onRoom Room.addMember Room.removeMember
  split
  case h_4 => exact ⟨rfl, rfl⟩
  all_goals
    repeat' split
    all_goals exact ⟨rfl, rfl⟩

namespace MeetingHouse
variable {h h' h'' : MeetingHouse} {d : Deed} {n k : Nat} {room : Room} {f : Room → Room}
  {first next : Nat} {id : MeetingId} {owner : AgentId}

theorem Evolves.stays_same (evolves : Evolves d h h') (here : h.room? n = some room) :
    ∃ room', h'.room? n = some room' ∧ room'.id = room.id ∧ room'.owner = room.owner := by
  obtain ⟨room', there, rfl | ⟨_, rfl⟩⟩ := evolves.stays here
  · exact ⟨_, there, d.onRoom_id room⟩
  · exact ⟨_, there, rfl, rfl⟩

theorem Evolves.has (evolves : Evolves d h h') (has : h.Has id owner) : h'.Has id owner := by
  obtain ⟨n, room, here, rfl, rfl⟩ := has
  obtain ⟨room', there, same⟩ := evolves.stays_same here
  exact ⟨n, room', there, same⟩

theorem evolves_of_rooms (rooms : h'.rooms = h.rooms) (inert : ∀ room, d.onRoom room = room)
    (gone : ∀ {n room}, h.room? n = some room → h'.alive n = true → h.alive n = true) :
    Evolves d h h' where
  stays {n room} here := ⟨room, by rw [room?, rooms]; exact here, .inl (inert room).symm⟩
  opened {n room'} there new := by
    rw [room?, rooms, ← room?, new] at there
    cases there
  gone := gone

theorem evolves_of_modify (sound : h.Sound first next) (rooms : h'.rooms = h.rooms.modify k f)
    (here : h.room? k = some room) (change : d.onRoom room = f room)
    (inert : ∀ other : Room, other.id ≠ room.id → d.onRoom other = other)
    (gone : ∀ {n room}, h.room? n = some room → h'.alive n = true → h.alive n = true) :
    Evolves d h h' := by
  have reads : ∀ n, h'.room? n = if k = n then (h.room? n).map f else h.room? n := by
    intro n
    rw [← room?_modifyRoom, room?, rooms, room?, modifyRoom]
  refine ⟨?_, ?_, gone⟩
  · intro n other there
    rw [reads]
    split
    · rename_i same
      subst same
      cases here.symm.trans there
      exact ⟨f room, by rw [here]; rfl, .inl change.symm⟩
    · rename_i different
      refine ⟨other, there, .inl (inert other ?_).symm⟩
      intro same
      exact different (sound.distinct there here same).symm
  · intro n room' there new
    rw [reads, new] at there
    split at there <;> cases there

theorem evolves_of_build (h : MeetingHouse) (request : MeetingRequest) (room : Room)
    (alone : room.members = [room.owner]) :
    Evolves (.convene room.owner request room.id) h ((h.build room).2.register id h.rooms.length) := by
  have old : ∀ {n other}, h.room? n = some other → n ≠ h.rooms.length := by
    rintro n other here rfl
    rw [room?, List.getElem?_eq_none (Nat.le_refl _)] at here
    cases here
  have reads : ∀ n, ((h.build room).2.register id h.rooms.length).room? n =
      if n = h.rooms.length then some room else h.room? n := room?_build h room
  constructor
  · intro n other here
    exact ⟨other, by rw [reads, if_neg (old here)]; exact here, .inl rfl⟩
  · intro n room' there new
    rw [reads, new] at there
    split at there <;> cases there
    exact ⟨⟨request, rfl⟩, alone⟩
  · intro n other here alive
    rcases alive_iff.1 alive with held | owned
    · rcases List.mem_cons.1 held with same | before
      · exact absurd same (old here)
      · exact alive_iff.2 (.inl before)
    · exact alive_iff.2 (.inr owned)

theorem Forgets.rooms (forgets : h.Forgets h') : h'.rooms = h.rooms := by
  obtain ⟨_, rfl, _⟩ := forgets
  rfl

theorem Forgets.books (forgets : h.Forgets h') : h'.books = h.books := by
  obtain ⟨_, rfl, _⟩ := forgets
  rfl

theorem Forgets.held (forgets : h.Forgets h') : h'.held = h.held := by
  obtain ⟨_, rfl, _⟩ := forgets
  rfl

theorem Forgets.alive (forgets : h.Forgets h') (n : Nat) : h'.alive n = h.alive n := by
  obtain ⟨_, rfl, _⟩ := forgets
  rfl

theorem Forgets.sound (forgets : h.Forgets h') (sound : h.Sound first next) :
    h'.Sound first next := by
  obtain ⟨_, rfl, fewer⟩ := forgets
  exact sound.forget fewer

theorem Forgets.evolves (forgets : h.Forgets h') : Evolves .other h h' :=
  evolves_of_rooms forgets.rooms (fun _ => rfl) fun _ alive => by rwa [← forgets.alive]

theorem forgets_prune (h : MeetingHouse) : h.Forgets h.prune :=
  ⟨_, rfl, List.filter_sublist.subset⟩

end MeetingHouse
end Playbook
