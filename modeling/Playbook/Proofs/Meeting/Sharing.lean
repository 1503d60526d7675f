import Playbook.Agent.Host
import Playbook.Proofs.Meeting.Ownership

/- One room is a meeting to everybody. It is reached by the directory, by the book of its owner and by
   those who have joined, as far as they have recorded it, exactly while the meeting is being arranged
   or its owner has it; all of them read in it what was written last by any of them; and what happens
   in other meetings does not touch it. -/
namespace Playbook

/-- What happens among agents that meet: a step of arranging and attending, a look into the directory
    or its clearing, a value shared in a meeting. -/
inductive Event where
  | deed (d : Deed)
  | look (meeting : MeetingId)
  | clear
  | write (meeting : MeetingId) (key : String) (value : Value)

namespace Event

def toDeed : Event → Deed
  | .deed d => d
  | _ => .other

/-- The meeting whose members or state it can change. -/
def about : Event → Option MeetingId
  | .deed (.convene _ _ id) | .deed (.answer _ id _) | .deed (.takeIn _ id _) | .deed (.leave _ id)
  | .write id _ _ => some id
  | .deed .other | .look _ | .clear => none

def gives (id : MeetingId) (key : String) : Event → Option Value
  | .write id' key' value => if id' = id ∧ key' = key then some value else none
  | _ => none

/-- The value that a key of a meeting was given last. -/
def latest (log : List Event) (id : MeetingId) (key : String) : Option Value :=
  (log.filterMap (gives id key)).getLast?

variable {log : List Event} {e : Event} {id : MeetingId} {key : String} {room : Room}

theorem latest_snoc (log : List Event) (e : Event) (id : MeetingId) (key : String) :
    latest (log ++ [e]) id key = (e.gives id key).or (latest log id key) := by
  rw [latest, List.filterMap_append, List.getLast?_append]
  cases given : e.gives id key with
  | none => simp [given, latest]
  | some value => simp [given]

theorem latest_deed (log : List Event) (d : Deed) : latest (log ++ [.deed d]) = latest log := by
  funext id key
  exact latest_snoc log (.deed d) id key

theorem latest_eq_none (unwritten : ∀ key value, .write id key value ∉ log) (key : String) :
    latest log id key = none := by
  rw [latest, List.getLast?_eq_none_iff, List.filterMap_eq_nil_iff]
  intro e mem
  cases e with
  | write id' key' value =>
    rw [gives, if_neg]
    rintro ⟨rfl, _⟩
    exact unwritten _ _ mem
  | _ => rfl

theorem onRoom_of_about {d : Deed} (elsewhere : about (.deed d) ≠ some room.id) :
    d.onRoom room = room := by
  have apart : ∀ {id : MeetingId}, some id ≠ some room.id → room.id ≠ id :=
    fun different same => different (congrArg some same.symm)
  unfold Deed.onRoom
  split
  · exact if_neg (apart elsewhere)
  · exact if_neg (apart elsewhere)
  · exact if_neg (apart elsewhere)
  · rfl

end Event

theorem Deed.onRoom_state (d : Deed) (room : Room) : (d.onRoom room).state = room.state := by
  unfold onRoom Room.addMember Room.removeMember
  split
  case h_4 => rfl
  all_goals
    repeat' split
    all_goals rfl

namespace MeetingHouse
variable {h h' : MeetingHouse} {d : Deed} {n k : Nat} {id : MeetingId} {owner who : AgentId}
  {first next : Nat} {log : List Event} {room : Room}

theorem Sound.label_unique (sound : h.Sound first next) {owner' : AgentId}
    (one : h.label n = some (id, owner)) (other : h.label k = some (id, owner')) :
    n = k ∧ owner = owner' := by
  obtain ⟨room, here, same, _⟩ := room_of_label one
  obtain ⟨room', there, same', _⟩ := room_of_label other
  obtain rfl := sound.distinct here there (same.trans same'.symm)
  cases one.symm.trans other
  exact ⟨rfl, rfl⟩

theorem Evolves.label (evolves : h.Evolves d h') (labelled : h.label n = some (id, owner)) :
    h'.label n = some (id, owner) := by
  obtain ⟨room, here, rfl, rfl⟩ := room_of_label labelled
  obtain ⟨room', there, same, same'⟩ := evolves.stays_same here
  rw [label_of_room there, same, same']

structure Recorded (log : List Event) (h : MeetingHouse) : Prop where
  opened : ∀ {owner r id}, .deed (.convene owner r id) ∈ log → ∃ n, h.label n = some (id, owner)
  written : ∀ {id key value}, .write id key value ∈ log → ∃ n owner, h.label n = some (id, owner)
  state : ∀ {n room}, h.room? n = some room →
    ∀ key, room.state.get? key = Event.latest log room.id key

theorem Recorded.deed (recorded : h.Recorded log) (evolves : h.Evolves d h')
    (sound : h'.Sound first next)
    (convened : ∀ {owner r id}, d = .convene owner r id → ∃ n, h'.label n = some (id, owner))
    (blank : ∀ {n room}, h'.room? n = some room → h.room? n = none → room.state = []) :
    h'.Recorded (log ++ [.deed d]) where
  opened {owner r id} mem := by
    rcases List.mem_append.1 mem with old | new
    · obtain ⟨n, labelled⟩ := recorded.opened old
      exact ⟨n, evolves.label labelled⟩
    · cases List.mem_singleton.1 new
      exact convened rfl
  written {id key value} mem := by
    rcases List.mem_append.1 mem with old | new
    · obtain ⟨n, owner, labelled⟩ := recorded.written old
      exact ⟨n, owner, evolves.label labelled⟩
    · cases List.mem_singleton.1 new
  state {n room'} there key := by
    rw [Event.latest_deed]
    cases here : h.room? n with
    | none =>
      rw [blank there here, Event.latest_eq_none]
      · rfl
      · intro key value mem
        obtain ⟨k, owner, labelled⟩ := recorded.written mem
        obtain ⟨same, _⟩ := sound.label_unique (label_of_room there) (evolves.label labelled)
        obtain ⟨room, old, _⟩ := room_of_label labelled
        rw [← same, here] at old
        cases old
    | some room =>
      have before := recorded.state here key
      obtain ⟨room'', there', change⟩ := evolves.stays here
      cases there.symm.trans there'
      rcases change with rfl | ⟨_, rfl⟩
      · rw [d.onRoom_state, (d.onRoom_id room).1]
        exact before
      · exact before

theorem Recorded.retains (recorded : h.Recorded log) {e : Event} (retains : h.Retains h')
    (silent : ∀ d, e ≠ .deed d)
    (about : ∀ {id key value}, e = .write id key value → ∃ n owner, h.label n = some (id, owner))
    (state : ∀ {n room}, h'.room? n = some room →
      ∀ key, room.state.get? key = Event.latest (log ++ [e]) room.id key) :
    h'.Recorded (log ++ [e]) where
  opened mem := by
    rcases List.mem_append.1 mem with old | new
    · obtain ⟨n, labelled⟩ := recorded.opened old
      exact ⟨n, (retains.labels n).trans labelled⟩
    · exact absurd (List.mem_singleton.1 new).symm (silent _)
  written mem := by
    rcases List.mem_append.1 mem with old | new
    · obtain ⟨n, owner, labelled⟩ := recorded.written old
      exact ⟨n, owner, (retains.labels n).trans labelled⟩
    · obtain ⟨n, owner, labelled⟩ := about (List.mem_singleton.1 new).symm
      exact ⟨n, owner, (retains.labels n).trans labelled⟩
  state := state

theorem Regular.label_of_roomOf (regular : h.Regular) (sound : h.Sound first next)
    (reached : h.roomOf who id = .ok n) : ∃ owner, h.label n = some (id, owner) := by
  unfold roomOf at reached
  split at reached
  · rename_i o found
    cases reached
    exact ⟨who, regular.owned found⟩
  · split at reached
    · rename_i j found
      obtain ⟨room, here, same, _⟩ := sound.joined found
      split at reached
      · cases reached
        exact ⟨room.owner, by rw [label_of_room here, same]⟩
      · cases reached
    · cases reached

theorem alive_of_roomOf (reached : h.roomOf who id = .ok n) :
    (h.book who).contains id = true ∧ h.alive n = true := by
  unfold roomOf at reached
  rw [MeetingBook.contains, Dict.contains, Dict.contains]
  split at reached
  · rename_i o found
    cases reached
    exact ⟨by simp [found], alive_iff.2 (.inr (owned_of_book (Dict.mem_of_get? found)))⟩
  · rename_i absent
    split at reached
    · rename_i j found
      split at reached
      · rename_i alive
        cases reached
        exact ⟨by simp [found], alive⟩
      · cases reached
    · cases reached

theorem roomOf_found (who : AgentId) (id : MeetingId) (h : MeetingHouse) :
    (∃ n, h.roomOf who id = .ok n) ∨ h.roomOf who id = .error (.notFound id) := by
  unfold roomOf
  split
  · exact .inl ⟨_, rfl⟩
  · split
    · split
      · exact .inl ⟨_, rfl⟩
      · exact .inr rfl
    · exact .inr rfl

theorem Regular.roomOf_iff (regular : h.Regular) (sound : h.Sound first next)
    (labelled : h.label n = some (id, owner)) (who : AgentId) (k : Nat) :
    h.roomOf who id = .ok k ↔
      k = n ∧ (h.book who).contains id = true ∧ h.alive n = true := by
  constructor
  · intro reached
    obtain ⟨_, there⟩ := regular.label_of_roomOf sound reached
    obtain ⟨rfl, _⟩ := sound.label_unique there labelled
    exact ⟨rfl, alive_of_roomOf reached⟩
  · rintro ⟨rfl, noted, alive⟩
    unfold roomOf
    split
    · rename_i o found
      rw [(sound.label_unique (regular.owned found) labelled).1]
    · rename_i absent
      rw [MeetingBook.contains, Dict.contains, absent] at noted
      obtain ⟨j, found⟩ := Option.isSome_iff_exists.1 (noted : ((h.book who).joined.get? id).isSome)
      obtain ⟨room, here, named, _⟩ := sound.joined found
      have there := label_of_room here
      rw [named] at there
      obtain ⟨same, _⟩ := sound.label_unique there labelled
      rw [found]
      simp only [same, alive, if_true]

theorem Regular.lookup_iff (regular : h.Regular) (sound : h.Sound first next)
    (labelled : h.label n = some (id, owner)) (k : Nat) :
    (h.lookup id).1 = some k ↔ k = n ∧ h.alive n = true := by
  constructor
  · intro found
    obtain ⟨mem, alive⟩ := mem_directory_of_lookup found
    obtain ⟨room, here, named⟩ := sound.directed mem
    have there := label_of_room here
    rw [named] at there
    obtain ⟨rfl, _⟩ := sound.label_unique there labelled
    exact ⟨rfl, alive⟩
  · rintro ⟨rfl, alive⟩
    simp only [lookup, regular.listed labelled alive, alive, if_true]

end MeetingHouse

def Arrangement.stake (arr : Arrangement) : Nat × MeetingId × AgentId :=
  (arr.convening.room, arr.convening.meeting, arr.owner.id)

namespace Gathering
variable {g g' : Gathering} {d : Deed} {first : Nat} {log : List Event} {deeds : List Deed}
  {id : MeetingId} {owner who : AgentId} {n : Nat} {date : String}

/-- Those who arrange meetings have rooms of their own, and their meetings stand in no book yet. -/
structure Staked (g : Gathering) : Prop where
  regular : g.assembly.house.Regular
  led : ∀ s ∈ g.arranging.map (·.stake), g.assembly.house.label s.1 = some s.2
  apart : (g.arranging.map (·.stake.1)).Nodup
  unowned : ∀ s ∈ g.arranging.map (·.stake),
    (g.assembly.house.book s.2.2).owned.get? s.2.1 = none

theorem Staked.retains (staked : g.Staked)
    (retains : g.assembly.house.Retains g'.assembly.house)
    (same : g'.arranging.map (·.stake) = g.arranging.map (·.stake)) : g'.Staked where
  regular := retains.regular staked.regular
  led s mem := by
    rw [retains.labels]
    exact staked.led s (same ▸ mem)
  apart := by
    have rooms := congrArg (List.map Prod.fst) same
    rw [List.map_map, List.map_map] at rooms
    exact rooms ▸ staked.apart
  unowned s mem := by
    rw [retains.owned]
    exact staked.unowned s (same ▸ mem)

/-- The meeting is being arranged, or its owner has it. -/
def Live (g : Gathering) (owner : AgentId) (id : MeetingId) : Prop :=
  (∃ arr ∈ g.arranging, arr.convening.meeting = id) ∨
    (g.assembly.house.book owner).owned.contains id = true

theorem Staked.alive_iff (staked : g.Staked) (orderly : g.Orderly first deeds)
    (labelled : g.assembly.house.label n = some (id, owner)) :
    g.assembly.house.alive n = true ↔ g.Live owner id := by
  rw [MeetingHouse.alive_iff, orderly.held.mem_iff, staked.regular.owned_iff]
  constructor
  · rintro (arranged | ⟨who, id', o, found, rfl⟩)
    · obtain ⟨arr, mem, rfl⟩ := List.mem_map.1 arranged
      cases (staked.led _ (List.mem_map_of_mem mem)).symm.trans labelled
      exact .inl ⟨arr, mem, rfl⟩
    · cases (staked.regular.owned found).symm.trans labelled
      exact .inr (by rw [Dict.contains, found]; rfl)
  · rintro (⟨arr, mem, rfl⟩ | owned)
    · obtain ⟨same, _⟩ := orderly.sound.label_unique labelled
        (staked.led _ (List.mem_map_of_mem mem))
      exact .inl (List.mem_map.2 ⟨arr, mem, same.symm⟩)
    · obtain ⟨o, found⟩ := Option.isSome_iff_exists.1 owned
      obtain ⟨same, _⟩ := orderly.sound.label_unique labelled (staked.regular.owned found)
      exact .inr ⟨owner, id, o, found, same.symm⟩

theorem Staked.unowned_of_arranged (staked : g.Staked) (orderly : g.Orderly first deeds)
    {arr : Arrangement} (mem : arr ∈ g.arranging) (who : AgentId) :
    (g.assembly.house.book who).owned.get? arr.convening.meeting = none := by
  have among : arr.stake ∈ g.arranging.map (·.stake) := List.mem_map_of_mem mem
  cases found : (g.assembly.house.book who).owned.get? arr.convening.meeting with
  | none => rfl
  | some o =>
    obtain ⟨_, rfl⟩ := orderly.sound.label_unique (staked.regular.owned found) (staked.led _ among)
    exact absurd (staked.unowned _ among) (by rw [Arrangement.stake, found]; simp)

theorem Staked.alone (staked : g.Staked) (orderly : g.Orderly first deeds)
    {before after : List Arrangement} {arr other : Arrangement}
    (arranging : g.arranging = before ++ arr :: after) (mem : other ∈ before ++ after) :
    other.convening.meeting ≠ arr.convening.meeting := by
  intro same
  have here : arr ∈ g.arranging := by rw [arranging]; simp
  have there : other ∈ g.arranging := by
    rw [arranging]
    exact ((List.sublist_cons_self arr after).append_left before).subset mem
  have led := staked.led _ (List.mem_map_of_mem (f := (·.stake)) there)
  rw [Arrangement.stake, same] at led
  obtain ⟨rooms, _⟩ := orderly.sound.label_unique led (staked.led _ (List.mem_map_of_mem here))
  have apart := staked.apart
  rw [arranging, (List.perm_middle.map _).nodup_iff, List.map_cons, List.nodup_cons] at apart
  exact apart.1 (List.mem_map.2 ⟨other, mem, rooms⟩)

inductive Effect (g : Gathering) (d : Deed) (g' : Gathering) : Prop where
  | retains (retains : g.assembly.house.Retains g'.assembly.house)
    (stakes : g'.arranging.map (·.stake) = g.arranging.map (·.stake))
    (plain : ∀ owner r id, d ≠ .convene owner r id)
  | convened (owner : AgentId) (r : MeetingRequest) (id : MeetingId)
    (named : d = .convene owner r id)
    (house : g'.assembly.house =
      (g.assembly.house.build (Room.start id owner r.topic r.playbook)).2.register id
        g.assembly.house.rooms.length)
    (stakes : g'.arranging.map (·.stake) =
      (g.assembly.house.rooms.length, id, owner) :: g.arranging.map (·.stake))
  | dropped (before after : List Arrangement) (arr : Arrangement)
    (arranging : g.arranging = before ++ arr :: after) (named : d = .other)
    (house : g'.assembly.house = g.assembly.house.release arr.convening.room)
    (rest : g'.arranging = before ++ after)
  | owned (before after : List Arrangement) (arr : Arrangement) (o : OwnedMeeting)
    (arranging : g.arranging = before ++ arr :: after) (named : d = .other)
    (room : o.room = arr.convening.room)
    (house : g'.assembly.house =
      (g.assembly.house.release arr.convening.room).setBook arr.owner.id
        ((g.assembly.house.book arr.owner.id).addOwned arr.convening.meeting o))
    (rest : g'.arranging = before ++ after)
  | closed (owner : AgentId) (id : MeetingId) (named : d = .other)
    (house : g'.assembly.house =
      (g.assembly.house.setBook owner ((g.assembly.house.book owner).close id)).prune)
    (rest : g'.arranging = g.arranging)

theorem plain_taken {ε : Type} (read : Except ε InvitationResponse) (owner : AgentId)
    (r : MeetingRequest) (id : MeetingId) : Deed.taken read ≠ .convene owner r id := by
  cases read <;> exact nofun

theorem plain_handled (agent : AgentId) (m : Message) (a a' : Assembly) (owner : AgentId)
    (r : MeetingRequest) (id : MeetingId) : Deed.handled agent m a a' ≠ .convene owner r id := by
  unfold Deed.handled
  split <;> exact nofun

theorem plain_left (agent : AgentId) (other : MeetingId) (found : Bool) (owner : AgentId)
    (r : MeetingRequest) (id : MeetingId) : Deed.left agent other found ≠ .convene owner r id := by
  cases found <;> exact nofun

theorem Step.effect (step : Step g d g') : Effect g d g' := by
  cases step with
  | convene owner r valid =>
    obtain ⟨i, rfl, meeting, room, house, _⟩ := Convening.start_opens owner r g.assembly
    refine .convened owner.id r _ (by rw [meeting]) house ?_
    rw [List.map_cons, Arrangement.stake, room, meeting]
  | hear before after arr m arranging received answers addressed =>
    refine .retains (Assembly.retains_hear ..) ?_ (plain_taken _)
    have same : Arrangement.stake { arr with convening := (arr.convening.hear m g.assembly).1 } =
        arr.stake := by
      cases read : m.response with
      | error e => rw [Assembly.hear_unread read]
      | ok r =>
        obtain ⟨_, room, meeting⟩ := Assembly.hear_applied (c := arr.convening) read g.assembly
        rw [Arrangement.stake, room, meeting, Arrangement.stake]
    rw [arranging, List.map_append, List.map_append, List.map_cons, List.map_cons, same]
  | settle before after arr arranging =>
    unfold Convening.settle
    split
    · exact .dropped before after arr arranging rfl rfl rfl
    · exact .owned before after arr _ arranging rfl rfl rfl rfl
  | answer who knows m =>
    exact .retains (Assembly.retains_handleInvitation ..) rfl (plain_handled _ _ _ _)
  | record m => exact .retains (Assembly.retains_recordResponse ..) rfl (plain_taken _)
  | leave agent id => exact .retains (Assembly.retains_leaveMeeting ..) rfl (plain_left _ _ _)
  | close owner id =>
    obtain ⟨_, same | closed⟩ := g.assembly.closeMeeting_house owner id
    · exact .retains (by rw [same]; exact .refl _) rfl nofun
    · exact .closed owner id rfl closed rfl
  | say who id content => exact .retains (Assembly.retains_sayToMeeting ..) rfl nofun
  | receive => exact .retains (.refl _) rfl nofun
  | traffic => exact .retains (.refl _) rfl nofun

theorem Staked.convened (staked : g.Staked) {r : MeetingRequest} {next : Nat}
    (sound : g'.assembly.house.Sound first next)
    (house : g'.assembly.house =
      (g.assembly.house.build (Room.start id owner r.topic r.playbook)).2.register id
        g.assembly.house.rooms.length)
    (stakes : g'.arranging.map (·.stake) =
      (g.assembly.house.rooms.length, id, owner) :: g.arranging.map (·.stake)) : g'.Staked := by
  have labels : ∀ n, g'.assembly.house.label n =
      if n = g.assembly.house.rooms.length then some (id, owner) else g.assembly.house.label n := by
    intro n
    rw [house]
    exact g.assembly.house.label_build _ n
  have old : ∀ {s}, s ∈ g.arranging.map (·.stake) → s.1 ≠ g.assembly.house.rooms.length := by
    intro s mem same
    have led := staked.led s mem
    rw [same, MeetingHouse.label_beyond] at led
    cases led
  refine ⟨?_, ?_, ?_, ?_⟩
  · rw [house] at sound ⊢
    exact staked.regular.build sound
  · intro s mem
    rw [stakes] at mem
    rw [labels]
    rcases List.mem_cons.1 mem with rfl | before
    · exact if_pos rfl
    · rw [if_neg (old before)]
      exact staked.led s before
  · have rooms := congrArg (List.map Prod.fst) stakes
    rw [List.map_cons, List.map_map, List.map_map] at rooms
    refine rooms ▸ List.nodup_cons.2 ⟨?_, staked.apart⟩
    intro mem
    obtain ⟨arr, among, same⟩ := List.mem_map.1 mem
    exact old (List.mem_map_of_mem among) same
  · intro s mem
    rw [stakes] at mem
    have books : ∀ who, g'.assembly.house.book who = g.assembly.house.book who := by
      intro who
      rw [house]
      rfl
    rw [books]
    rcases List.mem_cons.1 mem with rfl | before
    · -- Nobody has a record of a meeting that has only just got its id.
      cases found : (g.assembly.house.book owner).owned.get? id with
      | none => rfl
      | some o =>
        have recorded := staked.regular.owned found
        have elsewhere : o.room ≠ g.assembly.house.rooms.length := by
          intro same
          rw [same, MeetingHouse.label_beyond] at recorded
          cases recorded
        have there : g'.assembly.house.label o.room = some (id, owner) := by
          rw [labels, if_neg elsewhere, recorded]
        exact absurd (sound.label_unique there ((labels _).trans (if_pos rfl))).1 elsewhere
    · exact staked.unowned s before

theorem Staked.fewer (staked : g.Staked) {before after : List Arrangement} {arr : Arrangement}
    (arranging : g.arranging = before ++ arr :: after) (regular : g'.assembly.house.Regular)
    (labels : ∀ n, g'.assembly.house.label n = g.assembly.house.label n)
    (unowned : ∀ other ∈ before ++ after,
      (g.assembly.house.book other.owner.id).owned.get? other.convening.meeting = none →
      (g'.assembly.house.book other.owner.id).owned.get? other.convening.meeting = none)
    (rest : g'.arranging = before ++ after) : g'.Staked := by
  have sub : (before ++ after).Sublist g.arranging := by
    rw [arranging]
    exact (List.sublist_cons_self arr after).append_left before
  refine ⟨regular, ?_, ?_, ?_⟩
  · intro s mem
    rw [labels]
    rw [rest] at mem
    exact staked.led s ((sub.map _).subset mem)
  · rw [rest]
    exact staked.apart.sublist (sub.map _)
  · intro s mem
    rw [rest] at mem
    obtain ⟨other, among, rfl⟩ := List.mem_map.1 mem
    exact unowned other among (staked.unowned _ ((sub.map _).subset mem))

theorem Effect.staked (effect : Effect g d g') (staked : g.Staked)
    (orderly : g.Orderly first deeds) {next : Nat} (sound : g'.assembly.house.Sound first next) :
    g'.Staked := by
  cases effect with
  | retains retains stakes => exact staked.retains retains stakes
  | convened owner r id _ house stakes => exact staked.convened sound house stakes
  | dropped before after arr arranging _ house rest =>
    refine staked.fewer arranging ?_ ?_ ?_ rest
    · rw [house]
      exact staked.regular.release _
    · rw [house]
      exact fun _ => rfl
    · rw [house]
      exact fun _ _ absent => absent
  | owned before after arr o arranging _ room house rest =>
    have among : arr.stake ∈ g.arranging.map (·.stake) := by
      rw [arranging]
      exact List.mem_map_of_mem (by simp)
    have living : g.assembly.house.alive arr.convening.room = true := by
      apply MeetingHouse.alive_iff.2
      left
      rw [orderly.held.mem_iff, arranging]
      simp
    have book : (g.assembly.house.setBook arr.owner.id
        ((g.assembly.house.book arr.owner.id).addOwned arr.convening.meeting o)).Regular :=
      staked.regular.addOwned (room ▸ living) (room ▸ staked.led _ among)
    refine staked.fewer arranging ?_ ?_ ?_ rest
    · rw [house]
      exact book.release _
    · rw [house]
      exact fun _ => rfl
    · intro other mem absent
      rw [house]
      by_cases own : arr.owner.id = other.owner.id
      · rw [← own, MeetingHouse.book_setBook_self, MeetingBook.addOwned,
          Dict.get?_insert_of_ne _ _ (staked.alone orderly arranging mem).symm, own]
        exact absent
      · rw [MeetingHouse.book_setBook_of_ne _ _ own]
        exact absent
  | closed owner id _ house rest =>
    refine ⟨?_, ?_, ?_, ?_⟩
    · rw [house]
      exact (staked.regular.close owner id).prune
    · rw [house, rest]
      exact staked.led
    · rw [rest]
      exact staked.apart
    · intro s mem
      rw [rest] at mem
      have absent := staked.unowned s mem
      have same : g'.assembly.house.book s.2.2 = (g.assembly.house.setBook owner
          ((g.assembly.house.book owner).close id)).book s.2.2 := by
        rw [house]
        rfl
      rw [same]
      by_cases own : owner = s.2.2
      · rw [own, MeetingHouse.book_setBook_self]
        exact MeetingBook.unrecorded_close absent
      · rw [MeetingHouse.book_setBook_of_ne _ _ own]
        exact absent

theorem Effect.opens (effect : Effect g d g') :
    (∀ {owner r id}, d = .convene owner r id →
      ∃ n, g'.assembly.house.label n = some (id, owner)) ∧
    ∀ {n room}, g'.assembly.house.room? n = some room → g.assembly.house.room? n = none →
      room.state = [] := by
  have unopened : (∀ n, g'.assembly.house.label n = g.assembly.house.label n) →
      ∀ {n room}, g'.assembly.house.room? n = some room → g.assembly.house.room? n = none →
        room.state = [] := by
    intro labels n room there new
    have same := labels n
    rw [MeetingHouse.label_of_room there, MeetingHouse.label, new] at same
    cases same
  have other : d = .other → ∀ {owner r id}, d = .convene owner r id →
      ∃ n, g'.assembly.house.label n = some (id, owner) := by
    rintro rfl owner r id ⟨⟩
  cases effect with
  | retains retains _ plain =>
    exact ⟨fun named => absurd named (plain _ _ _), unopened retains.labels⟩
  | convened owner r id named house _ =>
    constructor
    · intro owner' r' id' named'
      cases named.symm.trans named'
      refine ⟨g.assembly.house.rooms.length, ?_⟩
      rw [house, MeetingHouse.label_build, if_pos rfl]
      rfl
    · intro n room there new
      have reads : g'.assembly.house.room? n = if n = g.assembly.house.rooms.length
          then some (Room.start id owner r.topic r.playbook) else g.assembly.house.room? n := by
        rw [house]
        exact MeetingHouse.room?_build g.assembly.house (Room.start id owner r.topic r.playbook) n
      rw [there, new] at reads
      split at reads <;> cases reads
      rfl
  | dropped _ _ _ _ named house => exact ⟨other named, unopened fun _ => by rw [house]; rfl⟩
  | owned _ _ _ _ _ named _ house => exact ⟨other named, unopened fun _ => by rw [house]; rfl⟩
  | closed _ _ named house => exact ⟨other named, unopened fun _ => by rw [house]; rfl⟩

end Gathering
end Playbook
