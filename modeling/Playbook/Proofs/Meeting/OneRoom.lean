import Playbook.Proofs.Meeting.Attendance
import Playbook.Proofs.Meeting.Sharing

/- Whatever agents do with meetings, in any order: a meeting has one room, everybody who has it on
   record reaches that room while the meeting lives, and nobody afterwards. -/
namespace Playbook

namespace Host
variable {a : AgentState} {id : MeetingId} {w w' : World} {function key : String} {rest : List Value}

theorem stateAccess_inside (inside : a.stack.currentMeeting? = some id) (function key : String)
    (rest : List Value) (w : World) :
    stateAccess a function (.str key :: rest) w =
      ((w.house.roomOf a.id id).map (key, ·)).mapError MeetingError.message := by
  simp only [stateAccess, AgentState.currentRoom, inside]
  cases w.house.roomOf a.id id <;> rfl

theorem getState_inside (inside : a.stack.currentMeeting? = some id) (function key : String)
    (rest : List Value) (w : World) :
    getState a function (.str key :: rest) w =
      ((w.house.roomOf a.id id).map fun n =>
        ((w.house.room? n).bind (·.state.get? key)).getD (rest.getD 0 .null)).mapError
          MeetingError.message := by
  rw [getState, stateAccess_inside inside]
  cases w.house.roomOf a.id id <;> rfl

theorem setState_inside {shared : Assembly} (here : w.toAssembly = shared)
    (inside : a.stack.currentMeeting? = some id)
    (wrote : setState a function (.str key :: rest) w = (.ok .null, w')) :
    ∃ n, shared.house.roomOf a.id id = .ok n ∧
      w'.toAssembly = shared.modifyRoom n (·.set key (rest.getD 0 .null)) := by
  subst here
  rw [setState, stateAccess_inside inside] at wrote
  cases reached : w.house.roomOf a.id id with
  | error e =>
    rw [reached] at wrote
    cases wrote
  | ok n =>
    rw [reached] at wrote
    cases wrote
    exact ⟨n, rfl, rfl⟩

end Host

namespace Gathering
variable {g g' g'' : Gathering} {first n k : Nat} {log late : List Event} {e : Event} {d : Deed}
  {id : MeetingId} {owner who : AgentId} {room : Room} {date : String}

/-- One of the things that agents do with meetings. -/
inductive Happens (g : Gathering) : Event → Gathering → Prop where
  | deed {d : Deed} {g' : Gathering} (step : Step g d g') : Happens g (.deed d) g'
  | look (id : MeetingId) : Happens g (.look id) { g with assembly := (g.assembly.lookup id).2 }
  | clear : Happens g .clear
      { g with assembly := { g.assembly with house := g.assembly.house.prune } }
  /-- The program of an agent writes a value in the meeting that the agent is inside of. -/
  | write (a : AgentState) (function key : String) (rest : List Value) {id : MeetingId}
    {w w' : World} (shared : w.toAssembly = g.assembly)
    (inside : a.stack.currentMeeting? = some id)
    (wrote : Host.setState a function (.str key :: rest) w = (.ok .null, w')) :
    Happens g (.write id key (rest.getD 0 .null)) { g with assembly := w'.toAssembly }

/-- What has happened, the first thing first. -/
inductive History (g : Gathering) : List Event → Gathering → Prop where
  | nil : History g [] g
  | snoc {log : List Event} {e : Event} {g' g'' : Gathering} (history : History g log g')
    (happens : Happens g' e g'') : History g (log ++ [e]) g''

structure Kept (first : Nat) (log : List Event) (g : Gathering) : Prop where
  orderly : g.Orderly first (log.map (·.toDeed))
  staked : g.Staked
  recorded : g.assembly.house.Recorded log

theorem start_kept (first : Nat) (date : String) : (start first date).Kept first [] where
  orderly := start_orderly first date
  staked := ⟨MeetingHouse.regular_empty, nofun, .nil, nofun⟩
  recorded := ⟨nofun, nofun, nofun⟩

theorem Orderly.modifyRoom {deeds : List Deed} (orderly : g.Orderly first deeds) (n : Nat)
    {f : Room → Room} (id : ∀ room, (f room).id = room.id)
    (owner : ∀ room, (f room).owner = room.owner) (members : ∀ room, (f room).members = room.members) :
    Orderly first (deeds ++ [.other]) { g with assembly := g.assembly.modifyRoom n f } := by
  have longer : deeds ⊆ deeds ++ [.other] := List.subset_append_left ..
  have labels := g.assembly.house.label_modifyRoom n id owner
  have stands : ∀ {m who}, g.assembly.house.Has m who →
      (g.assembly.house.modifyRoom n f).Has m who := by
    rintro m who ⟨k, room, here, rfl, rfl⟩
    obtain ⟨room', there, same⟩ :=
      MeetingHouse.room_of_label ((labels k).trans (MeetingHouse.label_of_room here))
    exact ⟨k, room', there, same⟩
  refine ⟨orderly.sound.modifyRoom n id owner, orderly.begun, orderly.held, ?_, ?_, ?_⟩
  · intro arr mem
    obtain ⟨room, here, named⟩ := orderly.leads arr mem
    obtain ⟨room', there, same, _⟩ :=
      MeetingHouse.room_of_label ((labels _).trans (MeetingHouse.label_of_room here))
    exact ⟨room', there, same.trans named⟩
  · intro m sent control
    exact (orderly.sent m sent control).mono longer stands
  · intro k room' there
    change (g.assembly.house.modifyRoom n f).room? k = some room' at there
    rw [MeetingHouse.room?_modifyRoom] at there
    split at there
    · obtain ⟨room, here, rfl⟩ := Option.map_eq_some_iff.1 there
      obtain ⟨others, same, nodup, admitted⟩ := (orderly.filled k room here).mono longer
      exact ⟨others, by rw [members, owner]; exact same, by rw [members]; exact nodup,
        by rw [id, owner]; exact admitted⟩
    · exact (orderly.filled k room' there).mono longer

theorem Happens.ids_le (happens : Happens g e g') :
    g.assembly.post.nextId ≤ g'.assembly.post.nextId := by
  cases happens with
  | deed step => exact step.ids_le
  | look => exact Nat.le_refl _
  | clear => exact Nat.le_refl _
  | write a function key rest shared inside wrote =>
    obtain ⟨n, _, same⟩ := Host.setState_inside shared inside wrote
    exact Nat.le_of_eq (congrArg (·.post.nextId) same).symm

theorem Kept.forgets (kept : g.Kept first log) {h : MeetingHouse}
    (forgets : g.assembly.house.Forgets h) (weeds : g.assembly.house.Weeds h)
    (plain : e.toDeed = .other) (silent : ∀ d, e ≠ .deed d)
    (unwritten : ∀ id key, e.gives id key = none) :
    Kept first (log ++ [e]) { g with assembly := { g.assembly with house := h } } := by
  have retains : g.assembly.house.Retains h :=
    .of_directory forgets.rooms forgets.held forgets.books weeds
  have quiet : Proceeds first (log.map (·.toDeed)) g .other
      { g with assembly := { g.assembly with house := h } } :=
    .quiet kept.orderly Deed.inert_other forgets (.refl _ _)
  refine ⟨?_, kept.staked.retains retains rfl, ?_⟩
  · rw [List.map_append, List.map_singleton, plain]
    exact quiet.orderly kept.orderly
  · apply kept.recorded.retains retains silent
    · rintro id key value rfl
      exact absurd (unwritten id key) (by simp [Event.gives])
    · intro n room there key
      rw [Event.latest_snoc, unwritten]
      apply kept.recorded.state (n := n)
      rw [MeetingHouse.room?, ← forgets.rooms]
      exact there

theorem Happens.kept (happens : Happens g e g') (kept : g.Kept first log)
    (few : g'.assembly.post.nextId ≤ first + 2 ^ 122) : g'.Kept first (log ++ [e]) := by
  cases happens with
  | deed step =>
    have proceeds := step.proceeds kept.orderly few
    obtain ⟨convened, blank⟩ := step.effect.opens
    refine ⟨?_, step.effect.staked kept.staked kept.orderly proceeds.sound,
      kept.recorded.deed proceeds.evolves proceeds.sound convened blank⟩
    rw [List.map_append]
    exact proceeds.orderly kept.orderly
  | look id =>
    exact kept.forgets (g.assembly.house.lookup_house id) (g.assembly.house.weeds_lookup id) rfl
      (fun _ => nofun) fun _ _ => rfl
  | clear =>
    exact kept.forgets g.assembly.house.forgets_prune g.assembly.house.weeds_prune rfl
      (fun _ => nofun) fun _ _ => rfl
  | @write a function key rest id w w' shared inside wrote =>
    obtain ⟨n, reached, same⟩ := Host.setState_inside shared inside wrote
    rw [same]
    obtain ⟨owner, labelled⟩ :=
      kept.staked.regular.label_of_roomOf kept.orderly.sound reached
    have retains : g.assembly.house.Retains
        (g.assembly.house.modifyRoom n (·.set key (rest.getD 0 .null))) :=
      (MeetingHouse.Retains.refl _).modifyRoom n (fun _ => rfl) fun _ => rfl
    refine ⟨?_, kept.staked.retains retains rfl, ?_⟩
    · rw [List.map_append]
      exact kept.orderly.modifyRoom n (fun _ => rfl) (fun _ => rfl) fun _ => rfl
    · refine kept.recorded.retains retains (fun _ => nofun) ?_ ?_
      · rintro _ _ _ ⟨⟩
        exact ⟨n, owner, labelled⟩
      · intro k room there key'
        change (g.assembly.house.modifyRoom n _).room? k = some room at there
        rw [MeetingHouse.room?_modifyRoom] at there
        rw [Event.latest_snoc]
        obtain ⟨old, here, rfl, _⟩ := MeetingHouse.room_of_label labelled
        split at there
        · rename_i same
          subst same
          rw [here] at there
          cases there
          have before := kept.recorded.state here key'
          by_cases equal : key = key'
          · subst equal
            simp [Event.gives, Room.set, Dict.get?_insert_self]
          · simp [Event.gives, Room.set, Dict.get?_insert_of_ne _ _ equal, equal, before]
        · rename_i different
          have apart : old.id ≠ room.id := fun same =>
            different (kept.orderly.sound.distinct here there same)
          simp [Event.gives, apart, kept.recorded.state there key']

theorem History.kept {before : List Event} (history : History g log g') (kept : g.Kept first before)
    (few : g'.assembly.post.nextId ≤ first + 2 ^ 122) : g'.Kept first (before ++ log) := by
  induction history with
  | nil => simpa using kept
  | snoc history happens ih =>
    have reached := ih (Nat.le_trans happens.ids_le few)
    rw [← List.append_assoc]
    exact happens.kept reached few

/-- A room keeps its name and its owner, it does not come back to life, and only what is about its
    meeting changes it. -/
theorem Happens.stays (happens : Happens g e g') (kept : g.Kept first log)
    (few : g'.assembly.post.nextId ≤ first + 2 ^ 122)
    (here : g.assembly.house.room? n = some room) :
    ∃ room', g'.assembly.house.room? n = some room' ∧ room'.id = room.id ∧
      room'.owner = room.owner ∧
      (g'.assembly.house.alive n = true → g.assembly.house.alive n = true) ∧
      (e.about ≠ some room.id → room' = room) := by
  cases happens with
  | @deed d _ step =>
    have evolves := (step.proceeds kept.orderly few).evolves
    obtain ⟨room', there, rfl | ⟨_, rfl⟩⟩ := evolves.stays here
    · exact ⟨_, there, (d.onRoom_id room).1, (d.onRoom_id room).2, evolves.gone here,
        Event.onRoom_of_about⟩
    · exact ⟨_, there, rfl, rfl, evolves.gone here, fun _ => rfl⟩
  | look id =>
    have forgets : g.assembly.house.Forgets (g.assembly.house.lookup id).2 :=
      g.assembly.house.lookup_house id
    refine ⟨room, ?_, rfl, rfl, fun alive => (forgets.alive n).symm.trans alive, fun _ => rfl⟩
    exact (congrArg (·[n]?) forgets.rooms).trans here
  | clear => exact ⟨room, here, rfl, rfl, id, fun _ => rfl⟩
  | @write a function key rest id w w' shared inside wrote =>
    obtain ⟨k, reached, same⟩ := Host.setState_inside shared inside wrote
    obtain ⟨_, labelled⟩ := kept.staked.regular.label_of_roomOf kept.orderly.sound reached
    rw [same]
    show ∃ room', (g.assembly.house.modifyRoom k _).room? n = some room' ∧ _
    rw [MeetingHouse.room?_modifyRoom, here]
    split
    · rename_i equal
      subst equal
      refine ⟨_, rfl, rfl, rfl, fun alive => alive, fun elsewhere => ?_⟩
      cases (MeetingHouse.label_of_room here).symm.trans labelled
      exact absurd rfl elsewhere
    · exact ⟨room, rfl, rfl, rfl, fun alive => alive, fun _ => rfl⟩

theorem History.dead (history : History g late g') (kept : g.Kept first log)
    (few : g'.assembly.post.nextId ≤ first + 2 ^ 122)
    (labelled : g.assembly.house.label n = some (id, owner))
    (dead : g.assembly.house.alive n = false) :
    g'.assembly.house.label n = some (id, owner) ∧ g'.assembly.house.alive n = false := by
  induction history with
  | nil => exact ⟨labelled, dead⟩
  | snoc history happens ih =>
    have few' := Nat.le_trans happens.ids_le few
    obtain ⟨there, gone⟩ := ih few'
    obtain ⟨room, here, rfl, rfl⟩ := MeetingHouse.room_of_label there
    obtain ⟨room', stays, named, owned, living, _⟩ := happens.stays (history.kept kept few') few here
    refine ⟨by rw [MeetingHouse.label_of_room stays, named, owned], ?_⟩
    rw [Bool.eq_false_iff] at gone ⊢
    exact fun alive => gone (living alive)

/-- Everybody who has a meeting on record reaches the one room of it, as long as the meeting lives,
    and reads there what was written last. -/
structure OneRoom (log : List Event) (g : Gathering) (owner : AgentId) (id : MeetingId) (n : Nat)
    (room : Room) : Prop where
  here : g.assembly.house.room? n = some room
  named : room.id = id
  owned : room.owner = owner
  directory : ∀ k, (g.assembly.house.lookup id).1 = some k ↔ k = n ∧ g.Live owner id
  books : ∀ who k, g.assembly.house.roomOf who id = .ok k ↔
    k = n ∧ (g.assembly.house.book who).contains id = true ∧ g.Live owner id
  state : ∀ key, room.state.get? key = Event.latest log id key
  reads : ∀ (a : AgentState) (function key : String) (rest : List Value) (w : World),
    w.toAssembly = g.assembly → a.stack.currentMeeting? = some id →
    (g.assembly.house.book a.id).contains id = true → g.Live owner id →
    Host.getState a function (.str key :: rest) w =
      .ok ((Event.latest log id key).getD (rest.getD 0 .null))

/-- Nobody reaches a meeting. -/
def Unreachable (g : Gathering) (id : MeetingId) : Prop :=
  (g.assembly.house.lookup id).1 = none ∧
    ∀ who, g.assembly.house.roomOf who id = .error (.notFound id)

/-- Nobody reaches a meeting any more, whatever happens. -/
def Lost (first : Nat) (g : Gathering) (id : MeetingId) : Prop :=
  ∀ late g', History g late g' → g'.assembly.post.nextId ≤ first + 2 ^ 122 → g'.Unreachable id

theorem Kept.oneRoom (kept : g.Kept first log) (here : g.assembly.house.room? n = some room) :
    OneRoom log g room.owner room.id n room := by
  have labelled := MeetingHouse.label_of_room here
  have alive := kept.staked.alive_iff kept.orderly labelled
  have regular := kept.staked.regular
  have sound := kept.orderly.sound
  have books : ∀ who k, g.assembly.house.roomOf who room.id = .ok k ↔
      k = n ∧ (g.assembly.house.book who).contains room.id = true ∧ g.Live room.owner room.id := by
    intro who k
    rw [regular.roomOf_iff sound labelled, alive]
  refine ⟨here, rfl, rfl, ?_, books, kept.recorded.state here, ?_⟩
  · intro k
    rw [regular.lookup_iff sound labelled, alive]
  · intro a function key rest w shared inside noted live
    have reached := (books a.id n).2 ⟨rfl, noted, live⟩
    have house : w.house = g.assembly.house := congrArg (·.house) shared
    rw [Host.getState_inside inside, house, reached, ← kept.recorded.state here key]
    show Except.ok (((g.assembly.house.room? n).bind (·.state.get? key)).getD (rest.getD 0 .null)) = _
    rw [here]
    rfl

theorem Kept.unreachable (kept : g.Kept first log)
    (labelled : g.assembly.house.label n = some (id, owner))
    (dead : g.assembly.house.alive n = false) : g.Unreachable id := by
  have regular := kept.staked.regular
  have sound := kept.orderly.sound
  constructor
  · cases found : (g.assembly.house.lookup id).1 with
    | none => rfl
    | some k =>
      rw [((regular.lookup_iff sound labelled k).1 found).2] at dead
      cases dead
  · intro who
    rcases MeetingHouse.roomOf_found who id g.assembly.house with ⟨k, reached⟩ | refused
    · rw [((regular.roomOf_iff sound labelled who k).1 reached).2.2] at dead
      cases dead
    · exact refused

theorem Kept.lost (kept : g.Kept first log)
    (labelled : g.assembly.house.label n = some (id, owner)) (finished : ¬ g.Live owner id) :
    g.Lost first id := by
  intro late g' history few
  have dead : g.assembly.house.alive n = false := by
    rw [Bool.eq_false_iff]
    exact fun alive => finished ((kept.staked.alive_iff kept.orderly labelled).1 alive)
  obtain ⟨labelled', dead'⟩ := history.dead kept few labelled dead
  exact (history.kept kept few).unreachable labelled' dead'

theorem Kept.failed (kept : g.Kept first log) (few : g.assembly.post.nextId ≤ first + 2 ^ 122)
    (labelled : g.assembly.house.label n = some (id, owner))
    {before after : List Arrangement} {arr : Arrangement} {fault : MeetingError}
    (arranging : g.arranging = before ++ arr :: after) (named : arr.convening.meeting = id)
    (fails : (arr.convening.settle arr.owner arr.request g.assembly).1 = .error fault) :
    Lost first
      { g with
        assembly := (arr.convening.settle arr.owner arr.request g.assembly).2
        arranging := before ++ after } id := by
  have among : arr ∈ g.arranging := by simp [arranging]
  have released : (arr.convening.settle arr.owner arr.request g.assembly).2 =
      { g.assembly with house := g.assembly.house.release arr.convening.room } := by
    unfold Convening.settle at fails ⊢
    split at fails
    · rfl
    · cases fails
  have happens : Happens g (.deed .other) _ := .deed (.settle before after arr arranging)
  rw [released] at happens ⊢
  refine (happens.kept kept few).lost labelled ?_
  rintro (⟨other, mem, same⟩ | owned)
  · exact kept.staked.alone kept.orderly arranging mem (same.trans named.symm)
  · have absent := kept.staked.unowned_of_arranged kept.orderly among owner
    rw [named] at absent
    change ((g.assembly.house.book owner).owned.get? id).isSome = true at owned
    rw [absent] at owned
    cases owned

theorem Kept.settled (kept : g.Kept first log)
    (labelled : g.assembly.house.label n = some (id, owner)) {arr : Arrangement}
    (among : arr ∈ g.arranging) (named : arr.convening.meeting = id)
    (succeeds : (arr.convening.settle arr.owner arr.request g.assembly).1 = .ok id) :
    (((arr.convening.settle arr.owner arr.request g.assembly).2.house.book owner).owned.contains
      id) = true := by
  have led := kept.staked.led arr.stake (List.mem_map_of_mem among)
  have same : arr.owner.id = owner := by
    obtain ⟨room, here, of_id, of_owner⟩ := MeetingHouse.room_of_label labelled
    obtain ⟨room', there, of_id', of_owner'⟩ := MeetingHouse.room_of_label led
    obtain rfl : n = arr.convening.room :=
      kept.orderly.sound.distinct here there (of_id.trans (named.symm.trans of_id'.symm))
    cases here.symm.trans there
    exact of_owner'.symm.trans of_owner
  subst same named
  unfold Convening.settle at succeeds ⊢
  split at succeeds
  · cases succeeds
  · simp only [MeetingHouse.book_setBook_self, MeetingBook.addOwned, Dict.contains,
      Dict.get?_insert_self, Option.isSome_some]

/-- A meeting can be closed just when the owner has it. -/
theorem closeMeeting_iff (a : Assembly) (owner : AgentId) (id : MeetingId) :
    (a.closeMeeting owner id).1 = true ↔ (a.house.book owner).owned.contains id = true := by
  unfold Assembly.closeMeeting
  by_cases noted : (a.house.book owner).owned.contains id = true
  · simp only [noted, if_true]
  · simp only [noted, if_false, Bool.false_eq_true]

theorem Kept.closed (kept : g.Kept first log) (few : g.assembly.post.nextId ≤ first + 2 ^ 122)
    (labelled : g.assembly.house.label n = some (id, owner))
    (noted : (g.assembly.house.book owner).owned.contains id = true) :
    Lost first { g with assembly := (g.assembly.closeMeeting owner id).2 } id := by
  have happens : Happens g (.deed .other) _ := .deed (.close owner id)
  have struck : (g.assembly.closeMeeting owner id).2 = { g.assembly with
      house := (g.assembly.house.setBook owner ((g.assembly.house.book owner).close id)).prune } := by
    rw [Assembly.closeMeeting, if_pos noted]
  rw [struck] at happens ⊢
  refine (happens.kept kept few).lost labelled ?_
  rintro (⟨arr, mem, rfl⟩ | owned)
  · rw [Dict.contains, kept.staked.unowned_of_arranged kept.orderly mem owner] at noted
    cases noted
  · change (((g.assembly.house.setBook owner _).book owner).owned.get? id).isSome = true at owned
    rw [MeetingHouse.book_setBook_self, MeetingBook.close, Dict.get?_erase_self] at owned
    cases owned

/-- A meeting has one room, and whoever has the meeting on record reaches it exactly while the meeting
    is being arranged or its owner has it. All read there what was written last, and other meetings do
    not touch it. An arrangement that succeeds leaves the meeting to the owner, who can close it just
    as long as it has it; once the meeting has failed or is closed nobody reaches it. -/
theorem one_live_room_for_each_meeting {request : MeetingRequest}
    (history : History (start first date) log g)
    (few : g.assembly.post.nextId ≤ first + 2 ^ 122)
    (convened : .deed (.convene owner request id) ∈ log) :
    ∃ n room, OneRoom log g owner id n room ∧
      (∀ e g', Happens g e g' → g'.assembly.post.nextId ≤ first + 2 ^ 122 → e.about ≠ some id →
        g'.assembly.house.room? n = some room) ∧
      (¬ g.Live owner id → g.Lost first id) ∧
      (∀ before arr after fault, g.arranging = before ++ arr :: after →
        arr.convening.meeting = id →
        (arr.convening.settle arr.owner arr.request g.assembly).1 = .error fault →
        Lost first
          { g with
            assembly := (arr.convening.settle arr.owner arr.request g.assembly).2
            arranging := before ++ after } id) ∧
      (∀ arr ∈ g.arranging, arr.convening.meeting = id →
        (arr.convening.settle arr.owner arr.request g.assembly).1 = .ok id →
        ((arr.convening.settle arr.owner arr.request g.assembly).2.house.book owner).owned.contains
          id = true) ∧
      ((g.assembly.closeMeeting owner id).1 = true ↔
        (g.assembly.house.book owner).owned.contains id = true) ∧
      ((g.assembly.house.book owner).owned.contains id = true →
        Lost first { g with assembly := (g.assembly.closeMeeting owner id).2 } id) := by
  have kept : g.Kept first log := history.kept (start_kept first date) few
  obtain ⟨n, labelled⟩ := kept.recorded.opened convened
  obtain ⟨room, here, rfl, rfl⟩ := MeetingHouse.room_of_label labelled
  refine ⟨n, room, kept.oneRoom here, ?_, kept.lost labelled, ?_,
    fun _ => kept.settled labelled, closeMeeting_iff .., kept.closed few labelled⟩
  · intro e g' happens few' elsewhere
    obtain ⟨room', there, _, _, _, same⟩ := happens.stays kept few' here
    rw [there, same elsewhere]
  · intro before arr after fault arranging named fails
    exact kept.failed few labelled arranging named fails

namespace Visit

theorem history_of_run {deeds : List Deed} (run : Run g deeds g') :
    History g (deeds.map .deed) g' := by
  induction run with
  | nil => exact .nil
  | snoc _ step ih =>
    rw [List.map_append]
    exact .snoc ih (.deed step)

def attending : AgentState :=
  ⟨"guest", "Guest", [⟨⟨"Planning", "01", none⟩, [], some meeting, none⟩], [], []⟩

def world (assembly : Assembly) : World :=
  { World.start 0 "now" FileSystem.empty with toAssembly := assembly }

def shared : Gathering :=
  { joined with assembly := joined.assembly.modifyRoom 0 (·.set "count" (.int 5)) }

def events : List Event :=
  [.deed .other, .deed (.convene "host" request meeting), .deed .other,
    .deed (.answer "guest" meeting true), .write meeting "count" (.int 5)]

theorem history_shared : History (start 0 "now") events shared :=
  have wrote : Host.setState attending "MeetingStateSet" [.str "count", .int 5]
      (world joined.assembly) = (.ok .null, world shared.assembly) := rfl
  .snoc (history_of_run run_joined) (.write attending _ "count" [.int 5] rfl rfl wrote)

def settled : Gathering :=
  { shared with
    assembly := (arrangement.convening.settle arrangement.owner arrangement.request
      shared.assembly).2
    arranging := [] }

theorem history_settled : History (start 0 "now") (events ++ [.deed .other]) settled :=
  .snoc history_shared (.deed (.settle [] [] arrangement rfl))

def closed : Gathering :=
  { settled with assembly := (settled.assembly.closeMeeting "host" meeting).2 }

end Visit

/-- While it is arranged, and after it has come about and the host closes it. -/
theorem one_live_room_for_each_meeting_when_a_guest_shares :
    History (start 0 "now") Visit.events Visit.shared ∧
    Visit.shared.assembly.post.nextId ≤ 0 + 2 ^ 122 ∧
    Event.deed (.convene "host" Visit.request Visit.meeting) ∈ Visit.events ∧
    (∃ n room, OneRoom Visit.events Visit.shared "host" Visit.meeting n room) ∧
    (Visit.settled.assembly.closeMeeting "host" Visit.meeting).1 = true ∧
    Visit.closed.Unreachable Visit.meeting := by
  have convened : Event.deed (.convene "host" Visit.request Visit.meeting) ∈ Visit.events := by
    simp [Visit.events]
  obtain ⟨n, room, one, -⟩ :=
    one_live_room_for_each_meeting Visit.history_shared (by decide) convened
  obtain ⟨_, _, _, _, _, _, _, closes, lost⟩ :=
    one_live_room_for_each_meeting Visit.history_settled (by decide) (List.mem_append_left _ convened)
  have noted : (Visit.settled.assembly.house.book "host").owned.contains Visit.meeting = true := rfl
  exact ⟨Visit.history_shared, by decide, convened, ⟨n, room, one⟩, closes.2 noted,
    lost noted [] Visit.closed .nil (by decide)⟩

end Gathering
end Playbook
