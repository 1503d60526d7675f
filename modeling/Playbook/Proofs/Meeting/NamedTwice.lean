import Playbook.Proofs.Meeting.Hosting
import Playbook.Proofs.Meeting.Repetition

/- Meetings whose requests name attendees any number of times. Every name is an invitation of its
   own; when all guests handle all of theirs in time, it depends on the names alone what comes of
   it. -/
namespace Playbook
open Activity Prompt Convening

namespace Occasion
variable {owner : Signature} {n timeout t : Nat} {r : MeetingRequest}
  {knows : AgentId → String → Bool} {w : World} {inbox : Inbox}

/-- The meeting that an owner is about to arrange. -/
def arising (owner : Signature) (n : Nat) (r : MeetingRequest) (knows : AgentId → String → Bool)
    (w : World) : Occasion where
  invitation := ⟨Uuid.ofBits w.post.nextId, owner.id, r.playbook, r.topic⟩
  inbox := n
  room := w.house.rooms.length
  guests x := x ≠ owner.id ∧ (x ∈ r.required ∨ x ∈ r.optional) ∧ (w.post.boxOf? x).isSome = true
  knows := knows
  proper := Uuid.valid_ofBits _
  others := fun guest => guest.1 rfl

/-- The owner has an inbox to itself, and nobody has heard of the meeting yet or keeps its room. -/
structure Fresh (owner : Signature) (n : Nat) (w : World) (inbox : Inbox) : Prop where
  box : w.post.boxes[n]? = some inbox
  address : w.post.boxOf? owner.id = some n
  alone : ∀ x, w.post.boxOf? x = some n → x = owner.id
  unanswered : ∀ m ∈ inbox, isAnswer (Uuid.ofBits w.post.nextId) m = false
  unnoted : ∀ x, (w.house.book x).contains (Uuid.ofBits w.post.nextId) = false
  unbuilt : w.house.alive w.house.rooms.length = false

theorem hosted_start (fresh : Fresh owner n w inbox) (r : MeetingRequest)
    (knows : AgentId → String → Bool) :
    Hosted (arising owner n r knows w) .arranging [] (World.assembled (start owner r) w).2 ∧
      (arising owner n r knows w).Arranges (start owner r w.toAssembly).1 := by
  obtain ⟨_, rfl, meeting, room, house, _⟩ := start_opens owner r w.toAssembly
  obtain ⟨_, _, _, addresses, boxes⟩ := start_waits owner r w.toAssembly
  have rooms : ((World.assembled (start owner r) w).2.house.room? w.house.rooms.length) =
      some (Room.start (Uuid.ofBits w.post.nextId) owner.id r.topic r.playbook) := by
    show (start owner r w.toAssembly).2.house.room? _ = _
    rw [house]
    exact (MeetingHouse.room?_build ..).trans (if_pos rfl)
  refine ⟨⟨?_, ⟨inbox, (boxes n fresh.alone).trans fresh.box, ?_⟩, ?_, ⟨?_, ?_⟩,
    ⟨_, rooms, rfl, List.mem_singleton_self _, ?_, ?_⟩, ?_, told_nil _⟩, room, meeting⟩
  · show (start owner r w.toAssembly).2.post.addresses.get? owner.id = some n
    rw [addresses]
    exact fresh.address
  · intro m mem about
    cases (fresh.unanswered m mem).symm.trans about
  · show (start owner r w.toAssembly).2.house.directory.get? _ = _
    rw [house]
    exact Dict.get?_insert_self ..
  · have unheld : w.house.rooms.length ∉ w.house.held := by
      intro held
      cases fresh.unbuilt.symm.trans (MeetingHouse.alive_iff.2 (.inl held))
    show (start owner r w.toAssembly).2.house.held.count w.house.rooms.length = 1
    rw [house]
    show (w.house.rooms.length :: w.house.held).count w.house.rooms.length = 1
    rw [List.count_cons_self, List.count_eq_zero.2 unheld]
  · show ¬ (start owner r w.toAssembly).2.house.Owned w.house.rooms.length
    rw [house]
    intro owned
    cases fresh.unbuilt.symm.trans (MeetingHouse.alive_iff.2 (.inr owned))
  · intro x mem
    exact .inl (List.mem_singleton.1 mem)
  · intro x _ visited
    cases visited
  · intro x _
    have unnoted : ((World.assembled (start owner r) w).2.house.book x).contains
        (Uuid.ofBits w.post.nextId) = false := by
      show ((start owner r w.toAssembly).2.house.book x).contains _ = false
      rw [house]
      exact fresh.unnoted x
    constructor
    · intro noted
      cases unnoted.symm.trans noted
    · rintro ⟨_, visited⟩
      cases visited

theorem Hosted.settled {o : Occasion} {deeds : List (Nat × Deed)} {c : Convening} {id : MeetingId}
    (hosted : Hosted o .arranging deeds w) (arranges : o.Arranges c) (own : o.owner = owner.id)
    (ok : (c.settle owner r w.toAssembly).1 = .ok id) :
    Hosted o .settled deeds (World.assembled (c.settle owner r) w).2 := by
  have house : (World.assembled (c.settle owner r) w).2.house =
      (w.house.release c.room).setBook owner.id
        (((w.house.release c.room).book owner.id).addOwned c.meeting
          ⟨c.room, r.required, r.optional⟩) := by
    unfold settle at ok
    unfold World.assembled settle
    split at ok
    · cases ok
    · simp only
  have post : (World.assembled (c.settle owner r) w).2.post = w.post :=
    (Assembly.settle_house c owner r w.toAssembly).1
  refine ⟨?_, ?_, ?_, ?_, ?_, ?_, hosted.told⟩
  · rw [post]
    exact hosted.address
  · rw [post]
    exact hosted.box
  · rw [house]
    exact hosted.entry
  · rw [house, Stands, own, MeetingHouse.book_setBook_self]
    exact ⟨_, Dict.mem_of_get? (Dict.get?_insert_self ..), arranges.room⟩
  · rw [house]
    exact hosted.room
  · intro x different
    rw [house, MeetingHouse.book_setBook_of_ne _ _ (own ▸ different.symm)]
    exact hosted.noted x different

theorem Hosted.failed {o : Occasion} {deeds : List (Nat × Deed)} {c : Convening} {e : MeetingError}
    (hosted : Hosted o .arranging deeds w) (arranges : o.Arranges c)
    (failed : (c.settle owner r w.toAssembly).1 = .error e) :
    Dropped o (World.assembled (c.settle owner r) w).2 := by
  have house : (World.assembled (c.settle owner r) w).2.house = w.house.release o.room := by
    unfold settle at failed
    unfold World.assembled settle
    split at failed
    · simp only [arranges.room]
    · cases failed
  constructor
  · rw [house, Bool.eq_false_iff, ne_eq, MeetingHouse.alive_iff]
    obtain ⟨once, unowned⟩ := hosted.standing
    rintro (held | owned)
    · have left : 0 < (w.house.held.erase o.room).count o.room := List.count_pos_iff.2 held
      rw [List.count_erase_self, once] at left
      cases left
    · exact unowned owned
  · rw [house]
    exact .inl hosted.entry

variable {o : Occasion} {deeds : List (Nat × Deed)} {c c₀ : Convening} {asked : List AgentId}
  {reached : AgentId → Bool} {deadline : Nat} {m : Moment World}

/-- What arrives in the inbox of the owner, and when. -/
def arrivals (deeds : List (Nat × Deed)) : List (Nat × Message) :=
  deeds.flatMap fun e => e.2.mail.map (e.1, ·)

theorem steps_answering {α : Type} {a b : Doing World α}
    (ran : Prompt.Steps o.inbox o.Visits a deeds b) :
    Prompt.Steps o.inbox (Answering o.inbox o.id) a (arrivals deeds) b := by
  refine ran.retell (·.mail) ?_
  intro done w w' one
  cases one with
  | answers _ _ mail _ _ _ _ _ brings => simpa using brings
  | elsewhere mail _ _ brings => simpa using brings

theorem answers_arrivals (o : Occasion) (deeds : List (Nat × Deed)) :
    ((arrivals deeds).filter (isAnswer o.id ·.2)).map (·.2) = o.answers deeds := by
  have sent : (arrivals deeds).map (·.2) = deeds.flatMap (·.2.mail) := by
    simp [arrivals, List.map_flatMap, Function.comp_def]
  rw [answers, ← sent, List.filter_map]
  rfl

theorem Told.guest_of_answer (told : Told o deeds) {e : Nat × Message} (mem : e ∈ arrivals deeds)
    (about : isAnswer o.id e.2 = true) : ∃ d ∈ deeds, d.2.guest ≠ none ∧ d.1 = e.1 := by
  obtain ⟨d, among, came⟩ := List.mem_flatMap.1 mem
  obtain ⟨m, sent, rfl⟩ := List.mem_map.1 came
  refine ⟨d, among, fun nobody => ?_, rfl⟩
  cases (told.silent d among nobody m sent).symm.trans about

theorem Told.ruled {inbox : Inbox} (told : Told o deeds)
    (settled : Settled o.inbox deadline inbox c₀ c (arrivals deeds) m) (meeting : c₀.meeting = o.id)
    (inviting : Inviting reached asked c₀)
    (timely : ∀ e ∈ deeds, e.2.guest ≠ none → e.1 < deadline)
    (visited : deadline ≤ m.time → ∀ x ∈ asked, reached x = true → 0 < visits deeds x) :
    Ruled o.id asked (fun x => reached x && o.willing x) c.outcome := by
  obtain ⟨heard, noted, midway, ended⟩ := settled
  obtain ⟨rest, left, _, parted, unheard⟩ := midway.parted
  rw [meeting] at parted
  have all : o.answers deeds = heard.map (·.2) ++ rest.map (·.2) := by
    rw [← answers_arrivals, parted.answers, List.map_append]
  have candid : ∀ m ∈ heard.map (·.2), Candid o.willing m := by
    intro m mem
    obtain ⟨reason, read⟩ := told.truthful m (by rw [all]; exact List.mem_append_left _ mem)
    exact ⟨o.id, reason, read⟩
  have noted : c = (heard.map (·.2)).foldl noting c₀ := noted
  subst noted
  rw [← meeting]
  refine inviting.ruled candid ?_ ?_
  · intro x willing
    have tally := told.tally x
    rw [all, List.countP_append, if_pos willing] at tally
    omega
  rcases ended with nobody | late
  · exact inviting.answered candid nobody
  · have none : rest = [] := by
      refine List.eq_nil_iff_forall_not_mem.2 fun e mem => ?_
      have answer : e ∈ (arrivals deeds).filter (isAnswer o.id ·.2) := by
        rw [parted.answers]
        exact List.mem_append_right _ mem
      obtain ⟨came, about⟩ := List.mem_filter.1 answer
      obtain ⟨d, among, guest, same⟩ := told.guest_of_answer came about
      have early := timely d among guest
      have after := unheard late e mem
      omega
    intro x among here
    have tally := told.tally x
    have some_visit := visited late x among here
    rw [all, none, List.map_nil, List.append_nil] at tally
    rw [tally]
    split <;> omega

end Occasion

/-- A run in which the arranging has come to its end: the owner waits, stops waiting, and settles
    the meeting, with the others in between. -/
theorem arranging_done {ι : Type} {others : List ι → World → World → Prop} {owner : Signature}
    {n timeout : Nat} {r : MeetingRequest} {c₀ : Convening} {deeds : List (Nat × ι)}
    {m m' : Moment World} {result : Except MeetingError MeetingId}
    (ran : Prompt.Steps n others ⟨arranging owner n timeout r c₀, m⟩ deeds ⟨.done result, m'⟩) :
    ∃ idle waited late rest c m₁ m₂ m₃, deeds = idle ++ (waited ++ (late ++ rest)) ∧
      Still n others m idle m₁ ∧
      Prompt.Steps n others ⟨.loop c₀ (conveneRound n (m.time + timeout)) .done,
        m₁.change n m₁.world⟩ waited ⟨.done c, m₂⟩ ∧
      Still n others m₂ late m₃ ∧ result = (c.settle owner r m₃.world.toAssembly).1 ∧
      Still n others (m₃.change n (World.assembled (c.settle owner r) m₃.world).2) rest m' := by
  rcases ran.acted with ⟨left, _⟩ | ⟨idle, later, m₁, rfl, still, looped⟩
  · cases left
  rw [still.time] at looped
  change Prompt.Steps n others ⟨(Activity.loop c₀ (conveneRound n (m.time + timeout)) .done).bind
    fun c => .act (fun _ w => World.assembled (c.settle owner r) w) .done,
    m₁.change n m₁.world⟩ _ _ at looped
  obtain ⟨waited, settling, c, m₂, rfl, waits, settles⟩ := looped.bind_done
  rcases settles.acted with ⟨left, _⟩ | ⟨late, rest, m₃, rfl, still', finished⟩
  · cases left
  obtain ⟨same, still''⟩ := finished.still
  cases same
  exact ⟨idle, waited, late, rest, c, m₁, m₂, m₃, rfl, still, waits, still', rfl, still''⟩

namespace Occasion
variable {owner : Signature} {n timeout t : Nat} {r : MeetingRequest}
  {knows : AgentId → String → Bool} {w : World} {inbox : Inbox} {called : Bool}
  {deeds : List (Nat × Deed)} {a b : Doing World (Except MeetingError MeetingId)}

/-- Every guest has handled an invitation as often as it is named, before the deadline. -/
structure Attended (o : Occasion) (r : MeetingRequest) (deadline : Nat)
    (deeds : List (Nat × Deed)) : Prop where
  timely : ∀ e ∈ deeds, e.2.guest ≠ none → e.1 < deadline
  every : ∀ x, o.guests x → (r.required ++ r.optional).count x ≤ visits deeds x

/-- Whether an attendee has an inbox and knows the playbook. -/
def comes (r : MeetingRequest) (knows : AgentId → String → Bool) (w : World) (x : AgentId) : Bool :=
  (w.post.boxOf? x).isSome && knows x r.playbook

theorem inviting_start (owner : Signature) (r : MeetingRequest) (w : World) :
    Inviting (fun x => (w.post.boxOf? x).isSome) (asked owner.id r)
      (start owner r w.toAssembly).1 := by
  obtain ⟨_, pending, rejected, _⟩ := start_waits owner r w.toAssembly
  constructor
  · rw [pending, asked, List.filter_filter]
    simp only [Bool.and_comm]
  · rw [rejected, asked, List.filter_filter]
    simp only [Bool.and_comm, Option.not_isSome]

theorem Attended.visited (attended : Attended (arising owner n r knows w) r timeout deeds)
    {x : AgentId} (among : x ∈ asked owner.id r) (here : (w.post.boxOf? x).isSome = true) :
    0 < visits deeds x := by
  obtain ⟨required, different⟩ := List.mem_filter.1 among
  have guest : (arising owner n r knows w).guests x :=
    ⟨by simpa using different, .inl required, here⟩
  have named : 0 < (r.required ++ r.optional).count x :=
    List.count_pos_iff.2 (List.mem_append_left _ required)
  exact Nat.lt_of_lt_of_le named (attended.every x guest)

theorem arises (knows : AgentId → String → Bool) (fresh : Fresh owner n w inbox)
    (begins : Prompt.Move n ⟨convene owner n timeout r, ⟨t, w, called⟩⟩ b) :
    ∃ c₀ m, b = ⟨arranging owner n timeout r c₀, m⟩ ∧ m.time = t ∧
      Hosted (arising owner n r knows w) .arranging [] m.world ∧
      (arising owner n r knows w).Arranges c₀ ∧
      Inviting (fun x => (w.post.boxOf? x).isSome) (asked owner.id r) c₀ ∧
      ∀ timeout, Midway n c₀.meeting (t + timeout) inbox [] [] m := by
  rw [convene_eq] at begins
  cases begins
  obtain ⟨hosted, arranges⟩ := hosted_start fresh r knows
  obtain ⟨meeting, _, _, _, boxes⟩ := start_waits owner r w.toAssembly
  have box : (start owner r w.toAssembly).2.post.boxes[n]? = some inbox :=
    (boxes n fresh.alone).trans fresh.box
  refine ⟨(start owner r w.toAssembly).1, _, rfl, rfl, (sustained_hosted _ _).signals hosted, arranges,
    inviting_start owner r w, fun timeout => midway_start ?_ box (Nat.le_add_right t timeout)⟩
  rw [List.filter_eq_nil_iff, meeting]
  intro m mem about
  cases (fresh.unanswered m mem).symm.trans about

theorem arrivals_append (deeds more : List (Nat × Deed)) :
    arrivals (deeds ++ more) = arrivals deeds ++ arrivals more := List.flatMap_append

theorem visits_late {deadline : Nat} {early late : List (Nat × Deed)}
    (timely : ∀ e ∈ early ++ late, e.2.guest ≠ none → e.1 < deadline)
    (finished : ∀ e ∈ late, deadline ≤ e.1) (x : AgentId) :
    visits (early ++ late) x = visits early x := by
  have none : visits late x = 0 := by
    refine List.countP_eq_zero.2 fun e mem came => ?_
    have guest : e.2.guest = some x := by simpa using came
    have before := timely e (List.mem_append_right _ mem) (by simp [guest])
    have after := finished e mem
    omega
  rw [visits, List.countP_append, ← visits, ← visits, none, Nat.add_zero]

theorem Hosted.still {o : Occasion} {s : Phase} {arrived : List (Nat × Deed)} {m m' : Moment World}
    (hosted : Hosted o s arrived m.world) (still : Still n o.Visits m deeds m') :
    Hosted o s (arrived ++ deeds) m'.world :=
  still.keeps (P := fun arrived m => Hosted o s arrived m.world) (sustained_hosted o s).stable arrived
    hosted

theorem Dropped.still {o : Occasion} {m m' : Moment World} (dropped : Dropped o m.world)
    (still : Still n o.Visits m deeds m') : Dropped o m'.world :=
  still.keeps (P := fun _ m => Dropped o m.world)
    (fun here done => (here.visited done).of_house rfl) [] dropped

inductive Left (o : Occasion) (deeds : List (Nat × Deed)) (w : World) :
    Except MeetingError MeetingId → Prop
  | hosted (id : MeetingId) (hosted : Hosted o .settled deeds w) : Left o deeds w (.ok id)
  | dropped (e : MeetingError) (dropped : Dropped o w) : Left o deeds w (.error e)

/-- When all whom the invitations have reached have handled one in time, the names decide whether
    the meeting stands or is dropped. -/
theorem arranging_ruled {o : Occasion} {c₀ : Convening} {asked : List AgentId}
    {reached : AgentId → Bool} {m m' : Moment World} {result : Except MeetingError MeetingId}
    (own : o.owner = owner.id) (hosted : Hosted o .arranging [] m.world) (arranges : o.Arranges c₀)
    (inviting : Inviting reached asked c₀)
    (midway : Midway o.inbox c₀.meeting (m.time + timeout) inbox [] [] m)
    (ran : Prompt.Steps o.inbox o.Visits ⟨arranging owner o.inbox timeout r c₀, m⟩ deeds
      ⟨.done result, m'⟩)
    (timely : ∀ e ∈ deeds, e.2.guest ≠ none → e.1 < m.time + timeout)
    (visited : ∀ x ∈ asked, reached x = true → 0 < visits deeds x) :
    Ruled o.id asked (fun x => reached x && o.willing x) result ∧ Left o deeds m'.world result := by
  obtain ⟨idle, waited, late, rest, c, m₁, m₂, m₃, rfl, still, waits, still', rfl, still''⟩ :=
    arranging_done ran
  have hosted₁ : Hosted o .arranging idle m₁.world := hosted.still still
  obtain ⟨hosted₂, finished⟩ := (guards_conveneLoop arranges _).steps (sustained_hosted o _)
    ((sustained_hosted o _).signals hosted₁) waits
  have arranges' : o.Arranges c := by
    cases finished with
    | done fits => exact fits
  have hosted₃ : Hosted o .arranging (idle ++ waited ++ late) m₃.world := hosted₂.still still'
  have settled : Settled o.inbox (m.time + timeout) inbox c₀ c (arrivals (idle ++ waited)) m₂ := by
    have midway₁ : Midway o.inbox c₀.meeting (m.time + timeout) inbox [] (arrivals idle) m₁ :=
      Still.keeps (fun x => steps_answering (still x)) (arranges.meeting ▸ Midway.stable []) []
        midway
    rw [arrivals_append]
    refine (keeps_conveneLoop o.inbox (m.time + timeout) inbox c₀).sound
      ⟨[], rfl, midway₁.change rfl⟩ ?_
    rw [arranges.meeting]
    exact steps_answering waits
  have ruled : Ruled o.id asked (fun x => reached x && o.willing x) c.outcome := by
    refine hosted₂.told.ruled settled arranges.meeting inviting ?_ ?_
    · intro e mem
      refine timely e ?_
      rw [← List.append_assoc]
      exact List.mem_append_left _ mem
    · intro past x among here
      have some_visit := visited x among here
      rw [← List.append_assoc] at some_visit timely
      rwa [visits_late timely] at some_visit
      intro e mem
      rcases List.mem_append.1 mem with before | after
      · rw [still'.times e before]
        exact past
      · rw [still''.times e after]
        show _ ≤ m₃.time
        rw [still'.time]
        exact past
  rw [← settle_outcome c owner r m₃.world.toAssembly] at ruled
  refine ⟨ruled, ?_⟩
  cases settles : (c.settle owner r m₃.world.toAssembly).1 with
  | error e =>
    have dropped : Dropped o (m₃.change o.inbox _).world :=
      (hosted₃.failed arranges' settles).of_house rfl
    exact .dropped e (dropped.still still'')
  | ok id =>
    have standing : Hosted o .settled (idle ++ waited ++ late) (m₃.change o.inbox _).world :=
      (sustained_hosted o _).signals (hosted₃.settled arranges' own settles)
    have standing := standing.still still''
    rw [List.append_assoc, List.append_assoc] at standing
    exact .hosted id standing

theorem arising_ruled (fresh : Fresh owner n w inbox)
    (begins : Prompt.Move n ⟨convene owner n timeout r, ⟨t, w, called⟩⟩ b)
    (ran : Prompt.Steps n (arising owner n r knows w).Visits b deeds a) :
    Halts n a ∧ ∀ result, a.left = .done result →
      Attended (arising owner n r knows w) r (t + timeout) deeds →
      Ruled (Uuid.ofBits w.post.nextId) (asked owner.id r) (comes r knows w) result ∧
        Left (arising owner n r knows w) deeds a.now.world result := by
  obtain ⟨c₀, m, rfl, rfl, hosted, arranges, inviting, midway⟩ := arises knows fresh begins
  have meeting : c₀.meeting = Uuid.ofBits w.post.nextId := arranges.meeting
  constructor
  · have told : Prompt.Steps n (Answering n c₀.meeting) ⟨arranging owner n timeout r c₀, m⟩
        (arrivals deeds) a := by
      rw [meeting]
      exact steps_answering (o := arising owner n r knows w) ran
    obtain ⟨P, keeps, here⟩ := (keeps_arranging owner timeout m.time r).steps
      (d := ⟨arranging owner n timeout r c₀, m⟩) ⟨rfl, midway timeout⟩ told
    exact keeps.halts here
  · intro result done attended
    obtain ⟨x, m'⟩ := a
    subst done
    exact arranging_ruled (o := arising owner n r knows w) rfl hosted arranges inviting
      (midway timeout) ran attended.timely fun x among here => attended.visited among here

end Occasion

/-- Who takes part in a meeting. -/
def World.participants (w : World) (id : MeetingId) : List AgentId :=
  (((w.house.lookup id).1.bind w.house.room?).map (·.members)).getD []

/-- Another request for the same meeting, which names each attendee once, as required if it is among
    the required. -/
structure MeetingRequest.Once (r r' : MeetingRequest) : Prop where
  playbook : r'.playbook = r.playbook
  topic : r'.topic = r.topic
  nodup : (r'.required ++ r'.optional).Nodup
  required : ∀ x, x ∈ r'.required ↔ x ∈ r.required
  optional : ∀ x, x ∈ r'.optional ↔ x ∈ r.optional ∧ x ∉ r.required

theorem MeetingRequest.Once.named {r r' : MeetingRequest} (once : r.Once r') (x : AgentId) :
    x ∈ r'.required ∨ x ∈ r'.optional ↔ x ∈ r.required ∨ x ∈ r.optional := by
  rw [once.required, once.optional]
  by_cases required : x ∈ r.required <;> simp [required]

namespace Occasion
variable {owner : Signature} {n timeout t : Nat} {r r' : MeetingRequest}
  {knows : AgentId → String → Bool} {w : World} {inbox : Inbox} {called : Bool}
  {deeds deeds' : List (Nat × Deed)} {a a' b b' : Doing World (Except MeetingError MeetingId)}

theorem Left.mem_participants {o : Occasion} {deadline : Nat}
    {result : Except MeetingError MeetingId} (left : Left o deeds w result)
    (attended : Attended o r deadline deeds)
    (named : ∀ x, o.guests x → x ∈ r.required ∨ x ∈ r.optional) (x : AgentId) :
    x ∈ w.participants o.id ↔
      (∃ id, result = .ok id) ∧ (x = o.owner ∨ o.guests x ∧ o.willing x = true) := by
  cases left with
  | dropped e dropped =>
    rw [World.participants, dropped.lookup]
    simp
  | hosted id hosted =>
    obtain ⟨room, here, gathers⟩ := hosted.room
    have members : w.participants o.id = room.members := by
      have found : (w.house.lookup o.id).1 = some o.room := by
        simp only [MeetingHouse.lookup, hosted.entry, hosted.alive, if_true]
      rw [World.participants, found, Option.bind_some, here]
      rfl
    rw [members]
    constructor
    · exact fun mem => ⟨⟨id, rfl⟩, gathers.only x mem⟩
    · rintro ⟨_, rfl | ⟨guest, willing⟩⟩
      · exact gathers.owner
      · have count : 0 < (r.required ++ r.optional).count x :=
          List.count_pos_iff.2 (List.mem_append.2 (named x guest))
        exact gathers.all x willing (Nat.lt_of_lt_of_le count (attended.every x guest))

/-- Two arrangements of one meeting, one of which names each attendee once. Each comes to its end
    if it is left alone. When every guest handles each invitation in time, they come to the same and
    have the same members, unless everybody required comes and somebody is named more than once
    among the required: then the meeting takes place that names each once, and the other one fails,
    since those named more than once are said not to have answered. -/
theorem naming_twice_changes_nothing_unless_among_the_required (fresh : Fresh owner n w inbox)
    (once : r.Once r') (begins : Prompt.Move n ⟨convene owner n timeout r, ⟨t, w, called⟩⟩ b)
    (ran : Prompt.Steps n (arising owner n r knows w).Visits b deeds a)
    (begins' : Prompt.Move n ⟨convene owner n timeout r', ⟨t, w, called⟩⟩ b')
    (ran' : Prompt.Steps n (arising owner n r' knows w).Visits b' deeds' a') :
    Halts n a ∧ Halts n a' ∧ ∀ result result', a.left = .done result → a'.left = .done result' →
      Attended (arising owner n r knows w) r (t + timeout) deeds →
      Attended (arising owner n r' knows w) r' (t + timeout) deeds' →
      (¬ Overasked (asked owner.id r) (comes r knows w) → Agree result result' ∧
        ∀ x, x ∈ a.now.world.participants (Uuid.ofBits w.post.nextId) ↔
          x ∈ a'.now.world.participants (Uuid.ofBits w.post.nextId)) ∧
      (Overasked (asked owner.id r) (comes r knows w) →
        result' = .ok (Uuid.ofBits w.post.nextId) ∧
        ∃ names, result = .error (.timedOut (Uuid.ofBits w.post.nextId) names) ∧
          ∀ x, x ∈ names ↔ 2 ≤ (asked owner.id r).count x) := by
  obtain ⟨halts, ended⟩ := arising_ruled fresh begins ran
  obtain ⟨halts', ended'⟩ := arising_ruled fresh begins' ran'
  refine ⟨halts, halts', fun result result' done done' attended attended' => ?_⟩
  obtain ⟨ruled, left⟩ := ended result done attended
  obtain ⟨ruled', left'⟩ := ended' result' done' attended'
  have comes_same : comes r' knows w = comes r knows w := by
    funext x
    rw [comes, comes, once.playbook]
  have nodup : (asked owner.id r').Nodup := (List.nodup_append.1 once.nodup).1.filter _
  have same : ∀ x, x ∈ asked owner.id r' ↔ x ∈ asked owner.id r := by
    intro x
    rw [asked, asked, List.mem_filter, List.mem_filter, once.required]
  rw [comes_same] at ruled'
  obtain ⟨agree, finished⟩ := ruled.compare ruled' nodup same
  refine ⟨fun fine => ⟨agree fine, fun x => ?_⟩, finished⟩
  have members := left.mem_participants attended (fun x guest => guest.2.1) x
  have members' := left'.mem_participants attended' (fun x guest => guest.2.1) x
  refine members.trans (Iff.trans ?_ members'.symm)
  rw [(agree fine).ok_iff]
  show _ ∧ (x = owner.id ∨
      (_ ∧ (x ∈ r.required ∨ x ∈ r.optional) ∧ _) ∧ knows x r.playbook = true) ↔
    _ ∧ (x = owner.id ∨
      (_ ∧ (x ∈ r'.required ∨ x ∈ r'.optional) ∧ _) ∧ knows x r'.playbook = true)
  rw [once.named, once.playbook]

end Occasion

/- Ann is invited twice and accepts once. -/
namespace Doubled
open Appointment Occasion

def ann : Signature := ⟨"ann", "Guest"⟩

def twice : MeetingRequest := ⟨"Planning", "plans", ["ann", "ann"], []⟩

def once : MeetingRequest := ⟨"Planning", "plans", ["ann"], []⟩

def knows (x : AgentId) (_ : String) : Bool := x = "ann"

def invited (r : MeetingRequest) : Doing World (Except MeetingError MeetingId) :=
  ⟨arranging host 0 10 r (start host r world.toAssembly).1,
    Moment.change 0 ⟨0, world, false⟩ (World.assembled (start host r) world).2⟩

def letterToAnn (r : MeetingRequest) : Message :=
  (invitationDraft host (arising host 0 r knows world).invitation "ann").toMessage
    (Uuid.ofBits 1) "now"

def handled (r : MeetingRequest) (m : Moment World) : Moment World :=
  m.change 0
    (World.assembled (Assembly.handleInvitation ann (knows "ann") (letterToAnn r)) m.world).2

theorem valid_host : ValidId .agent host.id := by decide

theorem handles (r : MeetingRequest) (named : "ann" ∈ r.required) (m : Moment World)
    (early : m.time = 0) (x : Activity World (Except MeetingError MeetingId)) :
    ∃ mail, Prompt.Steps 0 (arising host 0 r knows world).Visits ⟨x, m⟩ [(0, ⟨some "ann", mail⟩)]
      ⟨x, handled r m⟩ := by
  have valid : ValidId .agent ann.id := by decide
  have meeting : ValidId .meeting (arising host 0 r knows world).id := Uuid.valid_ofBits 0
  have guest : (arising host 0 r knows world).guests "ann" := ⟨by decide, .inl named, rfl⟩
  obtain ⟨mail, brings⟩ := handleInvitation_answering (n := 0) valid meeting
    (knows "ann") (letterToAnn r) m.world
  have read : (letterToAnn r).invitation = .ok (arising host 0 r knows world).invitation :=
    Message.invitation_written meeting valid_host rfl
  have step : Prompt.Steps 0 (arising host 0 r knows world).Visits ⟨x, m⟩
      [(m.time, ⟨some "ann", mail⟩)] ⟨x, handled r m⟩ :=
    .one (.others (Visits.answers ann _ mail _ valid guest rfl read brings))
  rw [early] at step
  exact ⟨mail, step⟩

theorem attended {r : MeetingRequest} {deeds : List (Nat × Occasion.Deed)}
    (nobody_else : ∀ x, x ∈ r.required ∨ x ∈ r.optional → x = "ann") (early : ∀ e ∈ deeds, e.1 = 0)
    (often : (r.required ++ r.optional).count "ann" ≤ visits deeds "ann") :
    Attended (arising host 0 r knows world) r (0 + 10) deeds where
  timely e mem _ := by
    rw [early e mem]
    decide
  every x guest := by
    cases nobody_else x guest.2.1
    exact often

theorem fresh : Fresh host 0 world [letter "ada" "1"] where
  box := rfl
  address := rfl
  alone := Appointment.alone
  unanswered := by decide +kernel
  unnoted x := rfl
  unbuilt := rfl

theorem result_twice : ((⟨(invited twice).left,
    handled twice (handled twice (invited twice).now)⟩ : Doing World _).after 0 40).result? =
      some (.error (.timedOut meeting ["ann"])) := by
  decide +kernel

theorem result_once : ((⟨(invited Doubled.once).left,
    handled Doubled.once (invited Doubled.once).now⟩ : Doing World _).after 0 40).result? =
      some (.ok meeting) := by
  decide +kernel

end Doubled

open Doubled Appointment Occasion in
theorem naming_twice_changes_nothing_unless_among_the_required_as_ann_is :
    Fresh host 0 world [letter "ada" "1"] ∧ twice.Once Doubled.once ∧
      Overasked (asked host.id twice) (comes twice knows world) ∧
      ∃ b b' deeds deeds' a a',
        Prompt.Move 0 ⟨convene host 0 10 twice, ⟨0, world, false⟩⟩ b ∧
        Prompt.Steps 0 (arising host 0 twice knows world).Visits b deeds a ∧
        Prompt.Move 0 ⟨convene host 0 10 Doubled.once, ⟨0, world, false⟩⟩ b' ∧
        Prompt.Steps 0 (arising host 0 Doubled.once knows world).Visits b' deeds' a' ∧
        Attended (arising host 0 twice knows world) twice (0 + 10) deeds ∧
        Attended (arising host 0 Doubled.once knows world) Doubled.once (0 + 10) deeds' ∧
        a.left = .done (.error (.timedOut meeting ["ann"])) ∧ a'.left = .done (.ok meeting) ∧
        ∀ x, x ∈ ["ann"] ↔ 2 ≤ (asked host.id twice).count x := by
  have requests : twice.Once Doubled.once :=
    ⟨rfl, rfl, by decide, by simp [twice, Doubled.once], by simp [twice, Doubled.once]⟩
  have finished : Overasked (asked host.id twice) (comes twice knows world) :=
    ⟨by decide, "ann", by decide⟩
  obtain ⟨mail₁, first⟩ := handles twice (by decide) (invited twice).now rfl (invited twice).left
  obtain ⟨mail₂, second⟩ :=
    handles twice (by decide) (handled twice (invited twice).now) rfl (invited twice).left
  obtain ⟨mail, only⟩ :=
    handles Doubled.once (by decide) (invited Doubled.once).now rfl (invited Doubled.once).left
  have ran := (first.trans second).trans (alone_after 40 _).steps
  have ran' := only.trans (alone_after 40 _).steps
  rw [Doing.eq_of_result result_twice] at ran
  rw [Doing.eq_of_result result_once] at ran'
  have begins : Prompt.Move 0 ⟨convene host 0 10 twice, ⟨0, world, false⟩⟩ (invited twice) :=
    .act ..
  have begins' : Prompt.Move 0 ⟨convene host 0 10 Doubled.once, ⟨0, world, false⟩⟩
    (invited Doubled.once) := .act ..
  have came : Attended (arising host 0 twice knows world) twice (0 + 10)
      [(0, ⟨some "ann", mail₁⟩), (0, ⟨some "ann", mail₂⟩)] :=
    attended (by simp [twice]) (by simp) (by simp [twice, visits])
  have came' : Attended (arising host 0 Doubled.once knows world) Doubled.once (0 + 10)
      [(0, ⟨some "ann", mail⟩)] :=
    attended (by simp [Doubled.once]) (by simp) (by simp [Doubled.once, visits])
  obtain ⟨_, _, compared⟩ := naming_twice_changes_nothing_unless_among_the_required fresh requests
    begins ran begins' ran'
  obtain ⟨_, names, same, exactly⟩ := (compared _ _ rfl rfl came came').2 finished
  cases same
  exact ⟨fresh, requests, finished, _, _, _, _, _, _, begins, ran, begins', ran', came, came', rfl, rfl,
    exactly⟩

end Playbook
