import Playbook.Agent.Service
import Playbook.Proofs.Agent.Closing
import Playbook.Proofs.Checkpoint.Manager

/- Meetings are always wound up, by those who have opened them and by those who have joined them,
   whatever the playbook of the meeting comes to. -/
namespace Playbook
open Script Activity Assembly

/-- A store that leaves inboxes and meetings alone. -/
structure CheckpointStore.Discreet (store : CheckpointStore World) : Prop where
  saved (id : CheckpointId) (data : CheckpointData) (w : World) :
    (store.save id data w).2.toAssembly = w.toAssembly
  deleted (id : CheckpointId) (w : World) : (store.delete id w).2.toAssembly = w.toAssembly

theorem CheckpointStore.Discreet.managed {store : CheckpointStore World}
    (discreet : store.Discreet) (m : CheckpointManager) (now : String) (r : SaveRequest)
    (w : World) : (m.save store now r w).2.2.toAssembly = w.toAssembly := by
  have deleted : ∀ id w', w'.toAssembly = w.toAssembly →
      (store.delete id w').2.toAssembly = w.toAssembly :=
    fun id w' same => (discreet.deleted id w').trans same
  exact CheckpointManager.save_keeps deleted m now r fun number _ => discreet.saved _ _ w

theorem discreet_memory (limit : Nat) : (Ensemble.memoryStore limit).Discreet :=
  ⟨fun _ _ _ => rfl, fun _ _ => rfl⟩

abbrev World.Rejoins (who : AgentId) : Nat → World → World → Prop :=
  World.Changes fun h h' => (h'.book who).joined = (h.book who).joined

namespace Agent
variable {a b : Agent} {C : Proviso World} {first : Nat}

/-- Whatever store the agent has leaves inboxes and meetings alone. -/
def Discreet (a : Agent) : Prop := ∀ store, a.store = some store → store.Discreet

structure Remains (a b : Agent) : Prop where
  host : b.host = a.host
  store : b.store = a.store
  signature : b.state.signature = a.state.signature

theorem Remains.refl (a : Agent) : Remains a a := ⟨rfl, rfl, rfl⟩

theorem Remains.trans {c : Agent} (one : Remains a b) (other : Remains b c) : Remains a c :=
  ⟨other.host.trans one.host, other.store.trans one.store, other.signature.trans one.signature⟩

theorem Remains.discreet (remains : Remains a b) (discreet : a.Discreet) : b.Discreet :=
  fun store here => discreet store (remains.store ▸ here)

theorem saver_settles (discreet : a.Discreet) (C : Proviso World) (s : Signature) (first : Nat) :
    (leading C (World.covers_restores s.id first)).Savers (.ofSignature s) a.saver a.saver := by
  have covers := World.covers_restores s.id first
  unfold saver
  cases here : a.store with
  | none => exact .none
  | some store =>
    refine .some fun r b agents => ?_
    obtain ⟨rfl, -⟩ := agents
    have within : Within (World.Restores s.id first) (Activity.change (a.save store r)) := by
      refine .act (fun _ w => ?_) .done
      have same : (a.save store r w).2.toAssembly = w.toAssembly := by
        unfold save
        cases w.managers.get? a.state.id with
        | none => rfl
        | some m => exact (discreet store here).managed m w.post.date r w
      exact (World.bypasses_aside (Nat.le_of_eq (by rw [same])) (by rw [same])).restores
    exact (Leads.of_within covers within).weaken id fun answer _ => ⟨answer, rfl⟩

theorem perform_settles {s : Signature} (discreet : a.Discreet) (signed : a.state.signature = s)
    (C : Proviso World) (first : Nat) (i : Invocation) :
    Leads (World.Elsewhere s.id) C (World.Restores s.id first) (fun p => Remains a p.2)
      (a.perform i) := by
  have covers := World.covers_restores s.id first
  have handlers : (leading C covers).Handlers (.ofSignature s) a.host.handler a.host.handler :=
    handlerOver_settles (performer_settles C s first a.host (maxDepth + 1))
  have performs : PerformsSettled C s first
      (a.host.execute a.host.handler a.saver a.execution) :=
    execute_settles handlers (saver_settles discreet C s first) a.execution
  refine .bind covers (performs i a.state signed) ?_
  rintro ⟨r, state⟩ signed'
  exact .done covers ⟨rfl, rfl, signed'.trans signed.symm⟩

theorem covers_rejoins (who : AgentId) (first : Nat) :
    Covers (World.Elsewhere who) (World.Rejoins who first) where
  refl _ := ⟨Nat.le_refl _, fun consistent _ => ⟨consistent, rfl⟩⟩
  trans one other := one.trans (fun same same' => same'.trans same) other
  others done := (Assembly.Elsewhere.changes done).mono fun bypasses =>
    congrArg (·.joined) bypasses.book

theorem rejoins_of_restores {who : AgentId} {w w' : World}
    (restores : World.Restores who first w w') : World.Rejoins who first w w' :=
  Assembly.Changes.mono restores MeetingHouse.Restores.joined

/-- Wherever the agent answers an invitation of the batch, the owner whom it names has an inbox. -/
def answerable (a : Agent) (batch : List Message) : Proviso World where
  holds d := ∀ m ∈ batch, ∀ i next,
    d.left = .act (fun _ w => World.assembled
      (Assembly.handleInvitation a.state.signature a.host.repertoire.contains m) w) next →
    m.invitation = .ok i → (d.world.post.boxOf? i.owner).isSome = true
  first {α β x f t w} met m mem i next here read := by
    refine met m mem i (fun outcome => (next outcome).bind f) ?_ read
    exact congrArg (·.bind f) here

namespace Handling
variable {h : Handling} {batch : List Message} {s : Signature}

def attended (h : Handling) : Except MeetingError InvitationOutcome → Activity World Handling
  | .ok (.joined joined invitation) =>
    (h.perform ⟨invitation.playbook, [], some joined.id, []⟩).bind fun k =>
      .act (fun _ w => World.assembled (Assembly.leaveMeeting h.agent.state.id joined.id) w)
        fun _ => .done k
  | _ => .done h

theorem attend_eq (h : Handling) (m : Message) :
    h.attend m = .act (fun _ w => World.assembled (Assembly.handleInvitation
      h.agent.state.signature h.agent.host.repertoire.contains m) w) h.attended := by
  show Activity.act _ _ = _
  congr 1

def leave (joined : Dict JoinedMeeting) : Except MeetingError InvitationOutcome → Dict JoinedMeeting
  | .ok (.joined j _) => joined.erase j.id
  | _ => joined

abbrev Rejoins (a : Agent) (C : Proviso World) (s : Signature) (first : Nat)
    (x : Activity World Handling) : Prop :=
  Leads (World.Elsewhere s.id) C (World.Rejoins s.id first) (fun k => Remains a k.agent) x

variable (discreet : a.Discreet) (signed : a.state.signature = s) (remains : Remains a h.agent)
include discreet signed remains

theorem perform_settles (i : Invocation) :
    Leads (World.Elsewhere s.id) C (World.Restores s.id first) (fun k => Remains a k.agent)
      (h.perform i) := by
  have covers := World.covers_restores s.id first
  refine .bind covers (Agent.perform_settles (remains.discreet discreet)
    (remains.signature.trans signed) C first i) ?_
  rintro ⟨r, b⟩ more
  cases r with
  | error fault => exact .done covers (remains.trans more)
  | ok summary => exact .done covers (remains.trans more)

theorem perform_rejoins (i : Invocation) : Rejoins a C s first (h.perform i) :=
  (perform_settles discreet signed remains i).weaken rejoins_of_restores fun _ more => more

theorem attended_changes (first : Nat) {outcome : Except MeetingError InvitationOutcome}
    {k : Handling}
    {t t' : Nat} {w w' : World}
    (ran : Under (World.Elsewhere s.id) C ⟨h.attended outcome, t, w⟩ ⟨.done k, t', w'⟩) :
    World.Changes (fun g g' => (g'.book s.id).joined = leave (g.book s.id).joined outcome)
        first w w' ∧
      Remains a k.agent := by
  have covers := covers_rejoins s.id first
  rcases outcome with e | (⟨j, i⟩ | id | ⟨id, reason⟩)
  case ok.joined =>
    obtain ⟨k', t₁, w₁, performed, ran⟩ := ran.bind_done
    obtain ⟨during, more⟩ := (perform_rejoins discreet signed remains _).ends performed
    obtain ⟨t₂, w₂, between, _, ran⟩ := ran.acted covers
    obtain ⟨after, rfl⟩ := ran.done covers
    have before := covers.trans during between
    have own : h.agent.state.id = s.id := congrArg Signature.id (remains.signature.trans signed)
    rw [own] at after
    have post := w₂.toAssembly.post_leaveMeeting s.id j.id
    have late : w₂.post.nextId ≤ w'.post.nextId :=
      Nat.le_trans (Nat.le_of_eq (congrArg (·.nextId) post).symm) after.ids
    refine ⟨⟨Nat.le_trans before.ids late, fun consistent few => ?_⟩, more⟩
    obtain ⟨consistent₂, same⟩ := before.house consistent (Nat.le_trans late few)
    have consistent₃ := consistent₂.tends (tends_leaveMeeting w₂.toAssembly s.id j.id)
    rw [← post] at consistent₃
    obtain ⟨consistent', same'⟩ := after.house consistent₃ few
    refine ⟨consistent', same'.trans ?_⟩
    show ((w₂.toAssembly.leaveMeeting s.id j.id).2.house.book s.id).joined = _
    rw [book_leaveMeeting, if_pos rfl, leave, ← same]
    rfl
  all_goals
    obtain ⟨after, rfl⟩ := ran.done covers
    exact ⟨after, remains⟩

theorem attend_rejoins {m : Message} (among : m ∈ batch) :
    Rejoins a (answerable a batch) s first (h.attend m) := by
  have covers := covers_rejoins s.id first
  have own : h.agent.state.signature = s := remains.signature.trans signed
  refine ⟨fun {t w k t' w'} ran => ?_⟩
  rw [attend_eq] at ran
  obtain ⟨t₁, w₁, before, met, ran⟩ := ran.acted covers
  have reachable : ∀ i, m.invitation = .ok i → (w₁.post.boxOf? i.owner).isSome = true := by
    intro i read
    refine met m among i h.attended ?_ read
    rw [← remains.signature, ← remains.host]
  obtain ⟨after, more⟩ := attended_changes discreet signed remains first ran
  rw [own] at after
  refine ⟨covers.trans before ?_, more⟩
  have ids := ids_handleInvitation w₁.toAssembly m s h.agent.host.repertoire.contains
  refine ⟨Nat.le_trans ids after.ids, fun consistent few => ?_⟩
  have tends := tends_handleInvitation w₁.toAssembly m s h.agent.host.repertoire.contains
  obtain ⟨consistent', left⟩ := after.house ((consistent.tends tends).later ids) few
  refine ⟨consistent', left.trans ?_⟩
  have handled := handleInvitation_handled consistent s h.agent.host.repertoire.contains m
  show leave ((w₁.toAssembly.handleInvitation s h.agent.host.repertoire.contains m).2.house.book
    s.id).joined (w₁.toAssembly.handleInvitation s h.agent.host.repertoire.contains m).1 = _
  generalize w₁.toAssembly.handleInvitation s h.agent.host.repertoire.contains m = answered at handled
  obtain ⟨outcome, answered⟩ := answered
  cases handled with
  | joined j i absent noted =>
    show (answered.house.book s.id).joined.erase j.id = _
    rw [noted, Dict.erase_insert, Dict.erase_of_absent absent]
  | passed plain same =>
    rcases outcome with e | (⟨j, i⟩ | id | ⟨id, reason⟩)
    case ok.joined => exact absurd rfl (plain j i)
    all_goals exact same
  | stranded e i read unreachable =>
    have there := reachable i read
    rw [show w₁.post.boxOf? i.owner = none from unreachable] at there
    cases there

theorem receive_rejoins {m : Message} (among : m ∈ batch) :
    Rejoins a (answerable a batch) s first (h.receive m) := by
  have covers := covers_rejoins s.id first
  unfold receive
  split
  · exact attend_rejoins discreet signed remains among
  · have records : Within (World.Rejoins s.id first)
        (Activity.change (World.assembled (Assembly.recordResponse m))) :=
      .act (fun _ w => rejoins_of_restores
        (World.Bypasses.restores (changes_recordResponse w.toAssembly m))) .done
    exact .bind_within covers records fun _ => .done covers remains
  all_goals
    refine .done covers ?_
    split <;> exact remains

theorem receiveAll_rejoins (first : Nat) {rest : List Message} (among : rest ⊆ batch) :
    Rejoins a (answerable a batch) s first (h.receiveAll rest) := by
  have covers := covers_rejoins s.id first
  induction rest generalizing h with
  | nil => exact .done covers remains
  | cons m rest ih =>
    refine .bind covers (receive_rejoins discreet signed remains (among List.mem_cons_self)) ?_
    exact fun k more => ih more fun _ mem => among (List.mem_cons_of_mem m mem)

theorem converse_rejoins (handler : String) (groups : List (Option MeetingId × List Message)) :
    Rejoins a C s first (h.converse handler groups) := by
  have covers := covers_rejoins s.id first
  induction groups generalizing h with
  | nil => exact .done covers remains
  | cons group rest ih =>
    exact .bind covers (perform_rejoins discreet signed remains _) fun k more => ih more

end Handling

theorem handleBatch_rejoins (discreet : a.Discreet) (first : Nat) (batch : List Message) :
    Leads (World.Elsewhere a.state.id) (answerable a batch) (World.Rejoins a.state.id first)
      (fun p => Remains a p.2) (a.handleBatch batch) := by
  have covers := covers_rejoins a.state.id first
  have received := Handling.receiveAll_rejoins (h := ⟨a, 0, .empty⟩) discreet rfl (.refl a) first
    (List.Subset.refl batch)
  refine .bind covers received fun h remains => ?_
  split
  · exact .done covers remains
  · exact .bind covers (Handling.converse_rejoins discreet rfl remains _ _) fun k remains =>
      .done covers remains

end Agent

/-- After any history of meetings, and while others go on with theirs: when an owner has held a
    meeting of a playbook that it knows, whatever the answers were and however the playbook ended,
    the meeting is over, nobody reaches it, and what the owner had before it still has. And when an
    agent has handled a batch, it has joined just the meetings that it had joined before, if the
    owners who had invited it had an inbox when it answered them. -/
theorem meetings_are_wound_up {g : Gathering} {first : Nat} {date : String}
    {log : List Event} {w : World}
    (history : Gathering.History (.start first date) log g) (here : w.toAssembly = g.assembly) :
    (∀ (host : Host) (levels : Nat) (a : AgentState) (playbook topic : String)
        (required optional : List String), host.repertoire.contains playbook = true →
      (∀ e, MeetingRequest.ofNames playbook topic required optional = .error e →
        (host.handlerOver (host.performer levels)).suspend a
            (.createMeeting playbook topic required optional) =
          .done (.ok (.str s!"Meeting initialization failed: {e.message}"), a)) ∧
      ∀ r, MeetingRequest.ofNames playbook topic required optional = .ok r →
        ∀ (t : Nat) (b : Underway World (Except String Value × AgentState)) (deeds : List Unit)
          (result : Except String Value × AgentState) (t' : Nat) (w' : World),
          Move ⟨(host.handlerOver (host.performer levels)).suspend a
            (.createMeeting playbook topic required optional), t, w⟩ b →
          Steps (World.Elsewhere a.id) b deeds ⟨.done result, t', w'⟩ →
          w'.post.nextId ≤ first + 2 ^ 122 →
          MeetingHouse.WoundUp a.id (Convening.start a.signature r w.toAssembly).1.meeting
            w.house w'.house) ∧
    ∀ (a : Agent) (batch : List Message) (t : Nat) (result : Nat × Agent) (t' : Nat) (w' : World),
      a.Discreet →
      Under (World.Elsewhere a.state.id) (a.answerable batch) ⟨a.handleBatch batch, t, w⟩
        ⟨.done result, t', w'⟩ →
      w'.post.nextId ≤ first + 2 ^ 122 →
      (w'.house.book a.state.id).joined = (w.house.book a.state.id).joined := by
  have consistent (few : w.post.nextId ≤ first + 2 ^ 122) :
      w.house.Consistent first w.post.nextId := by
    rw [here] at few ⊢
    exact (history.kept (Gathering.start_kept first date) few).consistent
  constructor
  · intro host levels a playbook topic required optional known
    refine ⟨fun e names => Host.holdMeeting_of_error names, ?_⟩
    intro r names t b deeds result t' w' begins ran few
    change Move ⟨host.holdMeeting (host.performer levels) a playbook topic required optional, t, w⟩ b
      at begins
    rw [Host.holdMeeting_of_ok names, convene_eq] at begins
    cases begins
    have performs := performer_settles .none a.signature first host levels
    obtain ⟨changes, _⟩ := meeting_changes performs ran.under
    obtain ⟨after, restores, ends⟩ :=
      changes.house (consistent (Nat.le_trans changes.ids few)) few
    exact restores.woundUp after (ends known)
  · intro a batch t result t' w' discreet ran few
    obtain ⟨changes, _⟩ := (Agent.handleBatch_rejoins discreet first batch).ends ran
    exact (changes.house (consistent (Nat.le_trans changes.ids few)) few).2

/- A guest whose engine is out of order. It has been invited, and holds a meeting of its own. -/
namespace OutOfOrder
open Gathering

def guest : Agent where
  state := .fresh "guest" "Guest"
  host := {
    inbox := 0
    repertoire := Repertoire.empty.addMeeting "Planning"
    engine := fun _ => .error "out of order"
    batchTimeout := 0
    maxBatchMessages := 1
    meetingTimeout := 5 }
  execution := "guest"
  store := some (Ensemble.memoryStore 1000)

def world : World := Visit.world Visit.received.assembly

def request : MeetingRequest := ⟨"Planning", "plans", [], ["host"]⟩

def asked : Underway World (Except String Value × AgentState) :=
  ⟨guest.host.handler.suspend guest.state (.createMeeting "Planning" "plans" [] ["host"]), 0, world⟩

def invited : Underway World (Nat × Agent) := ⟨guest.handleBatch [Visit.invited], 0, world⟩

theorem asked_begins : Move asked asked.next := .act ..

theorem discreet : guest.Discreet := by
  rintro _ ⟨⟩
  exact discreet_memory 1000

theorem answerable (k : Nat)
    (addressed : ∀ i < k, ((invited.after i).world.post.boxOf? "host").isSome) :
    ∀ i < k, (guest.answerable [Visit.invited]).holds (invited.after i) := by
  intro i early m mem invitation next _ read
  obtain rfl := List.mem_singleton.1 mem
  rw [Visit.invited_read] at read
  cases read
  exact addressed i early

end OutOfOrder

open OutOfOrder Gathering in
theorem meetings_are_wound_up_when_the_engine_fails :
    History (.start 0 "now") [.deed .other, .deed (.convene "host" Visit.request Visit.meeting),
      .deed .other] Visit.received ∧
    world.toAssembly = Visit.received.assembly ∧
    guest.host.repertoire.contains "Planning" = true ∧
    MeetingRequest.ofNames "Planning" "plans" [] ["host"] = .ok request ∧
    (∃ deeds result t w, Steps (World.Elsewhere "guest") asked.next deeds ⟨.done result, t, w⟩ ∧
      w.post.nextId ≤ 0 + 2 ^ 122 ∧
      MeetingHouse.WoundUp "guest" (Uuid.ofBits 2) world.house w.house) ∧
    ∃ result t w, guest.Discreet ∧
      Under (World.Elsewhere "guest") (guest.answerable [Visit.invited]) invited
        ⟨.done result, t, w⟩ ∧
      w.post.nextId ≤ 0 + 2 ^ 122 ∧
      (w.house.book "guest").joined = (world.house.book "guest").joined := by
  have history := Visit.history_of_run Visit.run_received
  have names : MeetingRequest.ofNames "Planning" "plans" [] ["host"] = .ok request := by rfl
  obtain ⟨holding, handling⟩ := meetings_are_wound_up (w := world) history rfl
  refine ⟨history, rfl, rfl, names, ?_, ?_⟩
  · have came : ((asked.next.after 7).result?).isSome = true := by decide +kernel
    have few : (asked.next.after 7).world.post.nextId ≤ 0 + 2 ^ 122 := by decide +kernel
    obtain ⟨result, found⟩ := Option.isSome_iff_exists.1 came
    obtain ⟨deeds, ran⟩ := (under_after (World.Elsewhere "guest") (C := .none) 7
      fun _ _ => trivial : Under _ _ asked.next _).steps
    rw [Underway.eq_of_result found] at ran
    obtain ⟨-, held⟩ :=
      holding guest.host (maxDepth + 1) guest.state "Planning" "plans" [] ["host"] rfl
    exact ⟨deeds, result, _, _, ran, few,
      held request names 0 _ deeds result _ _ asked_begins ran few⟩
  · have came : ((invited.after 3).result?).isSome = true := by decide +kernel
    have few : (invited.after 3).world.post.nextId ≤ 0 + 2 ^ 122 := by decide +kernel
    obtain ⟨result, found⟩ := Option.isSome_iff_exists.1 came
    have ran := under_after (World.Elsewhere "guest") 3
      (OutOfOrder.answerable 3 (by decide +kernel))
    rw [Underway.eq_of_result found] at ran
    exact ⟨result, _, _, discreet, ran, few, handling guest _ 0 result _ _ discreet ran few⟩

end Playbook
