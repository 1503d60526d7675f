import Playbook.Ensemble
import Playbook.Proofs.Activity.Provisos
import Playbook.Proofs.Agent.Frames
import Playbook.Proofs.Meeting.Rendezvous
import Playbook.Proofs.Meeting.Winding

/- Whatever a playbook does, and however it ends, the meetings that its agent had before are as they
   were. A meeting that is brought about for a playbook is lost afterwards. -/
namespace Playbook
open Script Activity Assembly

namespace World

/-- What others do to the world, as it appears to one agent. -/
def Elsewhere (who : AgentId) (_ : List Unit) (w w' : World) : Prop :=
  Assembly.Elsewhere who w.toAssembly w'.toAssembly

def Changes (S : MeetingHouse → MeetingHouse → Prop) (first : Nat) (w w' : World) : Prop :=
  Assembly.Changes S first w.toAssembly w'.toAssembly

/-- Others, or the agent itself, are busy with something else than its meetings. -/
abbrev Bypasses (who : AgentId) : Nat → World → World → Prop :=
  Changes (MeetingHouse.Bypasses who)

/-- The meetings of an agent are as before, but for those that it has opened meanwhile. -/
abbrev Restores (who : AgentId) : Nat → World → World → Prop :=
  Changes (MeetingHouse.Restores who)

variable {who : AgentId} {first : Nat} {w w' : World} {α : Type}

theorem covers_bypasses (who : AgentId) (first : Nat) :
    Covers (Elsewhere who) (Bypasses who first) where
  refl _ := .refl (.refl who) _
  trans := .trans .trans
  others := Assembly.Elsewhere.changes

theorem covers_restores (who : AgentId) (first : Nat) :
    Covers (Elsewhere who) (Restores who first) where
  refl _ := .refl (.refl who) _
  trans := .trans .trans
  others done := (Assembly.Elsewhere.changes done).mono MeetingHouse.Bypasses.restores

theorem Bypasses.restores (bypasses : Bypasses who first w w') : Restores who first w w' :=
  Assembly.Changes.mono bypasses MeetingHouse.Bypasses.restores

theorem bypasses_aside (ids : w.post.nextId ≤ w'.post.nextId) (same : w'.house = w.house) :
    Bypasses who first w w' :=
  changes_of_post ids same (.refl who)

end World

section Bypassing
variable {who : AgentId} {first : Nat} {α : Type}
open World

theorem bypasses_deliver (closeTurn : Bool) (m : Message) (a : Assembly) :
    Assembly.Changes (MeetingHouse.Bypasses who) first a
      (if closeTurn then a.deliverTurn m else a.deliver m).2 := by
  cases closeTurn with
  | false => exact changes_of_post (a.adds_deliver m).ids (a.deliver_house m) (.refl who)
  | true =>
    simp only [if_true, deliverTurn, withPost]
    cases delivered : a.post.deliverTurn m with
    | error e => exact .refl (.refl who) a
    | ok post => exact changes_of_post (PostOffice.ids_deliverTurn delivered) rfl (.refl who)

theorem bypasses_speak (a : AgentState) (target content : String) (closeTurn : Bool) (w : World) :
    World.Bypasses who first w (a.speak target content closeTurn w).2 := by
  unfold AgentState.speak
  split
  · exact bypasses_aside (Nat.le_succ _) rfl
  split
  · cases a.stack.currentMeeting? with
    | none => exact (covers_bypasses who first).refl w
    | some id => exact changes_sayToMeeting w.toAssembly a.signature id content
  · cases checkId .agent target with
    | error e => exact (covers_bypasses who first).refl w
    | ok addressee =>
      let written := w.toAssembly.write (.direct a.id a.klass addressee content)
      have minted : Assembly.Changes (MeetingHouse.Bypasses who) first w.toAssembly written.2 :=
        changes_of_post (Nat.le_succ _) rfl (.refl who)
      exact minted.trans .trans (bypasses_deliver closeTurn written.1 written.2)

theorem bypasses_setState (a : AgentState) (function : String) (args : List Value) (w : World) :
    World.Bypasses who first w (Host.setState a function args w).2 := by
  unfold Host.setState
  cases Host.stateAccess a function args w with
  | error text => exact (covers_bypasses who first).refl w
  | ok access => exact Assembly.Elsewhere.changes (.write access.2 access.1 _)

theorem hearAll_keeps (who : AgentId) (first : Nat) (c : Convening) (a : Assembly)
    (batch : List Message) :
    (c.hearAll a batch).1.room = c.room ∧ (c.hearAll a batch).1.meeting = c.meeting ∧
      Assembly.Changes (MeetingHouse.Bypasses who) first a (c.hearAll a batch).2 := by
  induction batch generalizing c a with
  | nil => exact ⟨rfl, rfl, .refl (.refl who) a⟩
  | cons m rest ih =>
    have heard : Assembly.Changes (MeetingHouse.Bypasses who) first a (c.hear m a).2 :=
      changes_hear a m c
    have same : (c.hear m a).1.room = c.room ∧ (c.hear m a).1.meeting = c.meeting := by
      cases read : m.response with
      | error e =>
        rw [hear_unread read]
        exact ⟨rfl, rfl⟩
      | ok r => exact (hear_applied read a).2
    obtain ⟨room, meeting, later⟩ := ih (c.hear m a).1 (c.hear m a).2
    exact ⟨room.trans same.1, meeting.trans same.2, heard.trans .trans later⟩

end Bypassing

section Convening
variable {C : Proviso World} {owner : Signature} {n timeout first t t' : Nat} {r : MeetingRequest}
  {c : Convening} {w w' : World} {result : Except MeetingError MeetingId}

theorem gathering_leads (owner : Signature) (C : Proviso World) (first n deadline : Nat)
    (c : Convening) :
    Leads (World.Elsewhere owner.id) C (World.Bypasses owner.id first)
      (fun c' => c'.room = c.room ∧ c'.meeting = c.meeting)
      (.loop c (conveneRound n deadline) .done) := by
  have covers := World.covers_bypasses owner.id first
  refine .of_upholds covers fun w => ?_
  refine .loop (fun c' => c'.room = c.room ∧ c'.meeting = c.meeting) _ ⟨rfl, rfl⟩ ?_
    fun c' same => .done same
  intro c' same
  refine .act (fun _ _ here => here) fun now _ _ => ?_
  dsimp only
  split
  · exact .done same
  · have collects : Within (World.Bypasses owner.id first) (collectBatch n _) :=
      within_collectBatch n ⟨Convening.isAnswer c'.meeting, deadline - now, 1, none⟩ covers.refl
        fun w left => World.bypasses_aside (Nat.le_refl _) rfl
    refine (collects.weaken fun _ _ one here => covers.trans here one).upholds.bind
      fun batch _ => ?_
    refine .act (fun _ w here =>
      covers.trans here (hearAll_keeps owner.id first c' w.toAssembly batch).2.2) fun _ w _ => .done ?_
    obtain ⟨room, meeting, _⟩ := hearAll_keeps owner.id first c' w.toAssembly batch
    exact ⟨room.trans same.1, meeting.trans same.2⟩

theorem arranging_settles (first : Nat)
    (ran : Under (World.Elsewhere owner.id) C ⟨arranging owner n timeout r c, t, w⟩
      ⟨.done result, t', w'⟩) :
    ∃ (c' : Convening) (w₁ : World), c'.room = c.room ∧ c'.meeting = c.meeting ∧
      World.Bypasses owner.id first w w₁ ∧ (c'.settle owner r w₁.toAssembly).1 = result ∧
      World.Bypasses owner.id first (World.assembled (c'.settle owner r) w₁).2 w' := by
  have covers := World.covers_bypasses owner.id first
  obtain ⟨t₁, w₁, before, _, ran⟩ := ran.acted covers
  have ran : Under _ C ⟨(Activity.loop c (conveneRound n (t₁ + timeout)) .done).bind fun c' =>
    .act (fun _ w => World.assembled (c'.settle owner r) w) .done, t₁, w₁⟩ _ := ran
  obtain ⟨c', t₂, w₂, gathered, ran⟩ := ran.bind_done
  obtain ⟨between, room, meeting⟩ := (gathering_leads owner C first n _ c).ends gathered
  obtain ⟨t₃, w₃, late, _, ran⟩ := ran.acted covers
  obtain ⟨after, same⟩ := ran.done covers
  exact ⟨c', w₃, room, meeting, covers.trans before (covers.trans between late), same, after⟩

theorem convening_changes (owner : Signature) (first : Nat)
    (ran : Under (World.Elsewhere owner.id) C
      ⟨arranging owner n timeout r (Convening.start owner r w.toAssembly).1, t,
        (World.assembled (Convening.start owner r) w).2⟩ ⟨.done result, t', w'⟩) :
    World.Changes (fun h h' => MeetingHouse.Restores owner.id h h' ∧
      (h.book owner.id).contains (Convening.start owner r w.toAssembly).1.meeting = false ∧
      h'.Convened owner.id (Convening.start owner r w.toAssembly).1.meeting result) first w w' := by
  obtain ⟨c, w₁, room, meeting, between, rfl, after⟩ := arranging_settles first ran
  obtain ⟨_, _, _, _, _, began, _⟩ := Convening.start_opens owner r w.toAssembly
  have post := (settle_house c owner r w₁.toAssembly).1
  have late : w₁.post.nextId ≤ w'.post.nextId :=
    Nat.le_trans (Nat.le_of_eq (congrArg (·.nextId) post).symm) after.ids
  refine ⟨Nat.le_trans (Nat.le_of_succ_le began) (Nat.le_trans between.ids late), ?_⟩
  intro consistent few
  have few₁ := Nat.le_trans late few
  obtain ⟨consistent₁, opening⟩ :=
    start_opening owner r consistent (Nat.le_trans between.ids few₁)
  obtain ⟨consistent₂, bypasses⟩ := between.house consistent₁ few₁
  rw [← room, ← meeting] at opening
  obtain ⟨consistent₃, restores, convened⟩ :=
    settle_opening r consistent₂ (opening.bypassed bypasses)
  obtain ⟨consistent₄, bypasses'⟩ := after.house consistent₃ few
  rw [← meeting]
  exact ⟨consistent₄, restores.trans bypasses'.restores, opening.absent,
    convened.bypassed bypasses'⟩

end Convening

namespace Host

def conclude (host : Host) (perform : Performer) (a : AgentState) (playbook : String) :
    Except MeetingError MeetingId → Activity World (Except String Value × AgentState)
  | .error e => .done (.ok (.str s!"Meeting initialization failed: {e.message}"), a)
  | .ok id =>
    if !host.repertoire.contains playbook then .done (.ok (.str id), a)
    else
      (call perform ⟨playbook, [], some id, []⟩ a).bind fun (outcome, a) =>
        .act (fun _ w => World.assembled (Assembly.closeMeeting a.id id) w) fun _ =>
          .done (outcome.map fun
            | .null => .str id
            | v => v, a)

variable {host : Host} {perform : Performer} {a : AgentState} {playbook topic : String}
  {required optional : List String}

theorem holdMeeting_of_error {e : MeetingError}
    (names : MeetingRequest.ofNames playbook topic required optional = .error e) :
    host.holdMeeting perform a playbook topic required optional =
      .done (.ok (.str s!"Meeting initialization failed: {e.message}"), a) := by
  unfold holdMeeting
  simp only [names]
  rfl

theorem holdMeeting_of_ok {r : MeetingRequest}
    (names : MeetingRequest.ofNames playbook topic required optional = .ok r) :
    host.holdMeeting perform a playbook topic required optional =
      (convene a.signature host.inbox host.meetingTimeout r).bind
        (host.conclude perform a playbook) := by
  unfold holdMeeting
  simp only [names]
  show (convene _ _ _ _).bind _ = _
  congr 1

end Host

def Script.Likeness.ofSignature (s : Signature) : Likeness where
  agents a b := a = b ∧ a.signature = s
  vars := by
    rintro a _ ⟨rfl, -⟩ name
    rfl
  pointers := by
    rintro a _ ⟨rfl, -⟩
    rfl
  set := by
    rintro a _ ⟨rfl, signed⟩ name v
    exact ⟨rfl, signed⟩
  advance := by
    rintro a _ ⟨rfl, signed⟩ step
    exact ⟨rfl, signed⟩

section Performing
variable {C : Proviso World} {s : Signature} {first : Nat} {host : Host} {perform : Performer}
  {a : AgentState} {α : Type}

/-- The agent gets back with its meetings as they were, and signs as before. -/
abbrev Settles (C : Proviso World) (s : Signature) (first : Nat)
    (x : Activity World (α × AgentState)) : Prop :=
  Leads (World.Elsewhere s.id) C (World.Restores s.id first) (fun p => p.2.signature = s) x

/-- Performing after which the meetings of an agent are as they were. -/
def PerformsSettled (C : Proviso World) (s : Signature) (first : Nat) (perform : Performer) :
    Prop :=
  ∀ i a, a.signature = s → Settles C s first (perform i a)

theorem settles_done (signed : a.signature = s) (r : α) :
    Settles C s first (.done (r, a)) :=
  .done (World.covers_restores s.id first) signed

theorem restores_of_bypasses {x : Activity World α}
    (within : Within (World.Bypasses s.id first) x) :
    Within (World.Restores s.id first) x :=
  within.weaken fun _ _ => World.Bypasses.restores

theorem settles_of_within {β : Type} {x : Activity World β} (signed : a.signature = s)
    (within : Within (World.Bypasses s.id first) x) (f : β → α) :
    Settles C s first (x.bind fun r => .done (f r, a)) :=
  .bind_within (World.covers_restores s.id first) (restores_of_bypasses within) fun r =>
    settles_done signed (f r)

theorem call_settles (performs : PerformsSettled C s first perform) (i : Invocation)
    (signed : a.signature = s) : Settles C s first (Host.call perform i a) := by
  refine .bind (World.covers_restores s.id first) (performs i a signed) ?_
  rintro ⟨r, b⟩ signed'
  cases r with
  | error e => exact settles_done signed' _
  | ok summary => cases fault : summary.fault <;> simp only [fault] <;> exact settles_done signed' _

theorem conclude_changes (performs : PerformsSettled C a.signature first perform)
    {playbook : String} {created : Except MeetingError MeetingId}
    {result : Except String Value × AgentState} {t t' : Nat} {w w' : World}
    (ran : Under (World.Elsewhere a.id) C ⟨host.conclude perform a playbook created, t, w⟩
      ⟨.done result, t', w'⟩) :
    World.Changes (fun h h' => ∀ h₀ id, MeetingHouse.Restores a.id h₀ h →
        (h₀.book a.id).contains id = false → h.Convened a.id id created →
        MeetingHouse.Restores a.id h₀ h' ∧
          (host.repertoire.contains playbook = true → h'.Ended a.id id)) first w w' ∧
      result.2.signature = a.signature := by
  have bypasses := World.covers_bypasses a.id first
  have restores := World.covers_restores a.id first
  cases created with
  | error e =>
    obtain ⟨after, rfl⟩ := ran.done bypasses
    refine ⟨Assembly.Changes.mono after fun bypasses h₀ id restores absent convened => ?_, rfl⟩
    cases convened with
    | failed _ ended => exact ⟨restores.trans bypasses.restores, fun _ => ended.bypassed bypasses⟩
  | ok id =>
    cases known : host.repertoire.contains playbook with
    | false =>
      simp only [Host.conclude, known, Bool.not_false, if_true] at ran
      obtain ⟨after, rfl⟩ := ran.done bypasses
      refine ⟨Assembly.Changes.mono after fun bypasses h₀ id restores _ _ => ?_, rfl⟩
      exact ⟨restores.trans bypasses.restores, nofun⟩
    | true =>
      simp only [Host.conclude, known, Bool.not_true, Bool.false_eq_true, if_false] at ran
      obtain ⟨⟨outcome, b⟩, t₁, w₁, called, ran⟩ := ran.bind_done
      obtain ⟨performed, signed⟩ := (call_settles performs _ rfl).ends called
      obtain ⟨t₂, w₂, between, _, ran⟩ := ran.acted restores
      obtain ⟨after, rfl⟩ := ran.done bypasses
      have own : b.id = a.id := congrArg Signature.id signed
      rw [own] at after
      have before := restores.trans performed between
      have post := (w₂.toAssembly.closeMeeting_house a.id id).1
      have late : w₂.post.nextId ≤ w'.post.nextId :=
        Nat.le_trans (Nat.le_of_eq (congrArg (·.nextId) post).symm) after.ids
      refine ⟨⟨Nat.le_trans before.ids late, fun consistent few => ?_⟩, signed⟩
      obtain ⟨consistent₂, restores₂⟩ := before.house consistent (Nat.le_trans late few)
      obtain ⟨consistent', bypasses'⟩ :=
        after.house (consistent_closeMeeting consistent₂ a.id id) few
      refine ⟨consistent', fun h₀ id restores absent convened => ?_⟩
      cases convened with
      | held settled =>
        obtain ⟨restores', ended⟩ :=
          closeMeeting_ended (restores.trans restores₂) absent (restores₂.settled settled)
        exact ⟨restores'.trans bypasses'.restores, fun _ => ended.bypassed bypasses'⟩

theorem meeting_changes (performs : PerformsSettled C a.signature first perform)
    {playbook : String} {r : MeetingRequest} {n timeout : Nat}
    {result : Except String Value × AgentState} {t t' : Nat} {w w' : World}
    (ran : Under (World.Elsewhere a.id) C
      ⟨(arranging a.signature n timeout r (Convening.start a.signature r w.toAssembly).1).bind
        (host.conclude perform a playbook), t,
        (World.assembled (Convening.start a.signature r) w).2⟩ ⟨.done result, t', w'⟩) :
    World.Changes (fun h h' => MeetingHouse.Restores a.id h h' ∧
      (host.repertoire.contains playbook = true →
        h'.Ended a.id (Convening.start a.signature r w.toAssembly).1.meeting)) first w w' ∧
      result.2.signature = a.signature := by
  obtain ⟨created, t₁, w₁, arranged, ran⟩ := ran.bind_done
  have convened := convening_changes a.signature first arranged
  obtain ⟨concluded, signed⟩ := conclude_changes performs ran
  refine ⟨⟨Nat.le_trans convened.ids concluded.ids, fun consistent few => ?_⟩, signed⟩
  obtain ⟨consistent₁, restores, absent, held⟩ :=
    convened.house consistent (Nat.le_trans concluded.ids few)
  obtain ⟨consistent', ends⟩ := concluded.house consistent₁ few
  exact ⟨consistent', ends _ _ restores absent held⟩

theorem holdMeeting_settles (performs : PerformsSettled C s first perform)
    (signed : a.signature = s) (playbook topic : String) (required optional : List String) :
    Settles C s first (host.holdMeeting perform a playbook topic required optional) := by
  subst signed
  cases names : MeetingRequest.ofNames playbook topic required optional with
  | error e =>
    rw [Host.holdMeeting_of_error names]
    exact settles_done rfl _
  | ok r =>
    rw [Host.holdMeeting_of_ok names, convene_eq]
    refine ⟨fun {t w result t' w'} ran => ?_⟩
    obtain ⟨t₁, w₁, before, _, ran⟩ := ran.acted (World.covers_restores a.id first)
    obtain ⟨changes, signed⟩ := meeting_changes performs ran
    exact ⟨before.trans .trans (Assembly.Changes.mono changes And.left), signed⟩

theorem handlerOver_settles (performs : PerformsSettled C s first perform) :
    (leading C (World.covers_restores s.id first)).Handlers (.ofSignature s)
      (host.handlerOver perform) (host.handlerOver perform) := by
  have covers := World.covers_restores s.id first
  have answers : ∀ {α : Type} {x : Activity World (α × AgentState)}, Settles C s first x →
      (leading C covers).rel (Likeness.ofSignature s).Answers x x :=
    fun settles => settles.weaken id fun p signed => ⟨p, rfl, rfl, signed⟩
  refine ⟨?_, ?_, ?_⟩
  · rintro a _ ⟨rfl, signed⟩ c
    apply answers
    cases c with
    | say target content =>
      exact settles_of_within signed
        (.act (fun _ w => bypasses_speak a target content true w) .done) id
    | sendMessage target content =>
      exact settles_of_within signed
        (.act (fun _ w => bypasses_speak a target content false w) .done) id
    | waitForMessage source =>
      exact settles_of_within signed (within_waitForMessage host a source
        (World.covers_bypasses s.id first).refl fun w left =>
          World.bypasses_aside (Nat.le_refl _) rfl) id
    | call playbook args => exact call_settles performs _ signed
    | createMeeting playbook topic required optional =>
      exact holdMeeting_settles performs signed playbook topic required optional
  · rintro a _ ⟨rfl, signed⟩ name args
    apply answers
    show Settles C s first (Host.hostFunction a name args)
    have asks : ∀ f : World → Except String Value,
        Within (World.Bypasses s.id first) (Activity.ask f) :=
      fun f => .act (fun _ w => (World.covers_bypasses s.id first).refl w) .done
    unfold Host.hostFunction
    split
    · exact settles_of_within signed (asks _) some
    · exact settles_of_within signed (.act (fun _ w => bypasses_setState a _ args w) .done) some
    · exact settles_of_within signed (asks _) some
    · exact settles_done signed none
  · rintro a _ ⟨rfl, signed⟩ name
    exact (Leads.of_within covers (.act (fun _ w => covers.refl w) .done)).weaken id
      fun v _ => ⟨v, rfl⟩

theorem execute_settles {h : Handler (Activity World)} {save : Saver (Activity World)}
    (handlers : (leading C (World.covers_restores s.id first)).Handlers (.ofSignature s) h h)
    (savers : (leading C (World.covers_restores s.id first)).Savers (.ofSignature s) save save)
    (execution : ExecutionId) : PerformsSettled C s first (host.execute h save execution) := by
  intro i a signed
  have covers := World.covers_restores s.id first
  unfold Host.execute
  split
  · exact settles_done signed _
  split
  · exact settles_done signed _
  have generated (r : GenerationRequest) :
      (leading C covers).rel (· = ·) (host.generate r) (host.generate r) := by
    have within : Within (World.Bypasses s.id first) (host.generate r) :=
      .act (fun _ w => World.bypasses_aside (Nat.le_refl _) rfl) .done
    exact (Leads.of_within covers (restores_of_bypasses within)).weaken id fun g _ => ⟨g, rfl⟩
  let pushed := { a with stack := a.stack.push (Host.frame execution i) }
  have agents : (Likeness.ofSignature s).agents pushed pushed := ⟨rfl, signed⟩
  have drives := drive_related handlers savers (generated (i.request pushed)) agents execution
  refine .bind covers drives ?_
  rintro ⟨r, b⟩ ⟨q, answers⟩
  have signed' : b.signature = s := answers.agents.2
  exact settles_done (a := { b with stack := b.stack.pop }) signed' r

/-- At every level playbooks leave the meetings of their agent as they were. -/
theorem performer_settles (C : Proviso World) (s : Signature) (first : Nat) (host : Host)
    (levels : Nat) : PerformsSettled C s first (host.performer levels) := by
  induction levels with
  | zero => exact fun i a signed => settles_done signed _
  | succ levels ih =>
    intro i a signed
    have mints : Within (World.Bypasses s.id first) (Activity.change (World.assembled mint)) :=
      .act (fun _ w => World.bypasses_aside (Nat.le_succ _) rfl) .done
    refine .bind_within (World.covers_restores s.id first) (restores_of_bypasses mints) ?_
    exact fun execution => execute_settles (handlerOver_settles ih) .none execution i a signed

end Performing
end Playbook
