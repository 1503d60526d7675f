import Playbook.Proofs.Agent.Waits
import Playbook.Proofs.Inbox.Looks
import Playbook.Proofs.Inbox.Turns

/- What a program takes out of the inbox when it waits for a message, and what it leaves there. All
   that comes before is passed over, but for the markers that are taken to belong to what is waited
   for. -/
namespace Playbook
open Activity Prompt

section Drawing
variable {accepts : Message → Bool} {all taken left : List Message}

structure Drawn (accepts : Message → Bool) (all taken left : List Message) : Prop where
  front : ∃ front back, all = front ++ back ∧ taken = front.filter accepts ∧
    left = front.filter (!accepts ·) ++ back

namespace Drawn

theorem nothing (accepts : Message → Bool) (all : List Message) : Drawn accepts all [] all :=
  ⟨[], all, rfl, rfl, rfl⟩

theorem arrive (drawn : Drawn accepts all taken left) (more : List Message) :
    Drawn accepts (all ++ more) taken (left ++ more) := by
  obtain ⟨front, back, rfl, rfl, rfl⟩ := drawn
  exact ⟨front, back ++ more, by simp, rfl, by simp⟩

theorem trans {more left' : List Message} (first : Drawn accepts all taken left)
    (second : Drawn accepts left more left') : Drawn accepts all (taken ++ more) left' := by
  obtain ⟨front, back, rfl, rfl, rfl⟩ := first
  obtain ⟨front', back', split, rfl, rfl⟩ := second
  have refused : (front.filter (!accepts ·)).filter accepts = [] := by
    simp [List.filter_filter]
  have still : (front.filter (!accepts ·)).filter (!accepts ·) = front.filter (!accepts ·) := by
    simp [List.filter_filter]
  rcases List.append_eq_append_iff.1 split with ⟨seen, rfl, rfl⟩ | ⟨unseen, old, rfl⟩
  · refine ⟨front ++ seen, back', (List.append_assoc ..).symm, ?_, ?_⟩
    · rw [List.filter_append, List.filter_append, refused, List.nil_append]
    · rw [List.filter_append, List.filter_append, still]
  · have kept : front'.filter (!accepts ·) = front' := by
      rw [old, List.filter_append] at still
      exact (List.append_inj' still (by
        have lengths := congrArg List.length still
        have short := List.length_filter_le (!accepts ·) front'
        have short' := List.length_filter_le (!accepts ·) unseen
        simp only [List.length_append] at lengths
        omega)).1
    have none_taken : front'.filter accepts = [] := by
      rw [old, List.filter_append] at refused
      exact (List.append_eq_nil_iff.1 refused).1
    refine ⟨front, back, rfl, by rw [none_taken, List.append_nil], ?_⟩
    rw [kept, old, List.append_assoc]

theorem filter_eq (drawn : Drawn accepts all taken left) :
    all.filter accepts = taken ++ left.filter accepts := by
  obtain ⟨front, back, rfl, rfl, rfl⟩ := drawn
  simp [List.filter_filter]

end Drawn

/-- What a wait has brought: the markers before a message have been skipped. -/
structure Awaited (accepts : Message → Bool) (most : Nat) (all batch left : List Message) :
    Prop where
  drawn : ∃ (skipped : List Message) (closing : Option Message),
    Drawn accepts all (skipped ++ batch ++ closing.toList) left ∧
      (∀ x ∈ skipped, x.isMarker = true) ∧ ∀ x ∈ closing, x.isMarker = true
  plain : ∀ x ∈ batch, x.isMarker = false
  fitting : batch.length ≤ most

theorem Awaited.arrive {most : Nat} {batch : List Message}
    (awaited : Awaited accepts most all batch left) (more : List Message) :
    Awaited accepts most (all ++ more) batch (left ++ more) where
  drawn := by
    obtain ⟨skipped, closing, drawn, marks⟩ := awaited.drawn
    exact ⟨skipped, closing, drawn.arrive more, marks⟩
  plain := awaited.plain
  fitting := awaited.fitting

end Drawing

section Waiting
variable {n most timeout started : Nat} {accepts : Message → Bool} {m m' : Moment World}
  {arrived deeds : List (Nat × Message)} {batch : List Message}

theorem Looked.awaited {began : Nat} {inbox : Inbox}
    (looked : Looked n began (.upTo most accepts timeout) inbox batch arrived m) :
    Awaited accepts most (inbox ++ arrived.map (·.2)) batch (m.world.post.box n) := by
  cases looked with
  | @taken seen later left split looked box =>
    obtain ⟨batch', left', complete, marker, looked', divided, -⟩ :=
      (BatchRequest.Divided.start (.upTo most accepts timeout) (inbox ++ seen.map (·.2))).collect
    rw [looked'] at looked
    cases looked
    obtain ⟨front, back, whole, matching, rest⟩ := divided.front
    have drawn : Drawn accepts (inbox ++ seen.map (·.2)) ([] ++ batch ++ marker.toList) left :=
      ⟨front, back, whole, matching.symm, rest⟩
    have awaited : Awaited accepts most (inbox ++ seen.map (·.2)) batch left :=
      ⟨⟨[], marker, drawn, nofun, divided.marked⟩, divided.plain, divided.fitting most rfl⟩
    rw [split, box, List.map_append, ← List.append_assoc]
    exact awaited.arrive _
  | vain empty vain =>
    rw [empty, vain.box]
    exact ⟨⟨[], none, .nothing _ _, nofun, nofun⟩, nofun, Nat.zero_le _⟩

theorem awaited_stable (n : Nat) (accepts : Message → Bool) (most : Nat) (inbox : Inbox)
    (batch : List Message) : Stable n (Delivers n) fun arrived m =>
      Awaited accepts most (inbox ++ arrived.map (·.2)) batch (m.world.post.box n) := by
  intro arrived m deeds w awaited done
  have more := awaited.arrive deeds
  have box : w.post.box n = m.world.post.box n ++ deeds := done.box
  show Awaited accepts most _ batch (w.post.box n)
  rw [box]
  simpa [Function.comp_def] using more

theorem box_of_still (still : Still n (Delivers n) m deeds m') :
    m'.world.post.box n = m.world.post.box n ++ deeds.map (·.2) := by
  refine still.keeps
    (P := fun deeds m' => m'.world.post.box n = m.world.post.box n ++ deeds.map (·.2)) ?_ []
    (List.append_nil _).symm
  intro arrived m₁ deeds w box done
  refine done.box.trans ?_
  rw [box]
  simp [Function.comp_def]

theorem awaited_of_round {outcome : Unit ⊕ List Message}
    (ran : Prompt.Steps n (Delivers n) ⟨awaitRound n accepts timeout most started (), m⟩ deeds
      ⟨.done outcome, m'⟩) : ∃ batch,
        Awaited accepts most (m.world.post.box n ++ deeds.map (·.2)) batch
          (m'.world.post.box n) ∧
        ((outcome = .inl () ∧ batch = []) ∨ outcome = .inr batch) := by
  rcases ran.acted with ⟨finished, -⟩ | ⟨early, late, m₁, rfl, still, rest⟩
  · cases finished
  obtain ⟨looking, ending, batch, m₂, rfl, collected, asked⟩ := rest.bind_done
  have box := box_of_still still
  have begins : (m₁.change n m₁.world).time = m₁.time ∧
      (m₁.change n m₁.world).world.post.box n = m.world.post.box n ++ early.map (·.2) :=
    ⟨rfl, box⟩
  have looked := keeps_collectOne.sound begins collected
  obtain ⟨awaited, -, result⟩ := Steps.now_last (awaited_stable n accepts most _ batch)
    (P := fun arrived m' => Awaited accepts most (m.world.post.box n ++ arrived.map (·.2)) batch
      (m'.world.post.box n)) (fun awaited => awaited) looked.awaited asked
  refine ⟨batch, ?_, ?_⟩
  · rwa [← List.append_assoc]
  · rw [result outcome rfl]
    split
    · rename_i again
      exact .inl ⟨rfl, by simpa using (Bool.and_eq_true_iff.1 again).1⟩
    · exact .inr rfl

theorem awaited_of_steps
    (ran : Prompt.Steps n (Delivers n) ⟨awaitBatch n accepts timeout most, m⟩ deeds
      ⟨.done batch, m'⟩) :
    Awaited accepts most (m.world.post.box n ++ deeds.map (·.2)) batch
      (m'.world.post.box n) := by
  rw [awaitBatch_eq] at ran
  rcases ran.acted with ⟨finished, -⟩ | ⟨early, late, m₁, rfl, still, rest⟩
  · cases finished
  have box := box_of_still still
  let skipping (_ : Unit) (arrived : List (Nat × Message)) (m₂ : Moment World) : Prop :=
    ∃ skipped, (∀ x ∈ skipped, x.isMarker = true) ∧
      Drawn accepts (m.world.post.box n ++ arrived.map (·.2)) skipped (m₂.world.post.box n)
  have begins : skipping () early (m₁.change n m₁.world) := by
    refine ⟨[], nofun, ?_⟩
    rw [← box]
    exact .nothing accepts _
  have keeps : ∀ {state before m₂ more state' m₃}, skipping state before m₂ →
      Prompt.Steps n (Delivers n) ⟨awaitRound n accepts timeout most m₁.time state, m₂⟩ more
        ⟨.done (.inl state'), m₃⟩ → skipping state' (before ++ more) m₃ := by
    rintro ⟨⟩ before m₂ more ⟨⟩ m₃ ⟨skipped, marks, drawn⟩ round
    obtain ⟨batch', awaited, ⟨-, rfl⟩ | again⟩ := awaited_of_round round
    · obtain ⟨skipped', closing, drawn', marks', closes⟩ := awaited.drawn
      refine ⟨skipped ++ (skipped' ++ [] ++ closing.toList), ?_, ?_⟩
      · intro x mem
        simp only [List.append_nil, List.mem_append, Option.mem_toList] at mem
        exact mem.elim (marks x) fun mem => mem.elim (marks' x) (closes x)
      · have all := (drawn.arrive (more.map (·.2))).trans drawn'
        simpa using all
    · cases again
  obtain ⟨⟨⟩, more, last, m₂, rfl, ⟨skipped, marks, drawn⟩, ended⟩ :=
    rest.last_round skipping keeps begins
  obtain ⟨batch', awaited, ⟨again, -⟩ | same⟩ := awaited_of_round ended
  · cases again
  cases same
  obtain ⟨skipped', closing, drawn', marks', closes⟩ := awaited.drawn
  refine ⟨⟨skipped ++ skipped', closing, ?_, ?_, closes⟩, awaited.plain, awaited.fitting⟩
  · have all := (drawn.arrive (last.map (·.2))).trans drawn'
    simpa using all
  · intro x mem
    exact (List.mem_append.1 mem).elim (marks x) (marks' x)

end Waiting

/-- What a program is told when it has waited. -/
def Source.answer (source : Source) (batch : List Message) : Value :=
  if batch.isEmpty then .null else .str (source.render batch)

section Asking
variable {ι : Type} {others : List ι → World → World → Prop} {host : Host} {a : AgentState}
  {name : String} {m m' : Moment World} {arrived : List (Nat × ι)} {r : Except String Value}

inductive Asked (others : List ι → World → World → Prop) (host : Host) (a : AgentState)
    (name : String) (m : Moment World) (arrived : List (Nat × ι)) (r : Except String Value)
    (m' : Moment World) : Prop
  | refused {early late : List (Nat × ι)} {m₁ : Moment World} {text : String}
    (split : arrived = early ++ late) (still : Still host.inbox others m early m₁)
    (asked : Source.ofName a name m₁.world = .error text) (result : r = .error text)
    (still' : Still host.inbox others (m₁.change host.inbox m₁.world) late m')
  | waited {early late : List (Nat × ι)} {m₁ : Moment World} {source : Source}
    {batch : List Message} (split : arrived = early ++ late)
    (still : Still host.inbox others m early m₁)
    (asked : Source.ofName a name m₁.world = .ok source) (result : r = .ok (source.answer batch))
    (waiting : Prompt.Steps host.inbox others
      ⟨awaitBatch host.inbox source.accepts host.batchTimeout host.maxBatchMessages,
        m₁.change host.inbox m₁.world⟩ late ⟨.done batch, m'⟩)

theorem asked_of_steps
    (ran : Prompt.Steps host.inbox others ⟨host.waitForMessage a name, m⟩ arrived ⟨.done r, m'⟩) :
    Asked others host a name m arrived r m' := by
  have ran : Prompt.Steps host.inbox others
      ⟨.act (fun _ w => (Source.ofName a name w, w)) _, m⟩ arrived ⟨.done r, m'⟩ := ran
  rcases ran.acted with ⟨finished, -⟩ | ⟨early, late, m₁, rfl, still, rest⟩
  · cases finished
  cases asked : Source.ofName a name m₁.world with
  | error text =>
    have rest : Prompt.Steps host.inbox others
        ⟨.done (.error text), m₁.change host.inbox m₁.world⟩ late ⟨.done r, m'⟩ := by
      rw [asked] at rest
      exact rest
    obtain ⟨finished, still'⟩ := rest.still
    cases finished
    exact .refused rfl still asked rfl still'
  | ok source =>
    have rest : Prompt.Steps host.inbox others
        ⟨(awaitBatch host.inbox source.accepts host.batchTimeout host.maxBatchMessages).bind
          fun batch => .done (.ok (source.answer batch)), m₁.change host.inbox m₁.world⟩ late
        ⟨.done r, m'⟩ := by
      rw [asked] at rest
      exact rest
    obtain ⟨x, finished, waiting⟩ := Steps.map rest
    obtain ⟨batch, rfl, same⟩ := bind_eq_done finished.symm
    cases same
    exact .waited rfl still asked rfl waiting

end Asking

section Turns
variable {host : Host} {a : AgentState} {name : String} {m m' : Moment World}
  {turns : List Turn} {arrived : List (Nat × Turn)} {r : Except String Value}

/-- Others deliver whole turns. -/
abbrev DeliversTurns (n : Nat) (turns : List Turn) : World → World → Prop :=
  Delivers n (turns.flatMap Turn.messages)

theorem messages_of_turns (arrived : List (Nat × Turn)) :
    (arrived.flatMap fun e => e.2.messages.map (e.1, ·)).map (·.2) =
      (arrived.map (·.2)).flatMap Turn.messages := by
  rw [List.map_flatMap, List.flatMap_map]
  congr 1

theorem Steps.by_turns {α : Type} {n : Nat} {b d : Doing World α}
    (ran : Prompt.Steps n (DeliversTurns n) b arrived d) :
    Prompt.Steps n (Delivers n) b (arrived.flatMap fun e => e.2.messages.map (e.1, ·)) d :=
  ran.retell Turn.messages fun done => done

theorem box_of_still_turns {n : Nat} (still : Still n (DeliversTurns n) m arrived m') :
    m'.world.post.box n =
      m.world.post.box n ++ (arrived.map (·.2)).flatMap Turn.messages := by
  rw [← messages_of_turns]
  exact box_of_still fun x => Steps.by_turns (still x)

inductive Waited (host : Host) (a : AgentState) (name : String) (m : Moment World)
    (arrived : List (Nat × Turn)) (r : Except String Value) (m' : Moment World) : Prop
  | refused {early late : List (Nat × Turn)} {m₁ : Moment World} {text : String}
    (split : arrived = early ++ late)
    (still : Still host.inbox (DeliversTurns host.inbox) m early m₁)
    (asked : Source.ofName a name m₁.world = .error text) (result : r = .error text)
    (box : m'.world.post.box host.inbox = m.world.post.box host.inbox ++
      (arrived.map (·.2)).flatMap Turn.messages)
  | answered {early late : List (Nat × Turn)} {m₁ : Moment World} {source : Source}
    {batch : List Message} (split : arrived = early ++ late)
    (still : Still host.inbox (DeliversTurns host.inbox) m early m₁)
    (asked : Source.ofName a name m₁.world = .ok source) (result : r = .ok (source.answer batch))
    (awaited : Awaited source.accepts host.maxBatchMessages
      (m.world.post.box host.inbox ++ (arrived.map (·.2)).flatMap Turn.messages) batch
      (m'.world.post.box host.inbox))

theorem waited_of_steps
    (ran : Prompt.Steps host.inbox (DeliversTurns host.inbox)
      ⟨host.waitForMessage a name, m⟩ arrived ⟨.done r, m'⟩) :
    Waited host a name m arrived r m' := by
  cases asked_of_steps ran with
  | @refused early late m₁ _ split still asked result still' =>
    subst split
    refine .refused rfl still asked result ((box_of_still_turns still').trans ?_)
    show m₁.world.post.box host.inbox ++ _ = _
    rw [box_of_still_turns still]
    simp
  | @waited early late m₁ _ _ split still asked result waiting =>
    subst split
    have awaited := awaited_of_steps (Steps.by_turns waiting)
    rw [messages_of_turns] at awaited
    refine .answered rfl still asked result ?_
    have same : m.world.post.box host.inbox ++
        ((early ++ late).map (·.2)).flatMap Turn.messages =
          m₁.world.post.box host.inbox ++ (late.map (·.2)).flatMap Turn.messages := by
      rw [box_of_still_turns still]
      simp
    rw [same]
    exact awaited

inductive OneTurn (s : AgentId) (turns : List Turn) : Except String Value → Prop
  | nothing : OneTurn s turns (.ok .null)
  | turn {t : Turn} (mem : t ∈ turns) (own : t.sender = s) :
    OneTurn s turns (.ok (.str t.message.content))

theorem one_turn_of_waiting {s : AgentId} {inbox : Inbox}
    (named : ∀ w, Source.ofName a name w = .ok (.sender s))
    (box : m.world.post.box host.inbox = inbox) (turnwise : Turnwise s inbox)
    (among : ∀ x ∈ inbox, x.isMarker = false → ∃ t ∈ turns, x = t.message)
    (ran : Prompt.Steps host.inbox (DeliversTurns host.inbox)
      ⟨host.waitForMessage a name, m⟩ arrived ⟨.done r, m'⟩) :
    OneTurn s (turns ++ arrived.map (·.2)) r ∧ Turnwise s (m'.world.post.box host.inbox) := by
  subst box
  cases waited_of_steps ran with
  | refused _ _ asked =>
    rw [named] at asked
    cases asked
  | @answered _ _ _ source batch _ _ asked result awaited =>
    rw [named] at asked
    cases asked
    obtain ⟨skipped, closing, drawn, -⟩ := awaited.drawn
    have all := turnwise.append (.of_turns (arrived.map (·.2)))
    have sent := drawn.filter_eq
    rw [Turnwise, sent] at all
    have left := all.of_append
    refine ⟨?_, left⟩
    subst result
    simp only [List.append_assoc] at all
    have single := all.of_append.length_le_one awaited.plain
    rcases batch with _ | ⟨x, _ | ⟨y, rest⟩⟩
    · exact .nothing
    · have mem : x ∈ (m.world.post.box host.inbox ++
          (arrived.map (·.2)).flatMap Turn.messages).filter (Source.sender s).accepts := by
        rw [sent]
        simp
      obtain ⟨present, accepted⟩ := List.mem_filter.1 mem
      have plain := awaited.plain x (.head _)
      have turn : ∃ t ∈ turns ++ arrived.map (·.2), x = t.message := by
        rcases List.mem_append.1 present with old | new
        · obtain ⟨t, known, same⟩ := among x old plain
          exact ⟨t, List.mem_append_left _ known, same⟩
        · obtain ⟨t, known, same⟩ := Turn.of_plain new plain
          exact ⟨t, List.mem_append_right _ known, same⟩
      obtain ⟨t, known, rfl⟩ := turn
      rw [t.sender_accepts_message] at accepted
      exact .turn known (of_decide_eq_true accepted)
    · simp only [List.length_cons] at single
      omega

/-- What a wait on a meeting has taken out of an inbox of whole turns, and what it has left there,
    each with the turn that it is part of. -/
structure Spares (host : Host) (id : MeetingId) (members : List AgentId) (turns : List Turn)
    (m' : Moment World) (gone kept : List (Turn × Message)) : Prop where
  whole : (gone ++ kept).Perm (Turn.partsOf turns)
  order : kept.Sublist (Turn.partsOf turns)
  /-- What goes is what has come first of all that is accepted. -/
  first : (Turn.partsOf turns).filter (fun p => (Source.meeting id members).accepts p.2) =
    gone ++ kept.filter (fun p => (Source.meeting id members).accepts p.2)
  box : m'.world.post.box host.inbox = kept.map (·.2)
  /-- Only what is said in the meeting goes, and markers of its members. -/
  taken : ∀ p ∈ gone, p.1.saidIn id = true ∨ (p.2.isMarker = true ∧ p.1.sender ∈ members)
  /-- Of those who are no members, or only speak in the meeting, whatever they have said elsewhere
      stays in order. -/
  spared : ∀ who : AgentId → Bool, (∀ s, who s = true → Turn.Apart id members turns s) →
    (∀ p ∈ gone, who p.1.sender = true → p.1.saidIn id = true) ∧
      kept.filter (fun p => who p.1.sender && !p.1.saidIn id) =
        (Turn.partsOf turns).filter (fun p => who p.1.sender && !p.1.saidIn id)
  /-- When one of them is waited for next, one turn comes at most. -/
  later : ∀ {s : AgentId}, Turn.Apart id members turns s → ∀ {b : AgentState} {name : String}
    {more : List (Nat × Turn)} {r : Except String Value} {m'' : Moment World},
    (∀ w, Source.ofName b name w = .ok (.sender s)) →
    Prompt.Steps host.inbox (DeliversTurns host.inbox) ⟨host.waitForMessage b name, m'⟩ more
      ⟨.done r, m''⟩ →
    OneTurn s (turns ++ more.map (·.2)) r ∧ Turnwise s (m''.world.post.box host.inbox)

theorem spares_of_drawn {id : MeetingId} {members : List AgentId} {taken : List Message}
    (drawn : Drawn (Source.meeting id members).accepts (turns.flatMap Turn.messages) taken
      (m'.world.post.box host.inbox)) :
    ∃ gone kept, gone.map (·.2) = taken ∧ Spares host id members turns m' gone kept := by
  obtain ⟨front, back, split, taken_eq, left⟩ := drawn.front
  rw [← Turn.map_partsOf] at split
  obtain ⟨seen, unseen, parts, rfl, rfl⟩ := List.map_eq_append_iff.1 split
  let accepted (p : Turn × Message) : Bool := (Source.meeting id members).accepts p.2
  have part {p : Turn × Message} (mem : p ∈ seen.filter accepted) : p ∈ Turn.partsOf turns := by
    rw [parts]
    exact List.mem_append_left _ (List.mem_filter.1 mem).1
  have own : ∀ p ∈ seen.filter accepted,
      p.1.saidIn id = true ∨ (p.2.isMarker = true ∧ p.1.sender ∈ members) := fun p mem =>
    Turn.of_accepts (part mem) (List.mem_filter.1 mem).2
  have apart : ∀ who : AgentId → Bool, (∀ s, who s = true → Turn.Apart id members turns s) →
      ∀ p ∈ seen.filter accepted, who p.1.sender = true → p.1.saidIn id = true := by
    intro who fine p mem here
    rcases own p mem with said | ⟨-, member⟩
    · exact said
    · exact fine p.1.sender here member p.1 (Turn.fst_mem (part mem)) rfl
  refine ⟨seen.filter accepted, seen.filter (!accepted ·) ++ unseen, ?_, ?_, ?_, ?_, ?_, own, ?_, ?_⟩
  · rw [taken_eq, List.filter_map]
    rfl
  · rw [parts, ← List.append_assoc]
    exact (List.filter_append_perm accepted seen).append_right unseen
  · rw [parts]
    exact List.filter_sublist.append_right unseen
  · rw [parts]
    simp [accepted, List.filter_filter]
  · rw [left, List.map_append, List.filter_map]
    rfl
  · intro who fine
    refine ⟨apart who fine, ?_⟩
    rw [parts, List.filter_append, List.filter_append, List.filter_filter]
    congr 1
    refine List.filter_congr fun p mem => ?_
    cases taken : accepted p with
    | false => rw [Bool.not_false, Bool.and_true]
    | true =>
      have said := apart who fine p (List.mem_filter.2 ⟨mem, taken⟩)
      cases here : who p.1.sender with
      | false => rfl
      | true => simp [said here]
  · intro s fine b name more r m'' named ran
    have turnwise := Turnwise.of_kept fine parts
    rw [← left] at turnwise
    refine one_turn_of_waiting named rfl turnwise ?_ ran
    intro x mem plain
    refine Turn.of_plain ?_ plain
    rw [← Turn.map_partsOf, parts, List.map_append]
    rw [left] at mem
    exact (List.filter_sublist.append_right _).subset mem

/-- The members that a program waits for. -/
def World.membersOf (w : World) (number : Nat) : List AgentId :=
  ((w.house.room? number).map (·.members)).toList.flatten

/-- A wait on the meeting that an agent is in, over an inbox of whole turns. -/
inductive MeetingWait (host : Host) (a : AgentState) (turns : List Turn) (m : Moment World)
    (arrived : List (Nat × Turn)) (r : Except String Value) (m' : Moment World) : Prop
  /-- The agent is in no meeting, or no longer. -/
  | outside {early late : List (Nat × Turn)} {m₁ : Moment World} {fault : MeetingError}
    (split : arrived = early ++ late)
    (still : Still host.inbox (DeliversTurns host.inbox) m early m₁)
    (asked : a.currentRoom m₁.world = .error fault) (result : r = .error fault.message)
    (box : m'.world.post.box host.inbox =
      (turns ++ arrived.map (·.2)).flatMap Turn.messages)
  | inside {early late : List (Nat × Turn)} {m₁ : Moment World} {id : MeetingId} {number : Nat}
    {gone kept : List (Turn × Message)} (split : arrived = early ++ late)
    (still : Still host.inbox (DeliversTurns host.inbox) m early m₁)
    (asked : a.currentRoom m₁.world = .ok (id, number))
    (result : r = .ok ((Source.meeting id (m₁.world.membersOf number)).answer
      ((gone.map (·.2)).filter (!·.isMarker))))
    (spares : Spares host id (m₁.world.membersOf number) (turns ++ arrived.map (·.2)) m' gone kept)

theorem ofName_meeting (a : AgentState) (w : World) : Source.ofName a "meeting" w =
    match a.currentRoom w with
    | .error e => .error e.message
    | .ok (id, n) => .ok (.meeting id (w.membersOf n)) := rfl

theorem plain_of_taken {skipped batch : List Message} {closing : Option Message}
    (marks : ∀ x ∈ skipped, x.isMarker = true) (closes : ∀ x ∈ closing, x.isMarker = true)
    (plain : ∀ x ∈ batch, x.isMarker = false) :
    (skipped ++ batch ++ closing.toList).filter (!·.isMarker) = batch := by
  have before : skipped.filter (!·.isMarker) = [] := by simpa using marks
  have after : closing.toList.filter (!·.isMarker) = [] := by simpa using closes
  have all : batch.filter (!·.isMarker) = batch := by simpa using plain
  rw [List.filter_append, List.filter_append, before, after, all, List.nil_append, List.append_nil]

/-- A wait on a meeting leaves what is said elsewhere in the inbox, turn by turn, but for the end of
    what its members say elsewhere. -/
theorem waiting_on_a_meeting_spares_turns_of_others
    (filled : m.world.post.box host.inbox = turns.flatMap Turn.messages)
    (ran : Prompt.Steps host.inbox (DeliversTurns host.inbox)
      ⟨host.waitForMessage a "meeting", m⟩ arrived ⟨.done r, m'⟩) :
    MeetingWait host a turns m arrived r m' := by
  cases waited_of_steps ran with
  | refused split still asked result box =>
    rw [ofName_meeting] at asked
    rw [filled, ← List.flatMap_append] at box
    split at asked
    · rename_i fault here
      cases asked
      exact .outside split still here result box
    · cases asked
  | answered split still asked result awaited =>
    rw [ofName_meeting] at asked
    rw [filled, ← List.flatMap_append] at awaited
    split at asked
    · cases asked
    · rename_i id number here
      cases asked
      obtain ⟨skipped, closing, drawn, marks, closes⟩ := awaited.drawn
      obtain ⟨gone, kept, taken, spares⟩ := spares_of_drawn drawn
      refine .inside split still here ?_ spares
      rw [result, taken, plain_of_taken marks closes awaited.plain]

end Turns

/- Three talk to the chair of a meeting: Eve, who is not in it, in person, Bob, who is, in person as
   well, and Ann to all. -/
namespace Standup

def host : Host := ⟨0, .empty, fun _ => .error "no answer", 10, 5, 0⟩

def chair : AgentState :=
  { AgentState.fresh "chair" "Chair" with
    stack := [Host.frame "chair" ⟨"Standup", [], some "standup", []⟩] }

def inPerson (sender content : String) : Turn :=
  ⟨(Draft.direct sender "Guest" "chair" content).toMessage "" "",
    (Draft.marker sender "Guest" "chair").toMessage "" "", .inl ⟨rfl, rfl⟩, rfl, rfl, rfl⟩

def toAll (sender content : String) : Turn :=
  ⟨(Draft.broadcast sender "Guest" "standup" content).toMessage "" "",
    (Draft.marker sender "Guest" "chair").toMessage "" "", .inr ⟨rfl, rfl⟩, rfl, rfl, rfl⟩

def turns : List Turn := [inPerson "eve" "1", inPerson "bob" "2", toAll "ann" "3"]

def world : World :=
  { World.start 0 "" .empty with
    post := { PostOffice.start 0 "" with boxes := [turns.flatMap Turn.messages] }
    house :=
      { rooms := [{ Room.start "standup" "chair" "" "Standup" with members := ["chair", "ann", "bob"] }]
        held := []
        directory := [("standup", 0)]
        books := [("chair", ⟨[("standup", ⟨0, [], []⟩)], []⟩)] } }

end Standup

open Standup in
/-- Of what Bob has said in person the end goes, and of what Eve has said nothing. -/
theorem waiting_on_a_meeting_spares_turns_of_others_in_a_standup :
    world.post.box host.inbox = turns.flatMap Turn.messages ∧
    ∃ r m', Prompt.Steps 0 (DeliversTurns 0) ⟨host.waitForMessage chair "meeting", 0, world, false⟩ []
        ⟨.done r, m'⟩ ∧
      m'.world.post.box 0 = (inPerson "eve" "1").messages ++ [(inPerson "bob" "2").message] ∧
      MeetingWait host chair turns ⟨0, world, false⟩ [] r m' := by
  let waited : Doing World (Except String Value) :=
    Doing.after 0 40 ⟨host.waitForMessage chair "meeting", 0, world, false⟩
  have all : waited.result?.isSome = true ∧ waited.now.world.post.box 0 =
      (inPerson "eve" "1").messages ++ [(inPerson "bob" "2").message] := by
    decide +kernel
  obtain ⟨r, result⟩ := Option.isSome_iff_exists.1 all.1
  have ran : Prompt.Steps 0 (DeliversTurns 0)
      ⟨host.waitForMessage chair "meeting", 0, world, false⟩ [] ⟨.done r, waited.now⟩ := by
    rw [← Doing.eq_of_result result]
    exact (alone_after 40 _).steps
  exact ⟨rfl, r, waited.now, ran, all.2, waiting_on_a_meeting_spares_turns_of_others rfl ran⟩

end Playbook
