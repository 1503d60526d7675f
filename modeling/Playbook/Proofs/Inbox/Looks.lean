import Playbook.Proofs.Activity.Rounds
import Playbook.Proofs.Meeting.Rendezvous

/- Waiting for one message at least. Until there is something to be taken nothing is, so a batch is
   taken in one look at all that has come by then; or the whole time has gone by, and nothing that is
   wanted has come in it. -/
namespace Playbook
open Activity Prompt

/-- Others put messages at the end of an inbox and call whoever listens to it. -/
structure Delivers (n : Nat) (deeds : List Message) (w w' : World) : Prop where
  box : w'.post.box n = w.post.box n ++ deeds
  calls : deeds ≠ [] → n ∈ w'.post.arrivals

abbrev BatchRequest.upTo (most : Nat) (accepts : Message → Bool) (timeout : Nat) : BatchRequest :=
  ⟨accepts, timeout, 1, some most⟩

section Look
variable {accepts : Message → Bool} {most timeout : Nat} {room : Option Nat} {inbox : Inbox}

theorem Inbox.scan_refused (space : room ≠ some 0) (refused : ∀ m ∈ inbox, accepts m = false) :
    inbox.scan accepts room = ⟨[], inbox, false⟩ := by
  have passed := Inbox.scan_append_of_refused accepts room refused []
  rw [List.append_nil] at passed
  rw [passed]
  simp [Inbox.scan, space]

theorem Inbox.refused_of_scan (taken : (inbox.scan accepts room).taken = [])
    (drained : (inbox.scan accepts room).closed = false) : ∀ m ∈ inbox, accepts m = false := by
  induction inbox with
  | nil => exact nofun
  | cons m rest ih =>
    unfold Inbox.scan at taken drained
    split at taken
    case isTrue full => simp [full] at drained
    case isFalse space =>
      rw [if_neg space] at drained
      split at taken
      case isTrue refused =>
        rw [if_pos refused] at drained
        intro m' mem
        rcases List.mem_cons.1 mem with rfl | later
        · simpa using refused
        · exact ih taken drained m' later
      case isFalse accepted =>
        rw [if_neg accepted] at drained
        split at taken
        case isTrue marked => simp [marked] at drained
        case isFalse plain => cases taken

theorem incomplete_look {batch left : List Message}
    (looked : (BatchRequest.upTo most accepts timeout).collect [] inbox = (batch, left, false)) :
    batch = [] ∧ left = inbox ∧ ∀ m ∈ inbox, accepts m = false := by
  simp only [BatchRequest.collect, Option.map_some, List.length_nil, Nat.sub_zero, List.nil_append,
    Prod.mk.injEq, Bool.or_eq_false_iff] at looked
  obtain ⟨taken, rest, drained, few⟩ := looked
  have nothing : (Inbox.scan accepts (some most) inbox).taken = [] := by
    cases found : (Inbox.scan accepts (some most) inbox).taken with
    | nil => rfl
    | cons m more => simp [found] at few
  have refused := Inbox.refused_of_scan nothing drained
  refine ⟨taken.symm.trans nothing, rest.symm.trans ?_, refused⟩
  have space : some most ≠ some 0 := by
    intro full
    rw [full] at drained
    cases inbox <;> simp [Inbox.scan] at drained
  rw [Inbox.scan_refused space refused]

end Look

theorem box_setBox {p : PostOffice} {n : Nat} {inbox : Inbox} (fits : p.box n = [] → inbox = []) :
    (p.setBox n inbox).box n = inbox := by
  by_cases inside : n < p.boxes.length
  · exact box_of_get (setBox_get (List.getElem?_eq_getElem inside) inbox)
  · have outside : p.boxes[n]? = none := List.getElem?_eq_none (Nat.not_lt.1 inside)
    have nothing : p.box n = [] := by
      rw [PostOffice.box, List.getD_eq_getElem?_getD, outside, Option.getD_none]
    rw [fits nothing, PostOffice.box, PostOffice.setBox, List.getD_eq_getElem?_getD,
      List.getElem?_set, outside]
    simp [inside]

theorem box_of_look {r : BatchRequest} {batch left : List Message} {complete : Bool} {n : Nat}
    {p : PostOffice} (looked : r.collect [] (p.box n) = (batch, left, complete)) :
    (p.setBox n left).box n = left := by
  apply box_setBox
  intro nothing
  rw [nothing] at looked
  simp only [BatchRequest.collect, Inbox.scan, Prod.mk.injEq] at looked
  exact looked.2.1.symm

section Waiting
variable {n most timeout began deadline : Nat} {accepts : Message → Bool} {inbox : Inbox}
  {arrived : List (Nat × Message)} {m : Moment World} {batch : List Message}

structure Untouched (n began deadline : Nat) (inbox : Inbox) (arrived : List (Nat × Message))
    (m : Moment World) : Prop where
  box : m.world.post.box n = inbox ++ arrived.map (·.2)
  early : m.time = began ∨ began ≤ m.time ∧ m.time < deadline

structure Unheard (n : Nat) (accepts : Message → Bool) (inbox : Inbox)
    (arrived : List (Nat × Message)) (called : Bool) : Prop where
  cut : ∃ seen later, arrived = seen ++ later ∧
    (∀ m ∈ inbox ++ seen.map (·.2), accepts m = false) ∧ (later ≠ [] → called = true)

structure Vain (n deadline : Nat) (accepts : Message → Bool) (inbox : Inbox)
    (arrived : List (Nat × Message)) (m : Moment World) : Prop where
  box : m.world.post.box n = inbox ++ arrived.map (·.2)
  finished : m.time = deadline
  cut : ∃ seen later, arrived = seen ++ later ∧
    (∀ m ∈ inbox ++ seen.map (·.2), accepts m = false) ∧ ∀ e ∈ later, e.1 = deadline

inductive Looked (n began : Nat) (r : BatchRequest) (inbox : Inbox) (batch : List Message)
    (arrived : List (Nat × Message)) (m : Moment World) : Prop
  /-- It was taken in one look, and anything else has come after that. -/
  | taken {seen later : List (Nat × Message)} {left : Inbox} (split : arrived = seen ++ later)
    (looked : r.collect [] (inbox ++ seen.map (·.2)) = (batch, left, true))
    (box : m.world.post.box n = left ++ later.map (·.2))
    (early : m.time = began ∨ began ≤ m.time ∧ m.time < began + r.timeout)
    (now : ∀ e ∈ later, e.1 = m.time)
  | vain (empty : batch = []) (vain : Vain n (began + r.timeout) r.accepts inbox arrived m)

theorem Untouched.stable : Stable n (Delivers n) (Untouched n began deadline inbox) := by
  rintro arrived m deeds w ⟨box, early⟩ done
  refine ⟨?_, early⟩
  show w.post.box n = _
  rw [done.box, box]
  simp [Function.comp_def]

theorem Vain.stable : Stable n (Delivers n) (Vain n deadline accepts inbox) := by
  rintro arrived m deeds w ⟨box, finished, seen, later, rfl, refused, last⟩ done
  refine ⟨?_, finished, seen, later ++ deeds.map (m.time, ·), by simp, refused, ?_⟩
  · show w.post.box n = _
    rw [done.box, box]
    simp [Function.comp_def]
  · intro e mem
    rcases List.mem_append.1 mem with old | new
    · exact last e old
    · obtain ⟨x, _, rfl⟩ := List.mem_map.1 new
      exact finished

theorem Looked.stable {r : BatchRequest} (batch : List Message) :
    Stable n (Delivers n) (Looked n began r inbox batch) := by
  intro arrived m deeds w looked done
  cases looked with
  | @taken seen later left split looked box early now =>
    have split' : arrived ++ deeds.map (m.time, ·) = seen ++ (later ++ deeds.map (m.time, ·)) := by
      rw [split, List.append_assoc]
    refine .taken split' looked ?_ early ?_
    · show w.post.box n = _
      rw [done.box, box]
      simp [Function.comp_def]
    · intro e mem
      rcases List.mem_append.1 mem with old | new
      · exact now e old
      · obtain ⟨x, _, rfl⟩ := List.mem_map.1 new
        rfl
  | vain empty vain => exact .vain empty (Vain.stable vain done)

def Patient (n began deadline : Nat) (accepts : Message → Bool) (inbox : Inbox)
    (batch : List Message) : Assertion Message World :=
  fun arrived m => batch = [] ∧ Untouched n began deadline inbox arrived m ∧
    Unheard n accepts inbox arrived m.called

theorem Patient.stable (batch : List Message) :
    Stable n (Delivers n) (Patient n began deadline accepts inbox batch) := by
  rintro arrived m deeds w ⟨empty, untouched, seen, later, rfl, refused, calls⟩ done
  refine ⟨empty, Untouched.stable untouched done, seen, later ++ deeds.map (m.time, ·), by simp,
    refused, ?_⟩
  intro some_message
  cases deeds with
  | nil =>
    have called := calls (by simpa using some_message)
    simp [Moment.change, called]
  | cons d rest =>
    have called : n ∈ w.post.arrivals := done.calls (by simp)
    simp [Moment.change, Signals.collect, called]

theorem Untouched.look (accepts : Message → Bool) (most : Nat)
    (untouched : Untouched n began (began + timeout) inbox arrived m) : ∃ taken complete w,
    World.collect n (.upTo most accepts timeout) [] m.world = ((taken, complete), w) ∧
      (complete = true →
        Looked n began (.upTo most accepts timeout) inbox taken arrived (m.change n w)) ∧
      (complete = false →
        Patient n began (began + timeout) accepts inbox taken arrived (m.change n w)) := by
  obtain ⟨box, early⟩ := untouched
  rcases looked : (BatchRequest.upTo most accepts timeout).collect [] (m.world.post.box n) with
    ⟨taken, left, complete⟩
  refine ⟨taken, complete, { m.world with post := m.world.post.setBox n left }, ?_, ?_, ?_⟩
  · simp only [World.collect, looked]
  · rintro rfl
    have rest : (m.world.post.setBox n left).box n = left := box_of_look looked
    rw [box] at looked
    exact .taken (List.append_nil _).symm looked (rest.trans (List.append_nil _).symm) early (by simp)
  · rintro rfl
    obtain ⟨rfl, rfl, refused⟩ := incomplete_look looked
    have same : (m.world.post.setBox n (m.world.post.box n)).box n = m.world.post.box n :=
      box_of_look looked
    refine ⟨rfl, ⟨same.trans box, early⟩, arrived, [], (List.append_nil _).symm, ?_, by simp⟩
    rwa [← box]

def Ready (n began deadline : Nat) (inbox : Inbox) (batch : List Message) :
    Assertion Message World :=
  fun arrived m => batch = [] ∧ Untouched n began deadline inbox arrived m

theorem Ready.stable (batch : List Message) :
    Stable n (Delivers n) (Ready n began deadline inbox batch) := by
  rintro arrived m deeds w ⟨empty, untouched⟩ done
  exact ⟨empty, Untouched.stable untouched done⟩

theorem keeps_lookRound (batch : List Message) :
    Keeps n (Delivers n) (Ready n began (began + timeout) inbox batch)
      (batchRound n (.upTo most accepts timeout) (began + timeout) batch)
      (afterwards (Ready n began (began + timeout) inbox)
        (Looked n began (.upTo most accepts timeout) inbox)) := by
  rw [batchRound_eq]
  refine .act (fun p => if p.2 then Looked n began (.upTo most accepts timeout) inbox p.1
    else Patient n began (began + timeout) accepts inbox p.1) (Ready.stable batch) ?_ ?_
  · rintro arrived m ⟨rfl, untouched⟩
    obtain ⟨taken, complete, w, looked, found, patient⟩ := untouched.look accepts most
    rw [looked]
    cases complete with
    | true => exact found rfl
    | false => exact patient rfl
  rintro ⟨batch, complete⟩
  cases complete with
  | true =>
    show Keeps n _ (afterwards (Ready n began (began + timeout) inbox)
      (Looked n began (.upTo most accepts timeout) inbox) (.inr batch)) (.done (Sum.inr batch)) _
    exact .done _ (Looked.stable batch)
  | false =>
    refine .listen (fun called => if called then Ready n began (began + timeout) inbox batch
      else fun arrived m => batch = [] ∧ Vain n (began + timeout) accepts inbox arrived m)
      (Patient.stable batch) ?_ ?_ ?_ ?_
    · rintro arrived m again ⟨empty, untouched, _⟩ _
      exact ⟨empty, untouched.box, untouched.early⟩
    · rintro arrived m u ⟨empty, untouched, unheard⟩ _ later before
      refine ⟨empty, ⟨untouched.box, .inr ⟨?_, before⟩⟩, unheard⟩
      exact Nat.le_trans (by rcases untouched.early with same | ⟨low, _⟩ <;> omega) later
    · rintro arrived m ⟨empty, untouched, seen, later, split, refused, calls⟩ uncalled
      have nothing : later = [] := by
        cases later with
        | nil => rfl
        | cons e rest =>
          rw [calls (List.cons_ne_nil e rest)] at uncalled
          cases uncalled
      refine ⟨empty, untouched.box, ?_, seen, later, split, refused, by simp [nothing]⟩
      show max m.time (began + timeout) = began + timeout
      rcases untouched.early with same | ⟨_, before⟩ <;> omega
    · intro called
      cases called with
      | true =>
        show Keeps n _ (afterwards (Ready n began (began + timeout) inbox)
          (Looked n began (.upTo most accepts timeout) inbox) (.inl batch)) (.done (Sum.inl batch)) _
        exact .done _ (Ready.stable batch)
      | false =>
        refine .act (Looked n began (.upTo most accepts timeout) inbox) ?_ ?_ ?_
        · rintro arrived m deeds w ⟨empty, vain⟩ done
          exact ⟨empty, Vain.stable vain done⟩
        · rintro arrived m ⟨rfl, vain⟩
          have kept : (World.giveUp n (.upTo most accepts timeout) [] m.world) =
              ([], { m.world with post := m.world.post.setBox n (m.world.post.box n) }) := rfl
          rw [kept]
          refine .vain rfl ⟨?_, vain.finished, vain.cut⟩
          exact (box_setBox id).trans vain.box
        · intro batch
          show Keeps n _ (afterwards (Ready n began (began + timeout) inbox)
            (Looked n began (.upTo most accepts timeout) inbox) (.inr batch)) (.done (Sum.inr batch)) _
          exact .done _ (Looked.stable batch)

theorem keeps_collectOne :
    Keeps n (Delivers n)
      (fun arrived m => m.time = began ∧ m.world.post.box n = inbox ++ arrived.map (·.2))
      (collectBatch n (.upTo most accepts timeout))
      (Looked n began (.upTo most accepts timeout) inbox) := by
  rw [collectBatch_eq]
  refine .act (fun t arrived m => t = began ∧ Ready n began (began + timeout) inbox [] arrived m)
    ?_ ?_ ?_
  · rintro arrived m deeds w ⟨time, box⟩ done
    refine ⟨time, ?_⟩
    show w.post.box n = _
    rw [done.box, box]
    simp [Function.comp_def]
  · rintro arrived m ⟨time, box⟩
    exact ⟨time, rfl, box, .inl time⟩
  · intro t
    refine .assuming fun same => ?_
    subst same
    refine .loop _ _ [] Ready.stable keeps_lookRound (fun _ => batchLoop_halts ..) ?_
    intro batch
    exact .done batch (Looked.stable batch)

end Waiting

section Seeking
variable {n most timeout : Nat} {accepts : Message → Bool} {m m' : Moment World}
  {deeds : List (Nat × Message)} {x : Activity World (List Message)}
  {d : Doing World (List Message)}

inductive Seeking (n : Nat) (r : BatchRequest) : Activity World (List Message) → Prop
  | begins : Seeking n r (collectBatch n r)
  | between (deadline : Nat) : Seeking n r (.loop [] (batchRound n r deadline) .done)
  | looks (deadline : Nat) : Seeking n r (looking n r deadline [])
  | waits (deadline : Nat) : Seeking n r (waiting n r deadline [])
  | stops : Seeking n r (stopping n r [])

theorem Seeking.move (here : Seeking n (.upTo most accepts timeout) x)
    (move : Prompt.Move n ⟨x, m⟩ d) : (∃ batch, d.left = .done batch) ∨
      Seeking n (.upTo most accepts timeout) d.left ∧
        d.now.world.post.box n = m.world.post.box n := by
  cases here with
  | begins =>
    rw [collectBatch_eq] at move
    cases move
    exact .inr ⟨.between _, rfl⟩
  | between deadline =>
    cases move
    right
    rw [batchRound_bind]
    exact ⟨.looks deadline, rfl⟩
  | looks deadline =>
    cases move
    rcases looked : (BatchRequest.upTo most accepts timeout).collect [] (m.world.post.box n) with
      ⟨taken, left, complete⟩
    have found : World.collect n (.upTo most accepts timeout) [] m.world =
        ((taken, complete), { m.world with post := m.world.post.setBox n left }) := by
      simp only [World.collect, looked]
    simp only [found]
    cases complete with
    | true => exact .inl ⟨taken, rfl⟩
    | false =>
      obtain ⟨rfl, rfl, -⟩ := incomplete_look looked
      exact .inr ⟨.waits deadline, box_of_look looked⟩
  | waits deadline =>
    right
    cases move with
    | heard => exact ⟨.between deadline, rfl⟩
    | waits => exact ⟨.waits deadline, rfl⟩
    | late => exact ⟨.stops, rfl⟩
  | stops =>
    cases move
    exact .inl ⟨_, rfl⟩

theorem box_of_seeking
    (ran : Prompt.Steps n (Delivers n) ⟨collectBatch n (.upTo most accepts timeout), m⟩ deeds d) :
    (∃ batch, d.left = .done batch) ∨ Seeking n (.upTo most accepts timeout) d.left ∧
      d.now.world.post.box n = m.world.post.box n ++ deeds.map (·.2) := by
  induction ran with
  | none => exact .inr ⟨.begins, (List.append_nil _).symm⟩
  | @more b _ _ _ _ one ih =>
    rcases ih with ⟨batch, finished⟩ | ⟨seeking, box⟩
    · left
      cases one with
      | others => exact ⟨batch, finished⟩
      | own move =>
        obtain ⟨y, m₁⟩ := b
        cases finished
        cases move
    · cases one with
      | others done =>
        refine .inr ⟨seeking, ?_⟩
        refine done.box.trans ?_
        rw [box]
        simp [Function.comp_def]
      | own move =>
        rcases seeking.move move with finished | ⟨seeking', same⟩
        · exact .inl finished
        · refine .inr ⟨seeking', ?_⟩
          rw [same, box, List.append_nil]

end Seeking
end Playbook
