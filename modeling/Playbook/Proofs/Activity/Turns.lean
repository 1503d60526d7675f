import Playbook.Proofs.Activity.Steps
import Playbook.Schedule

/- One activity of a schedule, seen from where it stands. Whatever happens in the turns of the
   others is done by the others, so what the schedule does is a run of that activity among
   others. -/
namespace Playbook
namespace Schedule
open Activity
variable {ω ι α : Type} {name : Nat} {s s' : Schedule ω α} {x : Activity ω α}

structure Seen (name : Nat) (s : Schedule ω α) (ready : List (Running ω α))
    (waiting : List (Waiting ω α)) (results : List (Nat × α)) : Prop where
  ready : s.ready.filter (·.name = name) = ready
  waiting : s.waiting.filter (·.name = name) = waiting
  results : s.results.filter (·.1 = name) = results

/-- The one activity of that name, wherever it stands. -/
inductive Standing (name : Nat) (s : Schedule ω α) : Activity ω α → Prop
  | ready {x : Activity ω α} (seen : Seen name s [⟨name, x⟩] [] []) : Standing name s x
  | listening {signal deadline : Nat} {next : Bool → Activity ω α}
    (seen : Seen name s [] [⟨name, some signal, deadline, next⟩] []) :
    Standing name s (.listen signal deadline next)
  | sleeping {time : Nat} {next : Unit → Activity ω α}
    (seen : Seen name s [] [⟨name, none, time, fun _ => next ()⟩] []) :
    Standing name s (.sleepUntil time next)
  | finished {a : α} (seen : Seen name s [] [] [(name, a)]) : Standing name s (.done a)

structure Company (allowed : ω → ω → Prop) (name : Nat) (s : Schedule ω α) : Prop where
  ready : ∀ r ∈ s.ready, r.name ≠ name → Within allowed r.activity
  waiting : ∀ v ∈ s.waiting, v.name ≠ name → ∀ heard, Within allowed (v.next heard)

theorem firstWaiting_split {signal : Nat} {waiting others : List (Waiting ω α)}
    {v : Waiting ω α} (found : firstWaiting signal waiting = some (v, others)) :
    v.signal = some signal ∧
      ∃ before after, waiting = before ++ v :: after ∧ others = before ++ after := by
  induction waiting generalizing others with
  | nil => cases found
  | cons w rest ih =>
    rw [firstWaiting] at found
    split at found
    case isTrue hit =>
      cases found
      exact ⟨hit, [], rest, rfl, rfl⟩
    case isFalse =>
      obtain ⟨⟨u, left⟩, later, same⟩ := Option.map_eq_some_iff.1 found
      cases same
      obtain ⟨hit, before, after, split, remain⟩ := ih later
      exact ⟨hit, w :: before, after, by rw [split, List.cons_append],
        by rw [remain, List.cons_append]⟩

theorem seen_of_raise {signal : Nat} {ready : List (Running ω α)} {waiting : List (Waiting ω α)}
    {results : List (Nat × α)} (seen : Seen name s ready waiting results) :
    Seen name (s.raise signal) ready waiting results ∨
      ∃ v before after, v.signal = some signal ∧ v.name = name ∧
        waiting = before ++ v :: after ∧
        Seen name (s.raise signal) (ready ++ [⟨name, v.next true⟩]) (before ++ after) results := by
  unfold raise
  split
  case h_2 =>
    left
    split
    · exact seen
    · exact ⟨seen.ready, seen.waiting, seen.results⟩
  case h_1 v others found =>
    obtain ⟨hit, before, after, split, remain⟩ := firstWaiting_split found
    have parts := seen.waiting
    rw [split, List.filter_append] at parts
    by_cases own : v.name = name
    · right
      rw [List.filter_cons_of_pos (by simpa using own)] at parts
      refine ⟨v, _, _, hit, own, parts.symm, ?_, ?_, seen.results⟩
      · rw [List.filter_append, seen.ready]
        simp [own]
      · rw [remain, List.filter_append]
    · left
      rw [List.filter_cons_of_neg (by simpa using own)] at parts
      refine ⟨?_, ?_, seen.results⟩
      · rw [List.filter_append, seen.ready]
        simp [own]
      · rw [remain, List.filter_append]
        exact parts

theorem Company.raise {allowed : ω → ω → Prop} (company : Company allowed name s)
    (signal : Nat) : Company allowed name (s.raise signal) := by
  unfold Schedule.raise
  split
  case h_2 =>
    split
    · exact company
    · exact ⟨company.ready, company.waiting⟩
  case h_1 v others found =>
    obtain ⟨-, before, after, split, remain⟩ := firstWaiting_split found
    constructor
    · intro r among other
      rcases List.mem_append.1 among with old | woken
      · exact company.ready r old other
      · obtain rfl := List.mem_singleton.1 woken
        exact company.waiting v (by rw [split]; simp) other true
    · intro u among
      refine company.waiting u ?_
      rw [remain] at among
      rw [split]
      grind

variable {others : List ι → ω → ω → Prop}

theorem Standing.raise (standing : Standing name s x) (signal : Nat) (t : Nat) (w : ω) :
    ∃ x', Standing name (s.raise signal) x' ∧ Steps others ⟨x, t, w⟩ [] ⟨x', t, w⟩ := by
  cases standing with
  | ready seen =>
    rcases seen_of_raise seen with same | ⟨v, before, after, -, -, split, -⟩
    · exact ⟨x, .ready same, .none _⟩
    · simp at split
  | finished seen =>
    rcases seen_of_raise seen with same | ⟨v, before, after, -, -, split, -⟩
    · exact ⟨_, .finished same, .none _⟩
    · simp at split
  | sleeping seen =>
    rcases seen_of_raise seen with same | ⟨v, before, after, hit, -, split, -⟩
    · exact ⟨_, .sleeping same, .none _⟩
    · obtain ⟨rfl, same⟩ | ⟨_, -, impossible⟩ := List.cons_eq_append_iff.1 split
      · cases same
        cases hit
      · simp at impossible
  | listening seen =>
    rcases seen_of_raise seen with same | ⟨v, before, after, hit, -, split, woken⟩
    · exact ⟨_, .listening same, .none _⟩
    · obtain ⟨rfl, same⟩ | ⟨_, -, impossible⟩ := List.cons_eq_append_iff.1 split
      · cases same
        exact ⟨_, .ready woken, .one (.own (.heard ..))⟩
      · simp at impossible

@[simp] theorem clock_raise (signal : Nat) : (s.raise signal).clock = s.clock := by
  grind [Schedule.raise]

@[simp] theorem world_raise (signal : Nat) : (s.raise signal).world = s.world := by
  grind [Schedule.raise]

@[simp] theorem clock_raiseAll (signals : List Nat) : (signals.foldl raise s).clock = s.clock := by
  induction signals generalizing s with
  | nil => rfl
  | cons signal rest ih => rw [List.foldl_cons, ih, clock_raise]

@[simp] theorem world_raiseAll (signals : List Nat) : (signals.foldl raise s).world = s.world := by
  induction signals generalizing s with
  | nil => rfl
  | cons signal rest ih => rw [List.foldl_cons, ih, world_raise]

theorem Company.raiseAll {allowed : ω → ω → Prop} (company : Company allowed name s)
    (signals : List Nat) : Company allowed name (signals.foldl Schedule.raise s) := by
  induction signals generalizing s with
  | nil => exact company
  | cons signal rest ih => exact ih (company.raise signal)

theorem Standing.raiseAll (standing : Standing name s x) (signals : List Nat) (t : Nat) (w : ω) :
    ∃ x', Standing name (signals.foldl Schedule.raise s) x' ∧
      Steps others ⟨x, t, w⟩ [] ⟨x', t, w⟩ := by
  induction signals generalizing s x with
  | nil => exact ⟨x, standing, .none _⟩
  | cons signal rest ih =>
    obtain ⟨y, here, first⟩ := standing.raise signal t w
    obtain ⟨z, there, second⟩ := ih here
    exact ⟨z, there, first.trans second⟩

def Absent (name : Nat) (s : Schedule ω α) : Prop := Seen name s [] [] []

theorem Absent.raiseAll (absent : Absent name s) (signals : List Nat) :
    Absent name (signals.foldl Schedule.raise s) := by
  induction signals generalizing s with
  | nil => exact absent
  | cons signal rest ih =>
    apply ih
    rcases seen_of_raise absent with same | ⟨v, before, after, -, -, split, -⟩
    · exact same
    · simp at split

theorem Absent.enter (absent : Absent name s) (x : Activity ω α) :
    Standing name (s.enter name x) x := by
  refine .ready ⟨?_, absent.waiting, absent.results⟩
  rw [Schedule.enter, List.filter_cons_of_pos (by simp), absent.ready]

theorem Seen.enter {ready : List (Running ω α)} {waiting : List (Waiting ω α)}
    {results : List (Nat × α)} (seen : Seen name s ready waiting results) {n : Nat}
    (other : n ≠ name) (y : Activity ω α) : Seen name (s.enter n y) ready waiting results := by
  refine ⟨?_, seen.waiting, seen.results⟩
  rw [Schedule.enter, List.filter_cons_of_neg (by simpa using other), seen.ready]

theorem Standing.stay (standing : Standing name s x)
    (same : ∀ {ready waiting results}, Seen name s ready waiting results →
      Seen name s' ready waiting results) : Standing name s' x := by
  cases standing with
  | ready seen => exact .ready (same seen)
  | listening seen => exact .listening (same seen)
  | sleeping seen => exact .sleeping (same seen)
  | finished seen => exact .finished (same seen)

theorem Company.enter {allowed : ω → ω → Prop} (company : Company allowed name s) {n : Nat}
    {y : Activity ω α} (keeps : n ≠ name → Within allowed y) :
    Company allowed name (s.enter n y) := by
  refine ⟨?_, company.waiting⟩
  intro r among
  rcases List.mem_cons.1 among with rfl | old
  · exact keeps
  · exact company.ready r old

def Doings (others : List ι → ω → ω → Prop) (w w' : ω) : Prop := ∃ deeds, others deeds w w'

/-- The activity has come from one schedule to another in a run among others. -/
def Onward (others : List ι → ω → ω → Prop) (name : Nat) (s : Schedule ω α) (x : Activity ω α)
    (s' : Schedule ω α) : Prop :=
  ∃ deeds x', Steps others ⟨x, s.clock, s.world⟩ deeds ⟨x', s'.clock, s'.world⟩ ∧
    Standing name s' x' ∧ Company (Doings others) name s'

theorem Onward.still (clock : s'.clock = s.clock) (world : s'.world = s.world)
    (standing : Standing name s' x) (company : Company (Doings others) name s') :
    Onward others name s x s' := by
  refine ⟨[], x, ?_, standing, company⟩
  rw [clock, world]
  exact .none _

theorem Onward.after {s'' : Schedule ω α} {y : Activity ω α} {deeds : List ι}
    (second : Onward others name s' y s'')
    (first : Steps others ⟨x, s.clock, s.world⟩ deeds ⟨y, s'.clock, s'.world⟩) :
    Onward others name s x s'' := by
  obtain ⟨more, z, ran, there⟩ := second
  exact ⟨deeds ++ more, z, first.trans ran, there⟩

theorem Onward.andThen {s'' : Schedule ω α} (first : Onward others name s x s')
    (second : ∀ y, Standing name s' y → Company (Doings others) name s' →
      Onward others name s' y s'') : Onward others name s x s'' := by
  obtain ⟨deeds, y, ran, standing, company⟩ := first
  exact (second y standing company).after ran

theorem Company.queue {allowed : ω → ω → Prop} (company : Company allowed name s)
    {v : Waiting ω α} (keeps : v.name ≠ name → ∀ heard, Within allowed (v.next heard)) :
    Company allowed name { s with waiting := s.waiting ++ [v] } := by
  refine ⟨company.ready, ?_⟩
  intro u among
  rcases List.mem_append.1 among with old | new
  · exact company.waiting u old
  · obtain rfl := List.mem_singleton.1 new
    exact keeps

theorem Standing.queueOther (standing : Standing name s x)
    (company : Company (Doings others) name s) {v : Waiting ω α} (other : v.name ≠ name)
    (within : ∀ heard, Within (Doings others) (v.next heard)) :
    Onward others name s x { s with waiting := s.waiting ++ [v] } := by
  refine Onward.still rfl rfl ?_ (company.queue fun _ => within)
  apply standing.stay
  intro ready waiting results seen
  refine ⟨seen.ready, ?_, seen.results⟩
  rw [List.filter_append, seen.waiting]
  simp [other]

theorem Standing.enterOther (standing : Standing name s x)
    (company : Company (Doings others) name s) {n : Nat} (other : n ≠ name) {y : Activity ω α}
    (within : Within (Doings others) y) : Onward others name s x (s.enter n y) := by
  refine Onward.still rfl rfl ?_ ?_
  · exact standing.stay fun seen => seen.enter other y
  · exact company.enter fun _ => within

theorem Absent.enterOwn (absent : Absent name s) (company : Company (Doings others) name s)
    (x : Activity ω α) : Onward others name s x (s.enter name x) := by
  refine Onward.still rfl rfl (absent.enter x) ?_
  exact company.enter fun other => absurd rfl other

variable [Signals ω] (quiet : ∀ w : ω, others [] w (Signals.collect w).2)

theorem Company.settle {allowed : ω → ω → Prop} (company : Company allowed name s) :
    Company allowed name s.settle := by
  have moved : Company allowed name { s with world := (Signals.collect s.world).2 } :=
    ⟨company.ready, company.waiting⟩
  exact moved.raiseAll (Signals.collect s.world).1

theorem Absent.settle (absent : Absent name s) : Absent name s.settle := by
  have moved : Absent name { s with world := (Signals.collect s.world).2 } :=
    ⟨absent.ready, absent.waiting, absent.results⟩
  exact moved.raiseAll (Signals.collect s.world).1

include quiet in
theorem steps_settle (s : Schedule ω α) (x : Activity ω α) :
    Steps others ⟨x, s.clock, s.world⟩ [] ⟨x, s.settle.clock, s.settle.world⟩ := by
  simp only [Schedule.settle, clock_raiseAll, world_raiseAll]
  exact .one (.others (quiet s.world))

include quiet in
theorem Standing.settle (standing : Standing name s x)
    (company : Company (Doings others) name s) : Onward others name s x s.settle := by
  have moved : Standing name { s with world := (Signals.collect s.world).2 } x :=
    standing.stay fun seen => ⟨seen.ready, seen.waiting, seen.results⟩
  obtain ⟨y, there, ran⟩ := moved.raiseAll (Signals.collect s.world).1 s.settle.clock s.settle.world
  have woken : Onward others name s.settle x s.settle := ⟨[], y, ran, there, company.settle⟩
  exact woken.after (steps_settle quiet s x)

include quiet in
theorem Standing.turnOther (standing : Standing name s x)
    (company : Company (Doings others) name s) {n : Nat} (other : n ≠ name) {y : Activity ω α}
    (within : Within (Doings others) y) : Onward others name s x (s.turn n y) := by
  cases within with
  | done a =>
    refine .still rfl rfl (standing.stay fun seen => ⟨seen.ready, seen.waiting, ?_⟩)
      ⟨company.ready, company.waiting⟩
    exact (List.filter_cons_of_neg (by simpa using other)).trans seen.results
  | @act _ _ run next keeps onward =>
    obtain ⟨deeds, done⟩ := keeps s.clock s.world
    have moved : Standing name { s with world := (run s.clock s.world).2 } x :=
      standing.stay fun seen => ⟨seen.ready, seen.waiting, seen.results⟩
    have along : Company (Doings others) name { s with world := (run s.clock s.world).2 } :=
      ⟨company.ready, company.waiting⟩
    have acted : Onward others name { s with world := (run s.clock s.world).2 } x
        (s.turn n (.act run next)) := by
      apply (moved.settle quiet along).andThen
      intro z standing company
      exact standing.enterOther company other (onward _)
    exact acted.after (.one (.others done))
  | @listen _ signal deadline next onward =>
    rw [turn]
    split
    · have moved : Standing name { s with unheard := s.unheard.erase signal } x :=
        standing.stay fun seen => ⟨seen.ready, seen.waiting, seen.results⟩
      exact moved.enterOther ⟨company.ready, company.waiting⟩ other (onward true)
    · split
      · exact standing.enterOther company other (onward false)
      · exact standing.queueOther company other onward
  | sleepUntil onward =>
    rw [turn]
    split
    · exact standing.enterOther company other (onward ())
    · exact standing.queueOther company other fun _ => onward ()
  | loop keeps onward =>
    apply standing.enterOther company other
    apply (keeps _).bind
    intro outcome
    cases outcome with
    | inl state => exact .loop keeps onward
    | inr b => exact onward b

include quiet in
theorem Absent.turnOwn (absent : Absent name s) (company : Company (Doings others) name s)
    (x : Activity ω α) : Onward others name s x (s.turn name x) := by
  cases x with
  | done a =>
    refine .still rfl rfl (.finished ⟨absent.ready, absent.waiting, ?_⟩)
      ⟨company.ready, company.waiting⟩
    rw [turn, List.filter_cons_of_pos (by simp), absent.results]
  | act run next =>
    have gone : Absent name { s with world := (run s.clock s.world).2 } :=
      ⟨absent.ready, absent.waiting, absent.results⟩
    have along : Company (Doings others) name { s with world := (run s.clock s.world).2 } :=
      ⟨company.ready, company.waiting⟩
    have moved := (gone.settle.enterOwn along.settle (next (run s.clock s.world).1)).after
      (steps_settle quiet _ _)
    exact moved.after (.one (.own (.act ..)))
  | listen signal deadline next =>
    rw [turn]
    split
    · have gone : Absent name { s with unheard := s.unheard.erase signal } :=
        ⟨absent.ready, absent.waiting, absent.results⟩
      have moved := gone.enterOwn ⟨company.ready, company.waiting⟩ (next true)
      exact moved.after (.one (.own (.heard ..)))
    · split
      case isTrue past =>
        exact (absent.enterOwn company _).after (.one (.own (.late _ _ _ _ _ past)))
      case isFalse =>
        refine .still rfl rfl (.listening ⟨absent.ready, ?_, absent.results⟩)
          (company.queue fun other => absurd rfl other)
        rw [List.filter_append, absent.waiting]
        simp
  | sleepUntil time next =>
    rw [turn]
    split
    case isTrue past =>
      exact (absent.enterOwn company _).after (.one (.own (.woken _ _ _ _ past)))
    case isFalse =>
      refine .still rfl rfl (.sleeping ⟨absent.ready, ?_, absent.results⟩)
        (company.queue fun other => absurd rfl other)
      rw [List.filter_append, absent.waiting]
      simp
  | loop state round next =>
    exact (absent.enterOwn company _).after (.one (.own (.round ..)))

omit [Signals ω] in
theorem seen_of_pass {ready : List (Running ω α)} {waiting : List (Waiting ω α)}
    {results : List (Nat × α)} (seen : Seen name s ready waiting results)
    (passed : s.pass = some s') :
    ∃ time, earliest? s.waiting = some time ∧ s'.clock = max s.clock time ∧ s'.world = s.world ∧
      Seen name s'
        ((waiting.filter (·.deadline ≤ time)).map fun v => ⟨v.name, v.next false⟩)
        (waiting.filter fun v => !decide (v.deadline ≤ time)) results := by
  unfold pass at passed
  split at passed
  · cases passed
  · rename_i time found
    rw [List.partition_eq_filter_filter] at passed
    cases passed
    refine ⟨time, found, rfl, rfl, ?_, ?_, seen.results⟩
    · rw [← seen.waiting, List.filter_map, List.filter_filter, List.filter_filter]
      congr 2
      funext v
      simp [Bool.and_comm]
    · rw [← seen.waiting, List.filter_filter, List.filter_filter]
      congr 1
      funext v
      simp [Bool.and_comm]

omit [Signals ω] in
theorem waited_of_pass (passed : s.pass = some s') :
    (∀ v ∈ s'.waiting, v ∈ s.waiting) ∧
      ∀ r ∈ s'.ready, ∃ v ∈ s.waiting, r = ⟨v.name, v.next false⟩ := by
  unfold pass at passed
  split at passed
  · cases passed
  · rw [List.partition_eq_filter_filter] at passed
    cases passed
    constructor
    · intro v among
      exact (List.mem_filter.1 among).1
    · intro r among
      obtain ⟨v, woken, rfl⟩ := List.mem_map.1 among
      exact ⟨v, (List.mem_filter.1 woken).1, rfl⟩

omit [Signals ω] in
theorem Company.pass {allowed : ω → ω → Prop} (company : Company allowed name s)
    (passed : s.pass = some s') : Company allowed name s' := by
  obtain ⟨waited, woken⟩ := waited_of_pass passed
  constructor
  · intro r among other
    obtain ⟨v, before, rfl⟩ := woken r among
    exact company.waiting v before other false
  · intro v among
    exact company.waiting v (waited v among)

omit [Signals ω] in
theorem Standing.pass (standing : Standing name s x) (company : Company (Doings others) name s)
    (idle : s.ready = []) (passed : s.pass = some s') : Onward others name s x s' := by
  have along := company.pass passed
  cases standing with
  | ready seen =>
    have here := seen.ready
    rw [idle] at here
    cases here
  | finished seen =>
    obtain ⟨time, -, clock, world, seen'⟩ := seen_of_pass seen passed
    refine ⟨[], _, ?_, .finished seen', along⟩
    rw [clock, world]
    exact .one (.time (Nat.le_max_left ..))
  | @listening signal deadline next seen =>
    obtain ⟨time, -, clock, world, seen'⟩ := seen_of_pass seen passed
    have later : Steps others ⟨.listen signal deadline next, s.clock, s.world⟩ []
        ⟨.listen signal deadline next, s'.clock, s'.world⟩ := by
      rw [clock, world]
      exact .one (.time (Nat.le_max_left ..))
    by_cases past : deadline ≤ time
    · replace seen' : Seen name s' [⟨name, next false⟩] [] [] := by simpa [past] using seen'
      have due : deadline ≤ s'.clock := by omega
      exact ⟨_, _, later.trans (.one (.own (.late _ _ _ _ _ due))), .ready seen', along⟩
    · replace seen' : Seen name s' [] [⟨name, some signal, deadline, next⟩] [] := by
        simpa [past] using seen'
      exact ⟨_, _, later, .listening seen', along⟩
  | @sleeping point next seen =>
    obtain ⟨time, -, clock, world, seen'⟩ := seen_of_pass seen passed
    have later : Steps others ⟨.sleepUntil point next, s.clock, s.world⟩ []
        ⟨.sleepUntil point next, s'.clock, s'.world⟩ := by
      rw [clock, world]
      exact .one (.time (Nat.le_max_left ..))
    by_cases past : point ≤ time
    · replace seen' : Seen name s' [⟨name, next ()⟩] [] [] := by simpa [past] using seen'
      have due : point ≤ s'.clock := by omega
      exact ⟨_, _, later.trans (.one (.own (.woken _ _ _ _ due))), .ready seen', along⟩
    · replace seen' : Seen name s' [] [⟨name, none, point, fun _ => next ()⟩] [] := by
        simpa [past] using seen'
      exact ⟨_, _, later, .sleeping seen', along⟩

omit [Signals ω] in
theorem Standing.front (standing : Standing name s x) {r : Running ω α}
    {rest : List (Running ω α)} (turns : s.ready = r :: rest) (own : r.name = name) :
    r = ⟨name, x⟩ ∧ Absent name { s with ready := rest } := by
  have first : s.ready.filter (·.name = name) = r :: rest.filter (·.name = name) := by
    rw [turns, List.filter_cons_of_pos (by simpa using own)]
  cases standing with
  | ready seen =>
    obtain ⟨same, none⟩ := List.cons.inj (first.symm.trans seen.ready)
    exact ⟨same, none, seen.waiting, seen.results⟩
  | listening seen => cases first.symm.trans seen.ready
  | sleeping seen => cases first.symm.trans seen.ready
  | finished seen => cases first.symm.trans seen.ready

include quiet in
theorem Standing.step (standing : Standing name s x) (company : Company (Doings others) name s)
    (stepped : s.step = some s') : Onward others name s x s' := by
  unfold Schedule.step at stepped
  split at stepped
  case h_2 idle => exact standing.pass company idle stepped
  case h_1 r rest turns =>
    cases stepped
    have along : Company (Doings others) name { s with ready := rest } := by
      refine ⟨?_, company.waiting⟩
      intro q among
      exact company.ready q (by rw [turns]; exact .tail r among)
    by_cases own : r.name = name
    · obtain ⟨rfl, absent⟩ := standing.front turns own
      exact absent.turnOwn quiet along x
    · have moved : Standing name { s with ready := rest } x := by
        apply standing.stay
        intro ready waiting results seen
        refine ⟨?_, seen.waiting, seen.results⟩
        rw [← seen.ready, turns, List.filter_cons_of_neg (by simpa using own)]
      exact moved.turnOther quiet along own (company.ready r (by rw [turns]; exact .head rest) own)

include quiet in
theorem Standing.runUntil (standing : Standing name s x)
    (company : Company (Doings others) name s) (awaited steps : Nat) :
    Onward others name s x (s.runUntil awaited steps) := by
  induction steps generalizing s x with
  | zero => exact .still rfl rfl standing company
  | succ steps ih =>
    rw [Schedule.runUntil]
    split
    · exact .still rfl rfl standing company
    · split
      · exact .still rfl rfl standing company
      · rename_i s' stepped
        apply (standing.step quiet company stepped).andThen
        intro y standing company
        exact ih standing company

omit [Signals ω] in
theorem lookup_filter (name : Nat) (results : List (Nat × α)) :
    results.lookup name = (results.filter (·.1 = name)).head?.map (·.2) := by
  induction results with
  | nil => rfl
  | cons entry rest ih =>
    rcases entry with ⟨other, a⟩
    by_cases own : other = name
    · simp [own]
    · have different : (name == other) = false := by simpa using Ne.symm own
      rw [List.filter_cons_of_neg (by simpa using own), ← ih, List.lookup_cons, different]

omit [Signals ω] in
theorem Standing.result {a : α} (standing : Standing name s x) (result : s.result? name = some a) :
    x = .done a := by
  rw [result?, lookup_filter] at result
  cases standing with
  | ready seen => simp [seen.results] at result
  | listening seen => simp [seen.results] at result
  | sleeping seen => simp [seen.results] at result
  | finished seen =>
    rw [seen.results] at result
    cases result
    rfl

include quiet in
/-- The result of an activity in a schedule is that of a run of it among others. -/
theorem Standing.steps_of_result (standing : Standing name s x)
    (company : Company (Doings others) name s) {awaited steps : Nat} {a : α}
    (result : (s.runUntil awaited steps).result? name = some a) :
    ∃ deeds, Steps others ⟨x, s.clock, s.world⟩ deeds
      ⟨.done a, (s.runUntil awaited steps).clock, (s.runUntil awaited steps).world⟩ := by
  obtain ⟨deeds, y, ran, there, -⟩ := standing.runUntil quiet company awaited steps
  obtain rfl := there.result result
  exact ⟨deeds, ran⟩

end Schedule
end Playbook
