import Playbook.Proofs.Activity.Prompt
import Playbook.Proofs.Activity.Turns

/- One activity of a schedule that is the only one to listen to its signal. What the schedule does is
   a prompt run of that activity: no call is lost, and the clock stops at its deadline. -/
namespace Playbook
namespace Schedule
open Activity Prompt

variable {ω ι α β : Type} {n name : Nat} {s s' : Schedule ω α} {x : Activity ω α}

inductive Hears (fits : Nat → Prop) : {α : Type} → Activity ω α → Prop
  | done {α : Type} (a : α) : Hears fits (.done a)
  | act {α β : Type} {run : Nat → ω → β × ω} {next : β → Activity ω α}
    (onward : ∀ b, Hears fits (next b)) : Hears fits (.act run next)
  | listen {α : Type} {signal deadline : Nat} {next : Bool → Activity ω α} (fit : fits signal)
    (onward : ∀ heard, Hears fits (next heard)) : Hears fits (.listen signal deadline next)
  | sleepUntil {α : Type} {time : Nat} {next : Unit → Activity ω α}
    (onward : ∀ u, Hears fits (next u)) : Hears fits (.sleepUntil time next)
  | loop {α β σ : Type} {state : σ} {round : σ → Activity ω (σ ⊕ β)} {next : β → Activity ω α}
    (rounds : ∀ state, Hears fits (round state)) (onward : ∀ b, Hears fits (next b)) :
    Hears fits (.loop state round next)

theorem Hears.bind {fits : Nat → Prop} {f : α → Activity ω β} (first : Hears fits x)
    (second : ∀ a, Hears fits (f a)) : Hears fits (x.bind f) := by
  induction first with
  | done a => exact second a
  | act _ ih => exact .act fun b => ih b second
  | listen fit _ ih => exact .listen fit fun heard => ih heard second
  | sleepUntil _ ih => exact .sleepUntil fun u => ih u second
  | loop rounds _ _ ih => exact .loop rounds fun b => ih b second

theorem Hears.afterRound {fits : Nat → Prop} {σ : Type} {round : σ → Activity ω (σ ⊕ β)}
    {next : β → Activity ω α} (rounds : ∀ state, Hears fits (round state))
    (onward : ∀ b, Hears fits (next b)) (outcome : σ ⊕ β) :
    Hears fits (Activity.afterRound round next outcome) := by
  cases outcome with
  | inl state => exact .loop rounds onward
  | inr b => exact onward b

structure Deaf (n name : Nat) (s : Schedule ω α) : Prop where
  ready : ∀ r ∈ s.ready, r.name ≠ name → Hears (· ≠ n) r.activity
  waiting : ∀ v ∈ s.waiting, v.name ≠ name →
    v.signal ≠ some n ∧ ∀ heard, Hears (· ≠ n) (v.next heard)

namespace Deaf

theorem raise (deaf : Deaf n name s) (signal : Nat) : Deaf n name (s.raise signal) := by
  unfold Schedule.raise
  split
  case h_2 =>
    split
    · exact deaf
    · exact ⟨deaf.ready, deaf.waiting⟩
  case h_1 v others found =>
    obtain ⟨-, before, after, split, remain⟩ := firstWaiting_split found
    constructor
    · intro r among other
      rcases List.mem_append.1 among with old | woken
      · exact deaf.ready r old other
      · obtain rfl := List.mem_singleton.1 woken
        exact (deaf.waiting v (by rw [split]; simp) other).2 true
    · intro u among
      refine deaf.waiting u ?_
      rw [remain] at among
      rw [split]
      grind

theorem raiseAll (deaf : Deaf n name s) (signals : List Nat) :
    Deaf n name (signals.foldl Schedule.raise s) := by
  induction signals generalizing s with
  | nil => exact deaf
  | cons signal rest ih => exact ih (deaf.raise signal)

theorem enter (deaf : Deaf n name s) {k : Nat} {y : Activity ω α}
    (keeps : k ≠ name → Hears (· ≠ n) y) : Deaf n name (s.enter k y) := by
  refine ⟨?_, deaf.waiting⟩
  intro r among
  rcases List.mem_cons.1 among with rfl | old
  · exact keeps
  · exact deaf.ready r old

theorem queue (deaf : Deaf n name s) {v : Waiting ω α}
    (keeps : v.name ≠ name → v.signal ≠ some n ∧ ∀ heard, Hears (· ≠ n) (v.next heard)) :
    Deaf n name { s with waiting := s.waiting ++ [v] } := by
  refine ⟨deaf.ready, ?_⟩
  intro u among
  rcases List.mem_append.1 among with old | new
  · exact deaf.waiting u old
  · obtain rfl := List.mem_singleton.1 new
    exact keeps

theorem pass (deaf : Deaf n name s) (passed : s.pass = some s') : Deaf n name s' := by
  obtain ⟨waited, woken⟩ := waited_of_pass passed
  constructor
  · intro r among other
    obtain ⟨v, before, rfl⟩ := woken r among
    exact (deaf.waiting v before other).2 false
  · intro v among
    exact deaf.waiting v (waited v among)

end Deaf

/-- How an activity stands that is not at its end: it has or gets a turn, or it waits. No call is
    kept for one that listens. -/
inductive Placed (n name : Nat) (s : Schedule ω α) : Activity ω α → Prop
  | ready {x : Activity ω α} (seen : Seen name s [⟨name, x⟩] [] []) : Placed n name s x
  | listening {deadline : Nat} {next : Bool → Activity ω α}
    (seen : Seen name s [] [⟨name, some n, deadline, next⟩] []) (uncalled : n ∉ s.unheard) :
    Placed n name s (.listen n deadline next)
  | sleeping {time : Nat} {next : Unit → Activity ω α}
    (seen : Seen name s [] [⟨name, none, time, fun _ => next ()⟩] []) :
    Placed n name s (.sleepUntil time next)

theorem Placed.standing (placed : Placed n name s x) : Standing name s x := by
  cases placed with
  | ready seen => exact .ready seen
  | listening seen => exact .listening seen
  | sleeping seen => exact .sleeping seen

theorem Placed.stay (placed : Placed n name s x)
    (same : ∀ {ready waiting results}, Seen name s ready waiting results →
      Seen name s' ready waiting results)
    (uncalled : n ∉ s.unheard → n ∉ s'.unheard) : Placed n name s' x := by
  cases placed with
  | ready seen => exact .ready (same seen)
  | listening seen silent => exact .listening (same seen) (uncalled silent)
  | sleeping seen => exact .sleeping (same seen)

theorem unheard_raise_of_ne {signal : Nat} (different : signal ≠ n) :
    n ∈ (s.raise signal).unheard ↔ n ∈ s.unheard := by
  unfold Schedule.raise
  split
  · exact Iff.rfl
  · split
    · exact Iff.rfl
    · simp [Ne.symm different]

theorem unheard_raise_of_nobody {signal : Nat} (nobody : firstWaiting signal s.waiting = none) :
    signal ∈ (s.raise signal).unheard := by
  unfold Schedule.raise
  rw [nobody]
  simp only
  split
  · rename_i kept
    simpa using kept
  · simp

theorem Deaf.nobody (deaf : Deaf n name s) {ready : List (Running ω α)}
    {waiting : List (Waiting ω α)} {results : List (Nat × α)}
    (seen : Seen name s ready waiting results) (own : ∀ v ∈ waiting, v.signal ≠ some n) :
    firstWaiting n s.waiting = none := by
  cases found : firstWaiting n s.waiting with
  | none => rfl
  | some p =>
    obtain ⟨v, others⟩ := p
    obtain ⟨hit, before, after, split, -⟩ := firstWaiting_split found
    have among : v ∈ s.waiting := by rw [split]; simp
    by_cases mine : v.name = name
    · refine absurd hit (own v ?_)
      rw [← seen.waiting, List.mem_filter]
      exact ⟨among, by simpa using mine⟩
    · exact absurd hit (deaf.waiting v among mine).1

theorem Deaf.owner {v : Waiting ω α} (deaf : Deaf n name s) (among : v ∈ s.waiting)
    (hit : v.signal = some n) : v.name = name :=
  Decidable.byContradiction fun other => (deaf.waiting v among other).1 hit

theorem firstWaiting_isSome {signal : Nat} {waiting : List (Waiting ω α)} {v : Waiting ω α}
    (among : v ∈ waiting) (hit : v.signal = some signal) :
    (firstWaiting signal waiting).isSome = true := by
  induction waiting with
  | nil => cases among
  | cons w rest ih =>
    rw [firstWaiting]
    split
    · rfl
    · rename_i miss
      rcases List.mem_cons.1 among with rfl | later
      · exact absurd hit miss
      · rw [Option.isSome_map]
        exact ih later

theorem raise_of_dull {ready : List (Running ω α)} {waiting : List (Waiting ω α)}
    {results : List (Nat × α)} (deaf : Deaf n name s) (seen : Seen name s ready waiting results)
    (dull : ∀ v ∈ waiting, v.signal = none) (signal : Nat) :
    Seen name (s.raise signal) ready waiting results ∧
      (n ∈ (s.raise signal).unheard ↔ n ∈ s.unheard ∨ n = signal) := by
  constructor
  · rcases seen_of_raise seen with same | ⟨v, before, after, hit, -, split, -⟩
    · exact same
    · have none := dull v (by rw [split]; simp)
      rw [hit] at none
      cases none
  · by_cases same : n = signal
    · subst same
      have nobody := deaf.nobody seen fun v among => by rw [dull v among]; simp
      simp [unheard_raise_of_nobody nobody]
    · simp [unheard_raise_of_ne (Ne.symm same), same]

theorem raiseAll_of_dull {ready : List (Running ω α)} {waiting : List (Waiting ω α)}
    {results : List (Nat × α)} (deaf : Deaf n name s) (seen : Seen name s ready waiting results)
    (dull : ∀ v ∈ waiting, v.signal = none) (signals : List Nat) :
    Seen name (signals.foldl raise s) ready waiting results ∧
      (n ∈ (signals.foldl raise s).unheard ↔ n ∈ s.unheard ∨ n ∈ signals) := by
  induction signals generalizing s with
  | nil => exact ⟨seen, by simp⟩
  | cons signal rest ih =>
    obtain ⟨seen', kept⟩ := raise_of_dull deaf seen dull signal
    obtain ⟨there, kept'⟩ := ih (deaf.raise signal) seen'
    refine ⟨there, ?_⟩
    rw [List.foldl_cons, kept', kept, List.mem_cons, or_assoc]

section
variable {deadline : Nat} {next : Bool → Activity ω α}

theorem raise_of_listening (deaf : Deaf n name s)
    (seen : Seen name s [] [⟨name, some n, deadline, next⟩] []) :
    Seen name (s.raise n) [⟨name, next true⟩] [] [] := by
  have among : (⟨name, some n, deadline, next⟩ : Waiting ω α) ∈ s.waiting := by
    have mem : _ ∈ s.waiting.filter (·.name = name) := seen.waiting ▸ List.mem_singleton_self _
    exact (List.mem_filter.1 mem).1
  obtain ⟨⟨u, others⟩, found⟩ := Option.isSome_iff_exists.1 (firstWaiting_isSome among rfl)
  obtain ⟨hit, before, after, split, -⟩ := firstWaiting_split found
  have mine : u.name = name := deaf.owner (by rw [split]; simp) hit
  rcases (seen_of_raise seen : Seen name (s.raise n) _ _ _ ∨ _) with
    same | ⟨v, before, after, -, -, split, woken⟩
  · -- The one that is woken has its name, and would not be among those that have a turn.
    have ready := same.ready
    rw [Schedule.raise, found] at ready
    simp [mine] at ready
  · obtain ⟨rfl, same⟩ | ⟨_, -, impossible⟩ := List.cons_eq_append_iff.1 split
    · cases same
      exact woken
    · simp at impossible

theorem raise_of_listening_of_ne (seen : Seen name s [] [⟨name, some n, deadline, next⟩] [])
    {signal : Nat} (different : signal ≠ n) :
    Seen name (s.raise signal) [] [⟨name, some n, deadline, next⟩] [] := by
  rcases (seen_of_raise seen : Seen name (s.raise signal) _ _ _ ∨ _) with
    same | ⟨v, before, after, hit, -, split, -⟩
  · exact same
  · obtain ⟨rfl, same⟩ | ⟨_, -, impossible⟩ := List.cons_eq_append_iff.1 split
    · cases same
      cases hit
      exact absurd rfl different
    · simp at impossible

end

def moment (n : Nat) (s : Schedule ω α) : Moment ω := ⟨s.clock, s.world, s.unheard.contains n⟩

variable {others : List ι → ω → ω → Prop}

/-- The activity is on its way, alone in listening to its signal; the others do what they may. -/
structure Sole (others : List ι → ω → ω → Prop) (n name : Nat) (s : Schedule ω α)
    (x : Activity ω α) : Prop where
  placed : Placed n name s x
  hears : Hears (· = n) x
  deaf : Deaf n name s
  company : Company (Doings others) name s

theorem Sole.enterOther (sole : Sole others n name s x) {k : Nat} (other : k ≠ name)
    {y : Activity ω α} (within : Within (Doings others) y) (deafened : Hears (· ≠ n) y) :
    Sole others n name (s.enter k y) x where
  placed := sole.placed.stay (fun seen => seen.enter other y) id
  hears := sole.hears
  deaf := sole.deaf.enter fun _ => deafened
  company := sole.company.enter fun _ => within

theorem Sole.queueOther (sole : Sole others n name s x) {v : Waiting ω α} (other : v.name ≠ name)
    (within : ∀ heard, Within (Doings others) (v.next heard))
    (deafened : v.signal ≠ some n ∧ ∀ heard, Hears (· ≠ n) (v.next heard)) :
    Sole others n name { s with waiting := s.waiting ++ [v] } x where
  placed := by
    refine sole.placed.stay ?_ id
    intro ready waiting results seen
    refine ⟨seen.ready, ?_, seen.results⟩
    rw [List.filter_append, seen.waiting]
    simp [other]
  hears := sole.hears
  deaf := sole.deaf.queue fun _ => deafened
  company := sole.company.queue fun _ => within

theorem Absent.sole (absent : Absent name s) (hears : Hears (· = n) x) (deaf : Deaf n name s)
    (company : Company (Doings others) name s) : Sole others n name (s.enter name x) x where
  placed := by
    refine .ready ⟨?_, absent.waiting, absent.results⟩
    rw [Schedule.enter, List.filter_cons_of_pos (by simp), absent.ready]
  hears := hears
  deaf := deaf.enter fun other => absurd rfl other
  company := company.enter fun other => absurd rfl other

variable [Signals ω]

theorem Placed.raiseAll (placed : Placed n name s x) (hears : Hears (· = n) x)
    (deaf : Deaf n name s) (signals : List Nat) :
    ∃ y, Placed n name (signals.foldl Schedule.raise s) y ∧ Hears (· = n) y ∧
      Alone n ⟨x, { s.moment n with called := s.unheard.contains n || signals.contains n }⟩
        ⟨y, (signals.foldl Schedule.raise s).moment n⟩ := by
  have stays : (n ∈ (signals.foldl Schedule.raise s).unheard ↔ n ∈ s.unheard ∨ n ∈ signals) →
      Alone n ⟨x, { s.moment n with called := s.unheard.contains n || signals.contains n }⟩
        ⟨x, (signals.foldl Schedule.raise s).moment n⟩ := by
    intro kept
    have same : (s.unheard.contains n || signals.contains n) =
        (signals.foldl Schedule.raise s).unheard.contains n := by
      rw [Bool.eq_iff_iff]
      simp [kept]
    simp only [moment, same, clock_raiseAll, world_raiseAll]
    exact .none _
  cases placed with
  | ready seen =>
    obtain ⟨there, kept⟩ := raiseAll_of_dull deaf seen (by simp) signals
    exact ⟨x, .ready there, hears, stays kept⟩
  | sleeping seen =>
    obtain ⟨there, kept⟩ := raiseAll_of_dull deaf seen (by simp) signals
    exact ⟨_, .sleeping there, hears, stays kept⟩
  | @listening deadline next seen uncalled =>
    clear stays
    induction signals generalizing s with
    | nil => exact ⟨_, .listening seen uncalled, hears, by simpa [moment] using Alone.none _⟩
    | cons signal rest ih =>
      by_cases own : signal = n
      · subst own
        obtain ⟨there, _⟩ :=
          raiseAll_of_dull (deaf.raise signal) (raise_of_listening deaf seen) (by simp) rest
        refine ⟨next true, .ready there, ?_, ?_⟩
        · cases hears with
          | listen _ onward => exact onward true
        · simp only [moment, List.foldl_cons, clock_raiseAll, clock_raise, world_raiseAll,
            world_raise]
          exact .one (.heard deadline next _ (by simp) _)
      · have uncalled' : n ∉ (s.raise signal).unheard := by rwa [unheard_raise_of_ne own]
        obtain ⟨y, there, hears, ran⟩ :=
          ih (deaf.raise signal) (raise_of_listening_of_ne seen own) uncalled'
        refine ⟨y, there, hears, ?_⟩
        have same : ((s.raise signal).unheard.contains n || rest.contains n) =
            (s.unheard.contains n || (signal :: rest).contains n) := by
          rw [Bool.eq_iff_iff]
          simp [unheard_raise_of_ne own, Ne.symm own]
        simpa only [moment, clock_raise, world_raise, same, List.foldl_cons] using ran

/-- The activity has come from one schedule to another in a prompt run, and is still on its way or
    has its result. -/
def Reaches (others : List ι → ω → ω → Prop) (n name : Nat) (s : Schedule ω α) (x : Activity ω α)
    (s' : Schedule ω α) : Prop :=
  ∃ deeds y, Prompt.Steps n others ⟨x, s.moment n⟩ deeds ⟨y, s'.moment n⟩ ∧
    (Sole others n name s' y ∨ ∃ a, y = .done a ∧ s'.result? name = some a)

theorem Sole.reaches {y : Activity ω α} {deeds : List (Nat × ι)} (sole : Sole others n name s' y)
    (ran : Prompt.Steps n others ⟨x, s.moment n⟩ deeds ⟨y, s'.moment n⟩) :
    Reaches others n name s x s' :=
  ⟨deeds, y, ran, .inl sole⟩

theorem Sole.moved {y : Activity ω α} (sole : Sole others n name s' y)
    (move : Prompt.Move n ⟨x, s.moment n⟩ ⟨y, s'.moment n⟩) : Reaches others n name s x s' :=
  sole.reaches (.one (.own move))

theorem Sole.still (sole : Sole others n name s' x) (same : s'.moment n = s.moment n) :
    Reaches others n name s x s' := by
  refine ⟨[], x, ?_, .inl sole⟩
  rw [same]
  exact .none _

theorem Sole.settle (sole : Sole others n name s x) {w : ω} (done : Doings others s.world w) :
    ∃ deeds y, Prompt.Steps n others ⟨x, s.moment n⟩ deeds
      ⟨y, (settle { s with world := w }).moment n⟩ ∧
      Sole others n name (settle { s with world := w }) y := by
  obtain ⟨deeds, done⟩ := done
  have moved : Placed n name { s with world := (Signals.collect w).2 } x :=
    sole.placed.stay (fun seen => ⟨seen.ready, seen.waiting, seen.results⟩) id
  have deaf : Deaf n name { s with world := (Signals.collect w).2 } :=
    ⟨sole.deaf.ready, sole.deaf.waiting⟩
  have company : Company (Doings others) name { s with world := w } :=
    ⟨sole.company.ready, sole.company.waiting⟩
  obtain ⟨y, there, hears, ran⟩ := moved.raiseAll sole.hears deaf (Signals.collect w).1
  have changed : Prompt.Steps n others ⟨x, s.moment n⟩ _ ⟨x, (s.moment n).change n w⟩ :=
    .one (.others done)
  exact ⟨_, y, changed.trans ran.steps, there, hears, deaf.raiseAll _, company.settle⟩

theorem Sole.turnOther (sole : Sole others n name s x) {k : Nat} (other : k ≠ name)
    {y : Activity ω α} (within : Within (Doings others) y) (deafened : Hears (· ≠ n) y) :
    Reaches others n name s x (s.turn k y) := by
  cases within with
  | done a =>
    refine Sole.still (x := x) ⟨?_, sole.hears, ?_, ?_⟩ rfl
    · refine sole.placed.stay ?_ id
      intro ready waiting results seen
      refine ⟨seen.ready, seen.waiting, ?_⟩
      exact (List.filter_cons_of_neg (by simpa using other)).trans seen.results
    · exact ⟨sole.deaf.ready, sole.deaf.waiting⟩
    · exact ⟨sole.company.ready, sole.company.waiting⟩
  | @act _ _ run next keeps onward =>
    obtain ⟨deeds, z, ran, there⟩ := sole.settle (keeps s.clock s.world)
    cases deafened with
    | act deafened => exact (there.enterOther other (onward _) (deafened _)).reaches ran
  | @listen _ signal deadline next onward =>
    cases deafened with
    | listen different deafened =>
      rw [turn]
      split
      · have kept : (s.unheard.erase signal).contains n = s.unheard.contains n := by
          rw [Bool.eq_iff_iff]
          simp [List.mem_erase_of_ne (Ne.symm different)]
        have moved : Sole others n name { s with unheard := s.unheard.erase signal } x := by
          refine ⟨sole.placed.stay ?_ ?_, sole.hears, ?_, ?_⟩
          · exact fun seen => ⟨seen.ready, seen.waiting, seen.results⟩
          · exact fun silent mem => silent (List.mem_of_mem_erase mem)
          · exact ⟨sole.deaf.ready, sole.deaf.waiting⟩
          · exact ⟨sole.company.ready, sole.company.waiting⟩
        have same : ({ s with unheard := s.unheard.erase signal } : Schedule ω α).moment n =
            s.moment n := by
          simp only [moment, kept]
        exact (moved.enterOther other (onward true) (deafened true)).still same
      · split
        · exact (sole.enterOther other (onward false) (deafened false)).still rfl
        · refine (sole.queueOther other onward ⟨?_, deafened⟩).still rfl
          simpa using different
  | sleepUntil onward =>
    cases deafened with
    | sleepUntil deafened =>
      rw [turn]
      split
      · exact (sole.enterOther other (onward ()) (deafened ())).still rfl
      · exact (sole.queueOther other (fun _ => onward ())
          ⟨by simp, fun _ => deafened ()⟩).still rfl
  | loop keeps onward =>
    cases deafened with
    | loop rounds deafened =>
      refine (sole.enterOther other ?_ ?_).still rfl
      · apply (keeps _).bind
        intro outcome
        cases outcome with
        | inl state => exact .loop keeps onward
        | inr b => exact onward b
      · exact (rounds _).bind (Hears.afterRound rounds deafened)

theorem Absent.act (absent : Absent name s) (deaf : Deaf n name s)
    (company : Company (Doings others) name s) {run : Nat → ω → β × ω} {next : β → Activity ω α}
    (hears : ∀ b, Hears (· = n) (next b)) :
    Prompt.Move n ⟨.act run next, s.moment n⟩
      ⟨next (run s.clock s.world).1, (s.turn name (.act run next)).moment n⟩ ∧
    Sole others n name (s.turn name (.act run next)) (next (run s.clock s.world).1) := by
  have gone : Absent name { s with world := (run s.clock s.world).2 } :=
    ⟨absent.ready, absent.waiting, absent.results⟩
  have left : Absent name
      { s with world := (Signals.collect (run s.clock s.world).2).2 } :=
    ⟨absent.ready, absent.waiting, absent.results⟩
  have unheeding : Deaf n name { s with world := (Signals.collect (run s.clock s.world).2).2 } :=
    ⟨deaf.ready, deaf.waiting⟩
  have along : Company (Doings others) name { s with world := (run s.clock s.world).2 } :=
    ⟨company.ready, company.waiting⟩
  constructor
  · obtain ⟨_, kept⟩ :=
      raiseAll_of_dull unheeding left (by simp) (Signals.collect (run s.clock s.world).2).1
    have same : (s.turn name (.act run next)).moment n =
        (s.moment n).change n (run s.clock s.world).2 := by
      simp only [moment, Moment.change, turn, Schedule.enter, Schedule.settle, clock_raiseAll,
        world_raiseAll, Moment.mk.injEq, true_and]
      rw [Bool.eq_iff_iff]
      simp [kept]
    rw [same]
    exact .act run next _
  · exact gone.settle.sole (hears _) (unheeding.raiseAll _) along.settle

theorem Absent.turnSole (absent : Absent name s) (deaf : Deaf n name s)
    (company : Company (Doings others) name s) (hears : Hears (· = n) x) :
    Reaches others n name s x (s.turn name x) := by
  cases hears with
  | done a => exact ⟨[], .done a, .none _, .inr ⟨a, rfl, by simp [turn, result?]⟩⟩
  | act hears =>
    obtain ⟨move, sole⟩ := absent.act deaf company hears
    exact sole.moved move
  | @listen _ signal deadline next own hears =>
    subst own
    rw [turn]
    split
    case isTrue called =>
      have gone : Absent name { s with unheard := s.unheard.erase signal } :=
        ⟨absent.ready, absent.waiting, absent.results⟩
      exact (gone.sole (hears true) ⟨deaf.ready, deaf.waiting⟩
        ⟨company.ready, company.waiting⟩).moved (.heard deadline next _ called _)
    case isFalse uncalled =>
      split
      case isTrue past =>
        have silent : (s.moment signal).called = false := by simpa [moment] using uncalled
        have late : Prompt.Move signal _ _ := .late deadline next (s.moment signal) silent
        have still : max (s.moment signal).time deadline = s.clock := Nat.max_eq_left past
        rw [still] at late
        exact (absent.sole (hears false) deaf company).moved late
      case isFalse =>
        refine Sole.still ⟨.listening ⟨absent.ready, ?_, absent.results⟩ (by simpa using uncalled),
          .listen rfl hears, deaf.queue fun other => absurd rfl other,
          company.queue fun other => absurd rfl other⟩ rfl
        rw [List.filter_append, absent.waiting]
        simp
  | @sleepUntil _ time next hears =>
    rw [turn]
    split
    case isTrue past =>
      have woken : Prompt.Move n _ _ := .woken time next (s.moment n)
      have still : max (s.moment n).time time = s.clock := Nat.max_eq_left past
      rw [still] at woken
      exact (absent.sole (hears ()) deaf company).moved woken
    case isFalse =>
      refine Sole.still ⟨.sleeping ⟨absent.ready, ?_, absent.results⟩, .sleepUntil hears,
        deaf.queue fun other => absurd rfl other, company.queue fun other => absurd rfl other⟩ rfl
      rw [List.filter_append, absent.waiting]
      simp
  | loop rounds hears =>
    exact (absent.sole ((rounds _).bind (Hears.afterRound rounds hears)) deaf company).moved
      (.round ..)

omit [Signals ω] in
theorem earliest_le {waiting : List (Waiting ω α)} {time : Nat}
    (found : earliest? waiting = some time) {v : Waiting ω α} (among : v ∈ waiting) :
    time ≤ v.deadline := by
  induction waiting generalizing time with
  | nil => cases among
  | cons w rest ih =>
    rw [earliest?] at found
    cases later : earliest? rest with
    | none =>
      rw [later] at found
      cases found
      rcases List.mem_cons.1 among with rfl | other
      · exact Nat.le_refl _
      · cases rest with
        | nil => cases other
        | cons => cases later
    | some d =>
      rw [later] at found
      cases found
      rcases List.mem_cons.1 among with rfl | other
      · exact Nat.min_le_left ..
      · exact Nat.le_trans (Nat.min_le_right ..) (ih later other)

omit [Signals ω] in
theorem unheard_of_pass (passed : s.pass = some s') : s'.unheard = s.unheard := by
  unfold pass at passed
  split at passed <;> cases passed
  rfl

omit [Signals ω] in
theorem moment_of_pass {v : Waiting ω α} (seen : Seen name s [] [v] [])
    (passed : s.pass = some s') :
    (s'.moment n = { s.moment n with time := max s.clock v.deadline } ∧
      Seen name s' [⟨v.name, v.next false⟩] [] []) ∨
    (Seen name s' [] [v] [] ∧ (s'.moment n = s.moment n ∨
      ∃ u, s.clock ≤ u ∧ u < v.deadline ∧ s'.moment n = { s.moment n with time := u })) := by
  obtain ⟨time, found, clock, world, seen'⟩ := seen_of_pass seen passed
  have moment' : s'.moment n = { s.moment n with time := max s.clock time } := by
    simp only [moment, clock, world, unheard_of_pass passed]
  have among : v ∈ s.waiting.filter (·.name = name) := seen.waiting ▸ List.mem_singleton_self v
  have due := earliest_le found (List.mem_filter.1 among).1
  by_cases past : v.deadline ≤ time
  · left
    rw [moment', Nat.le_antisymm past due]
    exact ⟨rfl, by simpa [past] using seen'⟩
  · right
    refine ⟨by simpa [past] using seen', ?_⟩
    rw [moment']
    by_cases moves : s.clock < time
    · exact .inr ⟨_, Nat.le_max_left .., Nat.max_lt.2 ⟨by omega, by omega⟩, rfl⟩
    · rw [Nat.max_eq_left (Nat.le_of_not_lt moves)]
      exact .inl rfl

theorem Sole.pass (sole : Sole others n name s x) (idle : s.ready = [])
    (passed : s.pass = some s') : Reaches others n name s x s' := by
  obtain ⟨placed, hears, deaf, company⟩ := sole
  replace deaf := deaf.pass passed
  replace company := company.pass passed
  cases placed with
  | ready seen =>
    have here := seen.ready
    rw [idle] at here
    cases here
  | @listening deadline next seen uncalled =>
    have silent : (s.moment n).called = false := by simpa [moment] using uncalled
    have uncalled' : n ∉ s'.unheard := unheard_of_pass passed ▸ uncalled
    rcases moment_of_pass seen passed with ⟨due, seen'⟩ | ⟨seen', still | ⟨u, later, early, there⟩⟩
    · cases hears with
      | listen _ hears =>
        refine Sole.moved ⟨.ready seen', hears false, deaf, company⟩ ?_
        rw [due]
        exact .late deadline next _ silent
    · exact Sole.still ⟨.listening seen' uncalled', hears, deaf, company⟩ still
    · refine Sole.moved ⟨.listening seen' uncalled', hears, deaf, company⟩ ?_
      rw [there]
      exact .waits deadline next _ silent later early
  | @sleeping time next seen =>
    rcases moment_of_pass seen passed with ⟨due, seen'⟩ | ⟨seen', still | ⟨u, later, early, there⟩⟩
    · cases hears with
      | sleepUntil hears =>
        refine Sole.moved ⟨.ready seen', hears (), deaf, company⟩ ?_
        rw [due]
        exact .woken time next _
    · exact Sole.still ⟨.sleeping seen', hears, deaf, company⟩ still
    · refine Sole.moved ⟨.sleeping seen', hears, deaf, company⟩ ?_
      rw [there]
      exact .sleeps time next _ later early

theorem Sole.step (sole : Sole others n name s x) (stepped : s.step = some s') :
    Reaches others n name s x s' := by
  unfold Schedule.step at stepped
  split at stepped
  case h_2 idle => exact sole.pass idle stepped
  case h_1 r rest turns =>
    cases stepped
    have deaf : Deaf n name { s with ready := rest } := by
      refine ⟨?_, sole.deaf.waiting⟩
      intro q among
      exact sole.deaf.ready q (by rw [turns]; exact .tail r among)
    have company : Company (Doings others) name { s with ready := rest } := by
      refine ⟨?_, sole.company.waiting⟩
      intro q among
      exact sole.company.ready q (by rw [turns]; exact .tail r among)
    by_cases own : r.name = name
    · obtain ⟨rfl, absent⟩ := sole.placed.standing.front turns own
      exact absent.turnSole deaf company sole.hears
    · have moved : Sole others n name { s with ready := rest } x := by
        refine ⟨sole.placed.stay ?_ id, sole.hears, deaf, company⟩
        intro ready waiting results seen
        refine ⟨?_, seen.waiting, seen.results⟩
        rw [← seen.ready, turns, List.filter_cons_of_neg (by simpa using own)]
      have first : r ∈ s.ready := by rw [turns]; exact .head rest
      exact moved.turnOther own (sole.company.ready r first own) (sole.deaf.ready r first own)

theorem runUntil_of_result {a : α} (result : s.result? name = some a) (steps : Nat) :
    s.runUntil name steps = s := by
  cases steps with
  | zero => rfl
  | succ steps => rw [runUntil, result, Option.isSome_some, if_pos rfl]

/-- The result of the activity is that of a prompt run of it. -/
theorem Sole.steps_of_result (sole : Sole others n name s x) {steps : Nat} {a : α}
    (result : (s.runUntil name steps).result? name = some a) :
    ∃ deeds, Prompt.Steps n others ⟨x, s.moment n⟩ deeds
      ⟨.done a, (s.runUntil name steps).moment n⟩ := by
  have ended : s.result? name = some a → ∃ deeds,
      Prompt.Steps n others ⟨x, s.moment n⟩ deeds ⟨.done a, s.moment n⟩ := by
    intro result
    obtain rfl := sole.placed.standing.result result
    exact ⟨[], .none _⟩
  induction steps generalizing s x with
  | zero => exact ended result
  | succ steps ih =>
    rw [runUntil] at result ⊢
    split at result
    case isTrue there => rw [if_pos there]; exact ended result
    case isFalse going =>
      rw [if_neg going]
      split at result
      case h_1 stuck => exact ended result
      case h_2 s' stepped =>
        obtain ⟨deeds, y, ran, onward | ⟨b, rfl, result'⟩⟩ := sole.step stepped
        · have more : ∃ deeds', Prompt.Steps n others ⟨y, s'.moment n⟩ deeds'
              ⟨.done a, (s'.runUntil name steps).moment n⟩ := by
            refine ih onward result ?_
            intro result
            obtain rfl := onward.placed.standing.result result
            exact ⟨[], .none _⟩
          obtain ⟨deeds', ran'⟩ := more
          exact ⟨deeds ++ deeds', ran.trans ran'⟩
        · simp only [runUntil_of_result result'] at result ⊢
          obtain rfl := Option.some.inj (result'.symm.trans result)
          exact ⟨deeds, ran⟩

end Schedule
end Playbook
