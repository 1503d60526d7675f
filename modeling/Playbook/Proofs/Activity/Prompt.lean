import Playbook.Proofs.Activity.Steps
import Playbook.Schedule

/- An activity that listens to one signal and is the only one to do so. No call is lost on it, and
   the clock does not get past its deadline before it has gone on. Assertions about such an activity
   are about everything the others have done so far, each deed with its time; they have to outlast
   whatever the others do next. -/
namespace Playbook
namespace Prompt
open Activity

structure Moment (ω : Type) where
  time : Nat
  world : ω
  called : Bool

structure Doing (ω α : Type) : Type 1 where
  left : Activity ω α
  now : Moment ω

variable {ω ι α β σ : Type} [Signals ω]

def Moment.change (n : Nat) (m : Moment ω) (w : ω) : Moment ω :=
  { m with world := (Signals.collect w).2, called := m.called || (Signals.collect w).1.contains n }

/-- What the activity does itself. Another call can come as soon as one has been heard. Waiting
    uncalled, it goes on at its deadline. -/
inductive Move (n : Nat) : Doing ω α → Doing ω α → Prop
  | act {β : Type} (run : Nat → ω → β × ω) (next : β → Activity ω α) (m : Moment ω) :
    Move n ⟨.act run next, m⟩ ⟨next (run m.time m.world).1, m.change n (run m.time m.world).2⟩
  | heard (deadline : Nat) (next : Bool → Activity ω α) (m : Moment ω) (called : m.called = true)
    (again : Bool) : Move n ⟨.listen n deadline next, m⟩ ⟨next true, { m with called := again }⟩
  | waits (deadline : Nat) (next : Bool → Activity ω α) (m : Moment ω) (called : m.called = false)
    {u : Nat} (later : m.time ≤ u) (early : u < deadline) :
    Move n ⟨.listen n deadline next, m⟩ ⟨.listen n deadline next, { m with time := u }⟩
  | late (deadline : Nat) (next : Bool → Activity ω α) (m : Moment ω) (called : m.called = false) :
    Move n ⟨.listen n deadline next, m⟩ ⟨next false, { m with time := max m.time deadline }⟩
  | sleeps (time : Nat) (next : Unit → Activity ω α) (m : Moment ω) {u : Nat} (later : m.time ≤ u)
    (early : u < time) :
    Move n ⟨.sleepUntil time next, m⟩ ⟨.sleepUntil time next, { m with time := u }⟩
  | woken (time : Nat) (next : Unit → Activity ω α) (m : Moment ω) :
    Move n ⟨.sleepUntil time next, m⟩ ⟨next (), { m with time := max m.time time }⟩
  | round {β σ : Type} (state : σ) (round : σ → Activity ω (σ ⊕ β)) (next : β → Activity ω α)
    (m : Moment ω) :
    Move n ⟨.loop state round next, m⟩ ⟨(round state).bind (afterRound round next), m⟩

/-- A step, and what the others have done in it. -/
inductive Step (n : Nat) (others : List ι → ω → ω → Prop) :
    Doing ω α → List (Nat × ι) → Doing ω α → Prop
  | others {x : Activity ω α} {m : Moment ω} {w : ω} {deeds : List ι}
    (done : others deeds m.world w) :
    Step n others ⟨x, m⟩ (deeds.map (m.time, ·)) ⟨x, m.change n w⟩
  | own {a b : Doing ω α} (move : Move n a b) : Step n others a [] b

inductive Steps (n : Nat) (others : List ι → ω → ω → Prop) :
    Doing ω α → List (Nat × ι) → Doing ω α → Prop
  | none (a : Doing ω α) : Steps n others a [] a
  | more {a b c : Doing ω α} {before deeds : List (Nat × ι)} (ran : Steps n others a before b)
    (one : Step n others b deeds c) : Steps n others a (before ++ deeds) c

inductive Alone (n : Nat) : Doing ω α → Doing ω α → Prop
  | none (a : Doing ω α) : Alone n a a
  | more {a b c : Doing ω α} (first : Move n a b) (rest : Alone n b c) : Alone n a c

/-- Left alone, the activity comes to its end. -/
def Halts (n : Nat) (a : Doing ω α) : Prop := ∃ result m, Alone n a ⟨.done result, m⟩

section
variable {n : Nat} {others : List ι → ω → ω → Prop} {a b c : Doing ω α}
  {deeds deeds' : List (Nat × ι)}

theorem Steps.trans (first : Steps n others a deeds b) (second : Steps n others b deeds' c) :
    Steps n others a (deeds ++ deeds') c := by
  induction second with
  | none => rwa [List.append_nil]
  | more ran one ih =>
    rw [← List.append_assoc]
    exact .more ih one

theorem Steps.one (step : Step n others a deeds b) : Steps n others a deeds b :=
  .more (.none a) step

theorem Alone.trans (first : Alone n a b) (second : Alone n b c) : Alone n a c := by
  induction first with
  | none => exact second
  | more move _ ih => exact .more move (ih second)

theorem Alone.one (move : Move n a b) : Alone n a b := .more move (.none b)

theorem Alone.steps (alone : Alone n a b) : Steps n others a [] b := by
  induction alone with
  | none => exact .none _
  | more move _ ih => exact (Steps.one (.own move)).trans ih

theorem Halts.after (halts : Halts n b) (first : Alone n a b) : Halts n a := by
  obtain ⟨result, m, rest⟩ := halts
  exact ⟨result, m, first.trans rest⟩

theorem Move.bind (move : Move n a b) (f : α → Activity ω β) :
    Move n ⟨a.left.bind f, a.now⟩ ⟨b.left.bind f, b.now⟩ := by
  cases move with
  | act run next m => exact .act run (fun b => (next b).bind f) m
  | heard deadline next m called again =>
    exact .heard deadline (fun heard => (next heard).bind f) m called again
  | waits deadline next m called later early =>
    exact .waits deadline (fun heard => (next heard).bind f) m called later early
  | late deadline next m called => exact .late deadline (fun heard => (next heard).bind f) m called
  | sleeps time next m later early => exact .sleeps time (fun u => (next u).bind f) m later early
  | woken time next m => exact .woken time (fun u => (next u).bind f) m
  | round state round next m =>
    show Move n ⟨.loop state round fun b => (next b).bind f, m⟩ _
    rw [bind_assoc, afterRound_bind]
    exact .round state round (fun b => (next b).bind f) m

theorem Alone.bind (alone : Alone n a b) (f : α → Activity ω β) :
    Alone n ⟨a.left.bind f, a.now⟩ ⟨b.left.bind f, b.now⟩ := by
  induction alone with
  | none => exact .none _
  | more move _ ih => exact .more (move.bind f) ih

theorem Halts.bind {x : Activity ω α} {m : Moment ω} {f : α → Activity ω β}
    (first : Halts n ⟨x, m⟩)
    (second : ∀ {result m'}, Alone n ⟨x, m⟩ ⟨.done result, m'⟩ → Halts n ⟨f result, m'⟩) :
    Halts n ⟨x.bind f, m⟩ := by
  obtain ⟨result, m', ran⟩ := first
  exact (second ran).after (ran.bind f)

end

abbrev Assertion (ι ω : Type) := List (Nat × ι) → Moment ω → Prop

/-- Nothing that the others do can make it false. -/
def Stable (n : Nat) (others : List ι → ω → ω → Prop) (P : Assertion ι ω) : Prop :=
  ∀ {arrived m deeds w}, P arrived m → others deeds m.world w →
    P (arrived ++ deeds.map (m.time, ·)) (m.change n w)

def afterwards (inv : σ → Assertion ι ω) (post : β → Assertion ι ω) : σ ⊕ β → Assertion ι ω
  | .inl state => inv state
  | .inr b => post b

/-- From a moment of which the first assertion holds, the activity comes to its end if it is left
    alone, and of its result the last assertion holds. -/
inductive Keeps (n : Nat) (others : List ι → ω → ω → Prop) :
    {α : Type} → Assertion ι ω → Activity ω α → (α → Assertion ι ω) → Prop
  | done {α : Type} {Q : α → Assertion ι ω} (a : α) (stable : Stable n others (Q a)) :
    Keeps n others (Q a) (.done a) Q
  | act {α β : Type} {P : Assertion ι ω} {run : Nat → ω → β × ω} {next : β → Activity ω α}
    {Q : α → Assertion ι ω} (R : β → Assertion ι ω) (stable : Stable n others P)
    (acts : ∀ {arrived m}, P arrived m →
      R (run m.time m.world).1 arrived (m.change n (run m.time m.world).2))
    (onward : ∀ b, Keeps n others (R b) (next b) Q) : Keeps n others P (.act run next) Q
  | listen {α : Type} {P : Assertion ι ω} {deadline : Nat} {next : Bool → Activity ω α}
    {Q : α → Assertion ι ω} (R : Bool → Assertion ι ω) (stable : Stable n others P)
    (heard : ∀ {arrived m} (again : Bool), P arrived m → m.called = true →
      R true arrived { m with called := again })
    (waits : ∀ {arrived m u}, P arrived m → m.called = false → m.time ≤ u → u < deadline →
      P arrived { m with time := u })
    (late : ∀ {arrived m}, P arrived m → m.called = false →
      R false arrived { m with time := max m.time deadline })
    (onward : ∀ heard, Keeps n others (R heard) (next heard) Q) :
    Keeps n others P (.listen n deadline next) Q
  | sleepUntil {α : Type} {P : Assertion ι ω} {time : Nat} {next : Unit → Activity ω α}
    {Q : α → Assertion ι ω} (R : Assertion ι ω) (stable : Stable n others P)
    (sleeps : ∀ {arrived m u}, P arrived m → m.time ≤ u → u < time → P arrived { m with time := u })
    (woken : ∀ {arrived m}, P arrived m → R arrived { m with time := max m.time time })
    (onward : ∀ u, Keeps n others R (next u) Q) : Keeps n others P (.sleepUntil time next) Q
  | loop {α β σ : Type} {round : σ → Activity ω (σ ⊕ β)} {next : β → Activity ω α}
    {Q : α → Assertion ι ω} (inv : σ → Assertion ι ω) (post : β → Assertion ι ω) (state : σ)
    (stable : ∀ state, Stable n others (inv state))
    (rounds : ∀ state, Keeps n others (inv state) (round state) (afterwards inv post))
    (halts : ∀ {state arrived m}, inv state arrived m → Halts n ⟨.loop state round .done, m⟩)
    (onward : ∀ b, Keeps n others (post b) (next b) Q) :
    Keeps n others (inv state) (.loop state round next) Q
  | weaken {α : Type} {P P' : Assertion ι ω} {x : Activity ω α} {Q : α → Assertion ι ω}
    (stable : Stable n others P') (implies : ∀ {arrived m}, P' arrived m → P arrived m)
    (keeps : Keeps n others P x Q) : Keeps n others P' x Q
  | any {α γ : Type} {P : γ → Assertion ι ω} {x : Activity ω α} {Q : α → Assertion ι ω}
    (keeps : ∀ ghost, Keeps n others (P ghost) x Q) :
    Keeps n others (fun arrived m => ∃ ghost, P ghost arrived m) x Q

namespace Keeps
variable {n : Nat} {others : List ι → ω → ω → Prop} {P : Assertion ι ω} {x : Activity ω α}
  {Q : α → Assertion ι ω} {arrived deeds : List (Nat × ι)} {m : Moment ω} {d d' : Doing ω α}

theorem stable (keeps : Keeps n others P x Q) : Stable n others P := by
  induction keeps with
  | done a stable => exact stable
  | act R stable => exact stable
  | listen R stable => exact stable
  | sleepUntil R stable => exact stable
  | loop inv post state stable => exact stable state
  | weaken stable => exact stable
  | any keeps ih =>
    rintro arrived m deeds w ⟨ghost, here⟩ done
    exact ⟨ghost, ih ghost here done⟩

theorem bind {R : β → Assertion ι ω} {f : α → Activity ω β} (first : Keeps n others P x Q)
    (second : ∀ a, Keeps n others (Q a) (f a) R) : Keeps n others P (x.bind f) R := by
  induction first with
  | done a => exact second a
  | act S stable acts _ ih => exact .act S stable acts fun b => ih b second
  | listen S stable heard waits late _ ih =>
    exact .listen S stable heard waits late fun heard => ih heard second
  | sleepUntil S stable sleeps woken _ ih =>
    exact .sleepUntil S stable sleeps woken fun u => ih u second
  | loop inv post state stable rounds halts _ _ ih =>
    exact .loop inv post state stable rounds halts fun b => ih b second
  | weaken stable implies _ ih => exact .weaken stable implies (ih second)
  | any _ ih => exact .any fun ghost => ih ghost second

theorem assuming {fact : Prop} (keeps : fact → Keeps n others P x Q) :
    Keeps n others (fun arrived m => fact ∧ P arrived m) x Q := by
  have ghostly : Keeps n others (fun arrived m => ∃ _ : PLift fact, P arrived m) x Q :=
    .any fun known => keeps known.down
  refine .weaken ?_ ?_ ghostly
  · intro arrived m deeds w holds done
    exact ⟨holds.1, (keeps holds.1).stable holds.2 done⟩
  · intro arrived m holds
    exact ⟨⟨holds.1⟩, holds.2⟩

theorem relax {Q' : α → Assertion ι ω} (keeps : Keeps n others P x Q)
    (stable : ∀ a, Stable n others (Q a)) (stable' : ∀ a, Stable n others (Q' a))
    (implies : ∀ {a arrived m}, Q a arrived m → Q' a arrived m) : Keeps n others P x Q' := by
  rw [← bind_done x]
  exact keeps.bind fun a => .weaken (stable a) implies (.done a (stable' a))

theorem move (keeps : Keeps n others P x Q) (here : P arrived m) (move : Move n ⟨x, m⟩ d') :
    ∃ P', Keeps n others P' d'.left Q ∧ P' arrived d'.now := by
  induction keeps generalizing m with
  | done a => cases move
  | act R stable acts onward =>
    cases move
    exact ⟨_, onward _, acts here⟩
  | listen R stable heard waits late onward =>
    cases move with
    | heard _ _ _ called again => exact ⟨_, onward true, heard again here called⟩
    | waits _ _ _ called later early =>
      exact ⟨_, .listen R stable heard waits late onward, waits here called later early⟩
    | late _ _ _ called => exact ⟨_, onward false, late here called⟩
  | @sleepUntil _ P _ _ _ R stable sleeps woken onward =>
    cases move with
    | sleeps _ _ _ later early =>
      exact ⟨P, .sleepUntil R stable sleeps woken onward, sleeps here later early⟩
    | woken => exact ⟨_, onward (), woken here⟩
  | loop inv post state stable rounds halts onward =>
    cases move
    refine ⟨_, (rounds state).bind ?_, here⟩
    intro outcome
    cases outcome with
    | inl state => exact .loop inv post state stable rounds halts onward
    | inr b => exact onward b
  | weaken _ implies _ ih => exact ih (implies here) move
  | any _ ih =>
    obtain ⟨ghost, here⟩ := here
    exact ih ghost here move

theorem step (keeps : Keeps n others P d.left Q) (here : P arrived d.now)
    (step : Step n others d deeds d') :
    ∃ P', Keeps n others P' d'.left Q ∧ P' (arrived ++ deeds) d'.now := by
  cases step with
  | others done => exact ⟨P, keeps, keeps.stable here done⟩
  | own move =>
    rw [List.append_nil]
    exact keeps.move here move

theorem steps (keeps : Keeps n others P d.left Q) (here : P arrived d.now)
    (ran : Steps n others d deeds d') :
    ∃ P', Keeps n others P' d'.left Q ∧ P' (arrived ++ deeds) d'.now := by
  induction ran with
  | none => exact ⟨P, keeps, by rwa [List.append_nil]⟩
  | more _ one ih =>
    obtain ⟨P', keeps', here'⟩ := ih
    rw [← List.append_assoc]
    exact keeps'.step here' one

theorem result {a : α} (keeps : Keeps n others P (.done a) Q) (here : P arrived m) :
    Q a arrived m := by
  generalize same : Activity.done a = y at keeps
  induction keeps with
  | done a' =>
    cases same
    exact here
  | weaken _ implies _ ih => exact ih (implies here) same
  | any _ ih =>
    obtain ⟨ghost, here⟩ := here
    exact ih ghost here same
  | act => cases same
  | listen => cases same
  | sleepUntil => cases same
  | loop => cases same

theorem sound {a : α} (keeps : Keeps n others P x Q) (here : P arrived m) {m' : Moment ω}
    (ran : Steps n others ⟨x, m⟩ deeds ⟨.done a, m'⟩) : Q a (arrived ++ deeds) m' := by
  obtain ⟨P', keeps', here'⟩ := keeps.steps here ran
  exact keeps'.result here'

theorem alone {a : α} (keeps : Keeps n others P x Q) (here : P arrived m) {m' : Moment ω}
    (ran : Alone n ⟨x, m⟩ ⟨.done a, m'⟩) : Q a arrived m' := by
  have steps : Steps n others ⟨x, m⟩ [] ⟨.done a, m'⟩ := ran.steps
  have holds := keeps.sound here steps
  rwa [List.append_nil] at holds

theorem halts (keeps : Keeps n others P x Q) (here : P arrived m) : Halts n ⟨x, m⟩ := by
  induction keeps generalizing m with
  | done a => exact ⟨a, m, .none _⟩
  | act R _ acts _ ih => exact (ih _ (acts here)).after (.one (.act ..))
  | listen R _ heard _ late _ ih =>
    cases called : m.called with
    | true => exact (ih true (heard false here called)).after (.one (.heard _ _ m called false))
    | false => exact (ih false (late here called)).after (.one (.late _ _ m called))
  | sleepUntil R _ _ woken _ ih => exact (ih () (woken here)).after (.one (.woken ..))
  | loop inv post state stable rounds halts onward _ ih =>
    have ended : Keeps n others (inv state) (.loop state _ .done) post :=
      .loop inv post state stable rounds halts fun b => .done b (onward b).stable
    exact (halts here).bind fun ran => ih _ (ended.alone here ran)
  | weaken _ implies _ ih => exact ih (implies here)
  | any _ ih =>
    obtain ⟨ghost, here⟩ := here
    exact ih ghost here

end Keeps
end Prompt
end Playbook
