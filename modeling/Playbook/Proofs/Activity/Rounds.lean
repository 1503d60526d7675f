import Playbook.Proofs.Activity.Outcomes
import Playbook.Proofs.Activity.Prompt

/- Runs taken apart. What is done one after the other has been done in two runs, the second of which
   begins where the first has come to its result; and a loop goes through its rounds. -/
namespace Playbook
namespace Prompt
open Activity

variable {ω ι α β σ : Type} [Signals ω] {n : Nat} {others : List ι → ω → ω → Prop}
  {x : Activity ω α} {f : α → Activity ω β} {m m' : Moment ω} {deeds more : List (Nat × ι)}
  {d d' : Doing ω β}

theorem Move.of_bind (move : Move n ⟨x.bind f, m⟩ d) :
    (∃ a, x = .done a) ∨ ∃ x', d = ⟨x'.bind f, d.now⟩ ∧ Move n ⟨x, m⟩ ⟨x', d.now⟩ := by
  cases x with
  | done a => exact .inl ⟨a, rfl⟩
  | act run next =>
    right
    cases move
    exact ⟨_, rfl, .act run next m⟩
  | listen signal deadline next =>
    right
    cases move with
    | heard _ _ _ called again => exact ⟨_, rfl, .heard deadline next m called again⟩
    | waits _ _ _ called later early =>
      exact ⟨.listen n deadline next, rfl, .waits deadline next m called later early⟩
    | late _ _ _ called => exact ⟨_, rfl, .late deadline next m called⟩
  | sleepUntil time next =>
    right
    cases move with
    | sleeps _ _ _ later early => exact ⟨.sleepUntil time next, rfl, .sleeps time next m later early⟩
    | woken => exact ⟨_, rfl, .woken time next m⟩
  | loop state round next =>
    right
    cases move
    refine ⟨(round state).bind (afterRound round next), ?_, .round state round next m⟩
    rw [bind_assoc, afterRound_bind]

inductive Sequel (n : Nat) (others : List ι → ω → ω → Prop) (x : Activity ω α)
    (f : α → Activity ω β) (m : Moment ω) : List (Nat × ι) → Doing ω β → Prop
  | first {deeds : List (Nat × ι)} {x' : Activity ω α} {m' : Moment ω}
    (ran : Steps n others ⟨x, m⟩ deeds ⟨x', m'⟩) : Sequel n others x f m deeds ⟨x'.bind f, m'⟩
  | second {deeds more : List (Nat × ι)} {a : α} {m' : Moment ω} {d : Doing ω β}
    (ran : Steps n others ⟨x, m⟩ deeds ⟨.done a, m'⟩) (rest : Steps n others ⟨f a, m'⟩ more d) :
    Sequel n others x f m (deeds ++ more) d

theorem Sequel.step (sequel : Sequel n others x f m deeds d) (step : Step n others d more d') :
    Sequel n others x f m (deeds ++ more) d' := by
  cases sequel with
  | first ran =>
    cases step with
    | others done => exact .first (.more ran (.others done))
    | own move =>
      rcases move.of_bind with ⟨a, rfl⟩ | ⟨x'', same, move'⟩
      · exact .second ran (.one (.own move))
      · rw [same]
        exact .first (.more ran (.own move'))
  | second ran rest =>
    rw [List.append_assoc]
    exact .second ran (.more rest step)

theorem Steps.sequel (ran : Steps n others ⟨x.bind f, m⟩ deeds d) :
    Sequel n others x f m deeds d := by
  induction ran with
  | none => exact .first (.none _)
  | more _ one ih => exact ih.step one

theorem Steps.bind_done {b : β} (ran : Steps n others ⟨x.bind f, m⟩ deeds ⟨.done b, m'⟩) :
    ∃ early late a m₁, deeds = early ++ late ∧ Steps n others ⟨x, m⟩ early ⟨.done a, m₁⟩ ∧
      Steps n others ⟨f a, m₁⟩ late ⟨.done b, m'⟩ := by
  generalize ended : (⟨.done b, m'⟩ : Doing ω β) = d at ran
  cases ran.sequel with
  | second early late => exact ⟨_, _, _, _, rfl, early, late⟩
  | @first _ x' m₁ early =>
    cases x' with
    | done a => exact ⟨_, [], a, m₁, (List.append_nil _).symm, early, .none _⟩
    | _ => cases ended

/-- The others alone have done something, whatever the activity. -/
def Still (n : Nat) (others : List ι → ω → ω → Prop) (m : Moment ω) (deeds : List (Nat × ι))
    (m' : Moment ω) : Prop :=
  ∀ {γ : Type} (x : Activity ω γ), Steps n others ⟨x, m⟩ deeds ⟨x, m'⟩

theorem Steps.still {a : α} (ran : Steps n others ⟨.done a, m⟩ deeds ⟨x, m'⟩) :
    x = .done a ∧ Still n others m deeds m' := by
  generalize reached : (⟨x, m'⟩ : Doing ω α) = d at ran
  have all : d.left = .done a ∧ Still n others m deeds d.now := by
    clear reached
    induction ran with
    | none => exact ⟨rfl, fun y => .none _⟩
    | @more b _ _ _ _ one ih =>
      obtain ⟨left, still⟩ := ih
      cases one with
      | others done => exact ⟨left, fun y => .more (still y) (.others done)⟩
      | own move =>
        obtain ⟨y, m₁⟩ := b
        subst left
        cases move
  subst reached
  exact all

inductive Unrolled (n : Nat) (others : List ι → ω → ω → Prop) (round : σ → Activity ω (σ ⊕ β)) :
    σ → Moment ω → List (Nat × ι) → Doing ω β → Prop
  | before {state : σ} {m m' : Moment ω} {deeds : List (Nat × ι)}
    (still : Still n others m deeds m') :
    Unrolled n others round state m deeds ⟨.loop state round .done, m'⟩
  | within {state : σ} {m m' : Moment ω} {deeds : List (Nat × ι)} {x : Activity ω (σ ⊕ β)}
    (ran : Steps n others ⟨round state, m⟩ deeds ⟨x, m'⟩) :
    Unrolled n others round state m deeds ⟨x.bind (afterRound round .done), m'⟩
  | again {state state' : σ} {m m' : Moment ω} {deeds more : List (Nat × ι)} {d : Doing ω β}
    (ran : Steps n others ⟨round state, m⟩ deeds ⟨.done (.inl state'), m'⟩)
    (rest : Unrolled n others round state' m' more d) :
    Unrolled n others round state m (deeds ++ more) d
  | finished {state : σ} {m m' : Moment ω} {deeds : List (Nat × ι)} {b : β}
    (ran : Steps n others ⟨round state, m⟩ deeds ⟨.done (.inr b), m'⟩) :
    Unrolled n others round state m deeds ⟨.done b, m'⟩

variable {round : σ → Activity ω (σ ⊕ β)} {state : σ}

theorem Unrolled.step (unrolled : Unrolled n others round state m deeds d)
    (step : Step n others d more d') : Unrolled n others round state m (deeds ++ more) d' := by
  induction unrolled with
  | before still =>
    cases step with
    | others done => exact .before fun x => .more (still x) (.others done)
    | own move =>
      cases move
      rw [List.append_nil]
      exact .within (still _)
  | @within _ _ _ _ x ran =>
    cases step with
    | others done => exact .within (.more ran (.others done))
    | own move =>
      rcases move.of_bind with ⟨outcome, rfl⟩ | ⟨x', same, move'⟩
      · cases outcome with
        | inl state' =>
          cases move
          exact .again ran (.within (.none _))
        | inr b => cases move
      · rw [same]
        exact .within (.more ran (.own move'))
  | again ran _ ih =>
    rw [List.append_assoc]
    exact .again ran (ih step)
  | finished ran =>
    cases step with
    | others done => exact .finished (.more ran (.others done))
    | own move => cases move

theorem Steps.unrolled (ran : Steps n others ⟨.loop state round .done, m⟩ deeds d) :
    Unrolled n others round state m deeds d := by
  induction ran with
  | none => exact .before fun x => .none _
  | more _ one ih => exact ih.step one

omit [Signals ω] in
theorem bind_eq_done {b : β} (finished : x.bind f = .done b) : ∃ a, x = .done a ∧ f a = .done b := by
  cases x with
  | done a => exact ⟨a, rfl, finished⟩
  | _ => cases finished

theorem Steps.acted {γ : Type} {run : Nat → ω → γ × ω} {next : γ → Activity ω β}
    (ran : Steps n others ⟨.act run next, m⟩ deeds d) :
    (d.left = .act run next ∧ Still n others m deeds d.now) ∨
      ∃ early late m₁, deeds = early ++ late ∧ Still n others m early m₁ ∧
        Steps n others
          ⟨next (run m₁.time m₁.world).1, m₁.change n (run m₁.time m₁.world).2⟩ late d := by
  induction ran with
  | none => exact .inl ⟨rfl, fun x => .none _⟩
  | @more b _ before _ _ one ih =>
    rcases ih with ⟨left, still⟩ | ⟨early, late, m₁, rfl, still, rest⟩
    · cases one with
      | others done => exact .inl ⟨left, fun x => .more (still x) (.others done)⟩
      | own move =>
        obtain ⟨x, m₁⟩ := b
        cases left
        cases move
        exact .inr ⟨before, [], m₁, rfl, still, .none _⟩
    · rw [List.append_assoc]
      exact .inr ⟨early, _, m₁, rfl, still, .more rest one⟩

theorem Steps.last_round {round : σ → Activity ω (σ ⊕ β)} {state : σ} {b : β}
    (I : σ → Assertion ι ω) {before : List (Nat × ι)}
    (keeps : ∀ {state before m more state' m'}, I state before m →
      Steps n others ⟨round state, m⟩ more ⟨.done (.inl state'), m'⟩ → I state' (before ++ more) m')
    (begins : I state before m)
    (ran : Steps n others ⟨.loop state round .done, m⟩ deeds ⟨.done b, m'⟩) :
    ∃ state early late m₁, deeds = early ++ late ∧ I state (before ++ early) m₁ ∧
      Steps n others ⟨round state, m₁⟩ late ⟨.done (.inr b), m'⟩ := by
  generalize ended : (⟨.done b, m'⟩ : Doing ω β) = d at ran
  have unrolled := ran.unrolled
  clear ran
  induction unrolled generalizing before with
  | before => cases ended
  | @within state _ _ deeds x ran =>
    obtain ⟨finished, rfl⟩ := Doing.mk.inj ended
    obtain ⟨outcome, rfl, onward⟩ := bind_eq_done finished.symm
    cases outcome with
    | inl => cases onward
    | inr b' =>
      cases onward
      exact ⟨state, [], deeds, _, rfl, by rwa [List.append_nil], ran⟩
  | @again state state' _ _ first _ _ ran _ ih =>
    obtain ⟨last, early, late, m₁, rfl, here, finished⟩ := ih (keeps begins ran) ended
    refine ⟨last, first ++ early, late, m₁, (List.append_assoc ..).symm, ?_, finished⟩
    rwa [← List.append_assoc]
  | @finished state _ _ deeds _ ran =>
    cases ended
    exact ⟨state, [], deeds, _, rfl, by rwa [List.append_nil], ran⟩

theorem Steps.retell {κ : Type} {others' : List κ → ω → ω → Prop} (tell : ι → List κ)
    (retells : ∀ {deeds w w'}, others deeds w w' → others' (deeds.flatMap tell) w w')
    {a : Doing ω β} (ran : Steps n others a deeds d) :
    Steps n others' a (deeds.flatMap fun e => (tell e.2).map (e.1, ·)) d := by
  induction ran with
  | none => exact .none _
  | more _ one ih =>
    rw [List.flatMap_append]
    cases one with
    | own move => exact .more ih (.own move)
    | @others _ m _ deeds done =>
      have retold : (deeds.map (m.time, ·)).flatMap (fun e => (tell e.2).map (e.1, ·)) =
          (deeds.flatMap tell).map (m.time, ·) := by
        rw [List.flatMap_map, List.map_flatMap]
      rw [retold]
      exact .more ih (.others (retells done))

theorem Still.keeps {P : Assertion ι ω} (still : Still n others m deeds m')
    (stable : Stable n others P) (arrived : List (Nat × ι)) (here : P arrived m) :
    P (arrived ++ deeds) m' := by
  have ended : Keeps n others P (Activity.done ()) fun _ => P :=
    .done (Q := fun _ => P) () stable
  exact ended.sound here (still (.done ()))

theorem Still.time (still : Still n others m deeds m') : m'.time = m.time :=
  still.keeps (P := fun _ m' => m'.time = m.time) (fun here _ => here) [] rfl

theorem Still.times (still : Still n others m deeds m') : ∀ e ∈ deeds, e.1 = m.time := by
  refine (still.keeps (P := fun arrived m' => m'.time = m.time ∧ ∀ e ∈ arrived, e.1 = m.time) ?_ []
    ⟨rfl, nofun⟩).2
  rintro arrived m' new w ⟨time, all⟩ _
  refine ⟨time, fun e mem => ?_⟩
  rcases List.mem_append.1 mem with old | late
  · exact all e old
  · obtain ⟨d, _, rfl⟩ := List.mem_map.1 late
    exact time

theorem Steps.now_last {P : Assertion ι ω} {g : Nat → α} {arrived : List (Nat × ι)}
    (stable : Stable n others P) (kept : ∀ {arrived m}, P arrived m → P arrived (m.change n m.world))
    (here : P arrived m)
    (ran : Steps n others ⟨.act (fun t w => (t, w)) fun t => .done (g t), m⟩ deeds ⟨x, m'⟩) :
    P (arrived ++ deeds) m' ∧ m'.time = m.time ∧ ∀ a, x = .done a → a = g m.time := by
  rcases ran.acted with ⟨rfl, still⟩ | ⟨early, late, m₁, rfl, still, rest⟩
  · exact ⟨still.keeps stable arrived here, still.time, nofun⟩
  · obtain ⟨rfl, still'⟩ := rest.still
    have before : P (arrived ++ early) m₁ := still.keeps stable arrived here
    refine ⟨?_, still'.time.trans still.time, ?_⟩
    · rw [← List.append_assoc]
      exact still'.keeps stable _ (kept before)
    · intro a same
      cases same
      exact congrArg g still.time

theorem Steps.map {g : α → β} {y : Activity ω β}
    (ran : Steps n others ⟨x.bind fun a => .done (g a), m⟩ deeds ⟨y, m'⟩) :
    ∃ x', y = x'.bind (fun a => .done (g a)) ∧ Steps n others ⟨x, m⟩ deeds ⟨x', m'⟩ := by
  generalize reached : (⟨y, m'⟩ : Doing ω β) = d at ran
  cases ran.sequel with
  | first early =>
    cases reached
    exact ⟨_, rfl, early⟩
  | @second _ _ a _ _ early late =>
    subst reached
    obtain ⟨rfl, still⟩ := late.still
    exact ⟨.done a, rfl, early.trans (still _)⟩

theorem Step.upholds {wanted : α → Prop} {a b : Doing ω α} (step : Step n others a deeds b)
    (upholds : Upholds (fun _ => True) wanted a.left) : Upholds (fun _ => True) wanted b.left := by
  cases step with
  | others => exact upholds
  | own move =>
    cases move with
    | act =>
      cases upholds with
      | act _ onward => exact onward _ _ trivial
    | heard | late =>
      cases upholds with
      | listen onward => exact onward _
    | waits | sleeps => exact upholds
    | woken =>
      cases upholds with
      | sleepUntil onward => exact onward _
    | round state =>
      cases upholds with
      | loop invariant outcome starts rounds onward =>
        refine (rounds state starts).bind fun result holds => ?_
        cases result with
        | inl state => exact .loop invariant outcome holds rounds onward
        | inr b => exact onward b holds

theorem Steps.upholds {wanted : α → Prop} {a b : Doing ω α} (ran : Steps n others a deeds b)
    (upholds : Upholds (fun _ => True) wanted a.left) : Upholds (fun _ => True) wanted b.left := by
  induction ran with
  | none => exact upholds
  | more _ one ih => exact one.upholds ih

def Doing.next (n : Nat) (d : Doing ω α) : Doing ω α :=
  match d.left with
  | .done _ => d
  | .act run next =>
    ⟨next (run d.now.time d.now.world).1, d.now.change n (run d.now.time d.now.world).2⟩
  | .listen signal deadline next =>
    if signal ≠ n then d
    else if d.now.called then ⟨next true, { d.now with called := false }⟩
    else ⟨next false, { d.now with time := max d.now.time deadline }⟩
  | .sleepUntil time next => ⟨next (), { d.now with time := max d.now.time time }⟩
  | .loop state round next => ⟨(round state).bind (afterRound round next), d.now⟩

def Doing.after (n : Nat) : Nat → Doing ω α → Doing ω α
  | 0, d => d
  | k + 1, d => (d.next n).after n k

def Doing.result? (d : Doing ω α) : Option α :=
  match d.left with
  | .done a => some a
  | _ => none

omit [Signals ω] in
theorem Doing.eq_of_result {d : Doing ω α} {a : α} (result : d.result? = some a) :
    d = ⟨.done a, d.now⟩ := by
  obtain ⟨x, m⟩ := d
  cases x with
  | done a =>
    cases result
    rfl
  | _ => cases result

theorem alone_next (d : Doing ω α) : Alone n d (d.next n) := by
  obtain ⟨x, m⟩ := d
  cases x with
  | done a => exact .none _
  | act run next => exact .one (.act run next m)
  | listen signal deadline next =>
    unfold Doing.next
    dsimp only
    split
    · exact .none _
    · rename_i same
      have same := Decidable.not_not.1 same
      subst same
      split
      · rename_i called
        exact .one (.heard deadline next m called false)
      · rename_i uncalled
        exact .one (.late deadline next m (Bool.eq_false_iff.2 uncalled))
  | sleepUntil time next => exact .one (.woken time next m)
  | loop state round next => exact .one (.round state round next m)

theorem alone_after (k : Nat) (d : Doing ω α) : Alone n d (d.after n k) := by
  induction k generalizing d with
  | zero => exact .none d
  | succ k ih => exact (alone_next d).trans (ih _)

end Prompt

/- Assertions about the world and all that the others have done so far. An activity guards one if
   each of its acts keeps it; what an act brings out may depend on it. -/
namespace Prompt
open Activity
variable {ω ι α β : Type} {kept : List (Nat × ι) → ω → Prop}

/-- Wherever the assertion holds, every act keeps it and every result is wanted. -/
inductive Guards (kept : List (Nat × ι) → ω → Prop) : {α : Type} → (α → Prop) → Activity ω α → Prop
  | done {α : Type} {wanted : α → Prop} {a : α} (holds : wanted a) : Guards kept wanted (.done a)
  | act {α β : Type} {wanted : α → Prop} {run : Nat → ω → β × ω} {next : β → Activity ω α}
    (keeps : ∀ arrived t w, kept arrived w → kept arrived (run t w).2)
    (onward : ∀ arrived t w, kept arrived w → Guards kept wanted (next (run t w).1)) :
    Guards kept wanted (.act run next)
  | listen {α : Type} {wanted : α → Prop} {signal deadline : Nat} {next : Bool → Activity ω α}
    (onward : ∀ heard, Guards kept wanted (next heard)) :
    Guards kept wanted (.listen signal deadline next)
  | sleepUntil {α : Type} {wanted : α → Prop} {time : Nat} {next : Unit → Activity ω α}
    (onward : ∀ u, Guards kept wanted (next u)) : Guards kept wanted (.sleepUntil time next)
  | loop {α β σ : Type} {wanted : α → Prop} {state : σ} {round : σ → Activity ω (σ ⊕ β)}
    {next : β → Activity ω α} (invariant : σ → Prop) (outcome : β → Prop) (starts : invariant state)
    (rounds : ∀ s, invariant s → Guards kept (Sum.elim invariant outcome) (round s))
    (onward : ∀ b, outcome b → Guards kept wanted (next b)) :
    Guards kept wanted (.loop state round next)

theorem Guards.bind {x : Activity ω α} {f : α → Activity ω β} {wanted : α → Prop}
    {wanted' : β → Prop} (first : Guards kept wanted x)
    (second : ∀ a, wanted a → Guards kept wanted' (f a)) : Guards kept wanted' (x.bind f) := by
  induction first with
  | done holds => exact second _ holds
  | act keeps _ ih => exact .act keeps fun arrived t w here => ih arrived t w here second
  | listen _ ih => exact .listen fun heard => ih heard second
  | sleepUntil _ ih => exact .sleepUntil fun u => ih u second
  | loop invariant outcome starts rounds _ _ ih =>
    exact .loop invariant outcome starts rounds fun b holds => ih b holds second

/-- The others keep the assertion as well, and so does a look at the signals. -/
structure Sustained [Signals ω] (others : List ι → ω → ω → Prop) (kept : List (Nat × ι) → ω → Prop) :
    Prop where
  others : ∀ {arrived deeds t w w'}, kept arrived w → others deeds w w' →
    kept (arrived ++ deeds.map (t, ·)) w'
  signals : ∀ {arrived w}, kept arrived w → kept arrived (Signals.collect w).2

variable [Signals ω] {n : Nat} {others : List ι → ω → ω → Prop} {wanted : α → Prop}
  {a b : Doing ω α} {arrived deeds : List (Nat × ι)}

theorem Sustained.stable (company : Sustained others kept) :
    Stable n others fun arrived m => kept arrived m.world :=
  fun here done => company.signals (company.others here done)

theorem Guards.step (company : Sustained others kept) (here : kept arrived a.now.world)
    (guards : Guards kept wanted a.left) (step : Step n others a deeds b) :
    kept (arrived ++ deeds) b.now.world ∧ Guards kept wanted b.left := by
  cases step with
  | others done => exact ⟨company.signals (company.others here done), guards⟩
  | own move =>
    rw [List.append_nil]
    cases move with
    | act run next m =>
      cases guards with
      | act keeps onward =>
        exact ⟨company.signals (keeps arrived m.time m.world here), onward arrived _ _ here⟩
    | heard | late =>
      cases guards with
      | listen onward => exact ⟨here, onward _⟩
    | waits | sleeps => exact ⟨here, guards⟩
    | woken =>
      cases guards with
      | sleepUntil onward => exact ⟨here, onward _⟩
    | round state =>
      cases guards with
      | loop invariant outcome starts rounds onward =>
        refine ⟨here, (rounds state starts).bind fun result holds => ?_⟩
        cases result with
        | inl state => exact .loop invariant outcome holds rounds onward
        | inr b => exact onward b holds

theorem Guards.steps (company : Sustained others kept) (here : kept arrived a.now.world)
    (guards : Guards kept wanted a.left) (ran : Steps n others a deeds b) :
    kept (arrived ++ deeds) b.now.world ∧ Guards kept wanted b.left := by
  induction ran with
  | none => exact ⟨by rwa [List.append_nil], guards⟩
  | more _ one ih =>
    rw [← List.append_assoc]
    exact ih.2.step company ih.1 one

end Prompt
end Playbook
