import Playbook.Proofs.Activity.Steps
import Mathlib.Logic.Relation
import Mathlib.Order.Hom.Basic

/- Activities that come to an end. What the others do meanwhile, how the time goes by and which
   signals come is up to the course of things; the moves are those of the activity. -/
namespace Playbook
namespace Activity
variable {ω α β σ : Type}

/-- The time, the world, and how many signals have been heard so far. -/
structure Point (ω : Type) where
  time : Nat
  world : ω
  heard : Nat

/-- What can have happened when an activity acts, when it hears a signal that it listens for, and
    when a time that it waits for has come. It can always act, and every time comes. -/
structure Course (ω : Type) where
  acts : Point ω → Point ω → Prop
  hears (signal deadline : Nat) : Point ω → Point ω → Prop
  comes (time : Nat) : Point ω → Point ω → Prop
  canAct (p : Point ω) : ∃ q, acts p q
  canCome (time : Nat) (p : Point ω) : ∃ q, comes time p q

structure Stage (ω α : Type) : Type 1 where
  left : Activity ω α
  now : Point ω

inductive Goes (C : Course ω) : Stage ω α → Stage ω α → Prop
  | act {β : Type} (run : Nat → ω → β × ω) (next : β → Activity ω α) {p q : Point ω}
    (acts : C.acts p q) : Goes C ⟨.act run next, p⟩
      ⟨next (run q.time q.world).1, { q with world := (run q.time q.world).2 }⟩
  | heard (signal deadline : Nat) (next : Bool → Activity ω α) {p q : Point ω}
    (hears : C.hears signal deadline p q) :
    Goes C ⟨.listen signal deadline next, p⟩ ⟨next true, q⟩
  | late (signal deadline : Nat) (next : Bool → Activity ω α) {p q : Point ω}
    (comes : C.comes deadline p q) : Goes C ⟨.listen signal deadline next, p⟩ ⟨next false, q⟩
  | woken (time : Nat) (next : Unit → Activity ω α) {p q : Point ω} (comes : C.comes time p q) :
    Goes C ⟨.sleepUntil time next, p⟩ ⟨next (), q⟩
  | round {β σ : Type} (state : σ) (round : σ → Activity ω (σ ⊕ β)) (next : β → Activity ω α)
    (p : Point ω) : Goes C ⟨.loop state round next, p⟩ ⟨(round state).bind (afterRound round next), p⟩

/-- No run goes on for ever, and where one cannot go on there is a result. -/
structure Terminates (C : Course ω) (a : Stage ω α) : Prop where
  finite : ¬ ∃ run : Nat → Stage ω α, run 0 = a ∧ ∀ n, Goes C (run n) (run (n + 1))
  ended {b : Stage ω α} (reached : Relation.ReflTransGen (Goes C) a b)
    (stuck : ¬ ∃ c, Goes C b c) : ∃ result, b.left = .done result

/-- Every run comes to an end, with a result as wanted. -/
inductive Finishes (C : Course ω) (wanted : α → Point ω → Prop) : Stage ω α → Prop
  | intro {a : Stage ω α} (results : ∀ result, a.left = .done result → wanted result a.now)
    (onward : ∀ b, Goes C a b → Finishes C wanted b) : Finishes C wanted a

variable {C : Course ω} {wanted : α → Point ω → Prop} {wanted' : β → Point ω → Prop}
  {x : Activity ω α} {p : Point ω}

theorem done_or_goes (a : Stage ω α) :
    (∃ result, a.left = .done result) ∨ ∃ b, Goes C a b := by
  obtain ⟨x, p⟩ := a
  cases x with
  | done result => exact .inl ⟨result, rfl⟩
  | act run next =>
    obtain ⟨q, acts⟩ := C.canAct p
    exact .inr ⟨_, .act run next acts⟩
  | listen signal deadline next =>
    obtain ⟨q, comes⟩ := C.canCome deadline p
    exact .inr ⟨_, .late signal deadline next comes⟩
  | sleepUntil time next =>
    obtain ⟨q, comes⟩ := C.canCome time p
    exact .inr ⟨_, .woken time next comes⟩
  | loop state round next => exact .inr ⟨_, .round state round next p⟩

namespace Finishes

theorem no_endless_run {a : Stage ω α} (finishes : Finishes C wanted a) :
    ¬ ∃ run : Nat → Stage ω α, run 0 = a ∧ ∀ n, Goes C (run n) (run (n + 1)) := by
  induction finishes with
  | intro _ _ ih =>
    rintro ⟨run, rfl, goes⟩
    exact ih (run 1) (goes 0) ⟨fun n => run (n + 1), rfl, fun n => goes (n + 1)⟩

theorem terminates {a : Stage ω α} (finishes : Finishes C wanted a) : Terminates C a where
  finite := finishes.no_endless_run
  ended _ stuck := (done_or_goes _).resolve_right stuck

theorem done {a : α} (holds : wanted a p) : Finishes C wanted ⟨.done a, p⟩ := by
  refine .intro (fun result same => ?_) fun b move => ?_
  · cases same
    exact holds
  · cases move

theorem act {run : Nat → ω → β × ω} {next : β → Activity ω α}
    (onward : ∀ q, C.acts p q → Finishes C wanted
      ⟨next (run q.time q.world).1, { q with world := (run q.time q.world).2 }⟩) :
    Finishes C wanted ⟨.act run next, p⟩ := by
  refine .intro nofun fun b move => ?_
  cases move with
  | act _ _ acts => exact onward _ acts

theorem listen {signal deadline : Nat} {next : Bool → Activity ω α}
    (heard : ∀ q, C.hears signal deadline p q → Finishes C wanted ⟨next true, q⟩)
    (late : ∀ q, C.comes deadline p q → Finishes C wanted ⟨next false, q⟩) :
    Finishes C wanted ⟨.listen signal deadline next, p⟩ := by
  refine .intro nofun fun b move => ?_
  cases move with
  | heard _ _ _ hears => exact heard _ hears
  | late _ _ _ comes => exact late _ comes

theorem round {τ : Type} {state : σ} {round : σ → Activity ω (σ ⊕ τ)} {next : τ → Activity ω α}
    (onward : Finishes C wanted ⟨(round state).bind (afterRound round next), p⟩) :
    Finishes C wanted ⟨.loop state round next, p⟩ := by
  refine .intro nofun fun b move => ?_
  cases move
  exact onward

theorem bind {f : α → Activity ω β} (first : Finishes C wanted ⟨x, p⟩)
    (second : ∀ a q, wanted a q → Finishes C wanted' ⟨f a, q⟩) :
    Finishes C wanted' ⟨x.bind f, p⟩ := by
  generalize here : (⟨x, p⟩ : Stage ω α) = a at first
  induction first generalizing x p with
  | intro results _ ih =>
    subst here
    cases x with
    | done a => exact second a p (results a rfl)
    | act run next => exact .act fun q acts => ih _ (.act run next acts) rfl
    | listen signal deadline next =>
      refine .listen (fun q hears => ?_) fun q comes => ?_
      · exact ih _ (.heard signal deadline next hears) rfl
      · exact ih _ (.late signal deadline next comes) rfl
    | sleepUntil time next =>
      refine .intro nofun fun b move => ?_
      cases move with
      | woken _ _ comes => exact ih _ (.woken time next comes) rfl
    | loop state round next =>
      have onward := ih _ (.round state round next p) rfl
      rw [bind_assoc, afterRound_bind] at onward
      exact .round onward

theorem weaken {wanted' : α → Point ω → Prop} (finishes : Finishes C wanted ⟨x, p⟩)
    (weaker : ∀ a q, wanted a q → wanted' a q) : Finishes C wanted' ⟨x, p⟩ := by
  have ended := finishes.bind (f := .done) fun a q holds => .done (weaker a q holds)
  rwa [bind_done] at ended

/-- A loop comes to an end if no round is without end and each takes something that there is only so
    much of. -/
theorem repeats {τ γ : Type} {before : γ → γ → Prop} (wf : WellFounded before)
    (effort : σ → Point ω → γ) (invariant : σ → Point ω → Prop) {round : σ → Activity ω (σ ⊕ τ)}
    {next : τ → Activity ω α}
    (rounds : ∀ s p, invariant s p → Finishes C (fun outcome q => match outcome with
      | .inl s' => invariant s' q ∧ before (effort s' q) (effort s p)
      | .inr b => Finishes C wanted ⟨next b, q⟩) ⟨round s, p⟩)
    {s : σ} (starts : invariant s p) : Finishes C wanted ⟨.loop s round next, p⟩ := by
  generalize here : effort s p = e
  induction e using wf.induction generalizing s p with
  | h e ih =>
    subst here
    refine .round ((rounds s p starts).bind fun outcome q holds => ?_)
    cases outcome with
    | inl s' => exact ih _ holds.2 holds.1 rfl
    | inr b => exact holds

end Finishes

/-- From a stage with runs that do not finish, one can go to such a stage for ever. -/
theorem Terminates.finishes {a : Stage ω α} (terminates : Terminates C a) :
    Finishes C (fun _ _ => True) a := by
  by_contra unfinished
  have onward (b : Stage ω α) (here : ¬ Finishes C (fun _ _ => True) b) :
      ∃ c, Goes C b c ∧ ¬ Finishes C (fun _ _ => True) c := by
    by_contra none
    refine here (.intro (fun _ _ => trivial) fun c goes => ?_)
    by_contra there
    exact none ⟨c, goes, there⟩
  choose next goes there using onward
  let run (n : Nat) : { b : Stage ω α // ¬ Finishes C (fun _ _ => True) b } :=
    n.rec ⟨a, unfinished⟩ fun _ b => ⟨next b.1 b.2, there b.1 b.2⟩
  exact terminates.finite ⟨fun n => (run n).1, rfl, fun n => goes (run n).1 (run n).2⟩

/-- Wherever it begins, the activity comes to an end. -/
def Ending (C : Course ω) (x : Activity ω α) : Prop := ∀ p, Finishes C (fun _ _ => True) ⟨x, p⟩

theorem ending_iff : Ending C x ↔ ∀ p, Terminates C ⟨x, p⟩ :=
  ⟨fun ends p => (ends p).terminates, fun ends p => (ends p).finishes⟩

theorem Ending.done (a : α) : Ending C (.done a : Activity ω α) := fun _ => .done trivial

theorem Ending.act {run : Nat → ω → β × ω} {next : β → Activity ω α}
    (onward : ∀ b, Ending C (next b)) : Ending C (.act run next) :=
  fun _ => .act fun _ _ => onward _ _

theorem Ending.bind {f : α → Activity ω β} (first : Ending C x) (second : ∀ a, Ending C (f a)) :
    Ending C (x.bind f) :=
  fun p => (first p).bind fun a q _ => second a q

/-- The others act only while the activity waits, and the clock stands still while it does not. A
    wait is over at its deadline. By each time only so many signals have come. -/
def Course.prompt (calls : Nat →o Nat) : Course ω where
  acts p q := q = p
  hears _ deadline p q := p.time ≤ q.time ∧ q.time ≤ max p.time deadline ∧
    p.heard < calls q.time ∧ q.heard = p.heard + 1
  comes time p q := p.time ≤ q.time ∧ time ≤ q.time ∧ q.heard = p.heard
  canAct p := ⟨p, rfl⟩
  canCome time p :=
    ⟨{ p with time := max p.time time }, Nat.le_max_left .., Nat.le_max_right .., rfl⟩

theorem Finishes.act_promptly {calls : Nat →o Nat} {run : Nat → ω → β × ω}
    {next : β → Activity ω α} (onward : Finishes (.prompt calls) wanted
      ⟨next (run p.time p.world).1, { p with world := (run p.time p.world).2 }⟩) :
    Finishes (.prompt calls) wanted ⟨.act run next, p⟩ := by
  refine .act ?_
  rintro _ rfl
  exact onward

end Activity
end Playbook
