import Playbook.Proofs.Activity.Steps

/- What activities come to. Two of them are alike if they do the same and come to like results,
   whatever their acts may bring out. An activity upholds something if it keeps the worlds in which
   it holds and comes to a result as wanted, among others that keep these worlds as well. -/
namespace Playbook
namespace Activity
variable {ω α β : Type} {allowed : ω → ω → Prop} {kept : ω → Prop}

inductive Alike (allowed : ω → ω → Prop) :
    {α : Type} → (α → α → Prop) → Activity ω α → Activity ω α → Prop
  | done {α : Type} {φ : α → α → Prop} {a b : α} (alike : φ a b) :
    Alike allowed φ (.done a) (.done b)
  | act {α β : Type} {φ : α → α → Prop} {run : Nat → ω → β × ω} {next next' : β → Activity ω α}
    (keeps : ∀ t w, allowed w (run t w).2) (onward : ∀ b, Alike allowed φ (next b) (next' b)) :
    Alike allowed φ (.act run next) (.act run next')
  | listen {α : Type} {φ : α → α → Prop} {signal deadline : Nat} {next next' : Bool → Activity ω α}
    (onward : ∀ heard, Alike allowed φ (next heard) (next' heard)) :
    Alike allowed φ (.listen signal deadline next) (.listen signal deadline next')
  | sleepUntil {α : Type} {φ : α → α → Prop} {time : Nat} {next next' : Unit → Activity ω α}
    (onward : ∀ u, Alike allowed φ (next u) (next' u)) :
    Alike allowed φ (.sleepUntil time next) (.sleepUntil time next')
  | loop {α β σ : Type} {φ : α → α → Prop} {state : σ} {round : σ → Activity ω (σ ⊕ β)}
    {next next' : β → Activity ω α} (keeps : ∀ state, Within allowed (round state))
    (onward : ∀ b, Alike allowed φ (next b) (next' b)) :
    Alike allowed φ (.loop state round next) (.loop state round next')

section Alike
variable {x y : Activity ω α} {f g : α → Activity ω β} {φ φ' : α → α → Prop} {ψ : β → β → Prop}

theorem Alike.bind (first : Alike allowed φ x y)
    (second : ∀ a b, φ a b → Alike allowed ψ (f a) (g b)) :
    Alike allowed ψ (x.bind f) (y.bind g) := by
  induction first with
  | done alike => exact second _ _ alike
  | act keeps _ ih => exact .act keeps fun b => ih b second
  | listen _ ih => exact .listen fun heard => ih heard second
  | sleepUntil _ ih => exact .sleepUntil fun u => ih u second
  | loop keeps _ ih => exact .loop keeps fun b => ih b second

theorem Alike.weaken (alike : Alike allowed φ x y) (weaker : ∀ a b, φ a b → φ' a b) :
    Alike allowed φ' x y := by
  have ended := alike.bind (f := .done) (g := .done) fun a b holds => .done (weaker a b holds)
  rwa [bind_done, bind_done] at ended

theorem Alike.eq (alike : Alike allowed φ x y) (same : ∀ a b, φ a b → a = b) : x = y := by
  induction alike with
  | done holds => rw [same _ _ holds]
  | act _ _ ih | listen _ ih | sleepUntil _ ih | loop _ _ ih =>
    congr 1
    funext b
    exact ih b same

theorem Within.weaken {allowed' : ω → ω → Prop} (within : Within allowed x)
    (weaker : ∀ w w', allowed w w' → allowed' w w') : Within allowed' x := by
  induction within with
  | done a => exact .done a
  | act keeps _ ih => exact .act (fun t w => weaker _ _ (keeps t w)) ih
  | listen _ ih => exact .listen ih
  | sleepUntil _ ih => exact .sleepUntil ih
  | loop _ _ rounds ih => exact .loop rounds ih

theorem Within.of_all (all : ∀ w w', allowed w w') (x : Activity ω α) : Within allowed x := by
  induction x with
  | done a => exact .done a
  | act run next ih => exact .act (fun t w => all _ _) ih
  | listen signal deadline next ih => exact .listen ih
  | sleepUntil time next ih => exact .sleepUntil ih
  | loop state round next rounds ih => exact .loop rounds ih

theorem Within.alike (within : Within allowed x) : Alike allowed (· = ·) x x := by
  induction within with
  | done a => exact .done rfl
  | act keeps _ ih => exact .act keeps ih
  | listen _ ih => exact .listen ih
  | sleepUntil _ ih => exact .sleepUntil ih
  | loop keeps _ _ ih => exact .loop keeps ih

end Alike

/-- In worlds that are kept, every act keeps them and every result is wanted. -/
inductive Upholds (kept : ω → Prop) : {α : Type} → (α → Prop) → Activity ω α → Prop
  | done {α : Type} {wanted : α → Prop} {a : α} (holds : wanted a) : Upholds kept wanted (.done a)
  | act {α β : Type} {wanted : α → Prop} {run : Nat → ω → β × ω} {next : β → Activity ω α}
    (keeps : ∀ t w, kept w → kept (run t w).2)
    (onward : ∀ t w, kept w → Upholds kept wanted (next (run t w).1)) :
    Upholds kept wanted (.act run next)
  | listen {α : Type} {wanted : α → Prop} {signal deadline : Nat} {next : Bool → Activity ω α}
    (onward : ∀ heard, Upholds kept wanted (next heard)) :
    Upholds kept wanted (.listen signal deadline next)
  | sleepUntil {α : Type} {wanted : α → Prop} {time : Nat} {next : Unit → Activity ω α}
    (onward : ∀ u, Upholds kept wanted (next u)) : Upholds kept wanted (.sleepUntil time next)
  | loop {α β σ : Type} {wanted : α → Prop} {state : σ} {round : σ → Activity ω (σ ⊕ β)}
    {next : β → Activity ω α} (invariant : σ → Prop) (outcome : β → Prop) (starts : invariant state)
    (rounds : ∀ s, invariant s → Upholds kept (Sum.elim invariant outcome) (round s))
    (onward : ∀ b, outcome b → Upholds kept wanted (next b)) :
    Upholds kept wanted (.loop state round next)

section Upholds
variable {x : Activity ω α} {f : α → Activity ω β} {wanted : α → Prop} {wanted' : β → Prop}

theorem Upholds.bind (first : Upholds kept wanted x)
    (second : ∀ a, wanted a → Upholds kept wanted' (f a)) : Upholds kept wanted' (x.bind f) := by
  induction first with
  | done holds => exact second _ holds
  | act keeps _ ih => exact .act keeps fun t w here => ih t w here second
  | listen _ ih => exact .listen fun heard => ih heard second
  | sleepUntil _ ih => exact .sleepUntil fun u => ih u second
  | loop invariant outcome starts rounds _ _ ih =>
    exact .loop invariant outcome starts rounds fun b holds => ih b holds second

theorem Upholds.weaken {wanted' : α → Prop} (upholds : Upholds kept wanted x)
    (weaker : ∀ a, wanted a → wanted' a) : Upholds kept wanted' x := by
  have ended := upholds.bind (f := .done) fun a holds => .done (weaker a holds)
  rwa [bind_done] at ended

theorem Within.upholds (within : Within (fun w w' => kept w → kept w') x) :
    Upholds kept (fun _ => True) x := by
  induction within with
  | done a => exact .done trivial
  | act keeps _ ih => exact .act keeps fun t w _ => ih _
  | listen _ ih => exact .listen ih
  | sleepUntil _ ih => exact .sleepUntil ih
  | loop _ _ rounds ih =>
    refine .loop (fun _ => True) (fun _ => True) trivial (fun s _ => ?_) fun b _ => ih b
    exact (rounds s).weaken fun outcome _ => by cases outcome <;> trivial

theorem Alike.upholds {y : Activity ω α} {φ : α → α → Prop}
    (alike : Alike (fun w w' => kept w → kept w') φ x y) (results : ∀ a b, φ a b → wanted a) :
    Upholds kept wanted x := by
  induction alike with
  | done holds => exact .done (results _ _ holds)
  | act keeps _ ih => exact .act keeps fun t w _ => ih _ results
  | listen _ ih => exact .listen fun heard => ih heard results
  | sleepUntil _ ih => exact .sleepUntil fun u => ih u results
  | loop keeps _ ih =>
    refine .loop (fun _ => True) (fun _ => True) trivial (fun s _ => ?_) fun b _ => ih b results
    exact (keeps s).upholds.weaken fun outcome _ => by cases outcome <;> trivial

end Upholds

/-- Others that may do anything to the world as long as it is kept. -/
def Keeping (kept : ω → Prop) (_ : List Unit) (w w' : ω) : Prop := kept w → kept w'

section Runs
variable {a b : Underway ω α} {deeds : List Unit} {wanted : α → Prop}

theorem Upholds.step (here : kept a.world) (upholds : Upholds kept wanted a.left)
    (step : Step (Keeping kept) a deeds b) : kept b.world ∧ Upholds kept wanted b.left := by
  cases step with
  | others done => exact ⟨done here, upholds⟩
  | time => exact ⟨here, upholds⟩
  | own move =>
    cases move with
    | act run next t w =>
      cases upholds with
      | act keeps onward => exact ⟨keeps t w here, onward t w here⟩
    | heard | late =>
      cases upholds with
      | listen onward => exact ⟨here, onward _⟩
    | woken =>
      cases upholds with
      | sleepUntil onward => exact ⟨here, onward _⟩
    | round state round next =>
      cases upholds with
      | loop invariant outcome starts rounds onward =>
        refine ⟨here, (rounds state starts).bind fun result holds => ?_⟩
        cases result with
        | inl state => exact .loop invariant outcome holds rounds onward
        | inr b => exact onward b holds

theorem Upholds.steps (here : kept a.world) (upholds : Upholds kept wanted a.left)
    (ran : Steps (Keeping kept) a deeds b) : kept b.world ∧ Upholds kept wanted b.left := by
  induction ran with
  | none => exact ⟨here, upholds⟩
  | more _ one ih => exact ih.2.step ih.1 one

theorem Upholds.result {x : Activity ω α} {result : α} {t t' : Nat} {w w' : ω} (here : kept w)
    (upholds : Upholds kept wanted x)
    (ran : Steps (Keeping kept) ⟨x, t, w⟩ deeds ⟨.done result, t', w'⟩) : wanted result := by
  cases (Upholds.steps here upholds ran).2 with
  | done holds => exact holds

/-- The activity can come to this result, whatever the others do meanwhile. -/
def CanEnd (x : Activity ω α) (result : α) : Prop :=
  ∃ t w deeds t' w', Steps (Keeping fun _ => True) ⟨x, t, w⟩ deeds ⟨.done result, t', w'⟩

theorem Upholds.of_canEnd {x : Activity ω α} {result : α}
    (upholds : Upholds (fun _ => True) wanted x) (ended : x.CanEnd result) : wanted result := by
  obtain ⟨t, w, deeds, t', w', ran⟩ := ended
  exact upholds.result trivial ran

/-- What an activity comes to that does not wait, if the others do nothing meanwhile. -/
def atOnce : Activity ω α → Nat → ω → Option (α × ω)
  | .done a, _, w => some (a, w)
  | .act run next, t, w => (next (run t w).1).atOnce t (run t w).2
  | .listen .., _, _ | .sleepUntil .., _, _ | .loop .., _, _ => none

end Runs
end Activity
end Playbook
