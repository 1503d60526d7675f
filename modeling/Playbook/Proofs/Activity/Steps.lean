import Playbook.Activity

/- An activity among others. Before every move of its own the others may change the world and time
   may go by. What the others have done is noted in its order. -/
namespace Playbook
namespace Activity
variable {ω ι α : Type}

/-- An activity under way: what is left of it, the time, and the world. -/
structure Underway (ω α : Type) : Type 1 where
  left : Activity ω α
  time : Nat
  world : ω

def afterRound {β σ : Type} (round : σ → Activity ω (σ ⊕ β)) (next : β → Activity ω α) :
    σ ⊕ β → Activity ω α
  | .inl state => .loop state round next
  | .inr b => next b

theorem afterRound_bind {β σ τ : Type} (round : σ → Activity ω (σ ⊕ τ)) (next : τ → Activity ω α)
    (f : α → Activity ω β) :
    (fun outcome => (afterRound round next outcome).bind f) =
      afterRound round fun b => (next b).bind f := by
  funext outcome
  cases outcome <;> rfl

inductive Move : Underway ω α → Underway ω α → Prop
  | act {β : Type} (run : Nat → ω → β × ω) (next : β → Activity ω α) (t : Nat) (w : ω) :
    Move ⟨.act run next, t, w⟩ ⟨next (run t w).1, t, (run t w).2⟩
  | heard (signal deadline : Nat) (next : Bool → Activity ω α) (t : Nat) (w : ω) :
    Move ⟨.listen signal deadline next, t, w⟩ ⟨next true, t, w⟩
  | late (signal deadline : Nat) (next : Bool → Activity ω α) (t : Nat) (w : ω)
    (past : deadline ≤ t) : Move ⟨.listen signal deadline next, t, w⟩ ⟨next false, t, w⟩
  | woken (time : Nat) (next : Unit → Activity ω α) (t : Nat) (w : ω) (past : time ≤ t) :
    Move ⟨.sleepUntil time next, t, w⟩ ⟨next (), t, w⟩
  | round {β σ : Type} (state : σ) (round : σ → Activity ω (σ ⊕ β)) (next : β → Activity ω α)
    (t : Nat) (w : ω) :
    Move ⟨.loop state round next, t, w⟩ ⟨(round state).bind (afterRound round next), t, w⟩

/-- A step, and what the others have done in it: the deeds that they have done only where the
    relation has that change of the world for them. -/
inductive Step (others : List ι → ω → ω → Prop) : Underway ω α → List ι → Underway ω α → Prop
  | others {x : Activity ω α} {t : Nat} {w w' : ω} {deeds : List ι} (done : others deeds w w') :
    Step others ⟨x, t, w⟩ deeds ⟨x, t, w'⟩
  | time {x : Activity ω α} {t u : Nat} {w : ω} (later : t ≤ u) :
    Step others ⟨x, t, w⟩ [] ⟨x, u, w⟩
  | own {a b : Underway ω α} (move : Move a b) : Step others a [] b

inductive Within (allowed : ω → ω → Prop) : {α : Type} → Activity ω α → Prop
  | done {α : Type} (a : α) : Within allowed (.done a)
  | act {α β : Type} {run : Nat → ω → β × ω} {next : β → Activity ω α}
    (keeps : ∀ t w, allowed w (run t w).2) (onward : ∀ b, Within allowed (next b)) :
    Within allowed (.act run next)
  | listen {α : Type} {signal deadline : Nat} {next : Bool → Activity ω α}
    (onward : ∀ heard, Within allowed (next heard)) : Within allowed (.listen signal deadline next)
  | sleepUntil {α : Type} {time : Nat} {next : Unit → Activity ω α}
    (onward : ∀ u, Within allowed (next u)) : Within allowed (.sleepUntil time next)
  | loop {α β σ : Type} {state : σ} {round : σ → Activity ω (σ ⊕ β)} {next : β → Activity ω α}
    (keeps : ∀ state, Within allowed (round state)) (onward : ∀ b, Within allowed (next b)) :
    Within allowed (.loop state round next)

theorem Within.bind {allowed : ω → ω → Prop} {β : Type} {x : Activity ω α}
    {f : α → Activity ω β} (first : Within allowed x) (second : ∀ a, Within allowed (f a)) :
    Within allowed (x.bind f) := by
  induction first with
  | done a => exact second a
  | act keeps _ ih => exact .act keeps fun b => ih b second
  | listen _ ih => exact .listen fun heard => ih heard second
  | sleepUntil _ ih => exact .sleepUntil fun u => ih u second
  | loop keeps _ _ ih => exact .loop keeps fun b => ih b second

inductive Steps (others : List ι → ω → ω → Prop) :
    Underway ω α → List ι → Underway ω α → Prop
  | none (a : Underway ω α) : Steps others a [] a
  | more {a b c : Underway ω α} {before deeds : List ι} (ran : Steps others a before b)
    (one : Step others b deeds c) : Steps others a (before ++ deeds) c

theorem Steps.trans {others : List ι → ω → ω → Prop} {a b c : Underway ω α}
    {before after : List ι} (first : Steps others a before b) (second : Steps others b after c) :
    Steps others a (before ++ after) c := by
  induction second with
  | none => rwa [List.append_nil]
  | more ran one ih =>
    rw [← List.append_assoc]
    exact .more ih one

theorem Steps.one {others : List ι → ω → ω → Prop} {a b : Underway ω α} {deeds : List ι}
    (step : Step others a deeds b) : Steps others a deeds b :=
  .more (.none a) step

theorem Steps.keep {others : List ι → ω → ω → Prop} (kept : List ι → Underway ω α → Prop)
    (step : ∀ {before deeds a b}, kept before a → Step others a deeds b → kept (before ++ deeds) b)
    {a b : Underway ω α} {before deeds : List ι} (start : kept before a)
    (ran : Steps others a deeds b) : kept (before ++ deeds) b := by
  induction ran with
  | none => rwa [List.append_nil]
  | more ran one ih =>
    rw [← List.append_assoc]
    exact step ih one

end Activity
end Playbook
