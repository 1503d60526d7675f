/- What an agent does over time, as a tree: it acts on the world at once, waits for a signal or for
   a point in time, repeats, and comes to a result. Between two waits nobody else acts. -/
namespace Playbook

/-- An activity over worlds of type ω with a result of type α. Time counts nanoseconds. -/
inductive Activity (ω : Type) : Type → Type 1 where
  | done {α : Type} (result : α) : Activity ω α
  /-- An act may read the clock and change the world. -/
  | act {α β : Type} (run : Nat → ω → β × ω) (next : β → Activity ω α) : Activity ω α
  /-- Goes on when the signal comes or the deadline has passed, and is told which. -/
  | listen {α : Type} (signal deadline : Nat) (next : Bool → Activity ω α) : Activity ω α
  | sleepUntil {α : Type} (time : Nat) (next : Unit → Activity ω α) : Activity ω α
  /-- Repeats an activity, each time with the state that the last round came to, until one comes to
      a result. -/
  | loop {α β σ : Type} (state : σ) (round : σ → Activity ω (σ ⊕ β)) (next : β → Activity ω α) :
    Activity ω α

namespace Activity
variable {ω α β σ : Type}

def bind : Activity ω α → (α → Activity ω β) → Activity ω β
  | .done a, f => f a
  | .act run next, f => .act run fun b => (next b).bind f
  | .listen signal deadline next, f => .listen signal deadline fun heard => (next heard).bind f
  | .sleepUntil time next, f => .sleepUntil time fun u => (next u).bind f
  | .loop state round next, f => .loop state round fun b => (next b).bind f

instance : Monad (Activity ω) where
  pure := .done
  bind := bind

def change (f : ω → α × ω) : Activity ω α := .act (fun _ w => f w) .done

def ask (f : ω → α) : Activity ω α := .act (fun _ w => (f w, w)) .done

def now : Activity ω Nat := .act (fun time w => (time, w)) .done

def wait (signal deadline : Nat) : Activity ω Bool := .listen signal deadline .done

def sleep (span : Nat) : Activity ω Unit := do .sleepUntil ((← now) + span) .done

def iterate (state : σ) (round : σ → Activity ω (σ ⊕ β)) : Activity ω β := .loop state round .done

theorem bind_done (t : Activity ω α) : t.bind .done = t := by
  induction t with
  | done a => rfl
  | act run next ih => simp only [bind]; congr; funext b; exact ih b
  | listen signal deadline next ih => simp only [bind]; congr; funext b; exact ih b
  | sleepUntil time next ih => simp only [bind]; congr; funext b; exact ih b
  | loop state round next _ ih => simp only [bind]; congr; funext b; exact ih b

theorem bind_assoc {γ : Type} (t : Activity ω α) (f : α → Activity ω β) (g : β → Activity ω γ) :
    (t.bind f).bind g = t.bind fun a => (f a).bind g := by
  induction t with
  | done a => rfl
  | act run next ih => simp only [bind]; congr; funext b; exact ih b f
  | listen signal deadline next ih => simp only [bind]; congr; funext b; exact ih b f
  | sleepUntil time next ih => simp only [bind]; congr; funext b; exact ih b f
  | loop state round next _ ih => simp only [bind]; congr; funext b; exact ih b f

instance : LawfulMonad (Activity ω) :=
  LawfulMonad.mk' (Activity ω) (fun t => bind_done t) (fun _ _ => rfl) fun t f g => bind_assoc t f g

end Activity
end Playbook
