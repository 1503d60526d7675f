import Playbook.Agent.Service
import Playbook.Proofs.Activity.Ending
import Playbook.Proofs.Activity.Outcomes
import Playbook.Proofs.Execution.Leftovers

/- How an agent goes on from a checkpoint, in any monad. What it comes to where nothing can be saved,
   it comes to by the same calls on every agent with more variables. -/
namespace Playbook
open Script

namespace Activity
variable {ω α β : Type} {C : Course ω} {kept : ω → Prop} {wanted : α → Point ω → Prop}
  {p : Point ω}

/-- In worlds that are kept every run comes to its end, to this result and in such a world. -/
def finishing (C : Course ω) (kept : ω → Prop) : Yielding (Activity ω) where
  yields x a := ∀ p, kept p.world → Finishes C (fun r q => r = a ∧ kept q.world) ⟨x, p⟩
  ofPure _ := fun _ here => .done ⟨rfl, here⟩
  ofBind first next := by
    intro p here
    refine (first p here).bind ?_
    rintro _ q ⟨rfl, there⟩
    exact next q there

theorem Finishes.atOnce {x : Activity ω α} {t : Nat} {w w' : ω} {a : α} {heard : Nat}
    (finishes : Finishes C wanted ⟨x, t, w, heard⟩) (still : ∀ p, C.acts p p)
    (ran : x.atOnce t w = some (a, w')) : wanted a ⟨t, w', heard⟩ := by
  induction x generalizing w with
  | done b =>
    cases ran
    obtain ⟨results, -⟩ := finishes
    exact results b rfl
  | act run next ih =>
    obtain ⟨-, onward⟩ := finishes
    exact ih _ (onward _ (.act run next (still _))) ran
  | listen | sleepUntil | loop => cases ran

end Activity

namespace Agent
universe u v

def keepUp {m : Type → Type v} [Monad m] (h : Handler m) (save : Saver m)
    (regenerate : AgentState → String → List Value → m (Except AgentError String)) (c : Checkpoint)
    (p : Progress) : m (Except AgentError Unit × Progress) :=
  match c.data.state.stack.getLast? with
  | none => return (.ok (), p)
  | some frame => do
    match ← regenerate p.agent frame.pointer.playbook (storedArgs c.data.namespace_) with
    | .error e => return (.error e, p)
    | .ok response =>
      match ← Progress.continueWith h save p response with
      | (.ok (), p) => return (.ok (), p)
      | (.error (.divergent _), p) => return (.ok (), p)
      | (.error e, p) => return (.error (.execution e), p)

def goOn {m : Type → Type v} [Monad m] (h : Handler m) (save : Saver m)
    (regenerate : AgentState → String → List Value → m (Except AgentError String)) (c : Checkpoint)
    (state : AgentState) : m (Except AgentError Summary × AgentState) := do
  match Execution.resume state c with
  | .error e => return (.error (.execution e), state)
  | .ok p =>
    match ← keepUp h save regenerate c p with
    | (.error e, p) => return (.error e, p.agent)
    | (.ok (), p) =>
      let (r, p) ← Progress.finalize h save p
      return (r.mapError .execution, p.agent)

theorem continueFrom_eq (a : Agent) (c : Checkpoint) (state : AgentState) :
    a.continueFrom c state = goOn a.host.handler a.saver a.regenerate c state := by
  rfl

theorem keepUp_unsaved {h : Handler Option}
    {known : AgentState → String → List Value → Option (Except AgentError String)} {c : Checkpoint}
    {p q : Progress} {r : Except AgentError Unit} (opened : p.execution.finalized = false)
    (ran : keepUp h unsaved known c p = some (r, q)) :
    q.execution.finalized = false ∧ (r = .ok () ∨ q = p) := by
  unfold keepUp at ran
  cases stored : c.data.state.stack.getLast? with
  | none =>
    rw [stored] at ran
    cases ran
    exact ⟨opened, .inl rfl⟩
  | some frame =>
    rw [stored] at ran
    obtain ⟨reply, _, ran⟩ := Option.bind_eq_some_iff.1 ran
    cases reply with
    | error fault =>
      cases ran
      exact ⟨opened, .inr rfl⟩
    | ok response =>
      obtain ⟨⟨r₁, p₁⟩, continued, ran⟩ := Option.bind_eq_some_iff.1 ran
      obtain ⟨same, rfl | ⟨bytes, rfl⟩⟩ := Yielding.continueWith_unsaved opened continued
      · cases ran
        exact ⟨same, .inl rfl⟩
      · cases ran
        exact ⟨same, .inl rfl⟩

section Alike
variable {m : Type → Type u} {n : Type → Type v} [Monad m] [Monad n] [LawfulMonad m]
  [LawfulMonad n] {C : Comparison m n} {h : Handler m} {g : Handler n} {save : Saver m}
  {save' : Saver n} {regenerate : AgentState → String → List Value → m (Except AgentError String)}
  {regenerate' : AgentState → String → List Value → n (Except AgentError String)}
  (H : C.Handlers .same h g) (V : C.Savers .same save save')
  (replies : ∀ a playbook args,
    C.rel (· = ·) (regenerate a playbook args) (regenerate' a playbook args))
include H V replies

theorem keepUp_alike (c : Checkpoint) (p : Progress) :
    C.rel Likeness.same.Runs (keepUp h save regenerate c p) (keepUp g save' regenerate' c p) := by
  obtain ⟨e, a⟩ := p
  unfold keepUp
  cases c.data.state.stack.getLast? with
  | none => exact C.ofPure (.same _ e rfl)
  | some frame =>
    refine C.ofBind (replies ..) ?_
    rintro response _ rfl
    cases response with
    | error fault => exact C.ofPure (.same _ e rfl)
    | ok response =>
      refine C.ofBind (Comparison.continueWith_alike H V rfl response) ?_
      rintro _ _ ⟨r, e, agents⟩
      rcases r with fault | ⟨⟩
      · cases fault <;> exact C.ofPure (.same _ e agents)
      · exact C.ofPure (.same _ e agents)

theorem goOn_alike (c : Checkpoint) (a : AgentState) :
    C.rel Likeness.same.Answers (goOn h save regenerate c a) (goOn g save' regenerate' c a) := by
  unfold goOn
  cases Execution.resume a c with
  | error fault => exact C.ofPure ⟨rfl, rfl⟩
  | ok p =>
    refine C.ofBind (keepUp_alike H V replies c p) ?_
    rintro _ _ ⟨r, e, agents⟩
    cases r with
    | error fault => exact C.ofPure ⟨rfl, agents⟩
    | ok =>
      refine C.ofBind (Comparison.finalize_alike H V agents) ?_
      rintro _ _ ⟨r, e, agents⟩
      exact C.ofPure ⟨rfl, agents⟩

end Alike

section Noting
variable {m : Type → Type v} [Monad m]

def noteless (regenerate : AgentState → String → List Value → m (Except AgentError String)) :
    AgentState → String → List Value → Noted m (Except AgentError String) :=
  fun a playbook args => StateT.lift (regenerate a playbook args)

variable [LawfulMonad m] (h : Handler m) (save : Saver m)
  (regenerate : AgentState → String → List Value → m (Except AgentError String)) (c : Checkpoint)

theorem keepUp_forgetting (p : Progress) :
    forgetting.rel Likeness.same.Runs (keepUp h.noted save.noted (noteless regenerate) c p)
      (keepUp h save regenerate c p) :=
  keepUp_alike (forgetting_handlers h) (forgetting_savers save)
    (fun _ _ _ => forgetting_of (fun _ => rfl) _ id) c p

theorem goOn_forgetting (a : AgentState) :
    forgetting.rel Likeness.same.Answers (goOn h.noted save.noted (noteless regenerate) c a)
      (goOn h save regenerate c a) :=
  goOn_alike (forgetting_handlers h) (forgetting_savers save)
    (fun _ _ _ => forgetting_of (fun _ => rfl) _ id) c a

end Noting

section GoingOn
variable {n : Type → Type v} [Monad n] [LawfulMonad n] {Y : Yielding n} {left : List String}
  {before a b : AgentState}
  {h : Handler Option} {g : Handler n} (H : Y.Handlers left before h g) (save : Saver (Noted n))
  {known : AgentState → String → List Value → Option (Except AgentError String)}
  {regenerate : AgentState → String → List Value → n (Except AgentError String)}
  (replies : ∀ (a b : AgentState) (playbook : String) (args : List Value)
    (r : Except AgentError String), before.Overlaid a b → known a playbook args = some r →
      Y.yields (regenerate b playbook args) r)
  {c : Checkpoint} {e : Execution} (overlaid : before.Overlaid a b)
include H replies overlaid

theorem keepUp_reaches :
    Y.Reaches left before (keepUp h.noted unsaved.noted (noteless known) c ⟨e, a⟩)
      (keepUp g.noted save (noteless regenerate) c ⟨e, b⟩) := by
  unfold keepUp
  cases c.data.state.stack.getLast? with
  | none => exact Yielding.reaches_done overlaid _ _
  | some frame =>
    intro r e' a' calls calls' ran supplied
    obtain ⟨⟨reply, _⟩, noted, ran⟩ := Option.bind_eq_some_iff.1 ran
    obtain ⟨_, asked, ended⟩ := Option.bind_eq_some_iff.1 noted
    cases ended
    have yields : Y.yields ((noteless regenerate b frame.pointer.playbook
        (storedArgs c.data.namespace_)).run calls) (reply, calls) :=
      Y.ofBind (replies _ _ _ _ _ overlaid asked) (Y.ofPure _)
    cases reply with
    | error fault =>
      cases ran
      exact ⟨b, Y.ofBind yields (Y.ofPure _), overlaid⟩
    | ok response =>
      obtain ⟨⟨⟨r₁, e₁, a₁⟩, calls₁⟩, continued, ran⟩ := Option.bind_eq_some_iff.1 ran
      have reaches := Yielding.continueWith_reaches H save overlaid response r₁ e₁ a₁ _ _ continued
      rcases r₁ with (_ | _ | _ | _) | _ <;> cases ran
      all_goals
        obtain ⟨b', yields', overlaid'⟩ := reaches supplied
        exact ⟨b', Y.ofBind yields (Y.ofBind yields' (Y.ofPure _)), overlaid'⟩

theorem goOn_reaches {r : Except AgentError Summary} {final : AgentState}
    {calls calls' : List SuspendCall}
    (ran : (goOn h.noted unsaved.noted (noteless known) c a).run calls = some ((r, final), calls'))
    (supplied : ∀ summary, r = .ok summary → ¬ summary.Wanting left) :
    ∃ b', Y.yields ((goOn g.noted save (noteless regenerate) c b).run calls) ((r, b'), calls') ∧
      before.Overlaid final b' := by
  simp only [goOn, Execution.resume] at ran ⊢
  cases stored : Text.dropStart? c.data.executed.toList c.data.response.toList with
  | none =>
    simp only [stored] at ran ⊢
    cases ran
    exact ⟨b, Y.ofPure _, overlaid⟩
  | some rest =>
    simp only [stored] at ran ⊢
    obtain ⟨⟨⟨r₁, e₁, a₁⟩, calls₁⟩, kept, ran⟩ := Option.bind_eq_some_iff.1 ran
    have written := overlaid.restore c.data.state
    have reaches := keepUp_reaches H save replies written r₁ e₁ a₁ _ _ kept
    have unnoted :=
      run_of_noted (keepUp_forgetting h unsaved known c _) (fun _ _ => Likeness.Runs.eq) kept
    obtain ⟨opened, ended⟩ := keepUp_unsaved rfl unnoted
    cases r₁ with
    | error fault =>
      -- An error is one of the engine, so no code has been run that could want a variable.
      cases ran
      obtain ended | ended := ended
      · cases ended
      · cases ended
        obtain ⟨b₁, yields, overlaid₁⟩ := reaches nofun
        exact ⟨b₁, Y.ofBind yields (Y.ofPure _), overlaid₁⟩
    | ok =>
      obtain ⟨⟨⟨r₂, e₂, a₂⟩, calls₂⟩, finished, ran⟩ := Option.bind_eq_some_iff.1 ran
      have unnoted := run_of_noted (Comparison.finalize_alike (forgetting_handlers h)
        (forgetting_savers unsaved) rfl) (fun _ _ => Likeness.Runs.eq) finished
      obtain ⟨rfl, onward⟩ := Yielding.finalize_unsaved opened unnoted
      cases ran
      have late : ¬ e₂.Wanting left := supplied _ rfl
      obtain ⟨b₁, yields, overlaid₁⟩ := reaches fun wanting => late (onward wanting)
      obtain ⟨b₂, yields₂, overlaid₂⟩ :=
        Yielding.finalize_reaches H save overlaid₁ _ e₂ a₂ _ _ finished late
      exact ⟨b₂, Y.ofBind yields (Y.ofBind yields₂ (Y.ofPure _)), overlaid₂⟩

end GoingOn

end Agent
end Playbook
