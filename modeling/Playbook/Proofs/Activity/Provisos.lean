import Playbook.Proofs.Activity.Outcomes
import Playbook.Proofs.Execution.Comparison

/- Runs under a proviso, and what can be said of the world after them. How an activity changes the
   world from its beginning to its result is a relation that the others keep to as well; while it is
   under way the relation may be broken. -/
namespace Playbook
namespace Activity
variable {ω ι α β : Type} {others : List ι → ω → ω → Prop}

/-- Something about an activity under way that is told by what comes next. -/
structure Proviso (ω : Type) where
  holds {α : Type} : Underway ω α → Prop
  first {α β : Type} {x : Activity ω α} {f : α → Activity ω β} {t : Nat} {w : ω} :
    holds ⟨x.bind f, t, w⟩ → holds ⟨x, t, w⟩

def Proviso.none : Proviso ω := ⟨fun _ => True, id⟩

/-- A run that has gone on only where the proviso was met. -/
inductive Under (others : List ι → ω → ω → Prop) (C : Proviso ω) :
    Underway ω α → Underway ω α → Prop
  | none (a : Underway ω α) : Under others C a a
  | more {a b c : Underway ω α} {deeds : List ι} (ran : Under others C a b) (met : C.holds b)
    (one : Step others b deeds c) : Under others C a c

variable {C : Proviso ω} {x : Activity ω α} {f : α → Activity ω β} {a : α} {b : β} {t t' : Nat}
  {w w' : ω} {d d' : Underway ω β} {e e' : Underway ω α}

theorem Steps.under {deeds : List ι} (ran : Steps others e deeds e') : Under others .none e e' := by
  induction ran with
  | none => exact .none _
  | more _ one ih => exact .more ih trivial one

theorem Under.steps (ran : Under others C e e') : ∃ deeds, Steps others e deeds e' := by
  induction ran with
  | none => exact ⟨[], .none _⟩
  | more _ _ one ih =>
    obtain ⟨deeds, steps⟩ := ih
    exact ⟨_, .more steps one⟩

theorem Move.of_bind (move : Move ⟨x.bind f, t, w⟩ d) :
    (∃ a, x = .done a) ∨
      ∃ x', d = ⟨x'.bind f, d.time, d.world⟩ ∧ Move ⟨x, t, w⟩ ⟨x', d.time, d.world⟩ := by
  cases x with
  | done a => exact .inl ⟨a, rfl⟩
  | act run next =>
    right
    cases move
    exact ⟨_, rfl, .act run next t w⟩
  | listen signal deadline next =>
    right
    cases move with
    | heard => exact ⟨_, rfl, .heard signal deadline next t w⟩
    | late _ _ _ _ _ past => exact ⟨_, rfl, .late signal deadline next t w past⟩
  | sleepUntil time next =>
    right
    cases move with
    | woken _ _ _ _ past => exact ⟨_, rfl, .woken time next t w past⟩
  | loop state round next =>
    right
    cases move
    refine ⟨(round state).bind (afterRound round next), ?_, .round state round next t w⟩
    rw [bind_assoc, afterRound_bind]

theorem Under.of_bind (ran : Under others C ⟨x.bind f, t, w⟩ d) :
    (∃ x', d.left = x'.bind f ∧ Under others C ⟨x, t, w⟩ ⟨x', d.time, d.world⟩) ∨
      ∃ a t₁ w₁, Under others C ⟨x, t, w⟩ ⟨.done a, t₁, w₁⟩ ∧
        Under others C ⟨f a, t₁, w₁⟩ d := by
  induction ran with
  | none => exact .inl ⟨x, rfl, .none _⟩
  | @more b c _ _ met one ih =>
    rcases ih with ⟨x', left, early⟩ | ⟨a, t₁, w₁, early, late⟩
    · obtain ⟨y, u, v⟩ := b
      obtain rfl : y = x'.bind f := left
      cases one with
      | others done => exact .inl ⟨x', rfl, .more early (C.first met) (.others done)⟩
      | time later => exact .inl ⟨x', rfl, .more early (C.first met) (.time later)⟩
      | own move =>
        rcases move.of_bind with ⟨a, rfl⟩ | ⟨x'', same, move'⟩
        · exact .inr ⟨a, u, v, early, .more (.none _) met (.own move)⟩
        · exact .inl ⟨x'', congrArg (·.left) same, .more early (C.first met) (.own move')⟩
    · exact .inr ⟨a, t₁, w₁, early, .more late met one⟩

theorem Under.bind_done (ran : Under others C ⟨x.bind f, t, w⟩ ⟨.done b, t', w'⟩) :
    ∃ a t₁ w₁, Under others C ⟨x, t, w⟩ ⟨.done a, t₁, w₁⟩ ∧
      Under others C ⟨f a, t₁, w₁⟩ ⟨.done b, t', w'⟩ := by
  rcases ran.of_bind with ⟨x', left, early⟩ | ended
  · cases x' with
    | done a =>
      exact ⟨a, t', w', early, by rw [show Activity.done b = f a from left]; exact .none _⟩
    | _ => cases left
  · exact ended

/-- What all keep to, the others and whoever looks at the whole of it. -/
structure Covers (others : List ι → ω → ω → Prop) (R : ω → ω → Prop) : Prop where
  refl (w : ω) : R w w
  trans {w w' w'' : ω} : R w w' → R w' w'' → R w w''
  others {deeds : List ι} {w w' : ω} : others deeds w w' → R w w'

variable {R : ω → ω → Prop} {φ : α → Prop} {ψ : β → Prop}

theorem Under.keeping (covers : Covers others R) (ran : Under others C e e') (w : ω) :
    Steps (Keeping (R w)) e [] e' := by
  induction ran with
  | none => exact .none _
  | @more b c _ _ _ one ih =>
    have kept : Step (Keeping (R w)) b [] c := by
      cases one with
      | others done => exact .others fun here => covers.trans here (covers.others done)
      | time later => exact .time later
      | own move => exact .own move
    exact .more ih kept

theorem Under.acted {γ : Type} {run : Nat → ω → γ × ω} {next : γ → Activity ω β}
    (covers : Covers others R) (ran : Under others C ⟨.act run next, t, w⟩ ⟨.done b, t', w'⟩) :
    ∃ t₁ w₁, R w w₁ ∧ C.holds ⟨.act run next, t₁, w₁⟩ ∧
      Under others C ⟨next (run t₁ w₁).1, t₁, (run t₁ w₁).2⟩ ⟨.done b, t', w'⟩ := by
  generalize ended : (⟨.done b, t', w'⟩ : Underway ω β) = d at ran
  have all : (d.left = .act run next ∧ R w d.world) ∨
      ∃ t₁ w₁, R w w₁ ∧ C.holds ⟨.act run next, t₁, w₁⟩ ∧
        Under others C ⟨next (run t₁ w₁).1, t₁, (run t₁ w₁).2⟩ d := by
    clear ended
    induction ran with
    | none => exact .inl ⟨rfl, covers.refl _⟩
    | @more b _ _ _ met one ih =>
      rcases ih with ⟨left, before⟩ | ⟨t₁, w₁, before, here, rest⟩
      · obtain ⟨y, u, v⟩ := b
        obtain rfl : y = .act run next := left
        cases one with
        | others done => exact .inl ⟨rfl, covers.trans before (covers.others done)⟩
        | time => exact .inl ⟨rfl, before⟩
        | own move =>
          cases move
          exact .inr ⟨u, v, before, met, .none _⟩
      · exact .inr ⟨t₁, w₁, before, here, .more rest met one⟩
  subst ended
  exact all.resolve_left fun ⟨left, _⟩ => nomatch left

/-- Wherever the activity comes to a result, the result is as wanted and the world has changed as the
    relation has it. -/
structure Leads (others : List ι → ω → ω → Prop) (C : Proviso ω) (R : ω → ω → Prop) (φ : α → Prop)
    (x : Activity ω α) : Prop where
  ends {t : Nat} {w : ω} {a : α} {t' : Nat} {w' : ω}
    (ran : Under others C ⟨x, t, w⟩ ⟨.done a, t', w'⟩) : R w w' ∧ φ a

namespace Leads

theorem weaken {R' : ω → ω → Prop} {φ' : α → Prop} (leads : Leads others C R φ x)
    (wider : ∀ {w w'}, R w w' → R' w w') (weaker : ∀ a, φ a → φ' a) : Leads others C R' φ' x where
  ends ran := ⟨wider (leads.ends ran).1, weaker _ (leads.ends ran).2⟩

variable (covers : Covers others R)
include covers

theorem of_upholds (upholds : ∀ w, Upholds (R w) φ x) : Leads others C R φ x := by
  refine ⟨fun {t w a t' w'} ran => ?_⟩
  obtain ⟨kept, upheld⟩ := Upholds.steps (covers.refl w) (upholds w) (ran.keeping covers w)
  cases upheld with
  | done holds => exact ⟨kept, holds⟩

theorem of_within (within : Within R x) : Leads others C R (fun _ => True) x :=
  of_upholds covers fun _ => (within.weaken fun _ _ allowed here => covers.trans here allowed).upholds

theorem done (holds : φ a) : Leads others C R φ (.done a) :=
  of_upholds covers fun _ => .done holds

theorem bind (first : Leads others C R φ x) (second : ∀ a, φ a → Leads others C R ψ (f a)) :
    Leads others C R ψ (x.bind f) where
  ends ran := by
    obtain ⟨a, t₁, w₁, early, late⟩ := ran.bind_done
    obtain ⟨before, holds⟩ := first.ends early
    obtain ⟨after, wanted⟩ := (second a holds).ends late
    exact ⟨covers.trans before after, wanted⟩

theorem bind_within (within : Within R x) (second : ∀ a, Leads others C R ψ (f a)) :
    Leads others C R ψ (x.bind f) :=
  bind covers (of_within covers within) fun a _ => second a

end Leads

theorem Under.done {a' : α} (covers : Covers others R)
    (ran : Under others C ⟨.done a, t, w⟩ ⟨.done a', t', w'⟩) : R w w' ∧ a = a' :=
  have leads : Leads others C R (a = ·) (.done a) := .done covers rfl
  leads.ends ran

/-- What programs do, told by what it leads to. -/
def leading (C : Proviso ω) (covers : Covers others R) :
    Script.Comparison (Activity ω) (Activity ω) where
  rel φ x _ := Leads others C R (fun a => ∃ b, φ a b) x
  ofPure alike := .done covers ⟨_, alike⟩
  ofBind first next := .bind covers first fun a ⟨b, alike⟩ => next a b alike

def Underway.next (e : Underway ω α) : Underway ω α :=
  match e.left with
  | .done _ => e
  | .act run next => ⟨next (run e.time e.world).1, e.time, (run e.time e.world).2⟩
  | .listen _ deadline next =>
    if deadline ≤ e.time then ⟨next false, e.time, e.world⟩ else { e with time := deadline }
  | .sleepUntil time next =>
    if time ≤ e.time then ⟨next (), e.time, e.world⟩ else { e with time }
  | .loop state round next => ⟨(round state).bind (afterRound round next), e.time, e.world⟩

def Underway.after : Nat → Underway ω α → Underway ω α
  | 0, e => e
  | k + 1, e => (e.after k).next

def Underway.result? (e : Underway ω α) : Option α :=
  match e.left with
  | .done a => some a
  | _ => none

theorem Underway.eq_of_result (found : e.result? = some a) : e = ⟨.done a, e.time, e.world⟩ := by
  obtain ⟨x, t, w⟩ := e
  cases x with
  | done a =>
    cases found
    rfl
  | _ => cases found

theorem step_next (others : List ι → ω → ω → Prop) (e : Underway ω α) :
    e.next = e ∨ Step others e [] e.next := by
  obtain ⟨x, t, w⟩ := e
  cases x with
  | done a => exact .inl rfl
  | act run next => exact .inr (.own (.act run next t w))
  | listen signal deadline next =>
    right
    unfold Underway.next
    dsimp only
    split
    · rename_i past
      exact .own (.late signal deadline next t w past)
    · rename_i early
      exact .time (Nat.le_of_not_le early)
  | sleepUntil time next =>
    right
    unfold Underway.next
    dsimp only
    split
    · rename_i past
      exact .own (.woken time next t w past)
    · rename_i early
      exact .time (Nat.le_of_not_le early)
  | loop state round next => exact .inr (.own (.round state round next t w))

theorem under_after (others : List ι → ω → ω → Prop) (k : Nat) (met : ∀ i < k, C.holds (e.after i)) :
    Under others C e (e.after k) := by
  induction k with
  | zero => exact .none e
  | succ k ih =>
    have ran := ih fun i early => met i (Nat.lt_succ_of_lt early)
    rcases step_next others (e.after k) with same | step
    · rw [Underway.after, same]
      exact ran
    · exact .more ran (met k (Nat.lt_succ_self k)) step

end Activity
end Playbook
