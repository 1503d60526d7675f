import Playbook.Proofs.Parser.Nesting

/- What a parser that succeeds depends on. It takes some tokens from the front and reads the same
   from the same tokens on any lines, with anything after them that does not hold on to what it has
   read, and at any depth that is enough for those tokens. -/
namespace Playbook.Script
variable {α β : Type}

def tokensOf (ts : List Lexeme) : List Token := ts.map Lexeme.token

@[simp] theorem tokensOf_nil : tokensOf [] = [] := rfl

@[simp] theorem tokensOf_cons (t : Lexeme) (ts : List Lexeme) :
    tokensOf (t :: ts) = t.token :: tokensOf ts := rfl

@[simp] theorem tokensOf_append (ts us : List Lexeme) :
    tokensOf (ts ++ us) = tokensOf ts ++ tokensOf us := List.map_append

theorem tokensOf_eq_append {ts : List Lexeme} {us vs : List Token}
    (same : tokensOf ts = us ++ vs) :
    ∃ first second, ts = first ++ second ∧ tokensOf first = us ∧ tokensOf second = vs :=
  List.map_eq_append_iff.1 same

theorem tokensOf_eq_cons {ts : List Lexeme} {t : Token} {us : List Token}
    (same : tokensOf ts = t :: us) : ∃ line rest, ts = ⟨t, line⟩ :: rest ∧ tokensOf rest = us := by
  obtain ⟨⟨token, line⟩, rest, rfl, rfl, rfl⟩ := List.map_eq_cons_iff.1 same
  exact ⟨line, rest, rfl, rfl⟩

theorem tokensOf_eq_singleton {ts : List Lexeme} {t : Token} (same : tokensOf ts = [t]) :
    ∃ line, ts = [⟨t, line⟩] := by
  obtain ⟨line, rest, rfl, nothing⟩ := tokensOf_eq_cons same
  exact ⟨line, by rw [List.map_eq_nil_iff.1 nothing]⟩

def Starts (P : Token → Prop) (ts : List Lexeme) : Prop := ∀ t ∈ ts.head?, P t.token

theorem starts_cons {P : Token → Prop} {t : Lexeme} {ts : List Lexeme} (first : P t.token) :
    Starts P (t :: ts) := by
  intro u mem
  cases mem
  exact first

theorem Starts.append {P : Token → Prop} {ts us : List Lexeme} (first : Starts P ts)
    (second : Starts P us) : Starts P (ts ++ us) := by
  cases ts with
  | nil => exact second
  | cons t ts => exact starts_cons (first t rfl)

structure IsExpr (ts : List Token) : Prop where
  closed : Closed ts
  cost : 16 ≤ cost ts

/-- Tokens that prolong an expression, by an operator of a grip or not at all. -/
structure IsTail (k : Nat) (ts : List Token) : Prop where
  closed : Closed ts
  first : ∀ t ∈ ts.head?, t.grip = k

theorem IsExpr.ne_nil {ts : List Token} (expr : IsExpr ts) : ts ≠ [] := by
  rintro rfl
  exact absurd expr.cost (by simp)

theorem IsTail.nil (k : Nat) : IsTail k [] := ⟨.nil, by simp⟩

theorem IsTail.starts {k : Nat} {ts : List Lexeme} (tail : IsTail k (tokensOf ts)) :
    Starts (·.grip < k + 1) ts := by
  cases ts with
  | nil => intro t mem; cases mem
  | cons t ts => exact starts_cons (Nat.lt_succ_of_le (Nat.le_of_eq (tail.first t.token rfl)))

abbrev Reader (α : Type) := Nat → List Lexeme → Reading (α × List Lexeme)

/-- What a parser takes from some tokens at some depth, and that it takes the same elsewhere. -/
def ReadsAt (shape : List Token → Prop) (stops : List Lexeme → Prop) (k : Nat) (F : Reader α)
    (n : Nat) (ts : List Lexeme) : Prop :=
  ∀ x rest, F n ts = .ok (x, rest) → ∃ taken, ts = taken ++ rest ∧ shape (tokensOf taken) ∧
    ∀ m again more, tokensOf again = tokensOf taken → stops more →
      cost (tokensOf taken) + k ≤ m → F m (again ++ more) = .ok (x, more)

def Reads (shape : List Token → Prop) (stops : List Lexeme → Prop) (k : Nat) (F : Reader α)
    (n : Nat) : Prop := ∀ ts, ReadsAt shape stops k F n ts

theorem ok_of_bind {ε : Type} {x : Except ε α} {f : α → Except ε β} {b : β}
    (ok : x >>= f = .ok b) : ∃ a, x = .ok a ∧ f a = .ok b := by
  cases x with
  | error e => cases ok
  | ok a => exact ⟨a, rfl, ok⟩

namespace Reads
variable {shape : List Token → Prop} {stops : List Lexeme → Prop} {k n : Nat}

theorem deeper {F H : Reader α} (reads : Reads shape stops k H n)
    (same : ∀ m ts, F (m + 1) ts = H m ts) : Reads shape stops (k + 1) F (n + 1) := by
  intro ts x rest ok
  rw [same] at ok
  obtain ⟨taken, split, shaped, elsewhere⟩ := reads ts x rest ok
  refine ⟨taken, split, shaped, fun m again more tokens stop depth => ?_⟩
  obtain ⟨m, rfl⟩ : ∃ j, m = j + 1 := ⟨m - 1, by omega⟩
  rw [same]
  exact elsewhere m again more tokens stop (by omega)

/-- One parser after another. What the second takes must not hold on to what the first has read. -/
theorem andThen {A B C : List Token → Prop} {S₁ S₂ : List Lexeme → Prop} {k₁ k₂ : Nat}
    {F : Reader α} {G : α → Reader β} (first : Reads A S₁ k₁ F n)
    (next : ∀ x, Reads B S₂ k₂ (G x) n)
    (join : ∀ a b, A a → B b → C (a ++ b) ∧ k₁ ≤ cost b + k ∧ k₂ ≤ cost a + k)
    (follows : ∀ ts more, B (tokensOf ts) → S₂ more → S₁ (ts ++ more)) :
    Reads C S₂ k (fun m ts => F m ts >>= fun r => G r.1 m r.2) n := by
  intro ts y rest ok
  obtain ⟨⟨x, mid⟩, ok₁, ok₂⟩ := ok_of_bind ok
  obtain ⟨a, rfl, shapeA, elsewhere₁⟩ := first ts x mid ok₁
  obtain ⟨b, rfl, shapeB, elsewhere₂⟩ := next x mid y rest ok₂
  obtain ⟨shapeC, enough₁, enough₂⟩ := join _ _ shapeA shapeB
  refine ⟨a ++ b, by rw [List.append_assoc], by rwa [tokensOf_append], ?_⟩
  intro m again more tokens stop depth
  rw [tokensOf_append] at tokens
  rw [tokensOf_append, cost_append] at depth
  -- The first parser stops where it did, since the second one's tokens do not hold on to it.
  obtain ⟨a', b', rfl, sameA, sameB⟩ := tokensOf_eq_append tokens
  have ok₁' := elsewhere₁ m a' (b' ++ more) sameA (follows b' more (sameB ▸ shapeB) stop) (by omega)
  have ok₂' := elsewhere₂ m b' more sameB stop (by omega)
  simp only [List.append_assoc, ok₁']
  exact ok₂'

theorem prolonged {g j : Nat} {G : Reader α} {T : α → Reader α}
    (first : Reads IsExpr (Starts (·.grip < g + 1)) k G n)
    (next : ∀ x, Reads (IsTail g) (Starts (·.grip < g)) j (T x) n) (small : j ≤ 16 + k) :
    Reads IsExpr (Starts (·.grip < g)) k (fun m ts => G m ts >>= fun r => T r.1 m r.2) n := by
  refine andThen first next (fun a b expr tail => ⟨⟨?_, ?_⟩, Nat.le_add_left _ _, ?_⟩) ?_
  · exact expr.closed.append tail.closed
  · rw [cost_append]
    exact Nat.le_trans expr.cost (Nat.le_add_right _ _)
  · have := expr.cost
    omega
  · intro ts more tail stop
    exact Starts.append tail.starts fun t mem => Nat.lt_succ_of_lt (stop t mem)

theorem map {F : Reader α} (reads : Reads shape stops k F n) (f : α → β) :
    Reads shape stops k (fun m ts => F m ts >>= fun r => .ok (f r.1, r.2)) n := by
  intro ts y rest ok
  obtain ⟨⟨x, mid⟩, ok₁, ok₂⟩ := ok_of_bind ok
  cases ok₂
  obtain ⟨taken, split, shaped, elsewhere⟩ := reads ts x mid ok₁
  refine ⟨taken, split, shaped, fun m again more tokens stop depth => ?_⟩
  simp only [elsewhere m again more tokens stop depth]
  rfl

theorem at_zero {F : Reader α} (stuck : ∀ ts x rest, F 0 ts ≠ .ok (x, rest)) :
    Reads shape stops k F 0 :=
  fun ts x rest ok => absurd ok (stuck ts x rest)

theorem weaken {shape' : List Token → Prop} {stops' : List Lexeme → Prop} {k' : Nat} {F : Reader α}
    (reads : Reads shape stops k F n) (wider : ∀ ts, shape ts → shape' ts)
    (fewer : ∀ ts, stops' ts → stops ts) (enough : k ≤ k') : Reads shape' stops' k' F n := by
  intro ts x rest ok
  obtain ⟨taken, split, shaped, elsewhere⟩ := reads ts x rest ok
  refine ⟨taken, split, wider _ shaped, fun m again more tokens stop depth => ?_⟩
  exact elsewhere m again more tokens (fewer _ stop) (by omega)

end Reads

structure Operators {γ : Type} (g : Nat) (op? : List Lexeme → Option (γ × List Lexeme)) : Prop where
  found : ∀ ts x rest, op? ts = some (x, rest) → ∃ taken, ts = taken ++ rest ∧
    Closed (tokensOf taken) ∧ 16 ≤ cost (tokensOf taken) ∧
    (∀ t ∈ (tokensOf taken).head?, t.grip = g) ∧
    ∀ again more, tokensOf again = tokensOf taken → op? (again ++ more) = some (x, more)
  absent : ∀ ts, Starts (·.grip < g) ts → op? ts = none

namespace Reads
variable {k n : Nat}

theorem tail {γ : Type} {g : Nat} {op? : List Lexeme → Option (γ × List Lexeme)}
    (operators : Operators g op?) {G : Reader α} (F : α → Reader α) (make : γ → α → α → α)
    (same : ∀ m left ts, F left (m + 1) ts = match op? ts with
      | some (op, ts) => G m ts >>= fun r => F (make op left r.1) m r.2
      | none => .ok (left, ts))
    (operands : Reads IsExpr (Starts (·.grip < g + 1)) k G n) (small : k ≤ 16)
    (itself : ∀ left, Reads (IsTail g) (Starts (·.grip < g)) 1 (F left) n) (left : α) :
    Reads (IsTail g) (Starts (·.grip < g)) 1 (F left) (n + 1) := by
  intro ts x rest ok
  rw [same] at ok
  cases found : op? ts with
  | none =>
    rw [found] at ok
    cases ok
    refine ⟨[], rfl, .nil g, fun m again more tokens stop depth => ?_⟩
    obtain ⟨m, rfl⟩ : ∃ j, m = j + 1 := ⟨m - 1, by omega⟩
    have empty : again = [] := List.map_eq_nil_iff.1 tokens
    rw [empty, List.nil_append, same, operators.absent more stop]
  | some r =>
    obtain ⟨op, after⟩ := r
    rw [found] at ok
    -- An operand and all that follows it are again an expression with its tail.
    have prolonged := operands.prolonged (fun right => itself (make op left right)) (by omega)
    obtain ⟨o, rfl, closed, weight, first, again?⟩ := operators.found ts op after found
    obtain ⟨a, rfl, expr, elsewhere⟩ := prolonged after x rest ok
    refine ⟨o ++ a, by rw [List.append_assoc], ⟨?_, ?_⟩, ?_⟩
    · rw [tokensOf_append]
      exact closed.append expr.closed
    · rw [tokensOf_append]
      cases tokens : tokensOf o with
      | nil => simp [tokens] at weight
      | cons t more =>
        rw [tokens] at first
        exact first
    · intro m again more tokens stop depth
      rw [tokensOf_append] at tokens
      rw [tokensOf_append, cost_append] at depth
      obtain ⟨o', a', rfl, sameO, sameA⟩ := tokensOf_eq_append tokens
      obtain ⟨m, rfl⟩ : ∃ j, m = j + 1 := ⟨m - 1, by omega⟩
      rw [same, List.append_assoc, again? o' (a' ++ more) sameO]
      exact elsewhere m a' more sameA stop (by omega)

theorem token {A C : List Token → Prop} {stops : List Lexeme → Prop} {k₁ : Nat}
    {F G : Reader α} {token : Token} {line : Nat} {ts : List Lexeme}
    (same : ∀ m line ts r, F m (⟨token, line⟩ :: ts) = .ok r ↔ G m ts = .ok r)
    (reads : Reads A stops k₁ G n) (shape : ∀ ts, A ts → C (token :: ts))
    (enough : k₁ ≤ token.cost + k) : ReadsAt C stops k F n (⟨token, line⟩ :: ts) := by
  intro x rest ok
  obtain ⟨a, rfl, shaped, elsewhere⟩ := reads ts x rest ((same n line ts _).1 ok)
  refine ⟨⟨token, line⟩ :: a, rfl, shape _ shaped, fun m again more tokens stop depth => ?_⟩
  rw [tokensOf_cons, cost_cons] at depth
  obtain ⟨line', a', rfl, sameA⟩ := tokensOf_eq_cons tokens
  refine (same m line' (a' ++ more) _).2 (elsewhere m a' more sameA stop ?_)
  simp only at depth
  omega

theorem other {A C : List Token → Prop} {stops : List Lexeme → Prop} {P : Token → Prop}
    {F H : Reader α} {t : Lexeme} {ts : List Lexeme}
    (same : ∀ m t ts, P t.token → F m (t :: ts) = H m (t :: ts)) (reads : Reads A stops k H n)
    (nonempty : ∀ ts, A ts → ts ≠ []) (shape : ∀ t ts, A (t :: ts) → P t → C (t :: ts))
    (first : P t.token) : ReadsAt C stops k F n (t :: ts) := by
  intro x rest ok
  rw [same n t ts first] at ok
  obtain ⟨a, split, shaped, elsewhere⟩ := reads _ x rest ok
  cases a with
  | nil => exact absurd rfl (nonempty _ shaped)
  | cons u a =>
    obtain ⟨rfl, rfl⟩ := List.cons.inj split
    refine ⟨t :: a, rfl, shape _ _ shaped first, fun m again more tokens stop depth => ?_⟩
    have ran := elsewhere m again more tokens stop depth
    obtain ⟨line, a', rfl, -⟩ := tokensOf_eq_cons tokens
    rw [List.cons_append, same m ⟨t.token, line⟩ _ first]
    exact ran

theorem choice {A B C : List Token → Prop} {stops : List Lexeme → Prop} {k₁ k₂ : Nat}
    {F G H : Reader α} (token : Token)
    (here : ∀ m line ts, F m (⟨token, line⟩ :: ts) = G m ts)
    (there : ∀ m ts, Starts (· ≠ token) ts → F m ts = H m ts)
    (first : Reads A stops k₁ G n) (second : Reads B stops k₂ H n)
    (shapeA : ∀ ts, A ts → C (token :: ts)) (shapeB : ∀ ts, B ts → C ts ∧ ts ≠ [])
    (enough₁ : k₁ ≤ token.cost + k) (enough₂ : k₂ ≤ k) : Reads C stops k F n := by
  intro ts x rest ok
  by_cases front : ∃ line more, ts = ⟨token, line⟩ :: more
  · obtain ⟨line, after, rfl⟩ := front
    exact Reads.token (fun m line ts r => by rw [here]) first shapeA enough₁ x rest ok
  · cases ts with
    | nil =>
      rw [there n [] fun t mem => by cases mem] at ok
      obtain ⟨a, split, shaped, -⟩ := second [] x rest ok
      rw [(List.append_eq_nil_iff.1 split.symm).1] at shaped
      exact absurd rfl (shapeB _ shaped).2
    | cons t ts =>
      have first : t.token ≠ token := fun same => front ⟨t.line, ts, by rw [← same]⟩
      refine Reads.other (P := (· ≠ token)) (fun m t ts first => there m _ (starts_cons first))
        (second.weaken (fun ts shaped => shapeB ts shaped) (fun _ => id) enough₂)
        (fun ts shaped => shaped.2) (fun t ts shaped _ => shaped.1) first x rest ok

theorem prefixed {g : Nat} (token : Token) (plain : token.Plain) (weight : token.cost = 16)
    {F G : Reader α} (make : α → α)
    (again : ∀ m line ts, F (m + 1) (⟨token, line⟩ :: ts) = F m ts >>= fun r =>
      .ok (make r.1, r.2))
    (other : ∀ m ts, Starts (· ≠ token) ts → F (m + 1) ts = G m ts)
    (operand : Reads IsExpr (Starts (·.grip < g)) k G n)
    (itself : Reads IsExpr (Starts (·.grip < g)) (k + 1) F n) :
    Reads IsExpr (Starts (·.grip < g)) (k + 1) F (n + 1) := by
  refine deeper (H := fun m => F (m + 1)) ?_ fun m ts => rfl
  refine choice token again other (itself.map make) operand (fun ts expr => ⟨?_, ?_⟩)
    (fun ts expr => ⟨expr, expr.ne_nil⟩) (by omega) (Nat.le_refl k)
  · exact plain.closed.append expr.closed
  · rw [cost_cons, weight]
    exact Nat.le_add_right _ _

theorem done {stops : List Lexeme → Prop} (x : α) :
    Reads (· = []) stops 0 (fun _ ts => .ok (x, ts)) n := by
  intro ts y rest ok
  cases ok
  refine ⟨[], rfl, rfl, fun m again more tokens stop depth => ?_⟩
  rw [List.map_eq_nil_iff.1 tokens, List.nil_append]

end Reads

structure Expects (token : Token) (f : List Lexeme → Reading (List Lexeme)) : Prop where
  found : ∀ ts rest, f ts = .ok rest → ∃ line, ts = ⟨token, line⟩ :: rest
  passed : ∀ line rest, f (⟨token, line⟩ :: rest) = .ok rest

theorem Reads.expecting {shape : List Token → Prop} {stops : List Lexeme → Prop} {k n : Nat}
    {token : Token} {f : List Lexeme → Reading (List Lexeme)} (expects : Expects token f)
    {F : Reader α} (reads : Reads shape stops k F n) :
    Reads (fun ts => ∃ us, ts = token :: us ∧ shape us) stops k (fun m ts => f ts >>= F m) n := by
  intro ts x rest ok
  obtain ⟨after, ok₁, ok₂⟩ := ok_of_bind ok
  obtain ⟨line, rfl⟩ := expects.found ts after ok₁
  obtain ⟨a, rfl, shaped, elsewhere⟩ := reads after x rest ok₂
  refine ⟨⟨token, line⟩ :: a, rfl, ⟨_, rfl, shaped⟩, fun m again more tokens stop depth => ?_⟩
  rw [tokensOf_cons, cost_cons] at depth
  obtain ⟨line', a', rfl, sameA⟩ := tokensOf_eq_cons tokens
  simp only [List.cons_append, expects.passed]
  exact elsewhere m a' more sameA stop (by omega)

def IsGap (ts : List Token) : Prop := ∀ t ∈ ts, t = .newline

theorem IsGap.nil : IsGap [] := fun _ mem => absurd mem List.not_mem_nil

theorem IsGap.cons {ts : List Token} (gap : IsGap ts) : IsGap (.newline :: ts) :=
  List.forall_mem_cons.2 ⟨rfl, gap⟩

theorem IsGap.inside {ts : List Token} (gap : IsGap ts) : ClosedInside ts := by
  induction ts with
  | nil => exact Closed.nil.inside
  | cons t ts ih =>
    obtain ⟨rfl, rest⟩ := List.forall_mem_cons.1 gap
    exact closedInside_newline.append (ih rest)

theorem skipNewlines_of_starts {ts : List Lexeme} (starts : Starts (· ≠ .newline) ts) :
    skipNewlines ts = ts := by
  match ts with
  | [] => rfl
  | ⟨t, line⟩ :: more =>
    have other : t ≠ .newline := starts ⟨t, line⟩ rfl
    unfold skipNewlines
    split
    · rename_i same
      cases same
      exact absurd rfl other
    · rfl

theorem skipNewlines_split (ts : List Lexeme) : ∃ gap, ts = gap ++ skipNewlines ts ∧
    IsGap (tokensOf gap) ∧ Starts (· ≠ .newline) (skipNewlines ts) := by
  induction ts with
  | nil => exact ⟨[], rfl, .nil, fun t mem => absurd mem (by simp [skipNewlines])⟩
  | cons t ts ih =>
    obtain ⟨token, line⟩ := t
    by_cases separator : token = .newline
    · subst separator
      obtain ⟨gap, split, newlines, starts⟩ := ih
      refine ⟨⟨.newline, line⟩ :: gap, ?_, newlines.cons, starts⟩
      rw [skipNewlines, List.cons_append, ← split]
    · have starts : Starts (· ≠ .newline) (⟨token, line⟩ :: ts) := starts_cons separator
      rw [skipNewlines_of_starts starts]
      exact ⟨[], rfl, .nil, starts⟩

theorem skipNewlines_append {gap : List Lexeme} (newlines : IsGap (tokensOf gap))
    (ts : List Lexeme) : skipNewlines (gap ++ ts) = skipNewlines ts := by
  induction gap with
  | nil => rfl
  | cons t gap ih =>
    obtain ⟨token, line⟩ := t
    obtain ⟨same, rest⟩ := List.forall_mem_cons.1 newlines
    simp only at same
    subst same
    exact ih rest

theorem starts_of_skipNewlines {P : Token → Prop} (separator : P .newline) {ts : List Lexeme}
    (starts : Starts P (skipNewlines ts)) : Starts P ts := by
  obtain ⟨gap, split, newlines, -⟩ := skipNewlines_split ts
  rw [split]
  cases gap with
  | nil => exact starts
  | cons t gap =>
    obtain ⟨same, -⟩ := List.forall_mem_cons.1 newlines
    exact starts_cons (same ▸ separator)

/-- The tokens start with something other than a separator. -/
def Visible (ts : List Token) : Prop := ∃ t us, ts = t :: us ∧ t ≠ .newline

theorem IsExpr.visible {ts : List Token} (expr : IsExpr ts) : Visible ts := by
  cases ts with
  | nil => exact absurd rfl expr.ne_nil
  | cons t us =>
    refine ⟨t, us, rfl, ?_⟩
    rintro rfl
    exact absurd (expr.closed (0, 0)) (by simp [walk?_cons, Token.nest?])

theorem Reads.skipping {A B : List Token → Prop} {stops : List Lexeme → Prop} {k n : Nat}
    {F : Reader α} (reads : Reads A stops k F n)
    (shaped : ∀ gap ts, IsGap gap → A ts → B (gap ++ ts)) (visible : ∀ ts, A ts → Visible ts) :
    Reads B stops k (fun m ts => F m (skipNewlines ts)) n := by
  intro ts x rest ok
  obtain ⟨gap, split, newlines, -⟩ := skipNewlines_split ts
  obtain ⟨a, split', shapeA, elsewhere⟩ := reads _ x rest ok
  refine ⟨gap ++ a, by rw [List.append_assoc, ← split']; exact split, ?_, ?_⟩
  · rw [tokensOf_append]
    exact shaped _ _ newlines shapeA
  · intro m again more tokens stop depth
    rw [tokensOf_append] at tokens
    rw [tokensOf_append, cost_append] at depth
    obtain ⟨gap', a', rfl, sameGap, sameA⟩ := tokensOf_eq_append tokens
    obtain ⟨t, us, front, other⟩ := visible _ shapeA
    obtain ⟨line, a'', rfl, -⟩ := tokensOf_eq_cons (sameA.trans front)
    have starts : Starts (· ≠ .newline) ((⟨t, line⟩ :: a'') ++ more) := starts_cons other
    simp only [List.append_assoc]
    rw [skipNewlines_append (sameGap ▸ newlines), skipNewlines_of_starts starts]
    exact elsewhere m _ more sameA stop (by omega)

end Playbook.Script
