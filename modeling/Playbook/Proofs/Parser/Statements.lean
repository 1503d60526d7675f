import Playbook.Proofs.Parser.Expressions

/- Statements take balanced tokens too, but for the separators between a branch and the next. What
   follows a statement ends it, and is no further branch. -/
namespace Playbook.Script

def Token.isBranch : Token → Bool
  | .elif | .else_ => true
  | _ => false

def goesOn : List Token → Bool
  | [] => false
  | .newline :: ts => goesOn ts
  | t :: _ => t.isBranch

theorem goesOn_cons {t : Token} (visible : t ≠ .newline) (ts : List Token) :
    goesOn (t :: ts) = t.isBranch := by
  unfold goesOn
  split
  · rename_i none
    cases none
  · rename_i same
    cases same
    exact absurd rfl visible
  · rename_i same
    cases same
    rfl

theorem goesOn_gap {gap : List Token} (newlines : IsGap gap) (ts : List Token) :
    goesOn (gap ++ ts) = goesOn ts := by
  induction gap with
  | nil => rfl
  | cons t gap ih =>
    obtain ⟨rfl, rest⟩ := List.forall_mem_cons.1 newlines
    exact ih rest

theorem goesOn_append {ts : List Token} (code : ∃ t ∈ ts, t ≠ .newline) (us : List Token) :
    goesOn (ts ++ us) = goesOn ts := by
  induction ts with
  | nil => simp at code
  | cons t ts ih =>
    by_cases separator : t = .newline
    · subst separator
      apply ih
      obtain ⟨u, mem, other⟩ := code
      rcases List.mem_cons.1 mem with same | later
      · exact absurd same other
      · exact ⟨u, later, other⟩
    · rw [List.cons_append, goesOn_cons separator, goesOn_cons separator]

theorem goesOn_skipNewlines (ts : List Lexeme) :
    goesOn (tokensOf (skipNewlines ts)) = goesOn (tokensOf ts) := by
  obtain ⟨gap, split, newlines, -⟩ := skipNewlines_split ts
  conv => rhs; rw [split]
  rw [tokensOf_append, goesOn_gap newlines]

structure Stops (ts : List Lexeme) : Prop where
  first : Starts (fun t => t = .newline ∨ t = .rbrace ∨ t = .eof) ts
  last : goesOn (tokensOf ts) = false

theorem Stops.loose {ts : List Lexeme} (stops : Stops ts) : Starts (·.grip < 1) ts := by
  intro t mem
  rcases stops.first t mem with same | same | same <;> simp [same, Token.grip]

theorem Stops.assignOp? {ts : List Lexeme} (stops : Stops ts) : assignOp? ts = none := by
  unfold Script.assignOp?
  split
  case h_4 => rfl
  all_goals
    rcases stops.first _ rfl with same | same | same <;> cases same

structure IsGroup (ts : List Token) : Prop where
  closed : Closed ts
  cost : 16 ≤ cost ts
  last : ts.getLast? = some .rbrace

inductive Branches : List Token → Prop where
  | nil : Branches []
  | cons {gap group more : List Token} {t : Token} (newlines : IsGap gap)
    (branch : t.isBranch = true) (grouped : IsGroup group) (further : Branches more) :
    Branches (gap ++ (t :: group ++ more))

inductive IsStatement : List Token → Prop where
  | simple {ts : List Token} (expr : IsExpr ts) (first : goesOn ts = false) : IsStatement ts
  | branch {group more : List Token} (grouped : IsGroup group) (further : Branches more) :
    IsStatement (.if_ :: (group ++ more))

structure IsBody (ts : List Token) : Prop where
  ends : Ends inBrace ts
  first : goesOn ts = false
  last : ts.getLast? = some .rbrace

theorem Token.plain_of_isBranch {t : Token} (branch : t.isBranch = true) :
    t.Plain ∧ t.cost = 16 ∧ t.grip = 0 ∧ t ≠ .newline := by
  cases t with
  | elif | else_ => exact ⟨fun _ => rfl, rfl, rfl, Token.noConfusion⟩
  | _ => cases branch

theorem Branches.inside {ts : List Token} (branches : Branches ts) : ClosedInside ts := by
  induction branches with
  | nil => exact Closed.nil.inside
  | cons newlines branch grouped _ ih =>
    have plain := (Token.plain_of_isBranch branch).1
    exact newlines.inside.append ((plain.closed.append grouped.closed).inside.append ih)

theorem IsStatement.inside {ts : List Token} (statement : IsStatement ts) : ClosedInside ts := by
  cases statement with
  | simple expr _ => exact expr.closed.inside
  | branch grouped further =>
    have opener : Closed [.if_] := fun _ => rfl
    exact (opener.append grouped.closed).inside.append further.inside

theorem IsStatement.cost {ts : List Token} (statement : IsStatement ts) : 16 ≤ cost ts := by
  cases statement with
  | simple expr _ => exact expr.cost
  | branch => simp [Token.cost]

theorem IsStatement.visible {ts : List Token} (statement : IsStatement ts) : Visible ts := by
  cases statement with
  | simple expr _ => exact expr.visible
  | branch => exact ⟨_, _, rfl, Token.noConfusion⟩

theorem IsStatement.first {ts : List Token} (statement : IsStatement ts) : goesOn ts = false := by
  cases statement with
  | simple _ first => exact first
  | branch => rfl

theorem Visible.code {ts : List Token} (visible : Visible ts) : ∃ t ∈ ts, t ≠ .newline := by
  obtain ⟨t, us, rfl, other⟩ := visible
  exact ⟨t, List.mem_cons_self, other⟩

theorem IsBody.code {ts : List Token} (body : IsBody ts) : ∃ t ∈ ts, t ≠ .newline :=
  ⟨.rbrace, List.mem_of_getLast? body.last, Token.noConfusion⟩

theorem IsBody.brace {ts : List Token} (body : IsBody ts) : IsGroup (.lbrace :: ts) := by
  refine ⟨body.ends.closes.brace, by simp [Token.cost], ?_⟩
  rw [List.getLast?_cons, body.last]
  rfl

theorem IsExpr.group {ts us : List Token} (expr : IsExpr ts) (group : IsGroup us) :
    IsGroup (ts ++ us) := by
  refine ⟨expr.closed.append group.closed, ?_, ?_⟩
  · rw [cost_append]
    exact Nat.le_trans expr.cost (Nat.le_add_right _ _)
  · rw [List.getLast?_append, group.last]
    rfl

theorem IsGap.body {gap ts : List Token} (newlines : IsGap gap) (body : IsBody ts) :
    IsBody (gap ++ ts) := by
  refine ⟨newlines.ends bracket_rbrace.inside body.ends, ?_, ?_⟩
  · rw [goesOn_gap newlines, body.first]
  · rw [List.getLast?_append, body.last]
    rfl

theorem IsStatement.body {ts us : List Token} (statement : IsStatement ts) (body : IsBody us) :
    IsBody (ts ++ us) := by
  refine ⟨IsInner.ends bracket_rbrace.inside ⟨statement.inside, statement.cost⟩ body.ends, ?_, ?_⟩
  · rw [goesOn_append statement.visible.code, statement.first]
  · rw [List.getLast?_append, body.last]
    rfl

def assigning (e : Expr) : Reader Stmt := fun m ts =>
  match assignOp? ts with
  | none => .ok (.expr e, ts)
  | some (op, ts) =>
    match Target.ofExpr? e with
    | none => .error ⟨1, .notAssignable⟩
    | some target => disjunction m false ts >>= fun r => .ok (.assign target op r.1, r.2)

theorem simpleStatement_iff (n : Nat) (ts : List Lexeme) (r : Stmt × List Lexeme) :
    simpleStatement n ts = .ok r ↔
      (disjunction n false ts >>= fun r => assigning r.1 n r.2) = .ok r := by
  unfold simpleStatement
  cases disjunction n false ts with
  | error e => rfl
  | ok first =>
    obtain ⟨e, rest⟩ := first
    simp only [bind, Except.bind, assigning]
    cases assignOp? rest with
    | none => rfl
    | some found =>
      cases Target.ofExpr? e with
      | none =>
        constructor
        · intro ok
          cases ok
        · intro ok
          cases ok
      | some target => rfl

theorem reads_assignment {n : Nat} {t : Token} (plain : t.Plain) (weight : t.cost = 16)
    (loose : t.grip = 0) {op : AssignOp}
    (found : ∀ line ts, assignOp? (⟨t, line⟩ :: ts) = some (op, ts)) (e : Expr) (line : Nat)
    (ts : List Lexeme) : ReadsAt (IsTail 0) Stops 0 (assigning e) n (⟨t, line⟩ :: ts) := by
  cases target : Target.ofExpr? e with
  | none =>
    intro x rest ok
    simp only [assigning, found, target] at ok
    cases ok
  | some goal =>
    have value := (expressionsRead n).disjunction false |>.map (Stmt.assign goal op)
      |>.weaken (fun _ => id) (fun _ => Stops.loose) (Nat.le_refl 11)
    refine Reads.token (fun m line ts r => ?_) value (fun ts expr => ⟨?_, ?_⟩) (by omega)
    · simp only [assigning, found, target]
    · exact plain.closed.append expr.closed
    · intro u mem
      cases mem
      exact loose

theorem reads_assigning (n : Nat) (e : Expr) : Reads (IsTail 0) Stops 0 (assigning e) n := by
  have alone {ts : List Lexeme} (none : assignOp? ts = none) :
      ReadsAt (IsTail 0) Stops 0 (assigning e) n ts := by
    intro x rest ok
    simp only [assigning, none] at ok
    cases ok
    refine ⟨[], rfl, .nil 0, fun m again more tokens stop _ => ?_⟩
    rw [List.map_eq_nil_iff.1 tokens, List.nil_append]
    simp only [assigning, stop.assignOp?]
  intro ts
  match ts with
  | [] => exact alone rfl
  | ⟨t, line⟩ :: ts =>
    cases t with
    | assign | plusAssign | minusAssign =>
      exact reads_assignment (fun _ => rfl) rfl rfl (fun _ _ => rfl) e line ts
    | _ => exact alone rfl

theorem reads_simpleStatement (n : Nat) : Reads IsExpr Stops 11 simpleStatement n := by
  have both : Reads IsExpr Stops 11
      (fun m ts => disjunction m false ts >>= fun r => assigning r.1 m r.2) n := by
    refine .andThen ((expressionsRead n).disjunction false) (reads_assigning n)
      (fun a b expr tail => ⟨⟨expr.closed.append tail.closed, ?_⟩, ?_, Nat.zero_le _⟩) ?_
    · rw [cost_append]
      exact Nat.le_trans expr.cost (Nat.le_add_right _ _)
    · exact Nat.le_add_left _ _
    · exact fun ts more tail stop => Starts.append tail.starts stop.loose
  intro ts x rest ok
  obtain ⟨taken, split, expr, elsewhere⟩ := both ts x rest ((simpleStatement_iff n ts _).1 ok)
  refine ⟨taken, split, expr, fun m again more tokens stop depth => ?_⟩
  exact (simpleStatement_iff m _ _).2 (elsewhere m again more tokens stop depth)

def conditional :
    Reader ((Expr × List Stmt) × (List (Expr × List Stmt) × Option (List Stmt))) := fun m ts =>
  disjunction m true ts >>= fun r => block m r.2 >>= fun b =>
    furtherBranches m b.2 >>= fun f => .ok (((r.1, b.1), f.1), f.2)

def following (s : Stmt) : Reader (List Stmt) := fun m ts =>
  match ts with
  | ⟨.newline, _⟩ :: _ | ⟨.rbrace, _⟩ :: _ =>
    blockTail m ts >>= fun r => .ok (s :: r.1, r.2)
  | _ => .error (expectedHere "end of statement" ts)

def continued : Reader (List Stmt) := fun m ts =>
  match ts with
  | ⟨.rbrace, _⟩ :: ts => .ok ([], ts)
  | [] => .error (expectedHere "'\x7d'" [])
  | ⟨.eof, line⟩ :: ts => .error (expectedHere "'\x7d'" (⟨.eof, line⟩ :: ts))
  | ts => statement m ts >>= fun r => following r.1 m r.2

def lastBranch (body : List Stmt) : List (Expr × List Stmt) × Option (List Stmt) :=
  ([], some body)

def IsConditional (ts : List Token) : Prop :=
  ∃ group more, ts = group ++ more ∧ IsGroup group ∧ Branches more

structure StatementsRead (n : Nat) : Prop where
  statement : Reads IsStatement Stops 12 statement n
  furtherBranches : Reads Branches Stops 1 furtherBranches n
  block : Reads (fun ts => IsGroup ts ∧ Apart ts) (fun _ => True) 2 block n
  blockTail : Reads IsBody (fun _ => True) 1 blockTail n

theorem furtherBranches_of_stops {ts : List Lexeme} (last : goesOn (tokensOf ts) = false)
    (m : Nat) : furtherBranches (m + 1) ts = .ok (([], none), ts) := by
  rw [← goesOn_skipNewlines] at last
  simp only [furtherBranches]
  split
  · rename_i same
    rw [same] at last
    cases last
  · rename_i same
    rw [same] at last
    cases last
  · rfl

theorem statement_of_simple {t : Lexeme} (kind : t.token ≠ .if_ ∧ t.token.isBranch = false)
    (m : Nat) (ts : List Lexeme) : statement (m + 1) (t :: ts) = simpleStatement m (t :: ts) := by
  obtain ⟨token, line⟩ := t
  cases token with
  | if_ => exact absurd rfl kind.1
  | elif | else_ => cases kind.2
  | _ => rfl

theorem reads_simple (n : Nat) {t : Lexeme}
    (kind : t.token ≠ .if_ ∧ t.token.isBranch = false) (ts : List Lexeme) :
    ReadsAt IsStatement Stops 11 (fun m => statement (m + 1)) n (t :: ts) := by
  refine Reads.other (P := fun t => t ≠ .if_ ∧ t.isBranch = false)
    (fun m t ts kind => statement_of_simple kind m ts) (reads_simpleStatement n)
    (fun _ => IsExpr.ne_nil) (fun t ts expr kind => .simple expr ?_) kind
  obtain ⟨u, us, same, visible⟩ := expr.visible
  obtain ⟨rfl, rfl⟩ := List.cons.inj same
  rw [goesOn_cons visible, kind.2]

namespace StatementsRead
variable {n : Nat} (reads : StatementsRead n)
include reads

theorem conditional : Reads IsConditional Stops 0 conditional n := by
  have rest (c : Expr) : Reads (fun ts => IsConditional ts ∧ Apart ts) Stops 2
      (fun m ts => Script.block m ts >>= fun b =>
        Script.furtherBranches m b.2 >>= fun f => .ok (((c, b.1), f.1), f.2)) n := by
    refine .andThen reads.block (fun b => reads.furtherBranches.map fun f => ((c, b), f)) ?_
      fun _ _ _ _ => trivial
    rintro a b ⟨group, apart⟩ further
    refine ⟨⟨⟨a, b, rfl, group, further⟩, ?_⟩, Nat.le_add_left _ _, Nat.le_add_left 1 _⟩
    obtain ⟨t, us, rfl, loose⟩ := apart
    exact ⟨t, us ++ b, rfl, loose⟩
  refine .andThen ((expressionsRead n).disjunction true) rest ?_ ?_
  · rintro a b expr ⟨⟨group, more, rfl, grouped, further⟩, -⟩
    refine ⟨⟨a ++ group, more, by rw [List.append_assoc], expr.group grouped, further⟩, ?_, ?_⟩
    · have := grouped.cost
      rw [cost_append]
      omega
    · have := expr.cost
      omega
  · exact fun ts more shape _ => shape.2.starts more

theorem following (s : Stmt) :
    Reads (fun ts => IsBody ts ∧ ∀ t ∈ ts.head?, t = .newline ∨ t = .rbrace) (fun _ => True) 1
      (following s) n := by
  have more := reads.blockTail.map (s :: ·)
  have either {t : Lexeme} (first : t.token = .newline ∨ t.token = .rbrace) (ts : List Lexeme) :
      ReadsAt (fun ts => IsBody ts ∧ ∀ t ∈ ts.head?, t = .newline ∨ t = .rbrace)
        (fun _ => True) 1 (Script.following s) n (t :: ts) := by
    refine Reads.other (P := fun t => t = .newline ∨ t = .rbrace) (fun m t ts kind => ?_) more ?_ ?_
      first
    · obtain ⟨token, line⟩ := t
      rcases kind with rfl | rfl <;> rfl
    · rintro ts body rfl
      cases body.last
    · intro t ts body kind
      refine ⟨body, fun u mem => ?_⟩
      cases mem
      exact kind
  intro ts
  match ts with
  | [] =>
    intro x rest ok
    cases ok
  | ⟨t, line⟩ :: ts =>
    cases t with
    | newline => exact either (.inl rfl) ts
    | rbrace => exact either (.inr rfl) ts
    | _ =>
      intro x rest ok
      cases ok

theorem succ_statement : Reads IsStatement Stops 12 Script.statement (n + 1) := by
  refine .deeper (H := fun m => Script.statement (m + 1)) (fun ts => ?_) fun _ _ => rfl
  match ts with
  | [] =>
    intro x rest ok
    simp only [Script.statement] at ok
    obtain ⟨taken, split, expr, -⟩ := reads_simpleStatement n [] x rest ok
    rw [(List.append_eq_nil_iff.1 split.symm).1] at expr
    exact absurd rfl expr.ne_nil
  | ⟨t, line⟩ :: ts =>
    cases t with
    | if_ =>
      refine Reads.token (fun m line ts r => ?_)
        (reads.conditional.map fun c => .branch (c.1 :: c.2.1) c.2.2) ?_ (Nat.zero_le _)
      · simp only [Script.statement, Script.conditional, bind_assoc]
        rfl
      · rintro ts ⟨group, more, rfl, grouped, further⟩
        exact .branch grouped further
    | elif | else_ =>
      intro x rest ok
      cases ok
    | _ => exact reads_simple n ⟨Token.noConfusion, rfl⟩ ts

omit reads in
theorem further {t : Token} (branch : t.isBranch = true) {k : Nat}
    {G : Reader (List (Expr × List Stmt) × Option (List Stmt))}
    (rest : Reads IsConditional Stops k G n) (small : k ≤ 16)
    (same : ∀ m line us ts, skipNewlines us = ⟨t, line⟩ :: ts →
      Script.furtherBranches (m + 1) us = G m ts) {line : Nat} {ts after : List Lexeme}
    (front : skipNewlines ts = ⟨t, line⟩ :: after) :
    ReadsAt Branches Stops 0 (fun m => Script.furtherBranches (m + 1)) n ts := by
  obtain ⟨plain, weight, loose, visible⟩ := Token.plain_of_isBranch branch
  intro x rest' ok
  obtain ⟨gap, split, newlines, -⟩ := skipNewlines_split ts
  rw [front] at split
  simp only [same n line ts after front] at ok
  obtain ⟨a, rfl, ⟨group, more, tokens, grouped, branches⟩, elsewhere⟩ := rest after x rest' ok
  refine ⟨gap ++ ⟨t, line⟩ :: a, by rw [split, List.append_assoc]; rfl, ?_, ?_⟩
  · rw [tokensOf_append, tokensOf_cons, tokens]
    exact .cons newlines branch grouped branches
  · intro m again more' tokens' stop depth
    rw [tokensOf_append] at tokens'
    rw [tokensOf_append, cost_append, tokensOf_cons, cost_cons] at depth
    obtain ⟨gap', a', rfl, sameGap, sameA⟩ := tokensOf_eq_append tokens'
    obtain ⟨line', a'', rfl, sameA'⟩ := tokensOf_eq_cons sameA
    simp only [weight] at depth
    have front' : skipNewlines (gap' ++ ⟨t, line'⟩ :: a'' ++ more') =
        ⟨t, line'⟩ :: (a'' ++ more') := by
      rw [List.append_assoc, skipNewlines_append (sameGap ▸ newlines), List.cons_append,
        skipNewlines_of_starts (starts_cons visible)]
    simp only [same m line' _ _ front']
    exact elsewhere m a'' more' sameA' stop (by omega)

theorem succ_furtherBranches : Reads Branches Stops 1 Script.furtherBranches (n + 1) := by
  refine .deeper (H := fun m => Script.furtherBranches (m + 1)) (fun ts => ?_) fun _ _ => rfl
  have last : Reads IsConditional Stops 2 (fun m ts => Script.block m ts >>= fun b =>
      .ok (lastBranch b.1, b.2)) n :=
    (reads.block.map lastBranch).weaken
      (fun ts group => ⟨ts, [], (List.append_nil ts).symm, group.1, .nil⟩) (fun _ _ => trivial)
      (Nat.le_refl 2)
  intro x rest ok
  have whole := ok
  simp only [Script.furtherBranches] at ok
  split at ok
  · rename_i front
    refine further (t := .elif) rfl (reads.conditional.map fun c => (c.1 :: c.2.1, c.2.2))
      (Nat.zero_le _) (fun m line us ts front => ?_) front x rest whole
    simp only [Script.furtherBranches, front, Script.conditional, bind_assoc]
    rfl
  · rename_i front
    refine further (t := .else_) rfl last (by omega) (fun m line us ts front => ?_) front x rest
      whole
    simp only [Script.furtherBranches, front]
    rfl
  · cases ok
    refine ⟨[], rfl, .nil, fun m again more tokens stop _ => ?_⟩
    rw [List.map_eq_nil_iff.1 tokens, List.nil_append]
    exact furtherBranches_of_stops stop.last m

theorem succ_block :
    Reads (fun ts => IsGroup ts ∧ Apart ts) (fun _ => True) 2 Script.block (n + 1) := by
  have braced : Reads (fun ts => IsGroup ts ∧ Apart ts) (fun _ => True) 1
      (fun m ts => expectLeftBrace ts >>= Script.blockTail m) n := by
    refine (Reads.expecting expects_lbrace reads.blockTail).weaken ?_ (fun _ => id) (Nat.le_refl 1)
    rintro ts ⟨us, rfl, body⟩
    exact ⟨body.brace, _, _, rfl, rfl⟩
  exact braced.deeper fun m ts => by simp only [Script.block]

theorem inBlock : Reads (fun ts => IsBody ts ∧ Visible ts) (fun _ => True) 0
    (fun m ts => Script.statement m ts >>= fun r => Script.following r.1 m r.2) n := by
  refine .andThen reads.statement reads.following (fun a b statement body =>
    ⟨⟨statement.body body.1, ?_⟩, ?_, ?_⟩) ?_
  · obtain ⟨t, us, rfl, other⟩ := statement.visible
    exact ⟨t, us ++ b, rfl, other⟩
  · have := body.1.ends.cost
    omega
  · have := statement.cost
    omega
  · intro ts more body _
    refine ⟨?_, by rw [tokensOf_append, goesOn_append body.1.code, body.1.first]⟩
    cases ts with
    | nil => cases body.1.last
    | cons t ts => exact starts_cons ((body.2 t.token rfl).imp_right .inl)

theorem succ_blockTail : Reads IsBody (fun _ => True) 1 Script.blockTail (n + 1) := by
  have either : Reads (fun ts => IsBody ts ∧ Visible ts) (fun _ => True) 0 continued n := by
    intro ts
    match ts with
    | [] =>
      intro x rest ok
      cases ok
    | ⟨t, line⟩ :: ts =>
      by_cases closing : t = .rbrace
      · subst closing
        refine Reads.token (fun _ _ _ _ => Iff.rfl) (.done []) ?_ (Nat.zero_le _)
        rintro ts rfl
        exact ⟨⟨bracket_rbrace.ends, rfl, rfl⟩, _, _, rfl, Token.noConfusion⟩
      by_cases ended : t = .eof
      · subst ended
        intro x rest ok
        cases ok
      refine Reads.other (P := fun t => t ≠ .rbrace ∧ t ≠ .eof) (fun m t ts kind => ?_)
        reads.inBlock ?_ ?_ ⟨closing, ended⟩
      · obtain ⟨token, line⟩ := t
        cases token with
        | rbrace => exact absurd rfl kind.1
        | eof => exact absurd rfl kind.2
        | _ => rfl
      · rintro ts ⟨-, t, us, rfl, -⟩
        exact List.cons_ne_nil _ _
      · exact fun t ts shape _ => shape
  refine .deeper (either.skipping ?_ fun ts shape => shape.2) fun m ts => ?_
  · exact fun gap ts newlines shape => newlines.body shape.1
  · simp only [Script.blockTail]
    rfl

end StatementsRead

theorem statementsRead (n : Nat) : StatementsRead n := by
  induction n with
  | zero => constructor <;> exact .at_zero fun ts x rest ok => by cases ok
  | succ n ih =>
    exact ⟨ih.succ_statement, ih.succ_furtherBranches, ih.succ_block, ih.succ_blockTail⟩

end Playbook.Script
