import Playbook.Proofs.Parser.Statements
import Playbook.Proofs.Printing.Expressions
import Playbook.Proofs.Segment.Agreement

/- The tokens of written statements give the statements back, with their blocks and branches. -/
namespace Playbook.Script

theorem tokensIn_indent (depth : Nat) : tokensIn (indent depth) = [] := by
  rw [indent]
  induction 2 * depth with
  | zero => rfl
  | succ n ih => rw [List.replicate_succ, tokensIn_space, ih]

theorem ofExpr?_from {object : Expr} {target : Target} (read : Target.ofExpr? object = some target)
    (step : Access) :
    Target.ofExpr? (step.from object) = some { target with path := target.path ++ [step] } := by
  cases step with
  | field name => simp only [Access.from, Target.ofExpr?, read, Option.map_some]
  | index position => simp only [Access.from, Target.ofExpr?, read, Option.map_some]

theorem ofExpr?_expr (target : Target) : Target.ofExpr? target.expr = some target := by
  have walk : ∀ (path : List Access) (object : Expr) (before : List Access),
      Target.ofExpr? object = some ⟨target.root, before⟩ →
      Target.ofExpr? (path.foldl Access.from object) = some ⟨target.root, before ++ path⟩ := by
    intro path
    induction path with
    | nil => intro object before read; simpa using read
    | cons step rest ih =>
      intro object before read
      have next := ih (step.from object) (before ++ [step]) (ofExpr?_from read step)
      simpa using next
  have root : Target.ofExpr? target.root.expr = some ⟨target.root, []⟩ := by
    cases target.root <;> rfl
  exact walk target.path target.root.expr [] root

theorem glyphs_parsed {e : Expr} (plain : e.isPlain = true) (cond : Bool) (place : Tier) :
    Parsed cond place (tokensIn (e.glyphs cond place)) e :=
  operand_parsed (bare_parsed e plain) cond place

theorem simple_of_begins {tier : Tier} {t : Token} (begins : tier.begins t = true) :
    t ≠ .if_ ∧ t.isBranch = false := by
  cases t with
  | if_ | elif | else_ => cases tier <;> cases begins
  | _ => exact ⟨Token.noConfusion, rfl⟩

theorem takes_simple {ts : List Token} {s : Stmt}
    (front : ∃ t us, ts = t :: us ∧ Tier.begins .or t = true)
    (takes : Takes simpleStatement ts s Stops) : Takes statement ts s Stops := by
  obtain ⟨t, us, rfl, begins⟩ := front
  obtain ⟨N, taken⟩ := takes
  refine .of_succ N fun j enough lexemes more tokens stops => ?_
  have read := taken j (by omega) lexemes more tokens stops
  obtain ⟨line, rest, rfl, -⟩ := tokensOf_eq_cons tokens
  rw [List.cons_append] at read ⊢
  rw [statement_of_simple (simple_of_begins begins), read]

theorem takes_expr {ts : List Token} {e : Expr} (parsed : Parsed false .or ts e) :
    Takes statement ts (.expr e) Stops := by
  obtain ⟨N, taken⟩ := parsed.takes
  refine takes_simple parsed.front ⟨N, fun m enough lexemes more tokens stops => ?_⟩
  have read := taken m enough lexemes more tokens stops.loose
  simp only [Tier.reader] at read
  simp only [simpleStatement, read, bind, Except.bind, stops.assignOp?]
  rfl

theorem assignOp?_token (op : AssignOp) (line : Nat) (ts : List Lexeme) :
    assignOp? (⟨op.token, line⟩ :: ts) = some (op, ts) := by
  cases op <;> rfl

theorem takes_assign {ts us : List Token} {target : Target} {value : Expr} (op : AssignOp)
    (left : Parsed false .or ts target.expr) (right : Parsed false .or us value) :
    Takes statement (ts ++ op.token :: us) (.assign target op value) Stops := by
  obtain ⟨N, taken⟩ := left.takes
  obtain ⟨M, taken'⟩ := right.takes
  obtain ⟨t, more, rfl, begins⟩ := left.front
  refine takes_simple ⟨t, more ++ op.token :: us, rfl, begins⟩
    ⟨N + M, fun m enough lexemes after tokens stops => ?_⟩
  obtain ⟨ls, rest, rfl, tokensLeft, tokensRest⟩ := tokensOf_eq_append tokens
  obtain ⟨line, rs, rfl, tokensRight⟩ := tokensOf_eq_cons tokensRest
  have loose : Starts (·.grip < 1) (⟨op.token, line⟩ :: (rs ++ after)) := by
    cases op <;> exact starts_cons Nat.one_pos
  have read := taken m (by omega) ls _ tokensLeft loose
  have read' := taken' m (by omega) rs after tokensRight stops.loose
  simp only [Tier.reader] at read read'
  rw [List.append_assoc, List.cons_append]
  simp only [simpleStatement, read, bind, Except.bind, assignOp?_token, ofExpr?_expr, read']
  rfl

theorem takes_newline {ts : List Token} {body : List Stmt}
    (takes : Takes blockTail ts body (fun _ => True)) :
    Takes blockTail (.newline :: ts) body (fun _ => True) := by
  obtain ⟨N, taken⟩ := takes
  refine .of_succ N fun j enough lexemes more tokens _ => ?_
  obtain ⟨line, rest, rfl, tokens'⟩ := tokensOf_eq_cons tokens
  have read := taken (j + 1) (by omega) rest more tokens' trivial
  simp only [blockTail] at read
  simp only [List.cons_append, blockTail, skipNewlines]
  exact read

theorem takes_block {ts : List Token} {body : List Stmt}
    (takes : Takes blockTail ts body (fun _ => True)) :
    Takes block (.lbrace :: .newline :: ts) body (fun _ => True) := by
  obtain ⟨N, taken⟩ := takes_newline takes
  refine .of_succ N fun j enough lexemes more tokens _ => ?_
  obtain ⟨line, rest, rfl, tokens'⟩ := tokensOf_eq_cons tokens
  simp only [List.cons_append, block]
  exact taken j (by omega) rest more tokens' trivial

/-- What follows a line of its own: it is no further branch. -/
def Fresh (ts : List Token) : Prop := ∃ t us, ts = t :: us ∧ t ≠ .newline ∧ t.isBranch = false

theorem Fresh.stops {ts : List Token} (fresh : Fresh ts) (line : Nat) {lexemes : List Lexeme}
    (tokens : tokensOf lexemes = ts) (more : List Lexeme) :
    Stops (⟨.newline, line⟩ :: (lexemes ++ more)) := by
  obtain ⟨t, us, rfl, visible, branch⟩ := fresh
  obtain ⟨line', rest, rfl, -⟩ := tokensOf_eq_cons tokens
  refine ⟨starts_cons (.inl rfl), ?_⟩
  show goesOn (t :: tokensOf (rest ++ more)) = false
  rw [goesOn_cons visible, branch]

structure Begun (ts : List Token) : Prop where
  fresh : Fresh ts
  goes : ts.head? ≠ some .rbrace ∧ ts.head? ≠ some .eof

theorem Begun.append {ts : List Token} (begun : Begun ts) (us : List Token) :
    Begun (ts ++ us) := by
  obtain ⟨⟨t, more, rfl, fresh⟩, goes⟩ := begun
  exact ⟨⟨t, more ++ us, rfl, fresh⟩, goes⟩

theorem Parsed.begun {cond : Bool} {tier : Tier} {ts : List Token} {e : Expr}
    (parsed : Parsed cond tier ts e) : Begun ts := by
  obtain ⟨t, us, rfl, begins⟩ := parsed.front
  obtain ⟨visible, open_, -⟩ := Tier.visible_of_begins begins
  refine ⟨⟨t, us, rfl, visible, (simple_of_begins begins).2⟩, ?_, ?_⟩
  · rintro same
    cases same
    exact open_ rfl
  · rintro same
    cases same
    cases tier <;> cases begins

theorem takes_end : Takes blockTail [.rbrace] [] (fun _ => True) := by
  refine .of_succ 0 fun j _ lexemes more tokens _ => ?_
  obtain ⟨line, rfl⟩ := tokensOf_eq_singleton tokens
  rfl

theorem takes_next {ts us : List Token} {s : Stmt} {body : List Stmt} (begun : Begun ts)
    (first : Takes statement ts s Stops) (fresh : Fresh us)
    (rest : Takes blockTail us body (fun _ => True)) :
    Takes blockTail (ts ++ .newline :: us) (s :: body) (fun _ => True) := by
  obtain ⟨N, taken⟩ := first
  obtain ⟨M, taken'⟩ := takes_newline rest
  refine .of_succ (N + M) fun j enough lexemes after tokens _ => ?_
  obtain ⟨ls, others, rfl, tokensHere, tokensRest⟩ := tokensOf_eq_append tokens
  have read' := taken' j (by omega) others after tokensRest trivial
  obtain ⟨line, rs, rfl, tokensLater⟩ := tokensOf_eq_cons tokensRest
  have read := taken j (by omega) ls (⟨.newline, line⟩ :: (rs ++ after)) tokensHere
    (fresh.stops line tokensLater after)
  obtain ⟨⟨t, more, rfl, visible, -⟩, open_, goes⟩ := begun
  obtain ⟨line', ls, rfl, -⟩ := tokensOf_eq_cons tokensHere
  rw [List.cons_append] at read read'
  rw [List.append_assoc, List.cons_append, List.cons_append]
  simp only [blockTail]
  rw [skipNewlines_of_starts (starts_cons visible)]
  split
  · rename_i same
    cases same
    exact absurd rfl open_
  · rename_i same
    cases same
  · rename_i same
    cases same
    exact absurd rfl goes
  · simp only [read, bind, Except.bind, read']
    rfl

theorem takes_no_branch : Takes furtherBranches [] ([], none) Stops := by
  refine .of_succ 0 fun j _ lexemes more tokens stops => ?_
  rw [List.map_eq_nil_iff.1 tokens]
  exact furtherBranches_of_stops stops.last j

theorem takes_else {ts : List Token} {body : List Stmt}
    (takes : Takes block ts body (fun _ => True)) :
    Takes furtherBranches (.else_ :: ts) ([], some body) Stops := by
  obtain ⟨N, taken⟩ := takes
  refine .of_succ N fun j enough lexemes more tokens stops => ?_
  obtain ⟨line, rest, rfl, tokens'⟩ := tokensOf_eq_cons tokens
  have read := taken j (by omega) rest more tokens' trivial
  simp only [List.cons_append, furtherBranches, skipNewlines, read, bind, Except.bind]
  rfl

theorem takes_conditional {cs bs fs : List Token} {condition : Expr} {body : List Stmt}
    {rest : List (Expr × List Stmt) × Option (List Stmt)} (apart : Apart bs)
    (parsed : Parsed true .or cs condition) (takes : Takes block bs body (fun _ => True))
    (further : Takes furtherBranches fs rest Stops) :
    Takes conditional (cs ++ (bs ++ fs)) ((condition, body), rest) Stops := by
  obtain ⟨N, taken⟩ := parsed.takes
  obtain ⟨M, taken'⟩ := takes
  obtain ⟨L, taken''⟩ := further
  refine ⟨N + M + L, fun m enough lexemes more tokens stops => ?_⟩
  obtain ⟨ls, others, rfl, tokensHere, tokensRest⟩ := tokensOf_eq_append tokens
  obtain ⟨ks, rs, rfl, tokensBody, tokensLater⟩ := tokensOf_eq_append tokensRest
  subst tokensBody
  have read := taken m (by omega) ls (ks ++ (rs ++ more)) tokensHere (apart.starts _)
  have read' := taken' m (by omega) ks (rs ++ more) rfl trivial
  have read'' := taken'' m (by omega) rs more tokensLater stops
  simp only [Tier.reader] at read
  rw [List.append_assoc, List.append_assoc]
  simp only [conditional, read, bind, Except.bind, read', read'']

theorem takes_elif {ts : List Token} {branch : Expr × List Stmt}
    {rest : List (Expr × List Stmt) × Option (List Stmt)}
    (takes : Takes conditional ts (branch, rest) Stops) :
    Takes furtherBranches (.elif :: ts) (branch :: rest.1, rest.2) Stops := by
  obtain ⟨N, taken⟩ := takes
  refine .of_succ N fun j enough lexemes more tokens stops => ?_
  obtain ⟨line, ls, rfl, tokens'⟩ := tokensOf_eq_cons tokens
  have read := taken j (by omega) ls more tokens' stops
  have same : furtherBranches (j + 1) (⟨.elif, line⟩ :: (ls ++ more)) =
      conditional j (ls ++ more) >>= fun r => .ok ((r.1.1 :: r.1.2.1, r.1.2.2), r.2) := by
    simp only [furtherBranches, skipNewlines, conditional, bind_assoc]
    rfl
  rw [List.cons_append, same, read]
  rfl

theorem takes_if {ts : List Token} {branch : Expr × List Stmt}
    {rest : List (Expr × List Stmt) × Option (List Stmt)}
    (takes : Takes conditional ts (branch, rest) Stops) :
    Takes statement (.if_ :: ts) (.branch (branch :: rest.1) rest.2) Stops := by
  obtain ⟨N, taken⟩ := takes
  refine .of_succ N fun j enough lexemes more tokens stops => ?_
  obtain ⟨line, ls, rfl, tokens'⟩ := tokensOf_eq_cons tokens
  have read := taken j (by omega) ls more tokens' stops
  have same : statement (j + 1) (⟨.if_, line⟩ :: (ls ++ more)) =
      conditional j (ls ++ more) >>= fun r => .ok (.branch (r.1.1 :: r.1.2.1) r.1.2.2, r.2) := by
    simp only [statement, conditional, bind_assoc]
    rfl
  rw [List.cons_append, same, read]
  rfl

def elseTokens (depth : Nat) : Option (List Stmt) → List Token
  | none => []
  | some body =>
    .else_ :: .lbrace :: .newline :: (tokensIn (blockGlyphs (depth + 1) body) ++ [.rbrace])

theorem tokensIn_branch (depth : Nat) (branches : List (Expr × List Stmt))
    (otherwise : Option (List Stmt)) : tokensIn ((Stmt.branch branches otherwise).glyphs depth) =
      tokensIn (branchGlyphs depth [.token .if_] branches) ++ elseTokens depth otherwise := by
  cases otherwise with
  | none => simp [Stmt.glyphs, elseTokens]
  | some body => simp [Stmt.glyphs, elseTokens, tokensIn_indent]

theorem tokensIn_branches (depth : Nat) (opening : List Glyph) (condition : Expr)
    (body : List Stmt) (rest : List (Expr × List Stmt)) (us : List Token) :
    tokensIn (branchGlyphs depth opening ((condition, body) :: rest)) ++ us =
      tokensIn opening ++ (tokensIn (condition.glyphs true .or) ++
        (.lbrace :: .newline :: (tokensIn (blockGlyphs (depth + 1) body) ++ [.rbrace]) ++
          (tokensIn (branchGlyphs depth [.space, .token .elif] rest) ++ us))) := by
  simp [branchGlyphs, tokensIn_indent]

theorem fresh_rbrace : Fresh [.rbrace] := ⟨_, _, rfl, Token.noConfusion, rfl⟩

theorem begun_glyphs {s : Stmt} (plain : s.isPlain = true) (depth : Nat) :
    Begun (tokensIn (s.glyphs depth)) := by
  cases s with
  | expr e =>
    rw [Stmt.isPlain] at plain
    exact (glyphs_parsed plain false .or).begun
  | assign target op value =>
    rw [Stmt.isPlain, Bool.and_eq_true] at plain
    rw [Stmt.glyphs, tokensIn_append, tokensIn_append, List.append_assoc]
    exact (glyphs_parsed plain.1 false .or).begun.append _
  | branch branches otherwise =>
    have some : branches ≠ [] := by
      rintro rfl
      cases otherwise <;> cases plain
    rw [tokensIn_branch]
    cases branches with
    | nil => exact absurd rfl some
    | cons branch rest =>
      obtain ⟨condition, body⟩ := branch
      rw [tokensIn_branches]
      exact ⟨⟨.if_, _, rfl, Token.noConfusion, rfl⟩, by simp, by simp⟩

theorem fresh_block {body : List Stmt} (plain : blockPlain body = true) (depth : Nat)
    {us : List Token} (fresh : Fresh us) : Fresh (tokensIn (blockGlyphs depth body) ++ us) := by
  cases body with
  | nil => exact fresh
  | cons s rest =>
    rw [blockPlain, Bool.and_eq_true] at plain
    rw [blockGlyphs, tokensIn_append, tokensIn_append, tokensIn_indent, List.nil_append,
      List.append_assoc]
    exact ((begun_glyphs plain.1 depth).append _).fresh

theorem takes_if_block {depth : Nat} {condition : Expr} {body : List Stmt}
    {rest : List (Expr × List Stmt)} {otherwise : Option (List Stmt)}
    (plain : condition.isPlain = true)
    (inside : Takes blockTail (tokensIn (blockGlyphs (depth + 1) body) ++ [.rbrace]) body
      (fun _ => True))
    (further : Takes furtherBranches (tokensIn (branchGlyphs depth [.space, .token .elif] rest) ++
      elseTokens depth otherwise) (rest, otherwise) Stops) :
    Takes statement (tokensIn ((Stmt.branch ((condition, body) :: rest) otherwise).glyphs depth))
      (.branch ((condition, body) :: rest) otherwise) Stops := by
  have apart : Apart (.lbrace :: .newline ::
      (tokensIn (blockGlyphs (depth + 1) body) ++ [.rbrace])) := ⟨_, _, rfl, rfl⟩
  have group := takes_conditional apart (glyphs_parsed plain true .or) (takes_block inside) further
  rw [tokensIn_branch, tokensIn_branches]
  exact takes_if group

mutual
theorem statement_parsed : ∀ (s : Stmt), s.isPlain = true → ∀ depth,
    Takes statement (tokensIn (s.glyphs depth)) s Stops
  | .expr e, plain, depth => by
    rw [Stmt.isPlain] at plain
    exact takes_expr (glyphs_parsed plain false .or)
  | .assign target op value, plain, depth => by
    rw [Stmt.isPlain, Bool.and_eq_true] at plain
    simpa [Stmt.glyphs] using takes_assign op (glyphs_parsed plain.1 false .or)
      (glyphs_parsed plain.2 false .or)
  | .branch [] none, plain, _ => by cases plain
  | .branch [] (some _), plain, _ => by cases plain
  | .branch ((condition, body) :: rest) none, plain, depth => by
    simp only [Stmt.isPlain, branchesPlain, Bool.and_eq_true] at plain
    exact takes_if_block plain.2.1.1 (block_parsed body plain.2.1.2 (depth + 1))
      (branches_parsed rest plain.2.2 depth takes_no_branch)
  | .branch ((condition, body) :: rest) (some last), plain, depth => by
    simp only [Stmt.isPlain, branchesPlain, Bool.and_eq_true] at plain
    exact takes_if_block plain.1.2.1.1 (block_parsed body plain.1.2.1.2 (depth + 1))
      (branches_parsed rest plain.1.2.2 depth
        (takes_else (takes_block (block_parsed last plain.2 (depth + 1)))))

theorem branches_parsed : ∀ (branches : List (Expr × List Stmt)), branchesPlain branches = true →
    ∀ depth {otherwise : Option (List Stmt)},
      Takes furtherBranches (elseTokens depth otherwise) ([], otherwise) Stops →
      Takes furtherBranches (tokensIn (branchGlyphs depth [.space, .token .elif] branches) ++
        elseTokens depth otherwise) (branches, otherwise) Stops
  | [], _, _, _, last => last
  | (condition, body) :: rest, plain, depth, otherwise, last => by
    simp only [branchesPlain, Bool.and_eq_true] at plain
    have inside := block_parsed body plain.1.2 (depth + 1)
    have further := branches_parsed rest plain.2 depth last
    have apart : Apart (.lbrace :: .newline ::
        (tokensIn (blockGlyphs (depth + 1) body) ++ [.rbrace])) := ⟨_, _, rfl, rfl⟩
    rw [tokensIn_branches]
    exact takes_elif (takes_conditional apart (glyphs_parsed plain.1.1 true .or)
      (takes_block inside) further)

theorem block_parsed : ∀ (body : List Stmt), blockPlain body = true → ∀ depth,
    Takes blockTail (tokensIn (blockGlyphs depth body) ++ [.rbrace]) body (fun _ => True)
  | [], _, _ => takes_end
  | s :: rest, plain, depth => by
    rw [blockPlain, Bool.and_eq_true] at plain
    have next := takes_next (begun_glyphs plain.1 depth) (statement_parsed s plain.1 depth)
      (fresh_block plain.2 depth fresh_rbrace) (block_parsed rest plain.2 depth)
    simpa [blockGlyphs, tokensIn_indent] using next
end

theorem Takes.paid {ts : List Token} {s : Stmt} (takes : Takes statement ts s Stops) {m : Nat}
    (enough : cost ts + 12 ≤ m) {lexemes more : List Lexeme} (tokens : tokensOf lexemes = ts)
    (stops : Stops more) : statement m (lexemes ++ more) = .ok (s, more) := by
  obtain ⟨N, taken⟩ := takes
  have read := taken N (Nat.le_refl N) lexemes more tokens stops
  obtain ⟨front, split, -, elsewhere⟩ := (statementsRead N).statement _ s more read
  have same := List.append_cancel_right split
  subst same
  exact elsewhere m lexemes more rfl stops (by rwa [tokens])

theorem statements_parsed (body : List Stmt) (plain : blockPlain body = true) (m : Nat)
    (lexemes : List Lexeme) (tokens : tokensOf lexemes = tokensIn (blockGlyphs 0 body) ++ [.eof])
    (enough : cost (tokensOf lexemes) + 13 ≤ m) : statements m lexemes = .ok body := by
  induction body generalizing m lexemes with
  | nil =>
    obtain ⟨j, rfl⟩ : ∃ j, m = j + 1 := ⟨m - 1, by omega⟩
    obtain ⟨line, rest, rfl, nothing⟩ := tokensOf_eq_cons tokens
    rfl
  | cons s rest ih =>
    obtain ⟨j, rfl⟩ : ∃ j, m = j + 1 := ⟨m - 1, by omega⟩
    rw [blockPlain, Bool.and_eq_true] at plain
    have split : tokensIn (blockGlyphs 0 (s :: rest)) ++ [.eof] = tokensIn (s.glyphs 0) ++
        .newline :: (tokensIn (blockGlyphs 0 rest) ++ [.eof]) := by
      simp [blockGlyphs, tokensIn_indent]
    rw [split] at tokens
    obtain ⟨ls, others, rfl, tokensHere, tokensRest⟩ := tokensOf_eq_append tokens
    obtain ⟨line, rs, rfl, tokensLater⟩ := tokensOf_eq_cons tokensRest
    rw [tokensOf_append, tokensOf_cons, cost_append, cost_cons] at enough
    have eof : Fresh [.eof] := ⟨_, _, rfl, Token.noConfusion, rfl⟩
    have fresh := fresh_block plain.2 0 eof
    have stops := fresh.stops line tokensLater []
    rw [List.append_nil] at stops
    have read := (statement_parsed s plain.1 0).paid (m := j) (by rw [← tokensHere]; omega)
      tokensHere stops
    obtain ⟨⟨t, more, front, visible, -⟩, -, goes⟩ := begun_glyphs plain.1 0
    rw [front] at tokensHere goes
    obtain ⟨line', ls, rfl, -⟩ := tokensOf_eq_cons tokensHere
    have eof_next : t ≠ .eof := by
      rintro rfl
      exact goes rfl
    -- The separator is skipped at the same depth.
    have weight : (⟨.newline, line⟩ : Lexeme).token.cost = 16 := rfl
    have later : statements j (⟨.newline, line⟩ :: rs) = .ok rest := by
      obtain ⟨i, rfl⟩ : ∃ i, j = i + 1 := ⟨j - 1, by omega⟩
      exact ih plain.2 (i + 1) rs tokensLater (by omega)
    rw [List.cons_append] at read ⊢
    rw [statements_cons visible eof_next, read]
    show afterStatement s j (⟨.newline, line⟩ :: rs) = _
    rw [afterStatement_of_starts (starts_cons (.inl rfl)), later]
    rfl

end Playbook.Script
