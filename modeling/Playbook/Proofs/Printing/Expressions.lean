import Playbook.Proofs.Printing.Operands

/- Whatever expression is written, its tokens give it back. The induction follows the expression,
   with its items and entries. -/
namespace Playbook.Script
variable {cond : Bool} {ts us : List Token} {e e' : Expr}

theorem Tier.visible_of_begins {tier : Tier} {t : Token} (begins : tier.begins t = true) :
    t ≠ .newline ∧ t ≠ .rbrace ∧ ∀ closer : Closer, t ≠ closer.token := by
  have never (u : Token) (none : tier.begins u = false) : t ≠ u := by
    rintro rfl
    rw [begins] at none
    cases none
  have bracket (u : Token) (none : ∀ tier : Tier, tier.begins u = false) : t ≠ u :=
    never u (none tier)
  refine ⟨bracket _ ?_, bracket _ ?_, fun closer => bracket _ ?_⟩
  · intro tier
    cases tier <;> rfl
  · intro tier
    cases tier <;> rfl
  · intro tier
    cases closer <;> cases tier <;> rfl

theorem Parsed.takes_inside (parsed : Parsed false .or ts e) :
    ∃ N, ∀ m, N ≤ m → ∀ lexemes more, tokensOf lexemes = ts → Starts (·.grip < 1) more →
      skipNewlines (lexemes ++ more) = lexemes ++ more ∧
      Starts (fun t => t ≠ .rbrace ∧ ∀ closer : Closer, t ≠ closer.token) (lexemes ++ more) ∧
      disjunction m false (lexemes ++ more) = .ok (e, more) := by
  obtain ⟨N, taken⟩ := parsed.takes
  obtain ⟨t, us, rfl, begins⟩ := parsed.front
  obtain ⟨visible, open_⟩ := Tier.visible_of_begins begins
  refine ⟨N, fun m enough lexemes more tokens loose => ?_⟩
  have read := taken m enough lexemes more tokens loose
  obtain ⟨line, rest, rfl, -⟩ := tokensOf_eq_cons tokens
  exact ⟨skipNewlines_of_starts (starts_cons visible), starts_cons open_, read⟩

theorem Closer.expect_token (closer : Closer) (line : Nat) (ts : List Lexeme) :
    closer.expect (skipNewlines (⟨closer.token, line⟩ :: ts)) = .ok ts := by
  cases closer <;> rfl

theorem Closer.loose (closer : Closer) (line : Nat) (ts : List Lexeme) :
    Starts (·.grip < 1) (⟨closer.token, line⟩ :: ts) := by
  cases closer <;> exact starts_cons Nat.one_pos

theorem takes_enclosed (parsed : Parsed false .or ts e) (closer : Closer) :
    Takes (enclosed closer) (ts ++ [closer.token]) e (fun _ => True) := by
  obtain ⟨N, taken⟩ := parsed.takes_inside
  refine ⟨N, fun m enough lexemes more tokens _ => ?_⟩
  obtain ⟨ls, last, rfl, tokens', tokensLast⟩ := tokensOf_eq_append tokens
  obtain ⟨line, rfl⟩ := tokensOf_eq_singleton tokensLast
  rw [List.append_assoc]
  obtain ⟨here, -, read⟩ := taken m enough ls (⟨closer.token, line⟩ :: more) tokens'
    (closer.loose line more)
  simp only [enclosed, List.singleton_append, here, read, bind, Except.bind, closer.expect_token]

theorem takes_no_items (closer : Closer) :
    Takes (fun m => sequence m closer) [closer.token] [] (fun _ => True) := by
  refine .of_succ 0 fun j _ lexemes more tokens _ => ?_
  obtain ⟨line, rfl⟩ := tokensOf_eq_singleton tokens
  cases closer <;> rfl

theorem takes_last_item (parsed : Parsed false .or ts e) (closer : Closer) :
    Takes (fun m => sequence m closer) (ts ++ [closer.token]) [e] (fun _ => True) := by
  obtain ⟨N, taken⟩ := parsed.takes_inside
  refine .of_succ N fun j enough lexemes more tokens _ => ?_
  obtain ⟨ls, last, rfl, tokens', tokensLast⟩ := tokensOf_eq_append tokens
  obtain ⟨line, rfl⟩ := tokensOf_eq_singleton tokensLast
  rw [List.append_assoc]
  obtain ⟨here, open_, read⟩ := taken j (by omega) ls (⟨closer.token, line⟩ :: more) tokens'
    (closer.loose line more)
  have closed := closer.close?_other _ fun t mem => (open_ t mem).2 closer
  simp only [sequence, List.singleton_append, here, closed, read, bind, Except.bind]
  cases closer <;> rfl

theorem takes_item (parsed : Parsed false .or ts e) {items : List Expr} {closer : Closer}
    (rest : Takes (fun m => sequence m closer) us items (fun _ => True)) :
    Takes (fun m => sequence m closer) (ts ++ .comma :: us) (e :: items) (fun _ => True) := by
  obtain ⟨N, taken⟩ := parsed.takes_inside
  obtain ⟨M, taken'⟩ := rest
  refine .of_succ (N + M) fun j enough lexemes more tokens _ => ?_
  obtain ⟨ls, after, rfl, tokens', tokensAfter⟩ := tokensOf_eq_append tokens
  obtain ⟨line, others, rfl, tokensRest⟩ := tokensOf_eq_cons tokensAfter
  rw [List.append_assoc, List.cons_append]
  obtain ⟨here, open_, read⟩ := taken j (by omega) ls (⟨.comma, line⟩ :: (others ++ more)) tokens'
    (starts_cons Nat.one_pos)
  have closed := closer.close?_other _ fun t mem => (open_ t mem).2 closer
  have read' := taken' j (by omega) others more tokensRest trivial
  simp only [sequence, here, closed, read, bind, Except.bind, skipNewlines, read']
  rfl

theorem takes_no_entries : Takes entries [.rbrace] [] (fun _ => True) := by
  refine .of_succ 0 fun j _ lexemes more tokens _ => ?_
  obtain ⟨line, rfl⟩ := tokensOf_eq_singleton tokens
  rfl

theorem takes_keyed {vs : List Token} {x : List (Expr × Expr)}
    (key : Parsed false .or ts e) (value : Parsed false .or us e')
    (loose : ∀ lexemes more, tokensOf lexemes = vs → Starts (·.grip < 1) (lexemes ++ more))
    (rest : Takes (listEnd expectRightBrace entries (e, e')) vs x (fun _ => True)) :
    Takes entries (ts ++ .colon :: (us ++ vs)) x (fun _ => True) := by
  obtain ⟨N, taken⟩ := key.takes_inside
  obtain ⟨M, taken'⟩ := value.takes_inside
  obtain ⟨L, taken''⟩ := rest
  refine .of_succ (N + M + L) fun j enough lexemes more tokens _ => ?_
  obtain ⟨ks, after, rfl, tokensKey, tokensAfter⟩ := tokensOf_eq_append tokens
  obtain ⟨line, after', rfl, tokensAfter'⟩ := tokensOf_eq_cons tokensAfter
  obtain ⟨ls, others, rfl, tokensValue, tokensEnd⟩ := tokensOf_eq_append tokensAfter'
  obtain ⟨here, open_, read⟩ := taken j (by omega) ks (⟨.colon, line⟩ :: (ls ++ (others ++ more)))
    tokensKey (starts_cons Nat.one_pos)
  obtain ⟨here', -, read'⟩ := taken' j (by omega) ls (others ++ more) tokensValue
    (loose others more tokensEnd)
  have read'' := taken'' j (by omega) others more tokensEnd trivial
  rw [List.append_assoc, List.cons_append, List.append_assoc]
  simp only [entries, here]
  split
  · rename_i same
    rw [same] at open_
    exact absurd rfl (open_ _ rfl).1
  · simp only [read, bind, Except.bind, skipNewlines, expectColon, here', read']
    exact read''

theorem takes_last_entry (key : Parsed false .or ts e) (value : Parsed false .or us e') :
    Takes entries (ts ++ .colon :: (us ++ [.rbrace])) [(e, e')] (fun _ => True) := by
  refine takes_keyed key value ?_ ⟨0, fun m _ lexemes more tokens _ => ?_⟩
  · intro lexemes more tokens
    obtain ⟨line, rest, rfl, -⟩ := tokensOf_eq_cons tokens
    exact starts_cons Nat.one_pos
  · obtain ⟨line, rfl⟩ := tokensOf_eq_singleton tokens
    rfl

theorem takes_entry (key : Parsed false .or ts e) (value : Parsed false .or us e')
    {vs : List Token} {more : List (Expr × Expr)} (rest : Takes entries vs more (fun _ => True)) :
    Takes entries (ts ++ .colon :: (us ++ .comma :: vs)) ((e, e') :: more) (fun _ => True) := by
  obtain ⟨N, taken⟩ := rest
  refine takes_keyed key value ?_ ⟨N, fun m enough lexemes after tokens _ => ?_⟩
  · intro lexemes more tokens
    obtain ⟨line, rest, rfl, -⟩ := tokensOf_eq_cons tokens
    exact starts_cons Nat.one_pos
  · obtain ⟨line, rest, rfl, tokens'⟩ := tokensOf_eq_cons tokens
    have read := taken m enough rest after tokens' trivial
    simp only [listEnd, List.cons_append, skipNewlines, read]
    rfl

theorem operand_parsed {e : Expr} (parsed : ∀ cond, (cond && e.isMap) = false →
      Parsed cond e.tier (tokensIn (e.bare cond)) e) (cond : Bool) (place : Tier) :
    Parsed cond place (tokensIn (operandGlyphs e e.bare cond place)) e := by
  unfold operandGlyphs
  split
  · have inside := (parsed false rfl).loosen .or (Nat.zero_le _)
    have enclosed : Parsed cond .suffix (.lparen :: (tokensIn (e.bare false) ++ [.rparen])) e :=
      Parsed.opened id rfl (takes_enclosed inside .paren) fun m line ts => by
        simp only [primary, enclosed, bind_assoc]
        rfl
    simpa using enclosed.loosen place place.height_le
  · rename_i fits
    rw [not_or, Bool.not_eq_true] at fits
    exact (parsed cond fits.2).loosen place (Nat.le_of_not_lt fits.1)

theorem negated_of_isNumber {e : Expr} (other : e.isNumber = false) :
    negated e = .unary .neg e := by
  unfold negated
  split
  · cases other
  · cases other
  · rfl

theorem takes_operator {l : Level} (right : Parsed cond l.operand ts e) :
    Takes (fun m => operand m cond l) ts e (Starts (·.grip < (Tier.level l).held)) := by
  obtain ⟨N, taken⟩ := right.takes
  refine .of_succ N fun j enough lexemes more tokens held => ?_
  cases l with
  | comparison | sum | product => exact taken j (by omega) lexemes more tokens held

theorem operator?_tokens (op : BinaryOp) {lexemes : List Lexeme} (more : List Lexeme)
    (tokens : tokensOf lexemes = op.tokens) :
    op.level.operator? (lexemes ++ more) = some (op, more) := by
  cases op with
  | notIn =>
    obtain ⟨line, rest, rfl, tokens'⟩ := tokensOf_eq_cons tokens
    obtain ⟨line', rfl⟩ := tokensOf_eq_singleton tokens'
    rfl
  | _ =>
    obtain ⟨line, rfl⟩ := tokensOf_eq_singleton tokens
    rfl

theorem Parsed.binary {op : BinaryOp} (left : Parsed cond (.level op.level) ts e)
    (right : Parsed cond op.level.operand us e') :
    Parsed cond (.level op.level) (ts ++ (op.tokens ++ us)) (.binary op e e') := by
  refine left.extend (.binary op e) op.tokens (takes_operator right) ?_ fun m lexemes more tokens => ?_
  · cases op <;> exact ⟨_, _, rfl, by decide⟩
  · simp only [Tier.onward, chainTail, operator?_tokens op more tokens]

theorem Parsed.and (left : Parsed cond .and ts e) (right : Parsed cond .not us e') :
    Parsed cond .and (ts ++ (.and :: us)) (.and e e') := by
  refine left.extend (.and e) [.and] right.takes ⟨_, _, rfl, Nat.lt_succ_self 2⟩ ?_
  intro m lexemes more tokens
  obtain ⟨line, rfl⟩ := tokensOf_eq_singleton tokens
  simp only [Tier.onward, Tier.reader, List.singleton_append, andTail]

theorem Parsed.or (left : Parsed cond .or ts e) (right : Parsed cond .and us e') :
    Parsed cond .or (ts ++ (.or :: us)) (.or e e') := by
  refine left.extend (.or e) [.or] right.takes ⟨_, _, rfl, Nat.lt_succ_self 1⟩ ?_
  intro m lexemes more tokens
  obtain ⟨line, rfl⟩ := tokensOf_eq_singleton tokens
  simp only [Tier.onward, Tier.reader, List.singleton_append, orTail]

theorem Parsed.attr (object : Parsed cond .suffix ts e) (name : String) :
    Parsed cond .suffix (ts ++ [.dot, .ident name]) (.attr e name) := by
  have nothing : Takes (fun _ ts => .ok ((), ts)) [] () (Starts (·.grip < Tier.held .suffix)) := by
    refine ⟨0, fun m _ lexemes more tokens _ => ?_⟩
    rw [List.map_eq_nil_iff.1 tokens]
    rfl
  refine object.extend (fun _ => .attr e name) [.dot, .ident name] nothing
    ⟨_, _, rfl, Nat.lt_succ_self 6⟩ ?_
  intro m lexemes more tokens
  obtain ⟨line, rest, rfl, tokens'⟩ := tokensOf_eq_cons tokens
  obtain ⟨line', rfl⟩ := tokensOf_eq_singleton tokens'
  rfl

theorem Takes.weaken {α : Type} {F : Reader α} {x : α} {stops stops' : List Lexeme → Prop}
    (takes : Takes F ts x stops) (fewer : ∀ ts, stops' ts → stops ts) : Takes F ts x stops' := by
  obtain ⟨N, taken⟩ := takes
  exact ⟨N, fun m enough lexemes more tokens stop =>
    taken m enough lexemes more tokens (fewer more stop)⟩

theorem Parsed.index (object : Parsed cond .suffix ts e) (position : Parsed false .or us e') :
    Parsed cond .suffix (ts ++ .lbracket :: (us ++ [.rbracket])) (.index e e') := by
  refine object.extend (.index e) [.lbracket]
    ((takes_enclosed position .bracket).weaken fun _ _ => trivial)
    ⟨_, _, rfl, Nat.lt_succ_self 6⟩ ?_
  intro m lexemes more tokens
  obtain ⟨line, rfl⟩ := tokensOf_eq_singleton tokens
  simp only [Tier.onward, List.singleton_append, suffixes, Script.enclosed, bind_assoc]
  rfl

theorem Parsed.call (function : String) {args : List Expr}
    (taken : Takes (fun m => sequence m .paren) ts args (fun _ => True)) :
    Parsed cond .suffix (.ident function :: .lparen :: ts) (.call function args) := by
  have name : Parsed cond .suffix [.ident function] (.name function) :=
    .atom rfl fun m line ts => rfl
  refine name.extend (.call function) [.lparen] (taken.weaken fun _ _ => trivial)
    ⟨_, _, rfl, Nat.lt_succ_self 6⟩ ?_
  intro m lexemes more tokens
  obtain ⟨line, rfl⟩ := tokensOf_eq_singleton tokens
  simp only [Tier.onward, List.singleton_append, suffixes]

theorem Parsed.literal {v : Value} (plain : isPlainValue v = true) :
    Parsed cond .suffix [literalToken v] (.literal v) := by
  cases v with
  | null | int | str => exact .atom rfl fun m line ts => rfl
  | bool b => cases b <;> exact .atom rfl fun m line ts => rfl
  | _ => cases plain

mutual
theorem bare_parsed : ∀ (e : Expr), e.isPlain = true → ∀ cond, (cond && e.isMap) = false →
    Parsed cond e.tier (tokensIn (e.bare cond)) e
  | .literal v, plain, cond, _ => by
    rw [Expr.isPlain] at plain
    exact .literal plain
  | .template _, plain, _, _ => by cases plain
  | .name n, _, cond, _ => .atom rfl fun m line ts => rfl
  | .var n, _, cond, _ => .atom rfl fun m line ts => rfl
  | .list items, plain, cond, _ => by
    rw [Expr.isPlain] at plain
    have taken := items_parsed items plain .bracket
    simpa [Expr.bare, Expr.tier, Closer.token] using Parsed.opened .list (t := .lbracket) rfl taken
      fun m line ts => rfl
  | .map entries, plain, cond, free => by
    rw [Expr.isPlain] at plain
    rw [Expr.isMap, Bool.and_true] at free
    subst free
    have taken := entries_parsed entries plain
    have parsed : Parsed false .suffix (.lbrace :: _) _ :=
      Parsed.opened .map rfl taken fun m line ts => rfl
    simpa [Expr.bare, Expr.tier] using parsed
  | .attr object name, plain, cond, _ => by
    rw [Expr.isPlain, Bool.and_eq_true] at plain
    simpa [Expr.bare, Expr.tier, Closer.token] using
      (operand_parsed (bare_parsed object plain.1) cond .suffix).attr name
  | .index object position, plain, cond, _ => by
    rw [Expr.isPlain, Bool.and_eq_true] at plain
    simpa [Expr.bare, Expr.tier, Closer.token] using
      (operand_parsed (bare_parsed object plain.1) cond .suffix).index
        (operand_parsed (bare_parsed position plain.2) false .or)
  | .call function args, plain, cond, _ => by
    rw [Expr.isPlain, Bool.and_eq_true] at plain
    simpa [Expr.bare, Expr.tier, Closer.token] using Parsed.call function (items_parsed args plain.2 .paren)
  | .unary .not operand, plain, cond, _ => by
    rw [Expr.isPlain] at plain
    have inner := operand_parsed (bare_parsed operand plain) cond .not
    simpa [Expr.bare, Expr.tier, Closer.token] using inner.prefixed (t := .not) (.unary .not) rfl
      (fun _ _ _ => rfl) fun m line ts => rfl
  | .unary .neg operand, plain, cond, _ => by
    rw [Expr.isPlain, Bool.and_eq_true, Bool.not_eq_true'] at plain
    have inner := operand_parsed (bare_parsed operand plain.1) cond .sign
    have parsed := inner.prefixed (t := .minus) negated rfl (fun _ _ _ => rfl)
      fun m line ts => rfl
    rw [negated_of_isNumber plain.2] at parsed
    simpa [Expr.bare, Expr.tier, Closer.token] using parsed
  | .binary op left right, plain, cond, _ => by
    rw [Expr.isPlain, Bool.and_eq_true] at plain
    simpa [Expr.bare, Expr.tier, Closer.token] using
      (operand_parsed (bare_parsed left plain.1) cond _).binary
        (operand_parsed (bare_parsed right plain.2) cond _)
  | .and left right, plain, cond, _ => by
    rw [Expr.isPlain, Bool.and_eq_true] at plain
    simpa [Expr.bare, Expr.tier] using (operand_parsed (bare_parsed left plain.1) cond .and).and
      (operand_parsed (bare_parsed right plain.2) cond .not)
  | .or left right, plain, cond, _ => by
    rw [Expr.isPlain, Bool.and_eq_true] at plain
    simpa [Expr.bare, Expr.tier] using (operand_parsed (bare_parsed left plain.1) cond .or).or
      (operand_parsed (bare_parsed right plain.2) cond .and)

theorem items_parsed : ∀ items : List Expr, itemsPlain items = true → ∀ closer : Closer,
    Takes (fun m => sequence m closer) (tokensIn (itemGlyphs items) ++ [closer.token]) items
      (fun _ => True)
  | [], _, closer => takes_no_items closer
  | [e], plain, closer => by
    rw [itemsPlain, Bool.and_eq_true] at plain
    exact takes_last_item (operand_parsed (bare_parsed e plain.1) false .or) closer
  | e :: next :: rest, plain, closer => by
    rw [itemsPlain, Bool.and_eq_true] at plain
    simpa [itemGlyphs] using takes_item (operand_parsed (bare_parsed e plain.1) false .or)
      (items_parsed (next :: rest) plain.2 closer)

theorem entries_parsed : ∀ entries : List (Expr × Expr), entriesPlain entries = true →
    Takes Script.entries (tokensIn (entryGlyphs entries) ++ [.rbrace]) entries (fun _ => True)
  | [], _ => takes_no_entries
  | [(key, value)], plain => by
    rw [entriesPlain, Bool.and_eq_true, Bool.and_eq_true] at plain
    simpa [entryGlyphs] using takes_last_entry
      (operand_parsed (bare_parsed key plain.1.1) false .or)
      (operand_parsed (bare_parsed value plain.1.2) false .or)
  | (key, value) :: next :: rest, plain => by
    rw [entriesPlain, Bool.and_eq_true, Bool.and_eq_true] at plain
    simpa [entryGlyphs] using takes_entry
      (operand_parsed (bare_parsed key plain.1.1) false .or)
      (operand_parsed (bare_parsed value plain.1.2) false .or)
      (entries_parsed (next :: rest) plain.2)
end

end Playbook.Script
