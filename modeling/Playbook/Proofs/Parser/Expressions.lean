import Playbook.Proofs.Lexer.Cost
import Playbook.Proofs.Parser.Reading

/- Expressions take tokens whose brackets are balanced, and the same tokens are read the same way
   wherever they stand. The proof is one induction on the depth, over all parsers of expressions at
   once. -/
namespace Playbook.Script

theorem found_one {γ : Type} {op? : List Lexeme → Option (γ × List Lexeme)} {token : Token}
    (plain : token.Plain) (weight : token.cost = 16) {x : γ}
    (here : ∀ line ts, op? (⟨token, line⟩ :: ts) = some (x, ts)) (line : Nat)
    (rest : List Lexeme) : ∃ taken, ⟨token, line⟩ :: rest = taken ++ rest ∧
      Closed (tokensOf taken) ∧ 16 ≤ cost (tokensOf taken) ∧
      (∀ t ∈ (tokensOf taken).head?, t.grip = token.grip) ∧
      ∀ again more, tokensOf again = tokensOf taken → op? (again ++ more) = some (x, more) := by
  refine ⟨[⟨token, line⟩], rfl, plain.closed, ?_, ?_, fun again more tokens => ?_⟩
  · simp [weight]
  · intro t mem
    cases mem
    rfl
  · obtain ⟨line', rfl⟩ := tokensOf_eq_singleton tokens
    exact here line' more

def orOperator? : List Lexeme → Option (Unit × List Lexeme)
  | ⟨.or, _⟩ :: ts => some ((), ts)
  | _ => none

def andOperator? : List Lexeme → Option (Unit × List Lexeme)
  | ⟨.and, _⟩ :: ts => some ((), ts)
  | _ => none

theorem operators_or : Operators 1 orOperator? where
  found := by
    intro ts x rest found
    unfold orOperator? at found
    split at found <;> cases found
    exact found_one (fun _ => rfl) rfl (fun _ _ => rfl) _ _
  absent := by
    intro ts loose
    unfold orOperator?
    split
    · exact absurd (loose _ rfl) (by simp [Token.grip])
    · rfl

theorem operators_and : Operators 2 andOperator? where
  found := by
    intro ts x rest found
    unfold andOperator? at found
    split at found <;> cases found
    exact found_one (fun _ => rfl) rfl (fun _ _ => rfl) _ _
  absent := by
    intro ts loose
    unfold andOperator?
    split
    · exact absurd (loose _ rfl) (by simp [Token.grip])
    · rfl

def Level.grip : Level → Nat
  | .comparison => 3
  | .sum => 4
  | .product => 5

/-- How much deeper than its tokens cost an operand may need to go. -/
def Level.reach : Level → Nat
  | .comparison => 7
  | .sum => 5
  | .product => 3

theorem operators_level (level : Level) : Operators level.grip level.operator? where
  found := by
    intro ts x rest found
    unfold Level.operator? at found
    split at found <;> cases found
    case h_8 line line' =>
      refine ⟨[⟨.not, line⟩, ⟨.in_, line'⟩], rfl, fun _ => rfl, Nat.le_add_right 16 16, ?_, ?_⟩
      · intro t mem
        cases mem
        rfl
      · intro again more tokens
        obtain ⟨_, rest', rfl, tokens'⟩ := tokensOf_eq_cons tokens
        obtain ⟨_, rfl⟩ := tokensOf_eq_singleton tokens'
        rfl
    all_goals exact found_one (fun _ => rfl) rfl (fun _ _ => rfl) _ _
  absent := by
    intro ts loose
    unfold Level.operator?
    split
    all_goals first
      | rfl
      | exact absurd (loose _ rfl) (by simp [Token.grip, Level.grip])

def Closer.token : Closer → Token
  | .paren => .rparen
  | .bracket => .rbracket

theorem Closer.close?_token (closer : Closer) (line : Nat) (ts : List Lexeme) :
    closer.close? (⟨closer.token, line⟩ :: ts) = some ts := by
  cases closer <;> rfl

theorem Closer.close?_other (closer : Closer) (ts : List Lexeme)
    (starts : Starts (· ≠ closer.token) ts) : closer.close? ts = none := by
  unfold Closer.close?
  split
  · exact absurd rfl (starts _ rfl)
  · exact absurd rfl (starts _ rfl)
  · rfl

theorem Closer.closes (closer : Closer) : Closes inParen [closer.token] := by
  cases closer
  · exact closes_rparen
  · exact closes_rbracket

theorem expects_closer (closer : Closer) : Expects closer.token closer.expect where
  found := by
    intro ts rest ok
    unfold Closer.expect at ok
    split at ok <;> cases ok
    rename_i closed
    unfold Closer.close? at closed
    split at closed <;> cases closed
    · exact ⟨_, rfl⟩
    · exact ⟨_, rfl⟩
  passed line rest := by
    rw [Closer.expect, closer.close?_token]

theorem expects_colon : Expects .colon expectColon where
  found := by
    intro ts rest ok
    unfold expectColon at ok
    split at ok <;> cases ok
    exact ⟨_, rfl⟩
  passed line rest := rfl

theorem expects_rbrace : Expects .rbrace expectRightBrace where
  found := by
    intro ts rest ok
    unfold expectRightBrace at ok
    split at ok <;> cases ok
    exact ⟨_, rfl⟩
  passed line rest := rfl

theorem expects_lbrace : Expects .lbrace expectLeftBrace where
  found := by
    intro ts rest ok
    unfold expectLeftBrace at ok
    split at ok <;> cases ok
    exact ⟨_, rfl⟩
  passed line rest := rfl

structure IsInner (ts : List Token) : Prop where
  closed : ClosedInside ts
  cost : 16 ≤ cost ts

structure Ends (opened : Nest) (ts : List Token) : Prop where
  closes : Closes opened ts
  cost : 16 ≤ cost ts

/-- The first token does not hold on to what stands before it. -/
def Apart (ts : List Token) : Prop := ∃ t us, ts = t :: us ∧ t.grip = 0

theorem Apart.starts {ts : List Lexeme} (apart : Apart (tokensOf ts)) (more : List Lexeme) :
    Starts (·.grip < 1) (ts ++ more) := by
  obtain ⟨t, us, front, loose⟩ := apart
  obtain ⟨line, rest, rfl, -⟩ := tokensOf_eq_cons front
  exact starts_cons (by simp [loose])

theorem IsGap.apart {gap ts : List Token} (newlines : IsGap gap) (apart : Apart ts) :
    Apart (gap ++ ts) := by
  cases gap with
  | nil => exact apart
  | cons t gap =>
    obtain ⟨rfl, -⟩ := List.forall_mem_cons.1 newlines
    exact ⟨_, _, rfl, rfl⟩

theorem IsGap.inner {gap ts : List Token} (newlines : IsGap gap) (expr : IsExpr ts) :
    IsInner (gap ++ ts) := by
  refine ⟨newlines.inside.append expr.closed.inside, ?_⟩
  rw [cost_append]
  exact Nat.le_trans expr.cost (Nat.le_add_left _ _)

theorem IsGap.ends {opened : Nest} (inside : 0 < opened.1 + opened.2) {gap ts : List Token}
    (newlines : IsGap gap) (ends : Ends opened ts) : Ends opened (gap ++ ts) := by
  refine ⟨newlines.inside.closes inside ends.closes, ?_⟩
  rw [cost_append]
  exact Nat.le_trans ends.cost (Nat.le_add_left _ _)

theorem IsInner.ends {opened : Nest} (inside : 0 < opened.1 + opened.2) {ts us : List Token}
    (inner : IsInner ts) (ends : Ends opened us) : Ends opened (ts ++ us) := by
  refine ⟨inner.closed.closes inside ends.closes, ?_⟩
  rw [cost_append]
  exact Nat.le_trans ends.cost (Nat.le_add_left _ _)

theorem Ends.paren {ts : List Token} (ends : Ends inParen ts) : IsExpr (.lparen :: ts) :=
  ⟨ends.closes.paren, by simp [Token.cost]⟩

theorem Ends.bracket {ts : List Token} (ends : Ends inParen ts) : IsExpr (.lbracket :: ts) :=
  ⟨ends.closes.bracket, by simp [Token.cost]⟩

theorem Ends.brace {ts : List Token} (ends : Ends inBrace ts) : IsExpr (.lbrace :: ts) :=
  ⟨ends.closes.brace, by simp [Token.cost]⟩

def enclosed (closer : Closer) : Reader Expr := fun m ts =>
  disjunction m false (skipNewlines ts) >>= fun r =>
    closer.expect (skipNewlines r.2) >>= fun ts => .ok (r.1, ts)

def listEnd {β : Type} (expect : List Lexeme → Reading (List Lexeme)) (again : Reader (List β))
    (item : β) : Reader (List β) := fun m ts =>
  match skipNewlines ts with
  | ⟨.comma, _⟩ :: ts => again m ts >>= fun r => .ok (item :: r.1, r.2)
  | ts => expect ts >>= fun ts => .ok ([item], ts)

def items (closer : Closer) : Reader (List Expr) := fun m ts =>
  match closer.close? ts with
  | some ts => .ok ([], ts)
  | none => disjunction m false ts >>= fun r =>
    listEnd closer.expect (fun m => sequence m closer) r.1 m r.2

def entryEnd (key : Expr) : Reader (List (Expr × Expr)) := fun m ts =>
  expectColon (skipNewlines ts) >>= fun ts =>
    disjunction m false (skipNewlines ts) >>= fun r =>
      listEnd expectRightBrace entries (key, r.1) m r.2

def keyedItems : Reader (List (Expr × Expr)) := fun m ts =>
  match ts with
  | ⟨.rbrace, _⟩ :: ts => .ok ([], ts)
  | ts => disjunction m false ts >>= fun r => entryEnd r.1 m r.2

structure Bracket (opened : Nest) (token : Token)
    (expect : List Lexeme → Reading (List Lexeme)) : Prop where
  inside : 0 < opened.1 + opened.2
  closes : Closes opened [token]
  weight : token.cost = 16
  loose : token.grip = 0
  visible : token ≠ .newline
  expects : Expects token expect

theorem bracket_closer (closer : Closer) : Bracket inParen closer.token closer.expect where
  inside := Nat.one_pos
  closes := closer.closes
  weight := by cases closer <;> rfl
  loose := by cases closer <;> rfl
  visible := by cases closer <;> exact Token.noConfusion
  expects := expects_closer closer

theorem bracket_rbrace : Bracket inBrace .rbrace expectRightBrace where
  inside := Nat.one_pos
  closes := closes_rbrace
  weight := rfl
  loose := rfl
  visible := Token.noConfusion
  expects := expects_rbrace

theorem Bracket.ends {opened : Nest} {token : Token}
    {expect : List Lexeme → Reading (List Lexeme)} (bracket : Bracket opened token expect) :
    Ends opened [token] :=
  ⟨bracket.closes, by simp [bracket.weight]⟩

namespace Reads
variable {β : Type} {n : Nat} {opened : Nest} {token : Token}
  {expect : List Lexeme → Reading (List Lexeme)}

theorem closing (bracket : Bracket opened token expect) (x : β) :
    Reads (fun ts => Ends opened ts ∧ Apart ts) (fun _ => True) 0
      (fun _ ts => expect (skipNewlines ts) >>= fun ts => .ok (x, ts)) n := by
  apply skipping (expecting bracket.expects (done x))
  · rintro gap ts newlines ⟨us, rfl, rfl⟩
    exact ⟨newlines.ends bracket.inside bracket.ends, newlines.apart ⟨_, _, rfl, bracket.loose⟩⟩
  · rintro ts ⟨us, rfl, rfl⟩
    exact ⟨_, _, rfl, bracket.visible⟩

theorem listEnd (bracket : Bracket opened token expect) {again : Reader (List β)}
    (reads : Reads (Ends opened) (fun _ => True) 1 again n) (item : β) :
    Reads (fun ts => Ends opened ts ∧ Apart ts) (fun _ => True) 0
      (listEnd expect again item) n := by
  have either : Reads (fun ts => Ends opened ts ∧ Apart ts ∧ Visible ts) (fun _ => True) 0
      (fun m ts => match ts with
        | ⟨.comma, _⟩ :: ts => again m ts >>= fun r => .ok (item :: r.1, r.2)
        | ts => expect ts >>= fun ts => .ok ([item], ts)) n := by
    refine choice .comma (fun _ _ _ => rfl) ?_ (reads.map (item :: ·))
      (expecting bracket.expects (done [item])) ?_ ?_ ?_ (Nat.le_refl 0)
    · intro m ts starts
      split
      · exact absurd rfl (starts _ rfl)
      · rfl
    · intro ts ends
      refine ⟨⟨ends.closes, ?_⟩, ⟨_, _, rfl, rfl⟩, _, _, rfl, Token.noConfusion⟩
      simp [Token.cost]
    · rintro ts ⟨us, rfl, rfl⟩
      exact ⟨⟨bracket.ends, ⟨_, _, rfl, bracket.loose⟩, _, _, rfl, bracket.visible⟩, by simp⟩
    · exact Nat.le_add_left 1 15
  refine skipping either ?_ fun ts shape => shape.2.2
  rintro gap ts newlines ⟨ends, apart, -⟩
  exact ⟨newlines.ends bracket.inside ends, newlines.apart apart⟩

theorem inner {G : Expr → Reader β} (inside : 0 < opened.1 + opened.2)
    (expr : Reads IsExpr (Starts (·.grip < 1)) 11 (fun m => disjunction m false) n)
    (next : ∀ e, Reads (fun ts => Ends opened ts ∧ Apart ts) (fun _ => True) 0 (G e) n) :
    Reads (Ends opened) (fun _ => True) 0
      (fun m ts => disjunction m false (skipNewlines ts) >>= fun r => G r.1 m r.2) n := by
  have first := expr.skipping (fun gap ts newlines => newlines.inner) fun ts => IsExpr.visible
  refine andThen first next (fun a b inner ends => ⟨inner.ends inside ends.1, ?_, ?_⟩) ?_
  · have := ends.1.cost
    omega
  · exact Nat.zero_le _
  · exact fun ts more ends _ => ends.2.starts more

theorem enclosed (closer : Closer)
    (expr : Reads IsExpr (Starts (·.grip < 1)) 11 (fun m => disjunction m false) n) :
    Reads (Ends inParen) (fun _ => True) 0 (enclosed closer) n :=
  inner (bracket_closer closer).inside expr fun e => closing (bracket_closer closer) e

theorem entryEnd (expr : Reads IsExpr (Starts (·.grip < 1)) 11 (fun m => disjunction m false) n)
    (more : Reads (Ends inBrace) (fun _ => True) 1 entries n) (key : Expr) :
    Reads (fun ts => Ends inBrace ts ∧ Apart ts) (fun _ => True) 0 (entryEnd key) n := by
  have value := inner bracket_rbrace.inside expr fun e => listEnd bracket_rbrace more (key, e)
  apply skipping (expecting expects_colon value)
  · rintro gap ts newlines ⟨us, rfl, ends⟩
    refine ⟨newlines.ends bracket_rbrace.inside ⟨ends.closes, ?_⟩, newlines.apart ⟨_, _, rfl, rfl⟩⟩
    simp [Token.cost]
  · rintro ts ⟨us, rfl, -⟩
    exact ⟨_, _, rfl, Token.noConfusion⟩

theorem listed {F : Reader (List β)} {G : Expr → Reader (List β)}
    (bracket : Bracket opened token expect)
    (here : ∀ m line ts, F m (⟨token, line⟩ :: ts) = .ok ([], ts))
    (there : ∀ m ts, Starts (· ≠ token) ts →
      F m ts = disjunction m false ts >>= fun r => G r.1 m r.2)
    (expr : Reads IsExpr (Starts (·.grip < 1)) 11 (fun m => disjunction m false) n)
    (next : ∀ e, Reads (fun ts => Ends opened ts ∧ Apart ts) (fun _ => True) 0 (G e) n) :
    Reads (Ends opened) (fun _ => True) 0 (fun m ts => F m (skipNewlines ts)) n := by
  have some : Reads (fun ts => Ends opened ts ∧ Visible ts) (fun _ => True) 0
      (fun m ts => disjunction m false ts >>= fun r => G r.1 m r.2) n := by
    refine andThen expr next (fun a b expr ends => ⟨⟨?_, ?_⟩, ?_, Nat.zero_le _⟩) ?_
    · exact IsGap.nil.inner expr |>.ends bracket.inside ends.1
    · obtain ⟨t, us, rfl, visible⟩ := expr.visible
      exact ⟨t, us ++ b, rfl, visible⟩
    · have := ends.1.cost
      omega
    · exact fun ts more ends _ => ends.2.starts more
  have either : Reads (fun ts => Ends opened ts ∧ Visible ts) (fun _ => True) 0 F n := by
    refine choice token here there (done []) some ?_ ?_ (Nat.zero_le _) (Nat.le_refl 0)
    · rintro ts rfl
      exact ⟨bracket.ends, _, _, rfl, bracket.visible⟩
    · rintro ts ⟨ends, visible⟩
      refine ⟨⟨ends, visible⟩, ?_⟩
      obtain ⟨t, us, rfl, -⟩ := visible
      exact List.cons_ne_nil _ _
  refine skipping either ?_ fun ts shape => shape.2
  exact fun gap ts newlines shape => newlines.ends bracket.inside shape.1

end Reads

theorem suffixes_of_starts {ts : List Lexeme} (loose : Starts (·.grip < 6) ts) (m : Nat)
    (object : Expr) : suffixes (m + 1) object ts = .ok (object, ts) := by
  simp only [suffixes]
  split
  case h_5 => rfl
  all_goals exact absurd (loose _ rfl) (Nat.lt_irrefl 6)

theorem primary_never {n : Nat} {token : Token} {cond : Bool}
    (stuck : ∀ m line ts, primary (m + 1) cond (⟨token, line⟩ :: ts) =
      .error ⟨line, .unexpected token.describe⟩) (line : Nat) (ts : List Lexeme) :
    ReadsAt IsExpr (Starts (·.grip < 7)) 0 (fun m => primary (m + 1) cond) n
      (⟨token, line⟩ :: ts) := by
  intro x rest ok
  simp only [stuck] at ok
  cases ok

theorem primary_literal {n : Nat} {token : Token} (plain : token.Plain)
    (weight : token.cost = 16) {cond : Bool} {e : Expr}
    (same : ∀ m line ts, primary (m + 1) cond (⟨token, line⟩ :: ts) = .ok (e, ts))
    (line : Nat) (ts : List Lexeme) :
    ReadsAt IsExpr (Starts (·.grip < 7)) 0 (fun m => primary (m + 1) cond) n
      (⟨token, line⟩ :: ts) := by
  refine Reads.token (fun m line ts r => by rw [same]) (Reads.done e) ?_ (Nat.zero_le _)
  rintro ts rfl
  exact ⟨plain.closed, by simp [weight]⟩

structure ExpressionsRead (n : Nat) : Prop where
  disjunction : ∀ cond, Reads IsExpr (Starts (·.grip < 1)) 11 (fun m => disjunction m cond) n
  orTail : ∀ cond left,
    Reads (IsTail 1) (Starts (·.grip < 1)) 1 (fun m => orTail m cond left) n
  conjunction : ∀ cond, Reads IsExpr (Starts (·.grip < 2)) 10 (fun m => conjunction m cond) n
  andTail : ∀ cond left,
    Reads (IsTail 2) (Starts (·.grip < 2)) 1 (fun m => andTail m cond left) n
  inversion : ∀ cond, Reads IsExpr (Starts (·.grip < 3)) 9 (fun m => inversion m cond) n
  chain : ∀ cond (level : Level),
    Reads IsExpr (Starts (·.grip < level.grip)) (level.reach + 1) (fun m => chain m cond level) n
  chainTail : ∀ cond (level : Level) left,
    Reads (IsTail level.grip) (Starts (·.grip < level.grip)) 1
      (fun m => chainTail m cond level left) n
  operand : ∀ cond (level : Level),
    Reads IsExpr (Starts (·.grip < level.grip + 1)) level.reach (fun m => operand m cond level) n
  sign : ∀ cond, Reads IsExpr (Starts (·.grip < 6)) 2 (fun m => sign m cond) n
  suffixes : ∀ object, Reads (IsTail 6) (Starts (·.grip < 6)) 1 (fun m => suffixes m object) n
  primary : ∀ cond, Reads IsExpr (Starts (·.grip < 7)) 1 (fun m => primary m cond) n
  sequence : ∀ closer, Reads (Ends inParen) (fun _ => True) 1 (fun m => sequence m closer) n
  entries : Reads (Ends inBrace) (fun _ => True) 1 entries n
  holes : ∀ pieces parts, holes n pieces = .ok parts →
    ∀ m, Pieces.cost pieces + 1 ≤ m → holes m pieces = .ok parts
  soleExpression : ∀ source e, soleExpression n source = .ok e →
    ∀ m, 16 * source.toList.length + 12 ≤ m → soleExpression m source = .ok e

namespace ExpressionsRead
variable {n : Nat} (reads : ExpressionsRead n)
include reads

theorem succ_disjunction (cond : Bool) :
    Reads IsExpr (Starts (·.grip < 1)) 11 (fun m => Script.disjunction m cond) (n + 1) :=
  .deeper (.prolonged (reads.conjunction cond) (reads.orTail cond) (by decide)) fun _ _ => by
    simp only [Script.disjunction]

theorem succ_orTail (cond : Bool) (left : Expr) :
    Reads (IsTail 1) (Starts (·.grip < 1)) 1 (fun m => Script.orTail m cond left) (n + 1) := by
  refine .tail operators_or (fun left m => Script.orTail m cond left) (fun _ => .or)
    (fun m left ts => ?_) (reads.conjunction cond) (by decide) (reads.orTail cond) left
  simp only [Script.orTail]
  match ts with
  | [] => rfl
  | ⟨t, line⟩ :: ts => cases t <;> rfl

theorem succ_conjunction (cond : Bool) :
    Reads IsExpr (Starts (·.grip < 2)) 10 (fun m => Script.conjunction m cond) (n + 1) :=
  .deeper (.prolonged (reads.inversion cond) (reads.andTail cond) (by decide)) fun _ _ => by
    simp only [Script.conjunction]

theorem succ_andTail (cond : Bool) (left : Expr) :
    Reads (IsTail 2) (Starts (·.grip < 2)) 1 (fun m => Script.andTail m cond left) (n + 1) := by
  refine .tail operators_and (fun left m => Script.andTail m cond left) (fun _ => .and)
    (fun m left ts => ?_) (reads.inversion cond) (by decide) (reads.andTail cond) left
  simp only [Script.andTail]
  match ts with
  | [] => rfl
  | ⟨t, line⟩ :: ts => cases t <;> rfl

theorem succ_inversion (cond : Bool) :
    Reads IsExpr (Starts (·.grip < 3)) 9 (fun m => Script.inversion m cond) (n + 1) := by
  refine .prefixed .not (fun _ => rfl) rfl (.unary .not) (fun m line ts => ?_)
    (fun m ts starts => ?_) (reads.chain cond .comparison) (reads.inversion cond)
  · simp only [Script.inversion]
    rfl
  · simp only [Script.inversion]
    split
    · exact absurd rfl (starts _ rfl)
    · rfl

theorem succ_chain (cond : Bool) (level : Level) :
    Reads IsExpr (Starts (·.grip < level.grip)) (level.reach + 1)
      (fun m => Script.chain m cond level) (n + 1) :=
  .deeper (.prolonged (reads.operand cond level) (reads.chainTail cond level) (by omega))
    fun _ _ => by simp only [Script.chain]

theorem succ_chainTail (cond : Bool) (level : Level) (left : Expr) :
    Reads (IsTail level.grip) (Starts (·.grip < level.grip)) 1
      (fun m => Script.chainTail m cond level left) (n + 1) := by
  refine .tail (operators_level level) (fun left m => Script.chainTail m cond level left)
    .binary (fun m left ts => ?_)
    (reads.operand cond level) (by cases level <;> decide) (reads.chainTail cond level) left
  simp only [Script.chainTail]
  cases level.operator? ts <;> rfl

theorem succ_operand (cond : Bool) (level : Level) :
    Reads IsExpr (Starts (·.grip < level.grip + 1)) level.reach
      (fun m => Script.operand m cond level) (n + 1) := by
  cases level with
  | comparison => exact (reads.chain cond .sum).deeper fun _ _ => by simp only [Script.operand]
  | sum => exact (reads.chain cond .product).deeper fun _ _ => by simp only [Script.operand]
  | product => exact (reads.sign cond).deeper fun _ _ => by simp only [Script.operand]

theorem succ_sign (cond : Bool) :
    Reads IsExpr (Starts (·.grip < 6)) 2 (fun m => Script.sign m cond) (n + 1) := by
  refine .prefixed .minus (fun _ => rfl) rfl negated (fun m line ts => ?_)
    (fun m ts starts => ?_) (.prolonged (reads.primary cond) reads.suffixes (by decide))
    (reads.sign cond)
  · simp only [Script.sign]
    rfl
  · simp only [Script.sign]
    split
    · exact absurd rfl (starts _ rfl)
    · rfl

theorem succ_sequence (closer : Closer) :
    Reads (Ends inParen) (fun _ => True) 1 (fun m => Script.sequence m closer) (n + 1) := by
  refine .deeper (.listed (F := items closer) (bracket_closer closer) (fun m line ts => ?_)
    (fun m ts starts => ?_) (reads.disjunction false)
    fun e => .listEnd (bracket_closer closer) (reads.sequence closer) e) fun m ts => ?_
  · rw [items, closer.close?_token]
  · rw [items, closer.close?_other ts starts]
  · simp only [Script.sequence]
    rfl

theorem succ_entries : Reads (Ends inBrace) (fun _ => True) 1 Script.entries (n + 1) := by
  refine .deeper (.listed (F := keyedItems) bracket_rbrace (fun m line ts => rfl)
    (fun m ts starts => ?_) (reads.disjunction false)
    fun key => .entryEnd (reads.disjunction false) reads.entries key) fun m ts => ?_
  · unfold keyedItems
    split
    · exact absurd rfl (starts _ rfl)
    · rfl
  · simp only [Script.entries]
    rfl

theorem bracketed {β : Type} {opener : Token} {k : Nat} {F : Reader β} (make : β → Expr)
    (opens : ∀ ts, Ends inParen ts → IsExpr (opener :: ts)) (tight : opener.grip = 6)
    (weight : opener.cost = 16) (bracket : Reads (Ends inParen) (fun _ => True) k F n)
    (small : k ≤ 1) {object : Expr} {line : Nat} {ts : List Lexeme}
    (same : ∀ m line ts, Script.suffixes (m + 1) object (⟨opener, line⟩ :: ts) =
      F m ts >>= fun r => Script.suffixes m (make r.1) r.2) :
    ReadsAt (IsTail 6) (Starts (·.grip < 6)) 0 (fun m => Script.suffixes (m + 1) object) n
      (⟨opener, line⟩ :: ts) := by
  have rest := Reads.andThen (k := 1) (C := fun ts => IsTail 6 (opener :: ts)) bracket
    (fun x => reads.suffixes (make x)) (fun a b ends tail => ⟨⟨?_, ?_⟩, by omega, by omega⟩)
    fun _ _ _ _ => trivial
  · exact Reads.token (fun m line ts r => by rw [same]) rest (fun ts tail => tail) (by omega)
  · exact (opens a ends).closed.append tail.closed
  · intro t mem
    cases mem
    exact tight

theorem succ_suffixes (object : Expr) :
    Reads (IsTail 6) (Starts (·.grip < 6)) 1 (fun m => Script.suffixes m object) (n + 1) := by
  refine .deeper (H := fun m => Script.suffixes (m + 1) object) (fun ts x rest ok => ?_)
    fun _ _ => rfl
  have whole := ok
  simp only [Script.suffixes] at ok
  split at ok
  case h_1 line name line' after =>
    obtain ⟨a, rfl, tail, elsewhere⟩ := reads.suffixes _ after x rest ok
    refine ⟨⟨.dot, line⟩ :: ⟨.ident name, line'⟩ :: a, rfl, ⟨?_, ?_⟩, ?_⟩
    · have named : Closed [.dot, .ident name] := fun _ => rfl
      exact named.append tail.closed
    · intro t mem
      cases mem
      rfl
    · intro m again more tokens stop depth
      obtain ⟨_, rest', rfl, tokens'⟩ := tokensOf_eq_cons tokens
      obtain ⟨_, a', rfl, sameA⟩ := tokensOf_eq_cons tokens'
      simp only [tokensOf_cons, cost_cons] at depth
      simp only [List.cons_append, Script.suffixes]
      exact elsewhere m a' more sameA stop (by simp only [Token.cost] at depth; omega)
  case h_2 => cases ok
  case h_3 line after =>
    refine reads.bracketed (.index object) (fun _ => Ends.bracket) rfl rfl
      (.enclosed .bracket (reads.disjunction false)) (Nat.zero_le 1) (fun m line ts => ?_) x rest
      whole
    simp only [Script.suffixes, Script.enclosed, bind_assoc]
    rfl
  case h_4 line after =>
    cases object with
    | name function =>
      refine reads.bracketed (.call function) (fun _ => Ends.paren) rfl rfl
        (reads.sequence .paren) (Nat.le_refl 1) (fun m line ts => ?_) x rest whole
      simp only [Script.suffixes]
    | _ => cases ok
  case h_5 =>
    cases ok
    refine ⟨[], rfl, .nil 6, fun m again more tokens stop _ => ?_⟩
    rw [List.map_eq_nil_iff.1 tokens, List.nil_append]
    exact suffixes_of_starts stop m object

theorem succ_holes (pieces : List Piece) (parts : List Part)
    (ok : Script.holes (n + 1) pieces = .ok parts) (m : Nat)
    (enough : Pieces.cost pieces + 1 ≤ m) : Script.holes m pieces = .ok parts := by
  obtain ⟨m, rfl⟩ : ∃ j, m = j + 1 := ⟨m - 1, by omega⟩
  match pieces with
  | [] => simpa only [Script.holes] using ok
  | .text cs :: more =>
    simp only [Script.holes] at ok ⊢
    obtain ⟨later, ok₁, ok₂⟩ := ok_of_bind ok
    cases ok₂
    simp only [Pieces.cost, Piece.cost] at enough
    rw [reads.holes more later ok₁ m (by omega)]
    rfl
  | .hole source :: more =>
    simp only [Script.holes] at ok ⊢
    simp only [Pieces.cost, Piece.cost] at enough
    split at ok
    · cases ok
    · rename_i e inside
      obtain ⟨later, ok₁, ok₂⟩ := ok_of_bind ok
      cases ok₂
      have inside' := reads.soleExpression _ e inside m (by rw [String.toList_ofList]; omega)
      simp only [inside', reads.holes more later ok₁ m (by omega)]
      rfl

theorem succ_soleExpression (source : String) (e : Expr)
    (ok : Script.soleExpression (n + 1) source = .ok e) (m : Nat)
    (enough : 16 * source.toList.length + 12 ≤ m) : Script.soleExpression m source = .ok e := by
  obtain ⟨m, rfl⟩ : ∃ j, m = j + 1 := ⟨m - 1, by omega⟩
  simp only [Script.soleExpression] at ok ⊢
  obtain ⟨ts, scanned, ok⟩ := ok_of_bind ok
  obtain ⟨⟨e', rest⟩, ok₁, ok₂⟩ := ok_of_bind ok
  obtain ⟨gap, split, newlines, -⟩ := skipNewlines_split ts
  obtain ⟨taken, split', expr, elsewhere⟩ := reads.disjunction false _ e' rest ok₁
  -- The tokens of a placeholder cost no more than its characters, which bounds the depth.
  have paid := cost_of_scans (scans_of_scan scanned)
  rw [split, split', tokensOf_append, tokensOf_append, cost_append, cost_append] at paid
  have stop : Starts (·.grip < 1) rest := by
    refine starts_of_skipNewlines Nat.one_pos fun t mem => ?_
    simp only at ok₂
    split at ok₂
    · rename_i none
      rw [none] at mem
      cases mem
    · rename_i eof
      rw [eof] at mem
      cases mem
      exact Nat.one_pos
    · cases ok₂
  have again := elsewhere m taken rest rfl stop (by omega)
  rw [← split'] at again
  rw [scanned]
  simp only [bind, Except.bind, again]
  exact ok₂

theorem template (s : String) (cond : Bool) (line : Nat) (ts : List Lexeme) :
    ReadsAt IsExpr (Starts (·.grip < 7)) 0 (fun m => Script.primary (m + 1) cond) n
      (⟨.template s, line⟩ :: ts) := by
  intro x rest ok
  simp only [Script.primary] at ok
  split at ok
  · cases ok
  · cases ok
  · rename_i parts inside sound
    cases ok
    have paid := Pieces.cost_ofBody s.toList
    refine ⟨[⟨.template s, line⟩], rfl, ⟨fun _ => rfl, ?_⟩, fun m again more tokens _ depth => ?_⟩
    · simp only [tokensOf_cons, tokensOf_nil, cost_cons, cost_nil, Token.cost]
      omega
    · obtain ⟨line', again', rfl, tokens'⟩ := tokensOf_eq_cons tokens
      simp only [tokensOf_cons, tokensOf_nil, cost_cons, cost_nil, Token.cost] at depth
      rw [List.map_eq_nil_iff.1 tokens']
      simp only [Script.primary, List.cons_append, List.nil_append]
      rw [reads.holes _ parts inside m (by omega), sound]

theorem succ_primary (cond : Bool) :
    Reads IsExpr (Starts (·.grip < 7)) 1 (fun m => Script.primary m cond) (n + 1) := by
  refine .deeper (H := fun m => Script.primary (m + 1) cond) (fun ts => ?_) fun _ _ => rfl
  match ts with
  | [] =>
    intro x rest ok
    cases ok
  | ⟨token, line⟩ :: ts =>
    cases token with
    | int | float | str | true_ | false_ | null | ident | var =>
      exact primary_literal (fun _ => rfl) rfl (fun _ _ _ => rfl) line ts
    | template s => exact reads.template s cond line ts
    | lparen =>
      have enclosed := Reads.enclosed .paren (reads.disjunction false)
      refine Reads.token (fun m line ts r => ?_) (enclosed.weaken (fun _ => id)
        (fun _ _ => trivial) (Nat.le_refl 0)) (fun _ => Ends.paren) (Nat.zero_le _)
      rfl
    | lbracket =>
      refine Reads.token (fun m line ts r => ?_) (((reads.sequence .bracket).map .list).weaken
        (fun _ => id) (fun _ _ => trivial) (Nat.le_refl 1)) (fun _ => Ends.bracket)
        (Nat.le_add_left 1 15)
      rfl
    | lbrace =>
      cases cond with
      | true => exact primary_never (fun _ _ _ => rfl) line ts
      | false =>
        refine Reads.token (fun m line ts r => ?_) ((reads.entries.map .map).weaken
          (fun _ => id) (fun _ _ => trivial) (Nat.le_refl 1)) (fun _ => Ends.brace)
          (Nat.le_add_left 1 15)
        rfl
    | _ => exact primary_never (fun _ _ _ => rfl) line ts

theorem succ : ExpressionsRead (n + 1) where
  disjunction := reads.succ_disjunction
  orTail := reads.succ_orTail
  conjunction := reads.succ_conjunction
  andTail := reads.succ_andTail
  inversion := reads.succ_inversion
  chain := reads.succ_chain
  chainTail := reads.succ_chainTail
  operand := reads.succ_operand
  sign := reads.succ_sign
  suffixes := reads.succ_suffixes
  primary := reads.succ_primary
  sequence := reads.succ_sequence
  entries := reads.succ_entries
  holes := reads.succ_holes
  soleExpression := reads.succ_soleExpression

end ExpressionsRead

theorem expressionsRead (n : Nat) : ExpressionsRead n := by
  induction n with
  | zero =>
    constructor
    case holes | soleExpression =>
      intro _ _ ok
      cases ok
    all_goals
      intros
      exact .at_zero fun ts x rest ok => by cases ok
  | succ n ih => exact ih.succ

end Playbook.Script
