import Playbook.Proofs.Parser.Numerals
import Playbook.Proofs.Parser.Templates

/- Signs before numbers. A sign is folded into a number as soon as both have been read, whatever
   parentheses stand between them. Wherever that happens in a text, and whatever numbers its tree
   has in the end, nothing leaves the range of whole numbers, and all come to the same as with their
   signs left in place. -/
namespace Playbook.Script
universe v

mutual
/-- The values that an expression names outright, at any depth. -/
def Expr.literals : Expr → List Value
  | .literal v => [v]
  | .template parts => partLiterals parts
  | .name _ | .var _ => []
  | .list items => itemLiterals items
  | .map entries => entryLiterals entries
  | .attr object _ => object.literals
  | .index object position => object.literals ++ position.literals
  | .call _ args => itemLiterals args
  | .unary _ operand => operand.literals
  | .binary _ left right | .and left right | .or left right => left.literals ++ right.literals

def itemLiterals : List Expr → List Value
  | [] => []
  | e :: rest => e.literals ++ itemLiterals rest

def entryLiterals : List (Expr × Expr) → List Value
  | [] => []
  | (key, value) :: rest => key.literals ++ value.literals ++ entryLiterals rest

def partLiterals : List Part → List Value
  | [] => []
  | .text _ :: rest => partLiterals rest
  | .hole e :: rest => e.literals ++ partLiterals rest
end

def Access.literals : Access → List Value
  | .field _ => []
  | .index position => position.literals

def Target.literals (t : Target) : List Value := t.path.flatMap Access.literals

mutual
def Stmt.literals : Stmt → List Value
  | .expr e => e.literals
  | .assign target _ value => target.literals ++ value.literals
  | .branch branches none => branchLiterals branches
  | .branch branches (some body) => branchLiterals branches ++ blockLiterals body

def branchLiterals : List (Expr × List Stmt) → List Value
  | [] => []
  | (condition, body) :: rest => condition.literals ++ blockLiterals body ++ branchLiterals rest

def blockLiterals : List Stmt → List Value
  | [] => []
  | s :: rest => s.literals ++ blockLiterals rest
end

/-- Every number among the values stands in the text with its signs. -/
def Traced (source : String) (values : List Value) : Prop :=
  ∀ k : Numeral, k.value ∈ values → ∃ w : Signed, w.StandsIn source ∧ w.folded = k

namespace Traced
variable {source : String} {us vs : List Value}

theorem nil : Traced source [] := fun _ mem => absurd mem List.not_mem_nil

theorem append (first : Traced source us) (second : Traced source vs) :
    Traced source (us ++ vs) := by
  intro k mem
  rcases List.mem_append.1 mem with mem | mem
  · exact first k mem
  · exact second k mem

theorem number {w : Signed} (stands : w.StandsIn source) : Traced source [w.folded.value] := by
  intro k mem
  exact ⟨w, stands, (Numeral.value_injective (List.mem_singleton.1 mem)).symm⟩

theorem other {v : Value} (other : ∀ k : Numeral, v ≠ k.value) : Traced source [v] :=
  fun k mem => absurd (List.mem_singleton.1 mem).symm (other k)

end Traced

/-- What has been read between two places: an expression whose numbers stand in the text, and which
    is itself a number only if the tokens between them are one with its signs. -/
structure Yields (source : String) (ts : List Lexeme) (e : Expr) (rest : List Lexeme) : Prop where
  literals : Traced source e.literals
  pending : Pending source rest
  number : ∀ k : Numeral, e = .literal k.value →
    ∃ (w : Signed) (taken : List Lexeme), ts = taken ++ rest ∧ tokensOf taken = w.tokens ∧
      w.folded = k

namespace Yields
variable {source : String} {ts us mid rest : List Lexeme} {left right e : Expr}

theorem compound (literals : Traced source e.literals) (pending : Pending source rest)
    (other : ∀ k : Numeral, e ≠ .literal k.value) : Yields source ts e rest :=
  ⟨literals, pending, fun k same => absurd same (other k)⟩

theorem both (first : Yields source ts left mid) (second : Yields source us right rest)
    (made : e.literals = left.literals ++ right.literals)
    (other : ∀ k : Numeral, e ≠ .literal k.value) : Yields source ts e rest :=
  compound (made ▸ first.literals.append second.literals) second.pending other

theorem signed (pending : Pending source ts) (w : Signed) (taken : List Lexeme)
    (split : ts = taken ++ rest) (same : tokensOf taken = w.tokens) :
    Yields source ts (.literal w.folded.value) rest := by
  refine ⟨?_, pending.of_suffix ⟨taken, split.symm⟩, fun k number => ⟨w, taken, split, same, ?_⟩⟩
  · rw [Expr.literals]
    exact .number (pending.stands split same)
  · exact Numeral.value_injective (Expr.literal.inj number)

theorem minus {line : Nat} (pending : Pending source (⟨.minus, line⟩ :: ts))
    (operand : Yields source ts e rest) :
    Yields source (⟨.minus, line⟩ :: ts) (negated e) rest := by
  by_cases number : ∃ k : Numeral, e = .literal k.value
  · obtain ⟨k, rfl⟩ := number
    obtain ⟨w, taken, rfl, same, rfl⟩ := operand.number k rfl
    rw [negated_number]
    exact signed pending (.minus w) (⟨.minus, line⟩ :: taken) rfl
      (congrArg (Token.minus :: ·) same)
  · rw [negated_other fun k same => number ⟨k, same⟩]
    exact compound operand.literals operand.pending (by rintro k ⟨⟩)

theorem tokensOf_gap {gap : List Lexeme} (newlines : IsGap (tokensOf gap)) :
    tokensOf gap = List.replicate gap.length .newline :=
  List.eq_replicate_iff.2 ⟨List.length_map _, newlines⟩

theorem parens {line : Nat} (inside : Yields source (skipNewlines ts) e mid)
    (closed : Closer.paren.expect (skipNewlines mid) = .ok rest) :
    Yields source (⟨.lparen, line⟩ :: ts) e rest := by
  have after := inside.pending.skipped.expected (expects_closer .paren) closed
  refine ⟨inside.literals, after, fun k number => ?_⟩
  obtain ⟨w, taken, split, same, folded⟩ := inside.number k number
  obtain ⟨line', found⟩ := (expects_closer .paren).found _ _ closed
  obtain ⟨gap, split₁, newlines₁, -⟩ := skipNewlines_split ts
  obtain ⟨gap', split₂, newlines₂, -⟩ := skipNewlines_split mid
  refine ⟨.parens gap.length w gap'.length,
    ⟨.lparen, line⟩ :: (gap ++ taken ++ gap' ++ [⟨.rparen, line'⟩]), ?_, ?_, folded⟩
  · rw [found] at split₂
    rw [split, split₂] at split₁
    rw [split₁]
    simp [Closer.token]
  · simp [Signed.tokens, tokensOf_gap newlines₁, tokensOf_gap newlines₂, same]

end Yields

/-- What each parser of expressions reads when it may go to some depth. The parsers that go on from
    an operand read nothing new when there is nothing to go on with, so that what they yield begins
    where the operand began. -/
structure ExpressionsTraced (source : String) (n : Nat) : Prop where
  disjunction : ∀ {cond ts e rest}, Pending source ts →
    disjunction n cond ts = .ok (e, rest) → Yields source ts e rest
  orTail : ∀ {cond left us ts e rest}, Yields source us left ts →
    orTail n cond left ts = .ok (e, rest) → Yields source us e rest
  conjunction : ∀ {cond ts e rest}, Pending source ts →
    conjunction n cond ts = .ok (e, rest) → Yields source ts e rest
  andTail : ∀ {cond left us ts e rest}, Yields source us left ts →
    andTail n cond left ts = .ok (e, rest) → Yields source us e rest
  inversion : ∀ {cond ts e rest}, Pending source ts →
    inversion n cond ts = .ok (e, rest) → Yields source ts e rest
  chain : ∀ {cond level ts e rest}, Pending source ts →
    chain n cond level ts = .ok (e, rest) → Yields source ts e rest
  chainTail : ∀ {cond level left us ts e rest}, Yields source us left ts →
    chainTail n cond level left ts = .ok (e, rest) → Yields source us e rest
  operand : ∀ {cond level ts e rest}, Pending source ts →
    operand n cond level ts = .ok (e, rest) → Yields source ts e rest
  sign : ∀ {cond ts e rest}, Pending source ts →
    sign n cond ts = .ok (e, rest) → Yields source ts e rest
  suffixes : ∀ {object us ts e rest}, Yields source us object ts →
    suffixes n object ts = .ok (e, rest) → Yields source us e rest
  primary : ∀ {cond ts e rest}, Pending source ts →
    primary n cond ts = .ok (e, rest) → Yields source ts e rest
  sequence : ∀ {closer ts items rest}, Pending source ts →
    sequence n closer ts = .ok (items, rest) →
    Traced source (itemLiterals items) ∧ Pending source rest
  entries : ∀ {ts entries rest}, Pending source ts → Script.entries n ts = .ok (entries, rest) →
    Traced source (entryLiterals entries) ∧ Pending source rest
  holes : ∀ {pieces parts}, (∀ hole, .hole hole ∈ pieces → ReadWith source (String.ofList hole)) →
    holes n pieces = .ok parts → Traced source (partLiterals parts)
  soleExpression : ∀ {text e}, ReadWith source text → soleExpression n text = .ok e →
    Traced source e.literals

namespace ExpressionsTraced
variable {source : String} {n : Nat} (traced : ExpressionsTraced source n) {cond : Bool}
  {us ts rest : List Lexeme} {left e : Expr}
include traced

theorem succ_disjunction (pending : Pending source ts)
    (read : Script.disjunction (n + 1) cond ts = .ok (e, rest)) : Yields source ts e rest := by
  simp only [Script.disjunction] at read
  obtain ⟨_, first, tail⟩ := ok_of_bind read
  exact traced.orTail (traced.conjunction pending first) tail

theorem succ_orTail (first : Yields source us left ts)
    (read : Script.orTail (n + 1) cond left ts = .ok (e, rest)) : Yields source us e rest := by
  simp only [Script.orTail] at read
  split at read
  · obtain ⟨⟨right, after⟩, second, tail⟩ := ok_of_bind read
    have operand := traced.conjunction first.pending.tail second
    exact traced.orTail (first.both operand rfl (by rintro k ⟨⟩)) tail
  · cases read
    exact first

theorem succ_conjunction (pending : Pending source ts)
    (read : Script.conjunction (n + 1) cond ts = .ok (e, rest)) : Yields source ts e rest := by
  simp only [Script.conjunction] at read
  obtain ⟨_, first, tail⟩ := ok_of_bind read
  exact traced.andTail (traced.inversion pending first) tail

theorem succ_andTail (first : Yields source us left ts)
    (read : Script.andTail (n + 1) cond left ts = .ok (e, rest)) : Yields source us e rest := by
  simp only [Script.andTail] at read
  split at read
  · obtain ⟨⟨right, after⟩, second, tail⟩ := ok_of_bind read
    have operand := traced.inversion first.pending.tail second
    exact traced.andTail (first.both operand rfl (by rintro k ⟨⟩)) tail
  · cases read
    exact first

theorem succ_inversion (pending : Pending source ts)
    (read : Script.inversion (n + 1) cond ts = .ok (e, rest)) : Yields source ts e rest := by
  simp only [Script.inversion] at read
  split at read
  · obtain ⟨_, first, same⟩ := ok_of_bind read
    cases same
    have operand := traced.inversion pending.tail first
    exact .compound operand.literals operand.pending (by rintro k ⟨⟩)
  · exact traced.chain pending read

theorem succ_chain {level : Level} (pending : Pending source ts)
    (read : Script.chain (n + 1) cond level ts = .ok (e, rest)) : Yields source ts e rest := by
  simp only [Script.chain] at read
  obtain ⟨_, first, tail⟩ := ok_of_bind read
  exact traced.chainTail (traced.operand pending first) tail

theorem succ_chainTail {level : Level} (first : Yields source us left ts)
    (read : Script.chainTail (n + 1) cond level left ts = .ok (e, rest)) :
    Yields source us e rest := by
  simp only [Script.chainTail] at read
  split at read
  · rename_i op after found
    obtain ⟨_, second, tail⟩ := ok_of_bind read
    obtain ⟨taken, split, -⟩ := (operators_level level).found _ _ _ found
    have pending := first.pending.of_suffix ⟨taken, split.symm⟩
    exact traced.chainTail (first.both (traced.operand pending second) rfl (by rintro k ⟨⟩)) tail
  · cases read
    exact first

theorem succ_operand {level : Level} (pending : Pending source ts)
    (read : Script.operand (n + 1) cond level ts = .ok (e, rest)) : Yields source ts e rest := by
  simp only [Script.operand] at read
  cases level with
  | comparison | sum => exact traced.chain pending read
  | product => exact traced.sign pending read

theorem succ_sign (pending : Pending source ts)
    (read : Script.sign (n + 1) cond ts = .ok (e, rest)) : Yields source ts e rest := by
  simp only [Script.sign] at read
  split at read
  · obtain ⟨_, first, same⟩ := ok_of_bind read
    cases same
    exact .minus pending (traced.sign pending.tail first)
  · obtain ⟨_, first, tail⟩ := ok_of_bind read
    exact traced.suffixes (traced.primary pending first) tail

theorem succ_suffixes (object : Yields source us left ts)
    (read : Script.suffixes (n + 1) left ts = .ok (e, rest)) : Yields source us e rest := by
  simp only [Script.suffixes] at read
  split at read
  · refine traced.suffixes (.compound ?_ object.pending.tail.tail (by rintro k ⟨⟩)) read
    exact object.literals
  · cases read
  · obtain ⟨⟨position, mid⟩, second, read⟩ := ok_of_bind read
    obtain ⟨after, closed, tail⟩ := ok_of_bind read
    have index := traced.disjunction object.pending.tail.skipped second
    have pending := index.pending.skipped.expected (expects_closer .bracket) closed
    refine traced.suffixes (.compound ?_ pending (by rintro k ⟨⟩)) tail
    exact object.literals.append index.literals
  · split at read
    · rename_i function
      obtain ⟨⟨args, after⟩, second, tail⟩ := ok_of_bind read
      obtain ⟨literals, pending⟩ := traced.sequence object.pending.tail second
      have call : Yields source us (.call function args) after :=
        .compound literals pending (by rintro k ⟨⟩)
      exact traced.suffixes call tail
    · cases read
  · cases read
    exact object

theorem succ_primary (pending : Pending source ts)
    (read : Script.primary (n + 1) cond ts = .ok (e, rest)) : Yields source ts e rest := by
  match ts with
  | [] => cases read
  | ⟨token, line⟩ :: ts =>
    cases token with
    | int i =>
      cases read
      exact .signed pending (.number (.int i)) [⟨.int i, line⟩] rfl rfl
    | float x =>
      cases read
      exact .signed pending (.number (.float x)) [⟨.float x, line⟩] rfl rfl
    | str | true_ | false_ | null =>
      cases read
      exact .compound (.other (by rintro ⟨⟩ ⟨⟩)) pending.tail (by rintro ⟨⟩ ⟨⟩)
    | ident | var =>
      cases read
      exact .compound .nil pending.tail (by rintro k ⟨⟩)
    | template s =>
      simp only [Script.primary] at read
      split at read
      · cases read
      · cases read
      · rename_i parts inside _
        cases read
        refine .compound (traced.holes (fun hole mem => ?_) inside) pending.tail (by rintro k ⟨⟩)
        obtain ⟨text, all, with_, tokens, suffix⟩ := pending
        exact .placeholder with_ tokens
          (List.mem_map_of_mem (suffix.subset List.mem_cons_self)) mem
    | lparen =>
      simp only [Script.primary] at read
      obtain ⟨⟨inner, mid⟩, first, read⟩ := ok_of_bind read
      obtain ⟨after, closed, same⟩ := ok_of_bind read
      cases same
      exact .parens (traced.disjunction pending.tail.skipped first) closed
    | lbracket =>
      simp only [Script.primary] at read
      obtain ⟨⟨items, after⟩, first, same⟩ := ok_of_bind read
      cases same
      obtain ⟨literals, after⟩ := traced.sequence pending.tail first
      exact .compound literals after (by rintro k ⟨⟩)
    | lbrace =>
      cases cond with
      | true => cases read
      | false =>
        simp only [Script.primary, Bool.false_eq_true, if_false] at read
        obtain ⟨⟨entries, after⟩, first, same⟩ := ok_of_bind read
        cases same
        obtain ⟨literals, after⟩ := traced.entries pending.tail first
        exact .compound literals after (by rintro k ⟨⟩)
    | _ => cases read

theorem succ_sequence {closer : Closer} {items : List Expr} (pending : Pending source ts)
    (read : Script.sequence (n + 1) closer ts = .ok (items, rest)) :
    Traced source (itemLiterals items) ∧ Pending source rest := by
  simp only [Script.sequence] at read
  split at read
  · rename_i after closed
    cases read
    refine ⟨.nil, pending.skipped.expected (expects_closer closer) ?_⟩
    rw [Closer.expect, closed]
  · obtain ⟨⟨item, mid⟩, first, read⟩ := ok_of_bind read
    have item := traced.disjunction pending.skipped first
    simp only at read
    split at read
    · rename_i found
      obtain ⟨⟨more, after⟩, second, same⟩ := ok_of_bind read
      cases same
      have pending := item.pending.skipped
      rw [found] at pending
      obtain ⟨literals, pending⟩ := traced.sequence pending.tail second
      exact ⟨item.literals.append literals, pending⟩
    · obtain ⟨after, closed, same⟩ := ok_of_bind read
      cases same
      have pending := item.pending.skipped.expected (expects_closer closer) closed
      exact ⟨item.literals.append .nil, pending⟩

theorem succ_entries {entries : List (Expr × Expr)} (pending : Pending source ts)
    (read : Script.entries (n + 1) ts = .ok (entries, rest)) :
    Traced source (entryLiterals entries) ∧ Pending source rest := by
  have skipped := pending.skipped
  simp only [Script.entries] at read
  split at read
  · rename_i found
    cases read
    rw [found] at skipped
    exact ⟨.nil, skipped.tail⟩
  · obtain ⟨⟨key, mid⟩, first, read⟩ := ok_of_bind read
    obtain ⟨after, colon, read⟩ := ok_of_bind read
    obtain ⟨⟨value, mid'⟩, second, read⟩ := ok_of_bind read
    have key := traced.disjunction skipped first
    have pending := key.pending.skipped.expected expects_colon colon
    have value := traced.disjunction pending.skipped second
    have entry := key.literals.append value.literals
    simp only at read
    split at read
    · rename_i found
      obtain ⟨⟨more, after⟩, third, same⟩ := ok_of_bind read
      cases same
      have pending := value.pending.skipped
      rw [found] at pending
      obtain ⟨literals, pending⟩ := traced.entries pending.tail third
      exact ⟨entry.append literals, pending⟩
    · obtain ⟨after, closed, same⟩ := ok_of_bind read
      cases same
      exact ⟨entry.append .nil, value.pending.skipped.expected expects_rbrace closed⟩

theorem succ_holes {pieces : List Piece} {parts : List Part}
    (within : ∀ hole, .hole hole ∈ pieces → ReadWith source (String.ofList hole))
    (read : Script.holes (n + 1) pieces = .ok parts) : Traced source (partLiterals parts) := by
  match pieces with
  | [] =>
    cases read
    exact .nil
  | .text cs :: more =>
    simp only [Script.holes] at read
    obtain ⟨later, rest, same⟩ := ok_of_bind read
    cases same
    rw [partLiterals]
    exact traced.holes (fun hole mem => within hole (List.mem_cons_of_mem _ mem)) rest
  | .hole hole :: more =>
    simp only [Script.holes] at read
    split at read
    · cases read
    · rename_i e inside
      obtain ⟨later, rest, same⟩ := ok_of_bind read
      cases same
      have first := traced.soleExpression (within hole List.mem_cons_self) inside
      have others := traced.holes (fun hole mem => within hole (List.mem_cons_of_mem _ mem)) rest
      exact first.append others

theorem succ_soleExpression {text : String} (within : ReadWith source text)
    (read : Script.soleExpression (n + 1) text = .ok e) : Traced source e.literals := by
  simp only [Script.soleExpression] at read
  obtain ⟨ts, tokens, read⟩ := ok_of_bind read
  obtain ⟨⟨e', rest⟩, first, same⟩ := ok_of_bind read
  have pending : Pending source ts := ⟨text, ts, within, tokens, List.suffix_refl ts⟩
  have whole := traced.disjunction pending.skipped first
  simp only at same
  split at same <;> cases same <;> exact whole.literals

theorem succ : ExpressionsTraced source (n + 1) where
  disjunction := traced.succ_disjunction
  orTail := traced.succ_orTail
  conjunction := traced.succ_conjunction
  andTail := traced.succ_andTail
  inversion := traced.succ_inversion
  chain := traced.succ_chain
  chainTail := traced.succ_chainTail
  operand := traced.succ_operand
  sign := traced.succ_sign
  suffixes := traced.succ_suffixes
  primary := traced.succ_primary
  sequence := traced.succ_sequence
  entries := traced.succ_entries
  holes := traced.succ_holes
  soleExpression := traced.succ_soleExpression

end ExpressionsTraced

theorem expressionsTraced (source : String) (n : Nat) : ExpressionsTraced source n := by
  -- The depth is what all the parsers take from, those of the placeholders too: at none of it, none
  -- of them reads anything.
  induction n with
  | zero =>
    constructor <;> intros
    all_goals
      rename_i read
      cases read
  | succ n ih => exact ih.succ

theorem literals_of_ofExpr? : ∀ {e : Expr} {t : Target}, Target.ofExpr? e = some t →
    t.literals = e.literals
  | .name _, _, found | .var _, _, found => by
    cases found
    rfl
  | .attr object name, _, found => by
    obtain ⟨inner, read, rfl⟩ := Option.map_eq_some_iff.1 found
    rw [Expr.literals, ← literals_of_ofExpr? read, Target.literals, Target.literals,
      List.flatMap_append]
    exact List.append_nil _
  | .index object position, _, found => by
    obtain ⟨inner, read, rfl⟩ := Option.map_eq_some_iff.1 found
    rw [Expr.literals, ← literals_of_ofExpr? read, Target.literals, Target.literals,
      List.flatMap_append, List.flatMap_singleton, Access.literals]
  | .literal _, _, found | .template _, _, found | .list _, _, found | .map _, _, found
  | .call _ _, _, found | .unary _ _, _, found | .binary _ _ _, _, found | .and _ _, _, found
  | .or _ _, _, found => by cases found

theorem literals_branch_cons (condition : Expr) (body : List Stmt)
    (branches : List (Expr × List Stmt)) (otherwise : Option (List Stmt)) :
    (Stmt.branch ((condition, body) :: branches) otherwise).literals =
      condition.literals ++ blockLiterals body ++ (Stmt.branch branches otherwise).literals := by
  cases otherwise with
  | none => rw [Stmt.literals, Stmt.literals, branchLiterals]
  | some last => rw [Stmt.literals, Stmt.literals, branchLiterals, List.append_assoc]

section Statements
variable {source : String} {n : Nat} {ts rest : List Lexeme}

theorem Pending.assigned {op : AssignOp} (pending : Pending source ts)
    (found : assignOp? ts = some (op, rest)) : Pending source rest := by
  unfold assignOp? at found
  split at found <;> cases found <;> exact pending.tail

theorem simpleStatement_traced {s : Stmt} (pending : Pending source ts)
    (read : simpleStatement n ts = .ok (s, rest)) :
    Traced source s.literals ∧ Pending source rest := by
  have traced := expressionsTraced source n
  unfold simpleStatement at read
  obtain ⟨⟨e, mid⟩, first, read⟩ := ok_of_bind read
  have left := traced.disjunction pending first
  simp only at read
  split at read
  · cases read
    exact ⟨left.literals, left.pending⟩
  · rename_i op after found
    split at read
    · cases read
    · rename_i target goal
      obtain ⟨⟨value, after'⟩, second, same⟩ := ok_of_bind read
      cases same
      have right := traced.disjunction (left.pending.assigned found) second
      refine ⟨?_, right.pending⟩
      rw [Stmt.literals, literals_of_ofExpr? goal]
      exact left.literals.append right.literals

structure StatementsTraced (source : String) (n : Nat) : Prop where
  statement : ∀ {ts s rest}, Pending source ts → statement n ts = .ok (s, rest) →
    Traced source s.literals ∧ Pending source rest
  furtherBranches : ∀ {ts branches otherwise rest}, Pending source ts →
    furtherBranches n ts = .ok ((branches, otherwise), rest) →
    Traced source (Stmt.branch branches otherwise).literals ∧ Pending source rest
  block : ∀ {ts body rest}, Pending source ts → block n ts = .ok (body, rest) →
    Traced source (blockLiterals body) ∧ Pending source rest
  blockTail : ∀ {ts body rest}, Pending source ts → blockTail n ts = .ok (body, rest) →
    Traced source (blockLiterals body) ∧ Pending source rest

namespace StatementsTraced
variable (traced : StatementsTraced source n)
include traced

theorem conditional {condition : Expr} {body : List Stmt} {branches : List (Expr × List Stmt)}
    {otherwise : Option (List Stmt)} {mid after : List Lexeme} (pending : Pending source ts)
    (first : disjunction n true ts = .ok (condition, mid))
    (second : Script.block n mid = .ok (body, after))
    (third : Script.furtherBranches n after = .ok ((branches, otherwise), rest)) :
    Traced source (Stmt.branch ((condition, body) :: branches) otherwise).literals ∧
      Pending source rest := by
  have first := (expressionsTraced source n).disjunction pending first
  obtain ⟨inside, pending⟩ := traced.block first.pending second
  obtain ⟨further, pending⟩ := traced.furtherBranches pending third
  rw [literals_branch_cons]
  exact ⟨(first.literals.append inside).append further, pending⟩

theorem succ_statement {s : Stmt} (pending : Pending source ts)
    (read : Script.statement (n + 1) ts = .ok (s, rest)) :
    Traced source s.literals ∧ Pending source rest := by
  simp only [Script.statement] at read
  split at read
  · obtain ⟨⟨condition, mid⟩, first, read⟩ := ok_of_bind read
    obtain ⟨⟨body, after⟩, second, read⟩ := ok_of_bind read
    obtain ⟨⟨⟨branches, otherwise⟩, last⟩, third, same⟩ := ok_of_bind read
    cases same
    exact traced.conditional pending.tail first second third
  · cases read
  · cases read
  · exact simpleStatement_traced pending read

theorem succ_furtherBranches {branches : List (Expr × List Stmt)}
    {otherwise : Option (List Stmt)} (pending : Pending source ts)
    (read : Script.furtherBranches (n + 1) ts = .ok ((branches, otherwise), rest)) :
    Traced source (Stmt.branch branches otherwise).literals ∧ Pending source rest := by
  have skipped := pending.skipped
  simp only [Script.furtherBranches] at read
  split at read
  · rename_i found
    rw [found] at skipped
    obtain ⟨⟨condition, mid⟩, first, read⟩ := ok_of_bind read
    obtain ⟨⟨body, after⟩, second, read⟩ := ok_of_bind read
    obtain ⟨⟨⟨more, last⟩, after'⟩, third, same⟩ := ok_of_bind read
    cases same
    exact traced.conditional skipped.tail first second third
  · rename_i found
    rw [found] at skipped
    obtain ⟨⟨body, after⟩, first, same⟩ := ok_of_bind read
    cases same
    exact traced.block skipped.tail first
  · cases read
    exact ⟨.nil, pending⟩

theorem succ_block {body : List Stmt} (pending : Pending source ts)
    (read : Script.block (n + 1) ts = .ok (body, rest)) :
    Traced source (blockLiterals body) ∧ Pending source rest := by
  simp only [Script.block] at read
  obtain ⟨after, opened, read⟩ := ok_of_bind read
  exact traced.blockTail (pending.expected expects_lbrace opened) read

theorem succ_blockTail {body : List Stmt} (pending : Pending source ts)
    (read : Script.blockTail (n + 1) ts = .ok (body, rest)) :
    Traced source (blockLiterals body) ∧ Pending source rest := by
  have skipped := pending.skipped
  simp only [Script.blockTail] at read
  split at read
  · rename_i found
    cases read
    rw [found] at skipped
    exact ⟨.nil, skipped.tail⟩
  · cases read
  · cases read
  · obtain ⟨⟨s, mid⟩, first, read⟩ := ok_of_bind read
    obtain ⟨here, pending⟩ := traced.statement skipped first
    simp only at read
    split at read
    case h_3 => cases read
    all_goals
      obtain ⟨⟨more, after⟩, second, same⟩ := ok_of_bind read
      cases same
      obtain ⟨later, pending⟩ := traced.blockTail pending second
      exact ⟨here.append later, pending⟩

theorem succ : StatementsTraced source (n + 1) where
  statement := traced.succ_statement
  furtherBranches := traced.succ_furtherBranches
  block := traced.succ_block
  blockTail := traced.succ_blockTail

end StatementsTraced

theorem statementsTraced (source : String) (n : Nat) : StatementsTraced source n := by
  induction n with
  | zero =>
    constructor <;> intros
    all_goals
      rename_i read
      cases read
  | succ n ih => exact ih.succ

theorem statements_traced {body : List Stmt} (pending : Pending source ts)
    (read : statements n ts = .ok body) : Traced source (blockLiterals body) := by
  induction n generalizing ts body with
  | zero => cases read
  | succ n ih =>
    simp only [statements] at read
    split at read
    · cases read
      exact .nil
    · cases read
      exact .nil
    · obtain ⟨⟨s, mid⟩, first, read⟩ := ok_of_bind read
      obtain ⟨here, pending⟩ := (statementsTraced source n).statement pending.skipped first
      simp only at read
      split at read
      case h_4 => cases read
      all_goals
        obtain ⟨more, second, same⟩ := ok_of_bind read
        cases same
        exact here.append (ih pending second)

end Statements

/-- What is true of the numbers that a tree has from a text: none is the least word, and each is
    what its signs in the text come to when they are left in place and evaluated. -/
structure Faithful {m : Type → Type v} [Monad m] (h : Handler m) (source : String)
    (values : List Value) : Prop where
  within : ∀ i, .int i ∈ values → -(2 ^ 63 - 1) ≤ i.toInt ∧ i.toInt ≤ 2 ^ 63 - 1
  evaluated : ∀ k : Numeral, k.value ∈ values →
    ∃ w : Signed, w.StandsIn source ∧ w.folded = k ∧ eval h w.unfolded = pure k.value

section Folding
variable {m : Type → Type v} [Monad m] [LawfulMonad m] (h : Handler m) {source : String}

theorem Traced.faithful {values : List Value} (traced : Traced source values) :
    Faithful h source values where
  within i mem := by
    obtain ⟨w, stands, folded⟩ := traced (.int i) mem
    have within := stands.within
    rwa [folded] at within
  evaluated k mem := by
    obtain ⟨w, stands, rfl⟩ := traced k mem
    exact ⟨w, stands, rfl, w.eval_unfolded h stands.unsigned⟩

theorem parseExpression_faithful {e : Expr} (read : parseExpression source = .ok e) :
    Faithful h source e.literals :=
  Traced.faithful h ((expressionsTraced source _).soleExpression .itself read)

theorem parseProgram_faithful {program : List Stmt} (read : parseProgram source = .ok program) :
    Faithful h source (blockLiterals program) := by
  obtain ⟨ts, tokens, read⟩ := ok_of_bind read
  have pending : Pending source ts := ⟨source, ts, .itself, tokens, List.suffix_refl ts⟩
  exact Traced.faithful h (statements_traced pending read)

theorem Yields.within {ts rest : List Lexeme} {e : Expr} (yields : Yields source ts e rest)
    (pending : Pending source ts) (k : Numeral) (number : e = .literal k.value) : k.Within := by
  obtain ⟨w, taken, split, same, rfl⟩ := yields.number k number
  exact (pending.stands split same).within

end Folding

/-- Signs that are folded into the numbers behind them never leave the range of whole numbers and
    come to the same as signs that are left in place: in the tree of every text, and wherever a sign
    is read in it or in one of its placeholders. -/
theorem signs_fold_as_they_evaluate {m : Type → Type v} [Monad m] [LawfulMonad m] (h : Handler m)
    (source : String) :
    (∀ e, parseExpression source = .ok e → Faithful h source e.literals) ∧
    (∀ program, parseProgram source = .ok program → Faithful h source (blockLiterals program)) ∧
    ∀ line ts n cond e rest, Pending source (⟨.minus, line⟩ :: ts) →
      sign (n + 1) cond (⟨.minus, line⟩ :: ts) = .ok (e, rest) →
      ∃ operand, sign n cond ts = .ok (operand, rest) ∧
        eval h e = eval h (.unary .neg operand) ∧
        ∀ i, operand = .literal (.int i) → e = .literal (.int (-i)) ∧ (-i).toInt = -i.toInt := by
  refine ⟨fun e => parseExpression_faithful h, fun program => parseProgram_faithful h, ?_⟩
  intro line ts n cond e rest pending read
  simp only [sign] at read
  obtain ⟨⟨operand, after⟩, first, same⟩ := ok_of_bind read
  cases same
  have yields := (expressionsTraced source n).sign pending.tail first
  refine ⟨operand, first, eval_negated h fun k => yields.within pending.tail k, ?_⟩
  rintro i rfl
  exact ⟨rfl, Numeral.toInt_neg (yields.within pending.tail (.int i) rfl)⟩

def signedTwice : String := "-(;-9223372036854775807)"

def largest : Expr := .literal (.int 9223372036854775807)

def signedInside : String := "f\"\x7b-(-5)\x7d\""

def afterSign : List Lexeme :=
  [⟨.lparen, 1⟩, ⟨.minus, 1⟩, ⟨.int 5, 1⟩, ⟨.rparen, 1⟩, ⟨.eof, 1⟩]

def signedHole : Fragment := .hole "-(-5)".toList '}' (.literal (.int 5))

theorem signedHole_spells : Spells [signedHole] "\x7b-(-5)\x7d".toList := by
  have operand : Balanced anyBracket ['-', '5'] := .plain rfl rfl rfl (.plain rfl rfl rfl .nil)
  have balanced : Balanced anyBracket "-(-5)".toList :=
    .plain rfl rfl rfl (.nested ⟨rfl, rfl⟩ operand .nil)
  have read : parseExpression (String.ofList "-(-5)".toList) = .ok (.literal (.int 5)) := by cbv
  exact ⟨List.forall_mem_singleton.mpr (.hole rfl balanced (by decide) (by decide) read), by decide⟩

theorem pending_in_signedHole : Pending signedInside (⟨.minus, 1⟩ :: afterSign) := by
  have outside : tokenize signedInside = .ok [⟨.template "\x7b-(-5)\x7d", 1⟩, ⟨.eof, 1⟩] := by cbv
  have inside : tokenize "-(-5)" = .ok (⟨.minus, 1⟩ :: afterSign) := by cbv
  have pieces := ofBody_flatMap signedHole_spells.fits []
  rw [List.append_nil, signedHole_spells.text] at pieces
  have mem : .hole "-(-5)".toList ∈ (Pieces.ofBody "\x7b-(-5)\x7d".toList).pieces := by
    rw [pieces]
    exact List.mem_cons_self
  have within : ReadWith signedInside "-(-5)" :=
    .placeholder .itself outside List.mem_cons_self mem
  exact ⟨_, _, within, inside, List.suffix_refl _⟩

def mute : Handler Id where
  suspend a _ := (.ok .null, a)
  hostFunction a _ _ := (none, a)
  reserved _ _ := none

theorem signs_fold_as_they_evaluate_in_a_placeholder :
    parseProgram signedTwice = .ok [.expr largest] ∧
    Faithful mute signedTwice (blockLiterals [.expr largest]) ∧
    parseExpression signedInside = .ok (.template (asParts [signedHole])) ∧
    Faithful mute signedInside [.int 5] ∧
    sign 20 false afterSign = .ok (.literal (.int (-5)), [⟨.eof, 1⟩]) ∧
    sign 21 false (⟨.minus, 1⟩ :: afterSign) = .ok (.literal (.int 5), [⟨.eof, 1⟩]) ∧
    eval mute (.literal (.int 5)) = eval mute (.unary .neg (.literal (.int (-5)))) ∧
    (-(-5) : Int64).toInt = -(-5 : Int64).toInt := by
  have program : parseProgram signedTwice = .ok [.expr largest] := by cbv
  have tokens : tokenize signedInside = .ok [⟨.template "\x7b-(-5)\x7d", 1⟩, ⟨.eof, 1⟩] := by cbv
  have expression : parseExpression signedInside = .ok (.template (asParts [signedHole])) :=
    (parseExpression_alone tokens).mpr ⟨_, signedHole_spells, rfl⟩
  have operand : sign 20 false afterSign = .ok (.literal (.int (-5)), [⟨.eof, 1⟩]) := by cbv
  have signed : sign 21 false (⟨.minus, 1⟩ :: afterSign) =
      .ok (.literal (.int 5), [⟨.eof, 1⟩]) := by cbv
  obtain ⟨-, faithful, -⟩ := signs_fold_as_they_evaluate mute signedTwice
  obtain ⟨faithful', -, signs⟩ := signs_fold_as_they_evaluate mute signedInside
  obtain ⟨operand', read, same, negative⟩ := signs _ _ _ _ _ _ pending_in_signedHole signed
  cases operand.symm.trans read
  exact ⟨program, faithful _ program, expression, faithful' _ expression, operand, signed, same,
    (negative _ rfl).2⟩

end Playbook.Script
