import Playbook.Proofs.Parser.Expressions
import Playbook.Proofs.Restoring
import Playbook.Script.Eval

/- Numbers with signs before them and parentheses around them. The numbers of a text have no sign of
   their own, so that no nest of signs comes to the least word, which has no negative: folding the
   signs stays in range and gives what they come to when they are evaluated. -/
namespace Playbook.Script
universe v

inductive Numeral where
  | int (i : Int64)
  | float (x : Float)

namespace Numeral

def token : Numeral → Token
  | .int i => .int i
  | .float x => .float x

def value : Numeral → Value
  | .int i => .int i
  | .float x => .float x

def neg : Numeral → Numeral
  | .int i => .int (-i)
  | .float x => .float (-x)

/-- Not the least word, which has no negative. -/
def Within : Numeral → Prop
  | .int i => -(2 ^ 63 - 1) ≤ i.toInt ∧ i.toInt ≤ 2 ^ 63 - 1
  | .float _ => True

theorem value_injective {k j : Numeral} (same : k.value = j.value) : k = j := by
  cases k <;> cases j <;> cases same <;> rfl

theorem toInt_neg {i : Int64} (within : Within (.int i)) : (-i).toInt = -i.toInt := by
  obtain ⟨least, most⟩ := within
  rw [Int64.toInt_neg]
  exact Int.bmod_eq_of_le (by omega) (by omega)

theorem Within.neg {k : Numeral} (within : k.Within) : k.neg.Within := by
  cases k with
  | int i =>
    have negative := toInt_neg within
    simp only [Within, Numeral.neg] at within ⊢
    omega
  | float x => trivial

theorem apply_neg {k : Numeral} (within : k.Within) :
    UnaryOp.neg.apply k.value = .ok k.neg.value := by
  cases k with
  | int i =>
    show checkedInt (-i.toInt) = .ok (.int (-i))
    rw [← toInt_neg within, checkedInt, Word.ofInt?_toInt]
  | float x => rfl

end Numeral

theorem negated_number (k : Numeral) : negated (.literal k.value) = .literal k.neg.value := by
  cases k <;> rfl

theorem negated_other {e : Expr} (other : ∀ k : Numeral, e ≠ .literal k.value) :
    negated e = .unary .neg e := by
  unfold negated
  split
  · exact absurd rfl (other (.int _))
  · exact absurd rfl (other (.float _))
  · rfl

section Evaluation
variable {m : Type → Type v} [Monad m] [LawfulMonad m] (h : Handler m)

theorem eval_neg_number {k : Numeral} (within : k.Within) {e : Expr}
    (operand : eval h e = pure k.value) : eval h (.unary .neg e) = pure k.neg.value := by
  rw [eval, operand, pure_bind, Numeral.apply_neg within]
  rfl

/-- A sign that is folded does what it does when it is left in place. -/
theorem eval_negated {e : Expr} (within : ∀ k : Numeral, e = .literal k.value → k.Within) :
    eval h (negated e) = eval h (.unary .neg e) := by
  by_cases number : ∃ k : Numeral, e = .literal k.value
  · obtain ⟨k, rfl⟩ := number
    rw [negated_number, eval_neg_number h (within k rfl) (k := k) (by rw [eval]), eval]
  · rw [negated_other fun k same => number ⟨k, same⟩]

end Evaluation

/-- No number among the tokens has a sign of its own. -/
def Unsigned (ts : List Token) : Prop := ∀ i, .int i ∈ ts → 0 ≤ i.toInt

theorem unsigned_of_number {cs after : List Char} {i : Int64}
    (read : number cs = .ok (.int i, after)) : 0 ≤ i.toInt := by
  simp only [number] at read
  split at read
  · split at read
    · rename_i word
      cases read
      unfold Word.ofInt? at word
      split at word
      · rename_i fits
        cases word
        have least : -2 ^ 63 ≤ (Decimal.valueOf (cs.takeWhile Text.isAsciiDigit) : Int) := by omega
        have most : (Decimal.valueOf (cs.takeWhile Text.isAsciiDigit) : Int) < 2 ^ 63 :=
          Int.lt_of_le_of_lt fits.2 (by decide)
        rw [Int64.toInt_ofInt_of_le least most]
        exact Int.natCast_nonneg _
      · cases word
    · cases read
  · cases read

theorem unsigned_of_nextToken {c : Char} {rest after : List Char} {breaks : Nat} {i : Int64}
    (found : nextToken c rest = .ok (.int i, breaks, after)) : 0 ≤ i.toInt := by
  generalize token : Token.int i = t at found
  cases tokenAt_of_nextToken found with
  | string | template | dollar => cases token
  | number digit read =>
    subst token
    exact unsigned_of_number read
  | word =>
    unfold wordToken at token
    split at token <;> cases token
  | punctuation mark =>
    unfold punctuation? at mark
    split at mark <;> cases mark <;> cases token

theorem unsigned_of_scans {p : Nat} {cs : List Char} {ts : List Token} (scans : Scans p cs ts) :
    Unsigned ts := by
  induction p, cs, ts, scans using Scans.induction with
  | nil => simp [Unsigned]
  | step first later ih =>
    intro i mem
    rcases List.mem_append.1 mem with emitted | more
    · cases stepAt_of_lexStep? first with
      | blank | inside | comment => cases emitted
      | outside | separator => simp at emitted
      | token found =>
        cases List.mem_singleton.1 emitted
        exact unsigned_of_nextToken found
    · exact ih i more

/-- A number with signs before it and parentheses around it, and with separators inside those. -/
inductive Signed where
  | number (k : Numeral)
  | minus (operand : Signed)
  | parens (before : Nat) (inside : Signed) (after : Nat)

namespace Signed

def tokens : Signed → List Token
  | .number k => [k.token]
  | .minus operand => .minus :: operand.tokens
  | .parens before inside after =>
    .lparen :: (List.replicate before .newline ++ inside.tokens ++
      List.replicate after .newline ++ [.rparen])

/-- The expression with all its signs in place. -/
def unfolded : Signed → Expr
  | .number k => .literal k.value
  | .minus operand => .unary .neg operand.unfolded
  | .parens _ inside _ => inside.unfolded

def folded : Signed → Numeral
  | .number k => k
  | .minus operand => operand.folded.neg
  | .parens _ inside _ => inside.folded

theorem within_of_unsigned (w : Signed) (unsigned : Unsigned w.tokens) : w.folded.Within := by
  induction w with
  | number k =>
    cases k with
    | int i =>
      have least := unsigned i List.mem_cons_self
      have most := i.toInt_lt
      exact ⟨by omega, by omega⟩
    | float x => trivial
  | minus operand ih => exact (ih fun i mem => unsigned i (List.mem_cons_of_mem _ mem)).neg
  | parens before inside after ih =>
    refine ih fun i mem => unsigned i ?_
    simp [tokens, mem]

theorem eval_unfolded {m : Type → Type v} [Monad m] [LawfulMonad m] (h : Handler m) (w : Signed)
    (unsigned : Unsigned w.tokens) : eval h w.unfolded = pure w.folded.value := by
  induction w with
  | number k => rw [unfolded, eval, folded]
  | minus operand ih =>
    have unsigned' : Unsigned operand.tokens := fun i mem => unsigned i (List.mem_cons_of_mem _ mem)
    exact eval_neg_number h (within_of_unsigned operand unsigned') (ih unsigned')
  | parens before inside after ih =>
    refine ih fun i mem => unsigned i ?_
    simp [tokens, mem]

end Signed

/-- The texts that are read along with a text: itself, and what stands in its placeholders. -/
inductive ReadWith (source : String) : String → Prop where
  | itself : ReadWith source source
  | placeholder {text body : String} {ts : List Lexeme} {hole : List Char} :
    ReadWith source text → tokenize text = .ok ts → .template body ∈ tokensOf ts →
    .hole hole ∈ (Pieces.ofBody body.toList).pieces → ReadWith source (String.ofList hole)

def Pending (source : String) (ts : List Lexeme) : Prop :=
  ∃ text all, ReadWith source text ∧ tokenize text = .ok all ∧ ts <:+ all

def Signed.StandsIn (w : Signed) (source : String) : Prop :=
  ∃ text ts, ReadWith source text ∧ tokenize text = .ok ts ∧ w.tokens <:+: tokensOf ts

theorem Signed.StandsIn.unsigned {w : Signed} {source : String} (stands : w.StandsIn source) :
    Unsigned w.tokens := by
  obtain ⟨text, ts, -, tokens, inside⟩ := stands
  exact fun i mem => unsigned_of_scans (scans_of_scan tokens) i (inside.subset mem)

theorem Signed.StandsIn.within {w : Signed} {source : String} (stands : w.StandsIn source) :
    w.folded.Within :=
  within_of_unsigned w stands.unsigned

namespace Pending
variable {source : String} {ts rest : List Lexeme}

theorem of_suffix (pending : Pending source ts) (suffix : rest <:+ ts) : Pending source rest := by
  obtain ⟨text, all, read, tokens, inside⟩ := pending
  exact ⟨text, all, read, tokens, suffix.trans inside⟩

theorem tail {t : Lexeme} (pending : Pending source (t :: ts)) : Pending source ts :=
  pending.of_suffix (List.suffix_cons t ts)

theorem skipped (pending : Pending source ts) : Pending source (skipNewlines ts) := by
  obtain ⟨gap, split, -⟩ := skipNewlines_split ts
  exact pending.of_suffix ⟨gap, split.symm⟩

theorem expected {token : Token} {f : List Lexeme → Reading (List Lexeme)}
    (expects : Expects token f) (pending : Pending source ts) (found : f ts = .ok rest) :
    Pending source rest := by
  obtain ⟨line, rfl⟩ := expects.found ts rest found
  exact pending.tail

theorem stands {taken : List Lexeme} {w : Signed} (pending : Pending source ts)
    (split : ts = taken ++ rest) (same : tokensOf taken = w.tokens) : w.StandsIn source := by
  obtain ⟨text, all, read, tokens, before, rfl⟩ := pending
  refine ⟨text, _, read, tokens, tokensOf before, tokensOf rest, ?_⟩
  rw [split, ← same, tokensOf_append, tokensOf_append, List.append_assoc]

end Pending

end Playbook.Script
