import Playbook.Proofs.Parser.Expressions
import Playbook.Proofs.Printing.Spelling

/- The tokens of a written expression give the expression back. An operator that groups to the left
   is read by a parser that carries what it has read so far, so what is stated of an expression is
   how far it takes that parser; the rest follows tier by tier. -/
namespace Playbook.Script

def Tier.held : Tier → Nat
  | .or => 2
  | .and => 3
  | .not => 3
  | .level l => l.grip + 1
  | .sign => 6
  | .suffix => 7

def Tier.loose : Tier → Nat
  | .or => 1
  | .and => 2
  | .not => 3
  | .level l => l.grip
  | .sign => 6
  | .suffix => 6

def Tier.next : Tier → Tier
  | .or => .and
  | .and => .not
  | .not => .level .comparison
  | .level l => l.operand
  | .sign => .suffix
  | .suffix => .suffix

def Tier.ofHeight : Nat → Tier
  | 0 => .or
  | 1 => .and
  | 2 => .not
  | 3 => .level .comparison
  | 4 => .level .sum
  | 5 => .level .product
  | 6 => .sign
  | _ => .suffix

theorem Tier.ofHeight_height (tier : Tier) : ofHeight tier.height = tier := by
  cases tier with
  | level l => cases l <;> rfl
  | _ => rfl

theorem Tier.height_injective {low high : Tier} (same : low.height = high.height) :
    low = high := by
  rw [← low.ofHeight_height, same, high.ofHeight_height]

theorem Tier.height_le (tier : Tier) : tier.height ≤ 7 := by
  cases tier with
  | level l => cases l <;> decide
  | _ => decide

theorem Tier.height_next (tier : Tier) (inner : tier ≠ .suffix) :
    tier.next.height = tier.height + 1 := by
  cases tier with
  | level l => cases l <;> rfl
  | suffix => exact absurd rfl inner
  | _ => rfl

def Tier.reader (cond : Bool) : Tier → Reader Expr
  | .or => fun m => disjunction m cond
  | .and => fun m => conjunction m cond
  | .not => fun m => inversion m cond
  | .level l => fun m => chain m cond l
  | .sign => fun m => Script.sign m cond
  | .suffix => fun m ts => primary m cond ts >>= fun r => suffixes m r.1 r.2

/-- What follows an expression of the tier that has been read. -/
def Tier.onward (cond : Bool) (e : Expr) : Tier → Reader Expr
  | .or => fun m => orTail m cond e
  | .and => fun m => andTail m cond e
  | .level l => fun m => chainTail m cond l e
  | .suffix => fun m => suffixes m e
  | .not | .sign => fun _ ts => .ok (e, ts)

def Tier.begins : Tier → Token → Bool
  | _, .int _ | _, .str _ | _, .ident _ | _, .var _ | _, .true_ | _, .false_ | _, .null => true
  | _, .lparen | _, .lbracket | _, .lbrace => true
  | .suffix, .minus => false
  | _, .minus => true
  | .or, .not | .and, .not | .not, .not => true
  | _, _ => false

/-- Tokens that are read as an expression of a tier, whatever operators follow it. -/
structure Parsed (cond : Bool) (tier : Tier) (ts : List Token) (e : Expr) : Prop where
  front : ∃ t us, ts = t :: us ∧ tier.begins t = true
  leads : ∃ d N, ∀ m, N ≤ m → ∀ lexemes more, tokensOf lexemes = ts →
    Starts (·.grip < tier.held) more →
      tier.reader cond (m + d) (lexemes ++ more) = tier.onward cond e m more

theorem Starts.weaken {j k : Nat} {ts : List Lexeme} (starts : Starts (·.grip < j) ts)
    (le : j ≤ k) : Starts (·.grip < k) ts := fun t mem => Nat.lt_of_lt_of_le (starts t mem) le

theorem Tier.onward_of_loose (cond : Bool) (e : Expr) (tier : Tier) {ts : List Lexeme}
    (loose : Starts (·.grip < tier.loose) ts) (m : Nat) :
    tier.onward cond e (m + 1) ts = .ok (e, ts) := by
  cases tier with
  | or =>
    simp only [onward, orTail]
    split
    · exact absurd (loose _ rfl) (by simp [Token.grip, Tier.loose])
    · rfl
  | and =>
    simp only [onward, andTail]
    split
    · exact absurd (loose _ rfl) (by simp [Token.grip, Tier.loose])
    · rfl
  | level l => simp only [onward, chainTail, (operators_level l).absent ts loose]
  | suffix => exact suffixes_of_starts loose m e
  | not | sign => rfl

/-- Tokens that a parser takes whole when it may go deep enough. -/
def Takes {α : Type} (F : Reader α) (ts : List Token) (x : α) (stops : List Lexeme → Prop) : Prop :=
  ∃ N, ∀ m, N ≤ m → ∀ lexemes more, tokensOf lexemes = ts → stops more →
    F m (lexemes ++ more) = .ok (x, more)

theorem Takes.of_succ {α : Type} {F : Reader α} {ts : List Token} {x : α}
    {stops : List Lexeme → Prop} (N : Nat)
    (taken : ∀ m, N ≤ m → ∀ lexemes more, tokensOf lexemes = ts → stops more →
      F (m + 1) (lexemes ++ more) = .ok (x, more)) : Takes F ts x stops := by
  refine ⟨N + 1, fun m enough => ?_⟩
  obtain ⟨j, rfl⟩ : ∃ j, m = j + 1 := ⟨m - 1, by omega⟩
  exact taken j (by omega)

namespace Parsed
variable {cond : Bool} {tier : Tier} {ts us : List Token} {e e' : Expr}

theorem takes (parsed : Parsed cond tier ts e) :
    Takes (tier.reader cond) ts e (Starts (·.grip < tier.loose)) := by
  obtain ⟨d, N, leads⟩ := parsed.leads
  refine ⟨N + 1 + d, fun m enough lexemes more tokens loose => ?_⟩
  obtain ⟨j, rfl⟩ : ∃ j, m = j + 1 + d := ⟨m - d - 1, by omega⟩
  have held : tier.loose ≤ tier.held := by
    cases tier <;> simp [Tier.loose, Tier.held]
  rw [leads (j + 1) (by omega) lexemes more tokens (loose.weaken held)]
  exact tier.onward_of_loose cond e loose j

theorem lower (parsed : Parsed cond tier.next ts e) (inner : tier ≠ .suffix) :
    Parsed cond tier ts e := by
  obtain ⟨N, taken⟩ := parsed.takes
  obtain ⟨t, us, rfl, begins⟩ := parsed.front
  refine ⟨⟨t, us, rfl, ?_⟩, 1, N + 1, fun m enough lexemes more tokens held => ?_⟩
  · cases tier with
    | level l => cases l <;> cases t <;> exact begins
    | suffix => exact absurd rfl inner
    | _ => cases t <;> first | exact begins | rfl
  obtain ⟨line, rest, rfl, -⟩ := tokensOf_eq_cons tokens
  have read (m : Nat) (enough : N ≤ m) := taken m enough _ more tokens
  cases tier with
  | or =>
    have operand := read m (by omega) held
    simp only [Tier.reader, Tier.next] at operand ⊢
    simp only [disjunction, operand]
    rfl
  | and =>
    have operand := read m (by omega) held
    simp only [Tier.reader, Tier.next] at operand ⊢
    simp only [conjunction, operand]
    rfl
  | not =>
    have operand := read m (by omega) held
    simp only [Tier.reader, Tier.next] at operand ⊢
    simp only [inversion]
    split
    · rename_i same
      cases same
      cases begins
    · exact operand
  | level l =>
    -- One step more is spent on finding the tier of the operands.
    obtain ⟨j, rfl⟩ : ∃ j, m = j + 1 := ⟨m - 1, by omega⟩
    have operand : operand (j + 1) cond l ((⟨t, line⟩ :: rest) ++ more) = .ok (e, more) := by
      cases l with
      | comparison | sum | product => exact read j (by omega) held
    simp only [Tier.reader, chain, operand]
    rfl
  | sign =>
    have operand := read m (by omega) held
    simp only [Tier.reader, Tier.next] at operand ⊢
    simp only [sign]
    split
    · rename_i same
      cases same
      cases begins
    · exact operand
  | suffix => exact absurd rfl inner

theorem loosen {high : Tier} (parsed : Parsed cond high ts e) (low : Tier)
    (le : low.height ≤ high.height) : Parsed cond low ts e := by
  induction distance : high.height - low.height generalizing low with
  | zero =>
    have same : low = high := Tier.height_injective (by omega)
    rwa [same]
  | succ n ih =>
    have inner : low ≠ .suffix := by
      rintro rfl
      have top : Tier.suffix.height = 7 := rfl
      have := high.height_le
      omega
    have next := low.height_next inner
    exact (ih low.next (by omega) (by omega)).lower inner

theorem extend {β : Type} {G : Reader β} {r : β} (make : β → Expr) (op : List Token)
    (left : Parsed cond tier ts e) (right : Takes G us r (Starts (·.grip < tier.held)))
    (held : ∃ t more, op = t :: more ∧ t.grip < tier.held)
    (same : ∀ m lexemes more, tokensOf lexemes = op →
      tier.onward cond e (m + 1) (lexemes ++ more) =
        G m more >>= fun r => tier.onward cond (make r.1) m r.2) :
    Parsed cond tier (ts ++ (op ++ us)) (make r) := by
  obtain ⟨t, more, rfl, begins⟩ := left.front
  obtain ⟨d, N, leads⟩ := left.leads
  obtain ⟨M, taken⟩ := right
  refine ⟨⟨t, more ++ (op ++ us), rfl, begins⟩, d + 1, N + M, ?_⟩
  intro m enough lexemes rest tokens loose
  obtain ⟨ls, others, rfl, tokensLeft, tokens'⟩ := tokensOf_eq_append tokens
  obtain ⟨os, rs, rfl, tokensOp, tokensRight⟩ := tokensOf_eq_append tokens'
  have stops : Starts (·.grip < tier.held) (os ++ (rs ++ rest)) := by
    obtain ⟨o, more', rfl, low⟩ := held
    obtain ⟨line, os', rfl, -⟩ := tokensOf_eq_cons tokensOp
    exact starts_cons low
  have read := leads (m + 1) (by omega) ls (os ++ (rs ++ rest)) tokensLeft stops
  have right' := taken m (by omega) rs rest tokensRight loose
  rw [Nat.add_right_comm] at read
  rw [← Nat.add_assoc, List.append_assoc, List.append_assoc, read, same m os _ tokensOp, right']
  rfl

theorem of_primary (front : ∃ t us, ts = t :: us ∧ Tier.begins .suffix t = true)
    (taken : Takes (fun m => primary m cond) ts e (fun _ => True)) : Parsed cond .suffix ts e := by
  obtain ⟨N, taken⟩ := taken
  refine ⟨front, 0, N, fun m enough lexemes more tokens _ => ?_⟩
  simp only [Tier.reader, Nat.add_zero, taken m enough lexemes more tokens trivial]
  rfl

theorem atom {t : Token} (begins : Tier.begins .suffix t = true)
    (same : ∀ m line ts, primary (m + 1) cond (⟨t, line⟩ :: ts) = .ok (e, ts)) :
    Parsed cond .suffix [t] e := by
  refine of_primary ⟨t, [], rfl, begins⟩ (.of_succ 0 fun j _ lexemes more tokens _ => ?_)
  obtain ⟨line, rfl⟩ := tokensOf_eq_singleton tokens
  exact same j line more

theorem opened {β : Type} {G : Reader β} {t : Token} {r : β} (make : β → Expr)
    (begins : Tier.begins .suffix t = true) (taken : Takes G ts r (fun _ => True))
    (same : ∀ m line ts, primary (m + 1) cond (⟨t, line⟩ :: ts) =
      G m ts >>= fun r => .ok (make r.1, r.2)) :
    Parsed cond .suffix (t :: ts) (make r) := by
  obtain ⟨N, taken⟩ := taken
  refine of_primary ⟨t, ts, rfl, begins⟩ (.of_succ N fun j enough lexemes more tokens _ => ?_)
  obtain ⟨line, rest, rfl, tokens'⟩ := tokensOf_eq_cons tokens
  simp only [List.cons_append, same, taken j (by omega) rest more tokens' trivial]
  rfl

theorem prefixed {t : Token} (make : Expr → Expr) (parsed : Parsed cond tier ts e)
    (begins : tier.begins t = true) (alone : ∀ e m ts, tier.onward cond e m ts = .ok (e, ts))
    (same : ∀ m line ts, tier.reader cond (m + 1) (⟨t, line⟩ :: ts) =
      tier.reader cond m ts >>= fun r => .ok (make r.1, r.2)) :
    Parsed cond tier (t :: ts) (make e) := by
  obtain ⟨d, N, leads⟩ := parsed.leads
  refine ⟨⟨t, ts, rfl, begins⟩, d + 1, N, fun m enough lexemes more tokens held => ?_⟩
  obtain ⟨line, rest, rfl, tokens'⟩ := tokensOf_eq_cons tokens
  have read := leads m enough rest more tokens' held
  rw [alone] at read
  rw [← Nat.add_assoc, List.cons_append, same, read, alone]
  rfl

end Parsed
end Playbook.Script
