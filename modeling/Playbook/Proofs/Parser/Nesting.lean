import Playbook.Script.Parser

/- What the brackets of a stretch of tokens do. Parentheses and square brackets are counted
   together, apart from braces. A separator outside all brackets ends a stretch, so no expression
   has one. -/
namespace Playbook.Script

/-- How many parentheses or square brackets are open, and how many braces. -/
abbrev Nest := Nat × Nat

/-- What a token does to the open brackets; none when it closes what is not open, separates where
    nothing is open, or ends the text. -/
def Token.nest? : Nest → Token → Option Nest
  | (p, b), .lparen | (p, b), .lbracket => some (p + 1, b)
  | (p + 1, b), .rparen | (p + 1, b), .rbracket => some (p, b)
  | (0, _), .rparen | (0, _), .rbracket => none
  | (p, b), .lbrace => some (p, b + 1)
  | (p, b + 1), .rbrace => some (p, b)
  | (_, 0), .rbrace => none
  | (0, 0), .newline => none
  | _, .eof => none
  | d, _ => some d

def walk? (d : Nest) (ts : List Token) : Option Nest := ts.foldlM Token.nest? d

theorem walk?_cons (d : Nest) (t : Token) (ts : List Token) :
    walk? d (t :: ts) = (t.nest? d).bind (walk? · ts) := rfl

theorem walk?_append {d e : Nest} {ts : List Token} (first : walk? d ts = some e)
    (us : List Token) : walk? d (ts ++ us) = walk? e us := by
  simp only [walk?, List.foldlM_append] at first ⊢
  rw [first]
  rfl

/-- The tokens open and close the same brackets wherever they stand. -/
def Closed (ts : List Token) : Prop := ∀ d, walk? d ts = some d

def ClosedInside (ts : List Token) : Prop := ∀ p b, 0 < p + b → walk? (p, b) ts = some (p, b)

/-- The tokens close brackets that are open before them, and none but these. -/
def Closes (opened : Nest) (ts : List Token) : Prop :=
  ∀ p b, walk? (p + opened.1, b + opened.2) ts = some (p, b)

def inParen : Nest := (1, 0)

def inBrace : Nest := (0, 1)

theorem Closed.nil : Closed [] := fun _ => rfl

theorem Closed.append {ts us : List Token} (first : Closed ts) (second : Closed us) :
    Closed (ts ++ us) := by
  intro d
  rw [walk?_append (first d), second]

theorem Closed.inside {ts : List Token} (closed : Closed ts) : ClosedInside ts :=
  fun _ _ _ => closed _

theorem ClosedInside.append {ts us : List Token} (first : ClosedInside ts)
    (second : ClosedInside us) : ClosedInside (ts ++ us) := by
  intro p b inside
  rw [walk?_append (first p b inside), second p b inside]

theorem ClosedInside.closes {opened : Nest} (inside : 0 < opened.1 + opened.2)
    {ts us : List Token} (first : ClosedInside ts) (second : Closes opened us) :
    Closes opened (ts ++ us) := by
  intro p b
  rw [walk?_append (first _ _ (by omega)), second]

theorem Closes.paren {ts : List Token} (closes : Closes inParen ts) : Closed (.lparen :: ts) := by
  rintro ⟨p, b⟩
  exact closes p b

theorem Closes.bracket {ts : List Token} (closes : Closes inParen ts) :
    Closed (.lbracket :: ts) := by
  rintro ⟨p, b⟩
  exact closes p b

theorem Closes.brace {ts : List Token} (closes : Closes inBrace ts) : Closed (.lbrace :: ts) := by
  rintro ⟨p, b⟩
  exact closes p b

theorem closes_rparen : Closes inParen [.rparen] := fun _ _ => rfl

theorem closes_rbracket : Closes inParen [.rbracket] := fun _ _ => rfl

theorem closes_rbrace : Closes inBrace [.rbrace] := fun _ _ => rfl

theorem closedInside_newline : ClosedInside [.newline] := by
  intro p b inside
  match p, b with
  | 0, 0 => omega
  | 0, _ + 1 | _ + 1, 0 | _ + 1, _ + 1 => rfl

def Token.Plain (t : Token) : Prop := ∀ d, t.nest? d = some d

theorem Token.Plain.closed {t : Token} (plain : t.Plain) : Closed [t] := by
  intro d
  rw [walk?_cons, plain]
  rfl

/-- The tightness with which a token holds on to what stands before it; zero when it does not. -/
def Token.grip : Token → Nat
  | .or => 1
  | .and => 2
  | .eqEq | .notEq | .lt | .le | .gt | .ge | .in_ | .not => 3
  | .plus | .minus => 4
  | .star | .slash | .percent => 5
  | .dot | .lbracket | .lparen => 6
  | _ => 0

/-- How deep a parser may go over a token: sixteen calls per character, and never less than
    sixteen. -/
def Token.cost : Token → Nat
  | .template s => 16 * (s.toList.length + 1)
  | .eof => 0
  | _ => 16

def cost : List Token → Nat
  | [] => 0
  | t :: ts => t.cost + cost ts

@[simp] theorem cost_nil : cost [] = 0 := rfl

@[simp] theorem cost_cons (t : Token) (ts : List Token) : cost (t :: ts) = t.cost + cost ts := rfl

@[simp] theorem cost_append (ts us : List Token) : cost (ts ++ us) = cost ts + cost us := by
  induction ts with
  | nil => simp
  | cons t ts ih => rw [List.cons_append, cost_cons, cost_cons, ih, Nat.add_assoc]

end Playbook.Script
