import Playbook.Proofs.Printing.Statements

/- Programs are read as they are written. -/
namespace Playbook.Script

/-- Glyphs outside brackets that are read back wherever they end. -/
def Lines (gs : List Glyph) : Prop :=
  ∀ rest, Clear rest → Lexes 0 (spelled gs ++ rest) (tokensIn gs) 0 rest

namespace Lines
variable {gs hs : List Glyph}

theorem of_readable (readable : Readable gs) : Lines gs := readable.lexes 0

theorem nil : Lines [] := of_readable .nil

theorem append (first : Lines gs) (second : Lines hs)
    (clear : ∀ rest, Clear rest → Clear (spelled hs ++ rest)) : Lines (gs ++ hs) := by
  intro rest ends
  rw [spelled_append, tokensIn_append, List.append_assoc]
  exact (first _ (clear rest ends)).append (second rest ends)

theorem space (lines : Lines gs) : Lines (.space :: gs) := fun rest clear =>
  (Readable.lexes_space 0 _).append (lines rest clear)

theorem indented (lines : Lines gs) (depth : Nat) : Lines (indent depth ++ gs) := by
  rw [indent]
  induction 2 * depth with
  | zero => exact lines
  | succ n ih => exact ih.space

theorem lexes_newline (cs : List Char) : Lexes 0 ('\n' :: cs) [.newline] 0 cs := by
  have step : lexStep? 0 '\n' cs = some ([.newline], 0, cs) := rfl
  exact .step step (.refl 0 cs)

theorem newline (lines : Lines gs) : Lines (.token .newline :: gs) := fun rest clear =>
  (lexes_newline _).append (lines rest clear)

theorem line (first : Lines gs) (second : Lines hs) : Lines (gs ++ .token .newline :: hs) :=
  first.append second.newline fun _ _ => .cons (by decide) _

theorem spaced (first : Lines gs) (second : Lines hs) : Lines (gs ++ .space :: hs) :=
  first.append second.space fun _ _ => .cons (by decide) _

theorem brace (lines : Lines gs) : Lines (.token .lbrace :: .token .newline :: gs) := by
  intro rest clear
  have mark : punctuation? '\x7b' [] = some (.lbrace, []) := rfl
  have unequal : (spelled (.token .newline :: gs) ++ rest).head? ≠ some '=' := by
    simp [Token.spell]
  exact (lexes_single mark 0 unequal).append (lines.newline rest clear)

theorem rbrace : Lines [.token .rbrace] :=
  of_readable (.token (spelt_single rfl rfl fun _ => rfl) (by decide))

theorem word (name : String) (letters : isWord name = true) {t : Token}
    (spell : t.spell = name.toList) (same : wordToken name = t) : Lines [.token t] :=
  of_readable (.word name letters spell same)

end Lines

theorem glyphs_readable {e : Expr} (plain : e.isPlain = true) (cond : Bool) (place : Tier) :
    Readable (e.glyphs cond place) :=
  .operand (bare_readable e plain) cond place

theorem spelt_assign (op : AssignOp) : op.token.Spelt := by
  cases op with
  | set => exact spelt_single rfl rfl fun _ => rfl
  | add | sub => exact spelt_double rfl rfl fun _ => rfl

theorem clear_branches (depth : Nat) (branches : List (Expr × List Stmt)) (rest : List Char)
    (clear : Clear rest) :
    Clear (spelled (branchGlyphs depth [.space, .token .elif] branches) ++ rest) := by
  cases branches with
  | nil => exact clear
  | cons branch more => exact .cons (by decide) _

mutual
theorem statement_lines : ∀ (s : Stmt), s.isPlain = true → ∀ depth, Lines (s.glyphs depth)
  | .expr e, plain, depth => by
    rw [Stmt.isPlain] at plain
    exact .of_readable (glyphs_readable plain false .or)
  | .assign target op value, plain, depth => by
    rw [Stmt.isPlain, Bool.and_eq_true] at plain
    exact .of_readable (.between (glyphs_readable plain.1 false .or)
      (List.forall_mem_singleton.2 (spelt_assign op)) (glyphs_readable plain.2 false .or))
  | .branch branches none, plain, depth => by
    rw [Stmt.isPlain, Bool.and_eq_true] at plain
    exact branches_lines branches plain.2 depth (.word "if" (by decide) rfl rfl)
  | .branch branches (some body), plain, depth => by
    simp only [Stmt.isPlain, Bool.and_eq_true] at plain
    have opening : Lines [.token .if_] := .word "if" (by decide) rfl rfl
    have opening' : Lines [.token .else_] := .word "else" (by decide) rfl rfl
    have first := branches_lines branches plain.1.2 depth opening
    have last := block_lines body plain.2 (depth + 1) (Lines.rbrace.indented depth)
    simpa [Stmt.glyphs] using first.spaced (opening'.spaced last.brace)

theorem branches_lines : ∀ (branches : List (Expr × List Stmt)), branchesPlain branches = true →
    ∀ depth {opening : List Glyph}, Lines opening → Lines (branchGlyphs depth opening branches)
  | [], _, _, _, _ => .nil
  | (condition, body) :: rest, plain, depth, opening, lines => by
    simp only [branchesPlain, Bool.and_eq_true] at plain
    have next : Lines [.space, .token .elif] := (Lines.word "elif" (by decide) rfl rfl).space
    have further := branches_lines rest plain.2 depth next
    have closed := Lines.rbrace.append further (clear_branches depth rest)
    have inside := block_lines body plain.1.2 (depth + 1) (closed.indented depth)
    have first := lines.spaced (.of_readable (glyphs_readable plain.1.1 true .or))
    simpa [branchGlyphs] using first.spaced inside.brace

theorem block_lines : ∀ (body : List Stmt), blockPlain body = true → ∀ depth {after : List Glyph},
    Lines after → Lines (blockGlyphs depth body ++ after)
  | [], _, _, _, lines => lines
  | s :: rest, plain, depth, after, lines => by
    rw [blockPlain, Bool.and_eq_true] at plain
    have here := (statement_lines s plain.1 depth).indented depth
    have later := block_lines rest plain.2 depth lines
    simpa [blockGlyphs] using here.line later
end

/-- A program that can be written is read back from its text as it was. -/
theorem parseProgram_print (program : List Stmt) (plain : blockPlain program = true) :
    parseProgram (print program) = .ok program := by
  have lines := block_lines program plain 0 .nil [] .nil
  have scans := lines.scans (scans_nil 0)
  rw [List.append_nil, List.append_nil] at scans
  obtain ⟨lexemes, tokenized, tokens⟩ := tokenize_of_scans scans
  have paid := cost_of_scans scans
  have text : (print program).length = (spelled (blockGlyphs 0 program)).length := by
    rw [print, String.length_ofList]
    rfl
  have read := statements_parsed program plain (depthFor (print program)) lexemes tokens (by
    rw [tokens, depthFor, text]
    omega)
  have whole : tokenize (print program) = .ok lexemes := tokenized
  rw [parseProgram, whole]
  exact read

def everything : List Stmt :=
  [.assign ⟨.name "x", [.field "items", .index (.literal (.int 0))]⟩ .add
      (.binary .mul (.unary .neg (.binary .sub (.name "a") (.binary .sub (.name "b") (.var "if"))))
        (.literal (.int 9223372036854775807))),
    .branch
      [(.binary .eq (.binary .eq (.map [(.literal (.str "it's"), .list [.literal .null])])
          (.name "a")) (.call "f" [.map [], .literal (.str "\"\\\n")]),
        [.expr (.and (.unary .not (.or (.name "a") (.name "b")))
          (.binary .notIn (.name "c") (.unary .neg (.unary .neg (.attr (.literal (.int 5)) "e")))))]),
        (.literal (.bool true), [])]
      (some [.branch [(.name "y", [.assign ⟨.var "v", []⟩ .set (.literal (.str ""))])] none])]

theorem parseProgram_print_everything :
    print everything = String.join [
      "x.items[0] += -(a - (b - $if)) * 9223372036854775807\n",
      "if (\x7b\"it\\'s\": [null]\x7d) == a == f(\x7b\x7d, \"\\\"\\\\\\n\") \x7b\n",
      "  not (a or b) and c not in --5.e\n",
      "\x7d elif true \x7b\n",
      "\x7d else \x7b\n",
      "  if y \x7b\n",
      "    $v = \"\"\n",
      "  \x7d\n",
      "\x7d\n"] ∧
    parseProgram (print everything) = .ok everything :=
  ⟨by decide +kernel, parseProgram_print everything (by decide +kernel)⟩

end Playbook.Script
