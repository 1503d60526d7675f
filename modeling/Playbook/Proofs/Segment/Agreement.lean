import Mathlib.Data.List.Forall2
import Playbook.Proofs.Segment.Course
import Playbook.Proofs.Segment.Growth

/- Streaming reads what reading the whole text reads. Every segment of a program that can be read is
   read on its own, to one statement or to none. -/
namespace Playbook.Script

/-- A segment reads on its own to these statements, one if it has code and else none. -/
structure ReadsAlone (s : Segment) (body : List Stmt) : Prop where
  parses : parseProgram (String.ofList s.text) = .ok body
  count : body.length = if s.hasCode then 1 else 0

theorem tokenize_of_scans {cs : List Char} {ts : List Token} (scans : Scans 0 cs ts) :
    ∃ lexemes, tokenize (String.ofList cs) = .ok lexemes ∧ tokensOf lexemes = ts := by
  obtain ⟨lexemes, scanned, tokens⟩ := scans 1
  exact ⟨lexemes, by rw [tokenize, String.toList_ofList]; exact scanned, tokens⟩

theorem statements_of_gap {ts : List Lexeme} {line n : Nat}
    (ends : skipNewlines ts = [⟨.eof, line⟩]) : statements (n + 1) ts = .ok [] := by
  simp only [statements, ends]

theorem parseProgram_of_gap {cs : List Char} {gap : List Token} (newlines : IsGap gap)
    (scans : Scans 0 cs (gap ++ [.eof])) : parseProgram (String.ofList cs) = .ok [] := by
  obtain ⟨lexemes, tokenized, tokens⟩ := tokenize_of_scans scans
  obtain ⟨first, second, rfl, sameGap, sameEnd⟩ := tokensOf_eq_append tokens
  obtain ⟨line, rfl⟩ := tokensOf_eq_singleton sameEnd
  have ends : skipNewlines (first ++ [⟨.eof, line⟩]) = [⟨.eof, line⟩] := by
    rw [skipNewlines_append (sameGap ▸ newlines), skipNewlines_of_starts]
    exact starts_cons Token.noConfusion
  rw [parseProgram, tokenized]
  exact statements_of_gap ends

theorem eof_not_mem {d e : Nest} {ts : List Token} (walks : walk? d ts = some e) :
    .eof ∉ ts := by
  induction ts generalizing d with
  | nil => exact List.not_mem_nil
  | cons t ts ih =>
    rw [walk?_cons] at walks
    obtain ⟨d', nest, walks'⟩ := Option.bind_eq_some_iff.1 walks
    intro mem
    rcases List.mem_cons.1 mem with rfl | mem
    · cases nest
    · exact ih walks' mem

def afterStatement (s : Stmt) (n : Nat) (ts : List Lexeme) : Reading (List Stmt) :=
  match ts with
  | [] | ⟨.newline, _⟩ :: _ | ⟨.eof, _⟩ :: _ => statements n ts >>= fun more => .ok (s :: more)
  | _ => .error (expectedHere "end of statement" ts)

theorem statements_cons {t : Token} (visible : t ≠ .newline) (goes : t ≠ .eof) (n line : Nat)
    (ts : List Lexeme) : statements (n + 1) (⟨t, line⟩ :: ts) =
      statement n (⟨t, line⟩ :: ts) >>= fun r => afterStatement r.1 n r.2 := by
  rw [statements, skipNewlines_of_starts (starts_cons visible)]
  split
  · rename_i none
    cases none
  · rename_i same
    cases same
    exact absurd rfl goes
  · rfl

theorem afterStatement_of_starts {ts : List Lexeme}
    (starts : Starts (fun t => t = .newline ∨ t = .eof) ts) (s : Stmt) (n : Nat) :
    afterStatement s n ts = statements n ts >>= fun more => .ok (s :: more) := by
  match ts with
  | [] => rfl
  | ⟨t, line⟩ :: ts =>
    rcases starts _ rfl with same | same
    · simp only at same
      subst same
      rfl
    · simp only at same
      subst same
      rfl

theorem afterStatement_elim {s : Stmt} {n : Nat} {ts : List Lexeme} {body : List Stmt}
    (ok : afterStatement s n ts = .ok body) :
    Starts (fun t => t = .newline ∨ t = .eof) ts ∧
      ∃ more, statements n ts = .ok more ∧ body = s :: more := by
  have read (ok : (statements n ts >>= fun more => .ok (s :: more)) = .ok body) :
      ∃ more, statements n ts = .ok more ∧ body = s :: more := by
    obtain ⟨more, ok₁, ok₂⟩ := ok_of_bind ok
    cases ok₂
    exact ⟨more, ok₁, rfl⟩
  unfold afterStatement at ok
  split at ok
  · refine ⟨fun t mem => ?_, read ok⟩
    cases mem
  · exact ⟨starts_cons (.inl rfl), read ok⟩
  · exact ⟨starts_cons (.inr rfl), read ok⟩
  · cases ok

theorem parseProgram_of_statement {cs : List Char} {taken : List Lexeme} {gap : List Token}
    {s : Stmt} (newlines : IsGap gap) (shape : IsStatement (tokensOf taken))
    (elsewhere : ∀ m again more, tokensOf again = tokensOf taken → Stops more →
      cost (tokensOf taken) + 12 ≤ m → statement m (again ++ more) = .ok (s, more))
    (scans : Scans 0 cs (tokensOf taken ++ (gap ++ [.eof]))) :
    parseProgram (String.ofList cs) = .ok [s] := by
  have paid := cost_of_scans scans
  rw [cost_append] at paid
  obtain ⟨lexemes, tokenized, tokens⟩ := tokenize_of_scans scans
  obtain ⟨again, more, rfl, same, rest⟩ := tokensOf_eq_append tokens
  obtain ⟨first, last, rfl, sameGap, sameEnd⟩ := tokensOf_eq_append rest
  obtain ⟨line, rfl⟩ := tokensOf_eq_singleton sameEnd
  have starts : Starts (fun t => t = .newline ∨ t = .eof) (first ++ [⟨.eof, line⟩]) := by
    cases first with
    | nil => exact starts_cons (.inr rfl)
    | cons u first =>
      have separates := List.forall_mem_cons.1 (sameGap ▸ newlines)
      exact starts_cons (.inl separates.1)
  have stops : Stops (first ++ [⟨.eof, line⟩]) := by
    refine ⟨fun t mem => (starts t mem).imp_right .inr, ?_⟩
    rw [rest, goesOn_gap newlines]
    rfl
  have ends : skipNewlines (first ++ [⟨.eof, line⟩]) = [⟨.eof, line⟩] := by
    rw [skipNewlines_append (sameGap ▸ newlines), skipNewlines_of_starts]
    exact starts_cons Token.noConfusion
  -- The depth that the parser starts with is enough for tokens that so many characters pay for.
  have ran := elsewhere (16 * cs.length + 15) again _ same stops (by omega)
  obtain ⟨t, us, front, visible⟩ := shape.visible
  have goes : t ≠ .eof := by
    rintro rfl
    have none := eof_not_mem (shape.inside 1 0 Nat.one_pos)
    rw [front] at none
    exact none List.mem_cons_self
  obtain ⟨line', again', rfl, -⟩ := tokensOf_eq_cons (same.trans front)
  have depth : depthFor (String.ofList cs) = 16 * cs.length + 15 + 1 := by
    simp [depthFor]
  have last : afterStatement s (16 * cs.length + 15) (first ++ [⟨.eof, line⟩]) = .ok [s] := by
    rw [afterStatement_of_starts starts, statements_of_gap ends]
    rfl
  rw [parseProgram, tokenized, depth]
  simp only [List.cons_append] at ran ⊢
  simp only [bind, Except.bind, statements_cons visible goes, ran]
  exact last

theorem statements_no_branch {n : Nat} {ts : List Lexeme} {body : List Stmt}
    (ok : statements n ts = .ok body) : goesOn (tokensOf ts) = false := by
  rw [← goesOn_skipNewlines]
  obtain ⟨-, -, -, visible⟩ := skipNewlines_split ts
  match n with
  | 0 => cases ok
  | n + 1 =>
    rw [statements] at ok
    match front : skipNewlines ts with
    | [] => rfl
    | ⟨t, line⟩ :: rest =>
      rw [front] at ok visible
      have other : t ≠ .newline := visible _ rfl
      rw [tokensOf_cons, goesOn_cons other]
      cases t with
      | elif | else_ =>
        obtain ⟨_, ok₁, -⟩ := ok_of_bind ok
        cases n <;> cases ok₁
      | _ => rfl

theorem statements_newline {n line : Nat} {ts : List Lexeme} {body : List Stmt}
    (ok : statements n (⟨.newline, line⟩ :: ts) = .ok body) : statements n ts = .ok body := by
  match n with
  | 0 => cases ok
  | n + 1 =>
    rw [statements] at ok ⊢
    exact ok

theorem statements_eof {n line : Nat} {body : List Stmt}
    (ok : statements n [⟨.eof, line⟩] = .ok body) : body = [] := by
  match n with
  | 0 => cases ok
  | n + 1 =>
    cases ok
    rfl

theorem scans_ne_nil {p : Nat} {cs : List Char} {ts : List Token} (scans : Scans p cs ts) :
    ts ≠ [] := by
  induction p, cs, ts, scans using Scans.induction with
  | nil => exact List.cons_ne_nil _ _
  | step _ _ ih => exact List.append_ne_nil_of_right_ne_nil _ ih

structure FirstSegment (cs : List Char) (body : List Stmt) (x rest : List Char) (code : Bool)
    (first more : List Stmt) : Prop where
  split : cs = x ++ rest
  nonempty : x ≠ []
  ends : segmentEnd? true (startsWithIf cs) .start 0 cs = some (x.length, code)
  reads : ReadsAlone ⟨x, code⟩ first
  joined : body = first ++ more
  later : ∃ n ts, Scans 0 rest (tokensOf ts) ∧ statements n ts = .ok more

theorem firstSegment_of_gap {cs : List Char} {n line : Nat} {ts : List Lexeme} {body : List Stmt}
    (scans : Scans 0 cs (tokensOf (⟨.newline, line⟩ :: ts)))
    (ok : statements n (⟨.newline, line⟩ :: ts) = .ok body) :
    ∃ x rest, FirstSegment cs body x rest false [] body := by
  obtain ⟨x, rest, rfl, nonempty, lexes, scans', ends⟩ :=
    (ready_start cs).stops (startsWithIf cs) scans nofun
  have alone : Lexes 0 x [.newline] 0 [] := Lexes.cut lexes
  refine ⟨x, rest, rfl, nonempty, (ends 0).trans (by rw [Nat.zero_add]; rfl), ⟨?_, rfl⟩, rfl, n,
    ts, scans', statements_newline ok⟩
  exact parseProgram_of_gap IsGap.nil.cons (alone.scans (scans_nil 0))

theorem firstSegment_of_eof {cs : List Char} {n line : Nat} {ts : List Lexeme} {body : List Stmt}
    (nonempty : cs ≠ []) (scans : Scans 0 cs (tokensOf (⟨.eof, line⟩ :: ts)))
    (ok : statements n (⟨.eof, line⟩ :: ts) = .ok body) :
    FirstSegment cs body cs [] false [] body := by
  obtain ⟨none, ends⟩ := (ready_start cs).finishes (startsWithIf cs) scans
  rw [List.map_eq_nil_iff.1 none] at ok scans
  refine ⟨(List.append_nil cs).symm, nonempty, (ends 0).trans (by rw [Nat.zero_add]; rfl),
    ⟨?_, rfl⟩, rfl, n, [⟨.eof, line⟩], scans_nil 0, ok⟩
  exact parseProgram_of_gap .nil scans

theorem firstSegment_of_statement {cs : List Char} {n : Nat} {t : Token} {line : Nat}
    {ts : List Lexeme} {body : List Stmt} (nonempty : cs ≠ []) (visible : t ≠ .newline)
    (goes : t ≠ .eof) (scans : Scans 0 cs (tokensOf (⟨t, line⟩ :: ts)))
    (ok : statements n (⟨t, line⟩ :: ts) = .ok body) :
    ∃ x rest s more, FirstSegment cs body x rest true [s] more := by
  match n with
  | 0 => cases ok
  | n + 1 =>
    rw [statements_cons visible goes] at ok
    obtain ⟨⟨s, after⟩, ok₁, ok₂⟩ := ok_of_bind ok
    obtain ⟨follows, more, ok₃, rfl⟩ := afterStatement_elim ok₂
    obtain ⟨taken, split, shape, elsewhere⟩ := (statementsRead n).statement _ s after ok₁
    have noBranch := statements_no_branch ok₃
    rw [split, tokensOf_append] at scans
    have starts (us : List Token) (front : tokensOf taken = .if_ :: us) :
        startsWithIf cs = true := by
      rw [front] at scans
      exact startsWithIf_of_scans scans
    -- The splitter runs through the tokens of the statement and stops at what ends it.
    obtain ⟨last, flows, some⟩ := shape.flows (startsWithIf cs) starts
    obtain ⟨mid, st, lexes, scans', ⟨x, split', same⟩, ready⟩ := flows.run scans (ready_start cs)
    match after with
    | [] => exact absurd rfl (scans_ne_nil scans')
    | ⟨u, line'⟩ :: after =>
      rcases follows _ rfl with separator | ended
      · simp only at separator
        subst separator
        obtain ⟨y, rest, rfl, some', lexes', scans'', ends⟩ :=
          ready.stops (startsWithIf cs) scans' fun _ => noBranch
        have both := lexes.append lexes'
        have alone : Lexes 0 (x ++ y) (tokensOf taken ++ [.newline]) 0 [] := by
          rw [split', ← List.append_assoc] at both
          exact both.cut
        have reads := parseProgram_of_statement IsGap.nil.cons shape elsewhere (by
          rw [← List.append_assoc]
          exact alone.scans (scans_nil 0))
        refine ⟨x ++ y, rest, s, more, by rw [split', List.append_assoc], by simp [some'], ?_,
          ⟨reads, rfl⟩, rfl, n, after, scans'', statements_newline ok₃⟩
        rw [same, ends, some, Nat.zero_add, List.length_append]
      · simp only at ended
        subst ended
        obtain ⟨none, ends⟩ := ready.finishes (startsWithIf cs) scans'
        have lengths := congrArg List.length split'
        rw [List.length_append] at lengths
        rw [List.map_eq_nil_iff.1 none] at ok₃ scans
        have reads := parseProgram_of_statement .nil shape elsewhere scans
        refine ⟨cs, [], s, more, (List.append_nil cs).symm, nonempty, ?_, ⟨reads, rfl⟩, rfl, n,
          [⟨.eof, line'⟩], scans_nil 0, ok₃⟩
        rw [same, ends, some, Nat.zero_add, lengths]

theorem readsAlone_of_statements {cs : List Char} {n : Nat} {ts : List Lexeme} {body : List Stmt}
    (scans : Scans 0 cs (tokensOf ts)) (ok : statements n ts = .ok body) :
    ∃ bodies, List.Forall₂ ReadsAlone (segments true cs) bodies ∧ bodies.flatten = body := by
  induction h : cs.length using Nat.strongRecOn generalizing cs n ts body with
  | _ k ih =>
    have joined {x rest : List Char} {code : Bool} {first more : List Stmt}
        (segment : FirstSegment cs body x rest code first more) :
        ∃ bodies, List.Forall₂ ReadsAlone (segments true cs) bodies ∧ bodies.flatten = body := by
      obtain ⟨rfl, nonempty, ends, reads, rfl, n', ts', scans', ok'⟩ := segment
      have some := List.length_pos_iff.2 nonempty
      rw [List.length_append] at h
      obtain ⟨bodies, all, rfl⟩ := ih rest.length (by omega) scans' ok' rfl
      refine ⟨first :: bodies, ?_, List.flatten_cons⟩
      rw [segments_of_some (by simp [nonempty]) ends, List.take_left, List.drop_left]
      exact .cons reads all
    match cs, ts with
    | _, [] => exact absurd rfl (scans_ne_nil scans)
    | [], ⟨t, line⟩ :: ts =>
      obtain ⟨rfl, none⟩ := List.cons.inj (scans_unique scans (scans_nil 0))
      rw [List.map_eq_nil_iff.1 none] at ok
      rw [statements_eof ok, segments_nil]
      exact ⟨[], .nil, rfl⟩
    | c :: rest, ⟨t, line⟩ :: ts =>
      have nonempty := List.cons_ne_nil c rest
      by_cases separator : t = .newline
      · subst separator
        obtain ⟨x, rest', segment⟩ := firstSegment_of_gap scans ok
        exact joined segment
      by_cases ended : t = .eof
      · subst ended
        exact joined (firstSegment_of_eof nonempty scans ok)
      obtain ⟨x, rest', s, more, segment⟩ :=
        firstSegment_of_statement nonempty separator ended scans ok
      exact joined segment

/-- Streaming reads what reading the whole text reads: the segments of a program that can be read
    have one statement each, or none where there is no code, and these are its statements. -/
theorem segments_read_alone {source : String} {body : List Stmt}
    (ok : parseProgram source = .ok body) :
    ∃ bodies, List.Forall₂ ReadsAlone (segments true source.toList) bodies ∧
      bodies.flatten = body := by
  obtain ⟨ts, tokenized, ran⟩ := ok_of_bind ok
  exact readsAlone_of_statements (scans_of_scan tokenized) ran

def overLines : String := "if a \x7b b = \"\x7d\" \x7d # no\n else \x7b\x7d ; c = [1,\n2]\n\nd"

theorem segments_read_alone_over_lines : ∃ body bodies, parseProgram overLines = .ok body ∧
    List.Forall₂ ReadsAlone (segments true overLines.toList) bodies ∧
      bodies.flatten = body ∧ body.length = 3 := by
  have read : (parseProgram overLines).toOption.map List.length = some 3 := by decide +kernel
  cases ok : parseProgram overLines with
  | error e =>
    rw [ok] at read
    cases read
  | ok body =>
    rw [ok] at read
    obtain ⟨bodies, alone, joined⟩ := segments_read_alone ok
    exact ⟨body, bodies, rfl, alone, joined, Option.some.inj read⟩

end Playbook.Script
