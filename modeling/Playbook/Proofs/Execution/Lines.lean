import Playbook.Proofs.Execution.Attempts
import Playbook.Proofs.Lexer.Lines

/- The lines that are reported. A segment with code begins on the line of its first token, since the
   line breaks before it are segments of their own; so the line after all that has been executed is
   the line of the statement that is run. -/
namespace Playbook.Script
open Text

theorem blanks_of_lexes {p q : Nat} {cs : List Char} {ts : List Token} {c : Char}
    {rest : List Char} (lexes : Lexes p cs ts q (c :: rest)) (closed : p = 0) (none : ts = [])
    (visible : c ≠ '\n') :
    ∃ gap, cs = gap ++ c :: rest ∧ ∀ d ∈ gap, d = ' ' ∨ d = '\t' ∨ d = '\r' := by
  generalize left : c :: rest = mid at lexes
  induction lexes with
  | refl => exact ⟨[], rfl, List.forall_mem_nil _⟩
  | @step p q r d rest' mid after emitted ts first _ ih =>
    obtain ⟨rfl, rfl⟩ := List.append_eq_nil_iff.1 none
    generalize nothing : ([] : List Token) = emitted at first
    cases stepAt_of_lexStep? first with
    | blank skipped =>
      obtain ⟨gap, rfl, blanks⟩ := ih closed rfl left
      exact ⟨d :: gap, rfl, List.forall_mem_cons.2 ⟨eq_of_blank skipped, blanks⟩⟩
    | inside _ opened => exact absurd closed (Nat.ne_of_gt opened)
    | outside | separator | token => cases nothing
    | comment =>
      -- A comment leaves a line break, which would be a token.
      obtain ⟨gap, same, blanks⟩ := ih closed rfl left
      have broken := List.head?_dropWhile_not (fun c => decide (c ≠ '\n')) rest'
      rw [same] at broken
      cases gap with
      | nil => exact absurd (by simpa [← left] using broken) visible
      | cons e gap =>
        obtain rfl : e = '\n' := by simpa using broken
        exact absurd (blanks '\n' List.mem_cons_self) (by decide)

/-- A segment with code begins with its first token, blanks apart. -/
theorem first_token_of_segment {text : List Char} {ts : List Token}
    (alone : segments true text = [⟨text, true⟩]) (scans : Scans 0 text ts) :
    ∃ gap c rest t after, text = gap ++ c :: rest ∧ (∀ d ∈ gap, d = ' ' ∨ d = '\t' ∨ d = '\r') ∧
      TokenAt c rest t after := by
  obtain ⟨k, code, nonempty, ends, same, -⟩ := segments_eq_cons alone
  obtain ⟨-, rfl⟩ := Segment.mk.inj same
  cases ts with
  | nil => exact absurd rfl (scans_ne_nil scans)
  | cons t us =>
    obtain ⟨mid, st, gap⟩ := (ready_start text).gap (startsWithIf text) scans
    rcases gap.next with ⟨-, rfl, -⟩ | ⟨c, rest, q, after, rfl, step, -⟩
    · have idle := ((ready_start text).finishes (startsWithIf text) scans).2 0
      rw [ends] at idle
      cases idle
    · generalize emits : [t] = emitted at step
      cases stepAt_of_lexStep? step with
      | blank | inside | comment => cases emits
      | outside | separator =>
        obtain ⟨rfl, -⟩ := List.cons.inj emits
        obtain ⟨_, _, -, -, -, -, idle⟩ :=
          (ready_start text).stops (startsWithIf text) scans (fun some => nomatch some)
        have without := idle 0
        rw [ends] at without
        cases without
      | token found =>
        have first := tokenAt_of_nextToken found
        have visible : c ≠ '\n' := by
          rintro rfl
          exact absurd first.visible.1.2 (by decide)
        obtain ⟨front, split, blanks⟩ := blanks_of_lexes gap.lexes rfl rfl visible
        exact ⟨front, c, rest, _, after, split, blanks, first⟩

variable {S : Type}

namespace Progress
variable (h : Handler (StateM S)) (save : Saver (StateM S))

/-- What a fault tells of the segment whose code was run. A statement that failed is the one
    statement of the segment, and its line is that of its first token in the whole code; the line of
    a segment that cannot be read is counted on from the code before it. -/
inductive Reported (a : Attempt S) : CodeFault → Prop where
  | malformed {e : SyntaxError} (read : parseProgram (String.ofList a.segment.text) = .error e) :
    Reported a (.malformed ⟨e.line + newlines a.before.execution.executed.toList, e.fault⟩)
  | failed {s : Stmt} {fault : Fault} {left : Machine} {v : S} {gap rest after : List Char}
    {c : Char} {t : Token} (read : parseProgram (String.ofList a.segment.text) = .ok [s])
    (ran : runBlock h a.before.execution.names a.before.agent [s] a.world = ((.error fault, left), v))
    (blanks : ∀ d ∈ gap, d = ' ' ∨ d = '\t' ∨ d = '\r') (text : a.segment.text = gap ++ c :: rest)
    (first : TokenAt c rest t after) :
    Reported a (.failed fault (String.ofList (trim a.segment.text))
      (1 + newlines (a.before.execution.executed.toList ++ gap)) left.agent.stack.pointers)

theorem newlines_blanks {gap : List Char} (blanks : ∀ d ∈ gap, d = ' ' ∨ d = '\t' ∨ d = '\r') :
    newlines gap = 0 := by
  apply newlines_eq_zero
  rintro c mem rfl
  exact absurd (blanks '\n' mem) (by decide)

variable {h save}

theorem reported_of_runSegment {p q : Progress} {segment : Segment} {finished : Bool}
    {cs : List Char} (mem : segment ∈ segments finished cs) (sound : p.execution.fault = none)
    {w v : S} {r : Except StoreError Bool} (ran : runSegment h save p segment w = ((r, q), v))
    {f : CodeFault} (fault : q.execution.fault = some f) :
    Reported h ⟨p, segment, w⟩ f ∧ segment.hasCode = true ∧ p.execution.returned = none ∧
      r = .ok false := by
  revert ran
  refine runSegment_elim h save p segment w (motive := fun x => x = ((r, q), v) →
    Reported h ⟨p, segment, w⟩ f ∧ segment.hasCode = true ∧ p.execution.returned = none ∧
      r = .ok false) ?passed ?malformed ?failed ?succeeded
  case passed =>
    intro _ ran
    cases ran
    exact nomatch sound.symm.trans fault
  case malformed =>
    intro e runs read ran
    cases ran
    cases fault
    obtain ⟨code, unreturned⟩ : segment.hasCode = true ∧ p.execution.returned = none := by
      simpa using runs
    have counted : e.line + p.execution.line - 1 =
        e.line + newlines p.execution.executed.toList := by
      rw [Execution.line]
      omega
    rw [counted]
    exact ⟨.malformed read, code, unreturned, rfl⟩
  case failed =>
    intro body failure s u runs read ran same
    cases same
    cases fault
    obtain ⟨code, unreturned⟩ : segment.hasCode = true ∧ p.execution.returned = none := by
      simpa using runs
    have count := (readsAlone_of_mem mem read).count
    rw [if_pos code] at count
    obtain ⟨statement, rfl⟩ := List.length_eq_one_iff.1 count
    obtain ⟨lexemes, tokenized, -⟩ := ok_of_bind read
    have scans := scans_of_scan tokenized
    rw [String.toList_ofList] at scans
    have alone := segments_of_mem mem
    obtain ⟨text, hasCode⟩ := segment
    obtain rfl : hasCode = true := code
    obtain ⟨gap, c, rest, t, after, split, blanks, first⟩ := first_token_of_segment alone scans
    have line : p.execution.line = 1 + newlines (p.execution.executed.toList ++ gap) := by
      rw [Execution.line, newlines_append, newlines_blanks blanks, Nat.add_zero]
    rw [line]
    exact ⟨.failed read ran blanks split first, rfl, unreturned, rfl⟩
  case succeeded =>
    intro body s u saved q' v' _ _ _ recorded ran
    have kept := record_fault save (p.succeed s segment body.length) segment.text s.suspended u
    rw [recorded] at kept
    have clean : q'.execution.fault = none := kept.trans sound
    cases ran
    exact nomatch clean.symm.trans fault

/-- The segment that is run stands where the executed code of the whole code ends. -/
def Within (a : Attempt S) : Prop :=
  ∃ more, a.before.execution.full.toList =
    a.before.execution.executed.toList ++ (a.segment.text ++ more)

theorem within_of_prefix {p : Progress} {segment : Segment} {rest : List Segment} (w : S)
    (whole : covered (segment :: rest) <+: p.execution.pending.toList) :
    Within ⟨p, segment, w⟩ := by
  obtain ⟨more, pending⟩ := whole
  refine ⟨covered rest ++ more, ?_⟩
  rw [Execution.full, String.toList_append, ← pending, covered_cons, List.append_assoc]

/-- The last code that is run meets the fault, and nothing is executed after it. -/
def Blamed (h : Handler (StateM S)) (log : List (Attempt S)) (p : Progress) (f : CodeFault) : Prop :=
  ∃ a, log.getLast? = some a ∧ Reported h a f ∧ Within a ∧
    p.execution.executed = a.before.execution.executed

theorem blamed_cons {a : Attempt S} {log : List (Attempt S)} {p : Progress} {f : CodeFault}
    (blamed : Blamed h log p f) : Blamed h (a :: log) p f := by
  obtain ⟨b, last, reported⟩ := blamed
  refine ⟨b, ?_, reported⟩
  rw [List.getLast?_cons, last]
  rfl

theorem blamed_of_carryOn {finished : Bool} {cs : List Char} {segs : List Segment}
    (mem : ∀ segment ∈ segs, segment ∈ segments finished cs) {p p' : Progress}
    (sound : p.execution.fault = none) (whole : covered segs <+: p.execution.pending.toList)
    {w w' : S} {r : Except StoreError Unit} (ran : carryOn h save p segs w = ((r, p'), w'))
    {f : CodeFault} (fault : p'.execution.fault = some f) :
    Blamed h (attempts h save p w segs) p' f := by
  induction segs generalizing p w with
  | nil =>
    rw [carryOn_nil] at ran
    cases ran
    exact nomatch sound.symm.trans fault
  | cons segment rest ih =>
    obtain ⟨here, later⟩ := List.forall_mem_cons.1 mem
    have faultless : ¬p.execution.fault.isSome = true := by simp [sound]
    rw [carryOn_cons h save faultless] at ran
    rcases one : runSegment h save p segment w with ⟨⟨more, q⟩, v⟩
    rw [one] at ran
    have moved := runSegment_moved h save p segment w one
    rcases more with e | _ | _
    · cases ran
      exact nomatch (reported_of_runSegment here sound one fault).2.2.2
    · have stopped := runSegment_fault h save faultless segment w one
      simp only [carryOn_of_fault h save stopped] at ran
      cases ran
      obtain ⟨reported, code, unreturned, -⟩ := reported_of_runSegment here sound one fault
      have run : (segment.hasCode && p.execution.returned.isNone) = true := by
        rw [code, unreturned]
        rfl
      rw [attempts, if_pos run, one]
      exact ⟨_, rfl, reported, within_of_prefix w whole, by simpa using moved.executed⟩
    · have goes := runSegment_fault h save faultless segment w one
      have left : covered rest <+: q.execution.pending.toList := by
        obtain ⟨more, pending⟩ := whole
        refine ⟨more, ?_⟩
        have onward : q.execution.pending =
            String.ofList (p.execution.pending.toList.drop segment.text.length) := by
          simpa using moved.pending
        rw [onward, String.toList_ofList, ← pending, covered_cons, List.append_assoc,
          List.drop_left]
      have blamed := ih later (by simpa using goes) left ran
      rw [attempts, one]
      dsimp only
      split
      · exact blamed_cons blamed
      · exact blamed

theorem blamed_of_take {p : Progress} (sound : p.execution.fault = none) (i : Input) (w : S)
    {f : CodeFault} (fault : (take h save p i w).1.2.execution.fault = some f) :
    Blamed h (attemptsAt h save p w i) (take h save p i w).1.2 f := by
  cases offer : p.offered i with
  | none =>
    obtain ⟨e, refused⟩ := take_of_refused h save offer w
    rw [refused] at fault
    exact nomatch sound.symm.trans fault
  | some asked =>
    obtain ⟨code, finished⟩ := asked
    have faultless : ¬p.execution.fault.isSome = true := by simp [sound]
    rw [take_of_offered h save offer] at fault ⊢
    rw [attemptsAt_of_offered h save offer faultless]
    rcases ran : carryOn h save (p.await code) (segments finished code.toList) w with ⟨⟨r, q⟩, v⟩
    rw [ran] at fault
    obtain ⟨passed, executed⟩ := settle_passed i r q
    have met : q.execution.fault = some f := passed.fault.symm.trans fault
    have whole : covered (segments finished code.toList) <+:
        (p.await code).execution.pending.toList := covered_segments_isPrefix finished code.toList
    obtain ⟨a, last, reported, within, same⟩ :=
      blamed_of_carryOn (fun _ mem => mem) (p := p.await code) sound whole ran met
    exact ⟨a, last, reported, within, executed.trans same⟩

theorem fault_of_take {p : Progress} {f : CodeFault} (met : p.execution.fault = some f) (i : Input)
    (w : S) : (take h save p i w).1.2.execution.fault = some f := by
  cases offer : p.offered i with
  | none =>
    obtain ⟨e, refused⟩ := take_of_refused h save offer w
    rw [refused]
    exact met
  | some asked =>
    obtain ⟨code, finished⟩ := asked
    have waits : (p.await code).execution.fault.isSome = true := by
      rw [show (p.await code).execution.fault = some f from met]
      rfl
    rw [take_of_offered h save offer, carryOn_of_fault h save waits]
    exact (settle_passed i (.ok ()) (p.await code)).1.fault.trans met

theorem fault_of_takeAll {p : Progress} {f : CodeFault} (met : p.execution.fault = some f)
    (inputs : List Input) (w : S) : (takeAll h save p inputs w).1.execution.fault = some f := by
  induction inputs generalizing p w with
  | nil => exact met
  | cons i rest ih => exact ih (fault_of_take met i w) _

theorem blamed_of_takeAll {p : Progress} (sound : p.execution.fault = none) (inputs : List Input)
    (w : S) {f : CodeFault} (fault : (takeAll h save p inputs w).1.execution.fault = some f) :
    Blamed h (session h save p w inputs) (takeAll h save p inputs w).1 f := by
  induction inputs generalizing p w with
  | nil => exact nomatch sound.symm.trans fault
  | cons i rest ih =>
    rw [takeAll, bind_apply] at fault ⊢
    rw [session]
    rcases taken : take h save p i w with ⟨⟨r, q⟩, v⟩
    rw [taken] at fault
    dsimp only at fault ⊢
    cases met : q.execution.fault with
    | none =>
      obtain ⟨a, last, reported⟩ := ih met v fault
      refine ⟨a, ?_, reported⟩
      rw [List.getLast?_append, last]
      rfl
    | some g =>
      have kept : (takeAll h save q rest v).1.execution.fault = some g :=
        fault_of_takeAll met rest v
      obtain rfl : g = f := Option.some.inj (kept.symm.trans fault)
      have settled : Settled q := .inl (by rw [met]; rfl)
      obtain ⟨still, -, none⟩ := takeAll_of_settled h save settled rest v
      have blamed : Blamed h (attemptsAt h save p w i) (take h save p i w).1.2 g :=
        blamed_of_take sound i w (by rw [taken]; exact met)
      rw [taken] at blamed
      obtain ⟨a, last, reported, within, executed⟩ := blamed
      rw [none, List.append_nil]
      exact ⟨a, last, reported, within, still.executed.trans executed⟩

/-- Every token is on the line that it has in the text, whatever line breaks are before it. A fault
    that is met in a session, be it of a new execution or of one that goes on from what has been
    executed before, is told of the last code that was run: a statement that has failed by the line
    of its first token in the whole code, and a statement that cannot be read by the line that its
    error has in it, counted on from the code before it. -/
theorem reported_lines_are_true_lines :
    (∀ (source : String) (lexemes : List Lexeme), tokenize source = .ok lexemes →
      ∃ marks, Marked [] 0 source.toList marks ∧
        lexemes = marks.map fun mark => ⟨mark.2, 1 + newlines mark.1⟩) ∧
    ∀ {S : Type} (h : Handler (StateM S)) (save : Saver (StateM S)) (p : Progress) (w : S)
      (inputs : List Input) (f : CodeFault), p.execution.fault = none →
      (takeAll h save p inputs w).1.execution.fault = some f →
      Blamed h (session h save p w inputs) (takeAll h save p inputs w).1 f := by
  constructor
  · intro source lexemes ran
    exact @marked_of_scan 0 [] source.toList lexemes ran
  · intro S h save p w inputs f sound fault
    exact blamed_of_takeAll sound inputs w fault

namespace Reporting

def source : String := "a = (\n\"\"\"b\n\\\n\"\"\") # c\n;d"

def resumed : Progress :=
  ⟨{ Execution.start "main" [] with executed := "a = \"\"\"\n\"\"\"\n", pending := "  " },
    .fresh "a" "A"⟩

def inputs : List Input := [.chunk "# note\n if true \x7b\n  b = c\n\x7d\n", .ending]

end Reporting

/-- The statement that fails begins on the fourth line of the whole code. -/
theorem reported_lines_are_true_lines_after_a_string :
    (∃ lexemes marks, tokenize Reporting.source = .ok lexemes ∧
      lexemes.map (·.line) = [1, 1, 1, 2, 4, 4, 5, 5, 5] ∧
      Marked [] 0 Reporting.source.toList marks ∧
      lexemes = marks.map fun mark => ⟨mark.2, 1 + newlines mark.1⟩) ∧
    ∃ f, f = .failed (.undefinedName "c") "if true \x7b\n  b = c\n\x7d" 4 [] ∧
      Blamed answering
        (session answering unsavable Reporting.resumed Setting.prepared.surroundings Reporting.inputs)
        (takeAll answering unsavable Reporting.resumed Reporting.inputs
          Setting.prepared.surroundings).1 f := by
  constructor
  · have lines : (tokenize Reporting.source).toOption.map (·.map (·.line)) =
        some [1, 1, 1, 2, 4, 4, 5, 5, 5] := by decide +kernel
    cases ran : tokenize Reporting.source with
    | error e =>
      rw [ran] at lines
      cases lines
    | ok lexemes =>
      rw [ran] at lines
      obtain ⟨marks, marked, same⟩ := reported_lines_are_true_lines.1 _ _ ran
      exact ⟨lexemes, marks, rfl, Option.some.inj lines, marked, same⟩
  · have fault : (takeAll answering unsavable Reporting.resumed Reporting.inputs
        Setting.prepared.surroundings).1.execution.fault =
          some (.failed (.undefinedName "c") "if true \x7b\n  b = c\n\x7d" 4 []) := by
      decide +kernel
    exact ⟨_, rfl, reported_lines_are_true_lines.2 _ _ _ _ _ _ rfl fault⟩

end Progress
end Playbook.Script
