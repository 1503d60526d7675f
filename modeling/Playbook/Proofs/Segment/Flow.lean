import Playbook.Proofs.Segment.Lookahead

/- The splitter runs through the tokens of a statement. The invariant ties its one counter of
   brackets to the two that the tokens need, and its last character to the last token. -/
namespace Playbook.Script

/-- The splitter between two tokens: so many brackets open, and this the last token passed that
    does not separate. A comment may stand before the next line break. -/
structure Ready (d : Nest) (prev : Option Token) (st : SplitState) (cs : List Char) : Prop where
  skip : st.skip = 0
  mode : st.mode = .code ∨ (st.mode = .comment ∧ ∀ c ∈ cs.head?, c = '\n')
  depth : st.depth = d.1 + d.2
  code : st.hasCode = prev.isSome
  last : st.last = some '\x7d' ↔ prev = some .rbrace

theorem ready_start (cs : List Char) : Ready (0, 0) none .start cs where
  skip := rfl
  mode := .inl rfl
  depth := rfl
  code := rfl
  last := ⟨nofun, nofun⟩

def SplitState.awake (st : SplitState) : SplitState := { st with mode := .code }

section
variable {d : Nest} {prev : Option Token} {st : SplitState} {c : Char} {rest : List Char}

theorem Ready.enter (ready : Ready d prev st (c :: rest)) : st.enter c = st.awake := by
  unfold SplitState.enter SplitState.awake
  rcases ready.mode with code | ⟨comment, broken⟩
  · simp [code]
    rw [← code]
  · rw [if_pos ⟨comment, broken c rfl⟩]

theorem Ready.between (ready : Ready d prev st (c :: rest)) : Between d st.awake :=
  ⟨rfl, ready.skip, ready.depth⟩

theorem Ready.awake (ready : Ready d prev st (c :: rest)) (cs : List Char) :
    Ready d prev st.awake cs :=
  ⟨ready.skip, .inl rfl, ready.depth, ready.code, ready.last⟩

theorem Ready.wakes (ready : Ready d prev st (c :: rest)) (isIf : Bool) (n : Nat) :
    segmentEnd? true isIf st n (c :: rest) = segmentEnd? true isIf st.awake n (c :: rest) := by
  have same : st.awake.enter c = st.enter c := by
    rw [ready.enter]
    simp [SplitState.enter, SplitState.awake]
  simp only [segmentEnd?, same]

theorem Ready.passes (ready : Ready d prev st (c :: rest)) {isIf : Bool} {st' : SplitState}
    {cs : List Char} (passes : Passes isIf st.awake (c :: rest) st' cs) :
    Passes isIf st (c :: rest) st' cs := by
  obtain ⟨x, split, same⟩ := passes
  exact ⟨x, split, fun n => by rw [ready.wakes, same]⟩

theorem Ready.step_separator (ready : Ready d prev st (c :: rest))
    (separator : isSeparator c = true) (cs : List Char) : st.awake.step c cs = st.awake := by
  have skip : st.awake.skip = 0 := ready.skip
  have mode : st.awake.mode = .code := rfl
  rcases eq_of_isSeparator separator with rfl | rfl | rfl | rfl | rfl <;>
    simp [SplitState.step, skip, mode, isSeparator]

theorem Ready.separator (ready : Ready d prev st (c :: rest)) (isIf : Bool)
    (separator : isSeparator c = true) (inside : (c = '\n' ∨ c = ';') → 0 < d.1 + d.2) :
    Passes isIf st (c :: rest) st.awake rest ∧ Ready d prev st.awake rest := by
  have open_ : st.awake.atEnd c = false := by
    by_cases ends : c = '\n' ∨ c = ';'
    · have := inside ends
      have := ready.depth
      have deep : decide (st.awake.depth ≤ 0) = false :=
        decide_eq_false (by simp only [SplitState.awake]; omega)
      rw [SplitState.atEnd, deep, Bool.and_false]
    · simp only [not_or] at ends
      simp [SplitState.atEnd, ends]
  have first : Passes isIf st (c :: rest) ((st.enter c).step c rest) rest := by
    apply Passes.one
    rw [ready.enter]
    exact open_
  rw [ready.enter, ready.step_separator separator] at first
  exact ⟨first, ready.awake rest⟩

theorem passes_comment {isIf : Bool} {st : SplitState} (mode : st.mode = .comment)
    (skip : st.skip = 0) (cs : List Char) : Passes isIf st cs st (cs.dropWhile (· ≠ '\n')) := by
  induction cs with
  | nil => exact .refl _ _ _
  | cons c cs ih =>
    by_cases broken : c = '\n'
    · subst broken
      exact .refl _ _ _
    · rw [List.dropWhile_cons_of_pos (by simpa using broken)]
      have stays : st.enter c = st := by simp [SplitState.enter, broken]
      have next : st.step c cs = st := by simp [SplitState.step, skip, mode]
      have one : Passes isIf st (c :: cs) ((st.enter c).step c cs) cs := by
        apply Passes.one
        rw [stays]
        simp [SplitState.atEnd, mode]
      rw [stays, next] at one
      exact one.trans ih

theorem Ready.comment (ready : Ready d prev st ('#' :: rest)) (isIf : Bool) :
    ∃ st', Passes isIf st ('#' :: rest) st' (rest.dropWhile (· ≠ '\n')) ∧
      Ready d prev st' (rest.dropWhile (· ≠ '\n')) := by
  have opened : st.awake.step '#' rest = { st with mode := .comment } := by
    simp [SplitState.step, SplitState.awake, ready.skip]
  have first : Passes isIf st ('#' :: rest) ((st.enter '#').step '#' rest) rest := by
    apply Passes.one
    rw [ready.enter]
    simp [SplitState.atEnd]
  rw [ready.enter, opened] at first
  have skip : ({ st with mode := .comment } : SplitState).skip = 0 := ready.skip
  refine ⟨{ st with mode := .comment }, first.trans (passes_comment rfl skip rest), skip,
    .inr ⟨rfl, fun c mem => ?_⟩, ready.depth, ready.code, ready.last⟩
  have := List.head?_dropWhile_not (fun c => decide (c ≠ '\n')) rest
  rw [mem] at this
  simpa using this

theorem Ready.token (ready : Ready d prev st (c :: rest)) (isIf : Bool) {t : Token}
    {after : List Char} (found : TokenAt c rest t after) {e : Nest} (nest : t.nest? d = some e) :
    ∃ st', Passes isIf st (c :: rest) st' after ∧ Ready e (some t) st' after := by
  obtain ⟨st', passes, between, code, last⟩ := passed_tokenAt ready.between found nest
  refine ⟨st', ready.passes passes, between.skip, .inl between.mode, between.depth, code, ?_⟩
  rw [last, Option.some.injEq]

theorem Ready.atEnd (ready : Ready (0, 0) prev st (c :: rest)) (separator : c = '\n' ∨ c = ';') :
    st.awake.atEnd c = true := by
  have depth : st.depth = 0 := ready.depth
  rcases separator with rfl | rfl <;>
    simp [SplitState.atEnd, SplitState.awake, ready.skip, depth]

theorem Ready.ends (ready : Ready (0, 0) prev st (c :: rest)) (separator : c = '\n' ∨ c = ';')
    {ts : List Token} (scans : Scans 0 rest ts) (last : prev.isSome = true → goesOn ts = false)
    (isIf : Bool) (n : Nat) :
    segmentEnd? true isIf st n (c :: rest) = some (n + 1, prev.isSome) := by
  have code : st.awake.hasCode = prev.isSome := ready.code
  simp only [segmentEnd?, ready.enter, ready.atEnd separator, if_true, code]
  cases some : prev.isSome with
  | false => rfl
  | true =>
    rw [continuesWithElse?_of_scans scans, last some]
    simp

theorem Ready.branch (ready : Ready (0, 0) (some .rbrace) st (c :: rest))
    (separator : c = '\n' ∨ c = ';') {ts : List Token} (scans : Scans 0 rest ts)
    (more : goesOn ts = true) :
    Passes true st (c :: rest) st.awake rest ∧ Ready (0, 0) (some .rbrace) st.awake rest := by
  refine ⟨⟨[c], rfl, fun n => ?_⟩, ready.awake rest⟩
  have code : st.awake.hasCode = true := ready.code
  have last : st.awake.last = some '\x7d' := ready.last.2 rfl
  simp only [segmentEnd?, ready.enter, ready.atEnd separator, if_true, code, last,
    continuesWithElse?_of_scans scans, more]
  simp

end

/-- The next token of a text, or its end, and the tokens after it. -/
def NextToken (p : Nat) (cs : List Char) (t : Token) (us : List Token) : Prop :=
  (cs = [] ∧ t = .eof ∧ us = []) ∨
    ∃ c rest q after, cs = c :: rest ∧ lexStep? p c rest = some ([t], q, after) ∧ Scans q after us

structure PassedGap (isIf : Bool) (d : Nest) (prev : Option Token) (st : SplitState)
    (cs : List Char) (t : Token) (us : List Token) (mid : List Char) (st' : SplitState) :
    Prop where
  lexes : Lexes d.1 cs [] d.1 mid
  passes : Passes isIf st cs st' mid
  ready : Ready d prev st' mid
  next : NextToken d.1 mid t us

theorem Ready.gap {d : Nest} {prev : Option Token} {st : SplitState} {cs : List Char}
    (ready : Ready d prev st cs) (isIf : Bool) {t : Token} {us : List Token}
    (scans : Scans d.1 cs (t :: us)) :
    ∃ mid st', PassedGap isIf d prev st cs t us mid st' := by
  generalize opened : d.1 = p at scans
  generalize front : t :: us = ts at scans
  induction p, cs, ts, scans using Scans.induction generalizing st with
  | nil p =>
    cases front
    exact ⟨[], st, .refl _ _, .refl _ _ _, ready, .inl ⟨rfl, rfl, rfl⟩⟩
  | @step p q c rest after emitted more first later ih =>
    subst opened
    -- A step that emits nothing is passed, and the gap goes on after it.
    have skipped (emits : emitted = []) (same : q = d.1) {st₁ : SplitState}
        (passes : Passes isIf st (c :: rest) st₁ after) (ready₁ : Ready d prev st₁ after) :
        ∃ mid st', PassedGap isIf d prev st (c :: rest) t us mid st' := by
      subst emits same
      obtain ⟨mid, st', gap⟩ := ih ready₁ rfl front
      exact ⟨mid, st', .step first gap.lexes, passes.trans gap.passes, gap.ready, gap.next⟩
    have emitting (emits : emitted = [t]) :
        ∃ mid st', PassedGap isIf d prev st (c :: rest) t us mid st' := by
      subst emits
      obtain ⟨-, rfl⟩ := List.cons.inj front
      exact ⟨_, st, .refl _ _, .refl _ _ _, ready, .inr ⟨c, rest, q, after, rfl, first, later⟩⟩
    cases stepAt_of_lexStep? first with
    | blank blank =>
      have separator : isSeparator c = true ∧ ¬(c = '\n' ∨ c = ';') := by
        rcases eq_of_blank blank with rfl | rfl | rfl <;> decide
      obtain ⟨passes, ready₁⟩ := ready.separator isIf separator.1
        fun ends => absurd ends separator.2
      exact skipped rfl rfl passes ready₁
    | inside broken inside =>
      subst broken
      obtain ⟨passes, ready₁⟩ := ready.separator isIf rfl fun _ => by omega
      exact skipped rfl rfl passes ready₁
    | comment starts =>
      subst starts
      obtain ⟨st₁, passes, ready₁⟩ := ready.comment isIf
      exact skipped rfl rfl passes ready₁
    | outside | separator | token =>
      obtain ⟨same, -⟩ := List.cons.inj front
      exact emitting (by rw [same])

end Playbook.Script
