import Playbook.Proofs.Lexer.Course
import Playbook.Script.Segment

/- How the splitter passes what the lexer takes as one token. Neither looks at the other, but they
   agree on where strings and comments end. -/
namespace Playbook.Script

/-- The splitter reaches a later place in a text without a statement having ended. -/
def Passes (isIf : Bool) (st : SplitState) (cs : List Char) (st' : SplitState)
    (rest : List Char) : Prop :=
  ∃ x, cs = x ++ rest ∧
    ∀ n, segmentEnd? true isIf st n cs = segmentEnd? true isIf st' (n + x.length) rest

theorem Passes.refl (isIf : Bool) (st : SplitState) (cs : List Char) :
    Passes isIf st cs st cs := ⟨[], rfl, fun _ => rfl⟩

theorem Passes.trans {isIf : Bool} {st₁ st₂ st₃ : SplitState} {cs₁ cs₂ cs₃ : List Char}
    (first : Passes isIf st₁ cs₁ st₂ cs₂) (second : Passes isIf st₂ cs₂ st₃ cs₃) :
    Passes isIf st₁ cs₁ st₃ cs₃ := by
  obtain ⟨x, rfl, same⟩ := first
  obtain ⟨y, rfl, same'⟩ := second
  refine ⟨x ++ y, by rw [List.append_assoc], fun n => ?_⟩
  rw [same, same', List.length_append, Nat.add_assoc]

theorem Passes.one {isIf : Bool} {st : SplitState} {c : Char} {rest : List Char}
    (inside : (st.enter c).atEnd c = false) :
    Passes isIf st (c :: rest) ((st.enter c).step c rest) rest := by
  refine ⟨[c], rfl, fun n => ?_⟩
  simp [segmentEnd?, inside]

/-- A character that means nothing to the splitter but that there is code. -/
def Ordinary (c : Char) : Prop :=
  c ≠ '#' ∧ isQuote c = false ∧ isSeparator c = false ∧
    c ∉ ['(', '[', '\x7b', ')', ']', '\x7d']

def SplitState.noted (st : SplitState) (c : Char) : SplitState :=
  { st with hasCode := true, last := some c }

theorem passes_ordinary {isIf : Bool} {st : SplitState} (mode : st.mode = .code)
    (skip : st.skip = 0) {c : Char} (ordinary : Ordinary c) (rest : List Char) :
    Passes isIf st (c :: rest) (st.noted c) rest := by
  obtain ⟨comment, quote, separator, bracket⟩ := ordinary
  have stays : st.enter c = st := by simp [SplitState.enter, mode]
  have inside : (st.enter c).atEnd c = false := by
    simp only [isSeparator, Bool.or_eq_false_iff, decide_eq_false_iff_not] at separator
    rw [stays]
    simp [SplitState.atEnd, separator]
  have next : (st.enter c).step c rest = st.noted c := by
    simp only [isQuote, Bool.or_eq_false_iff, decide_eq_false_iff_not] at quote
    simp only [List.mem_cons, List.not_mem_nil, or_false, not_or] at bracket
    rw [stays]
    simp [SplitState.step, SplitState.noted, mode, skip, comment, quote, separator, bracket]
  rw [← next]
  exact .one inside

theorem passes_stretch {isIf : Bool} {st : SplitState} (mode : st.mode = .code)
    (skip : st.skip = 0) {c : Char} {x : List Char} (ordinary : ∀ d ∈ c :: x, Ordinary d)
    (rest : List Char) :
    ∃ d, Ordinary d ∧ Passes isIf st (c :: x ++ rest) (st.noted d) rest := by
  induction x generalizing c st with
  | nil =>
    have first := ordinary c List.mem_cons_self
    exact ⟨c, first, passes_ordinary mode skip first rest⟩
  | cons d x ih =>
    have first : Passes isIf st (c :: (d :: x ++ rest)) (st.noted c) (d :: x ++ rest) :=
      passes_ordinary mode skip (ordinary c List.mem_cons_self) _
    have mode' : (st.noted c).mode = .code := mode
    obtain ⟨e, last, more⟩ := ih mode' skip fun u mem => ordinary u (List.mem_cons_of_mem c mem)
    exact ⟨e, last, first.trans more⟩

theorem passes_quoted {isIf : Bool} {st st' : SplitState} {q : Char} {triple : Bool}
    (mode : st.mode = .quote q triple) {c : Char} {rest : List Char}
    (next : st.step c rest = st') : Passes isIf st (c :: rest) st' rest := by
  have stays : st.enter c = st := by simp [SplitState.enter, mode]
  have inside : (st.enter c).atEnd c = false := by
    rw [stays]
    simp [SplitState.atEnd, mode]
  rw [← next]
  conv => arg 4; rw [← stays]
  exact .one inside

theorem passes_escaped {isIf : Bool} {st : SplitState} {q : Char} {triple : Bool}
    (mode : st.mode = .quote q triple) (skip : st.skip = 0) (c : Char) (rest : List Char) :
    Passes isIf st ('\\' :: c :: rest) st rest := by
  have first : st.step '\\' (c :: rest) = { st with skip := 1 } := by
    simp [SplitState.step, mode, skip]
  have mode' : ({ st with skip := 1 } : SplitState).mode = .quote q triple := mode
  have second : ({ st with skip := 1 } : SplitState).step c rest = st := by
    simp [SplitState.step, ← skip]
  exact (passes_quoted mode first).trans (passes_quoted mode' second)

def SplitState.closed (st : SplitState) (q : Char) : SplitState :=
  { st with mode := .code, last := some q }

theorem passes_singleQuoted {isIf : Bool} {st : SplitState} {q : Char} {cs : List Char}
    {b : StringBody} (mode : st.mode = .quote q false) (skip : st.skip = 0)
    (quote : isQuote q = true) (found : singleQuoted q cs = some b) :
    Passes isIf st cs (st.closed q) b.rest := by
  fun_induction singleQuoted q cs generalizing b with
  | case1 => cases found
  | case2 c rest ih =>
    obtain ⟨b', found', rfl⟩ := Option.map_eq_some_iff.1 found
    rw [(escape_length c b').2]
    exact (passes_escaped mode skip c rest).trans (ih found')
  | case3 rest _ =>
    cases found
    have slash : q ≠ '\\' := by
      rintro rfl
      exact absurd quote (by decide)
    have next : st.step q rest = st.closed q := by
      simp [SplitState.step, SplitState.closed, mode, skip, slash]
    exact passes_quoted mode next
  | case4 => cases found
  | case5 c rest _ other plain ih =>
    obtain ⟨b', found', rfl⟩ := Option.map_eq_some_iff.1 found
    have next : st.step c rest = st := by
      simp only [Bool.or_eq_true, decide_eq_true_eq, not_or] at plain
      simp [SplitState.step, mode, skip, other, plain]
    have more := ih found'
    exact (passes_quoted mode next).trans more

theorem two_of_take {q : Char} {cs : List Char} (two : cs.take 2 = [q, q]) :
    ∃ w, cs = q :: q :: w := by
  match cs with
  | [] | [_] => simp at two
  | d :: e :: w =>
    simp only [List.take_succ_cons, List.take_zero, List.cons.injEq] at two
    obtain ⟨rfl, rfl, -⟩ := two
    exact ⟨w, rfl⟩

theorem passes_skipped {isIf : Bool} {st : SplitState} (skip : st.skip = 2)
    (mode : st.mode ≠ .comment) (c d : Char) (rest : List Char) :
    Passes isIf st (c :: d :: rest) { st with skip := 0 } rest := by
  have one {st : SplitState} (skip : 0 < st.skip) (mode : st.mode ≠ .comment) (c : Char)
      (rest : List Char) : Passes isIf st (c :: rest) { st with skip := st.skip - 1 } rest := by
    have stays : st.enter c = st := by simp [SplitState.enter, mode]
    have inside : (st.enter c).atEnd c = false := by
      rw [stays]
      simp [SplitState.atEnd, Nat.ne_of_gt skip]
    have next : (st.enter c).step c rest = { st with skip := st.skip - 1 } := by
      rw [stays]
      simp [SplitState.step, skip]
    exact next ▸ .one inside
  have first := one (by omega) mode c (d :: rest)
  have left : 0 < ({ st with skip := st.skip - 1 } : SplitState).skip := by
    simp only
    omega
  have second := one left mode d rest
  simp only [skip] at first second
  exact first.trans second

theorem passes_tripleQuoted {isIf : Bool} {st : SplitState} {q : Char} {cs : List Char}
    {b : StringBody} (mode : st.mode = .quote q true) (skip : st.skip = 0)
    (quote : isQuote q = true) (found : tripleQuoted q cs = some b) :
    Passes isIf st cs (st.closed q) b.rest := by
  have stays {c : Char} {rest : List Char} (plain : c ≠ '\\')
      (opened : ¬(c = q && rest.take 2 == [q, q]) = true) :
      Passes isIf st (c :: rest) st rest := by
    have next : st.step c rest = st := by
      simp only [Bool.and_eq_true, decide_eq_true_eq, beq_iff_eq, not_and] at opened
      by_cases same : c = q
      · subst same
        simp [SplitState.step, mode, skip, plain, opened rfl]
      · simp [SplitState.step, mode, skip, plain, same]
    exact passes_quoted mode next
  fun_induction tripleQuoted q cs generalizing b with
  | case1 => cases found
  | case2 c rest ih =>
    obtain ⟨b', found', rfl⟩ := Option.map_eq_some_iff.1 found
    rw [(escape_length c b').2]
    exact (passes_escaped mode skip c rest).trans (ih found')
  | case3 => cases found
  | case4 c rest _ plain closes =>
    cases found
    simp only [Bool.and_eq_true, decide_eq_true_eq, beq_iff_eq] at closes
    obtain ⟨rfl, two⟩ := closes
    obtain ⟨w, rfl⟩ := two_of_take two
    have next : st.step c (c :: c :: w) = { st.closed c with skip := 2 } := by
      simp [SplitState.step, SplitState.closed, mode, skip, plain]
    -- The two quotes after the first are passed without being looked at again.
    have first : Passes isIf st (c :: c :: c :: w) { st.closed c with skip := 2 } (c :: c :: w) :=
      passes_quoted mode next
    have second : Passes isIf { st.closed c with skip := 2 } (c :: c :: w)
        { st.closed c with skip := 0 } w := passes_skipped rfl SplitMode.noConfusion c c w
    have same : ({ st.closed c with skip := 0 } : SplitState) = st.closed c := by
      simp [SplitState.closed, skip]
    exact first.trans (same ▸ second)
  | case5 rest _ plain opened ih =>
    obtain ⟨b', found', rfl⟩ := Option.map_eq_some_iff.1 found
    have more := ih found'
    exact (stays plain opened).trans more
  | case6 c rest _ plain opened _ ih =>
    obtain ⟨b', found', rfl⟩ := Option.map_eq_some_iff.1 found
    have more := ih found'
    exact (stays plain opened).trans more

theorem passes_opening {isIf : Bool} {st : SplitState} (mode : st.mode = .code)
    (skip : st.skip = 0) {q : Char} (quote : isQuote q = true) (cs : List Char) :
    Passes isIf st (q :: cs) { st with
      mode := .quote q (cs.take 2 == [q, q])
      hasCode := true
      skip := if cs.take 2 == [q, q] then 2 else 0 } cs := by
  have stays : st.enter q = st := by simp [SplitState.enter, mode]
  have inside : (st.enter q).atEnd q = false := by
    rw [stays]
    rcases eq_of_isQuote quote with rfl | rfl <;> simp [SplitState.atEnd]
  have next : (st.enter q).step q cs = { st with
      mode := .quote q (cs.take 2 == [q, q])
      hasCode := true
      skip := if cs.take 2 == [q, q] then 2 else 0 } := by
    rw [stays]
    rcases eq_of_isQuote quote with rfl | rfl <;> simp [SplitState.step, mode, skip]
  exact next ▸ .one inside

def SplitState.quoting (st : SplitState) (q : Char) (triple : Bool) : SplitState :=
  { st with mode := .quote q triple, hasCode := true, skip := 0 }

theorem closed_quoting {st : SplitState} (mode : st.mode = .code) (skip : st.skip = 0) (q : Char)
    (triple : Bool) : (st.quoting q triple).closed q = st.noted q := by
  simp [SplitState.closed, SplitState.quoting, SplitState.noted, mode, skip]

theorem passes_quotedString {isIf : Bool} {st : SplitState} (mode : st.mode = .code)
    (skip : st.skip = 0) {q : Char} (quote : isQuote q = true) {cs : List Char} {b : StringBody}
    (found : quotedString q cs = some b) : Passes isIf st (q :: cs) (st.noted q) b.rest := by
  have first : Passes isIf st (q :: cs) _ cs := passes_opening mode skip quote cs
  unfold quotedString at found
  by_cases triple : (cs.take 2 == [q, q]) = true
  · rw [if_pos triple] at found
    simp only [triple, if_true] at first
    obtain ⟨w, rfl⟩ := two_of_take (eq_of_beq triple)
    have second : Passes isIf { st.quoting q true with skip := 2 } (q :: q :: w)
        (st.quoting q true) w := passes_skipped rfl SplitMode.noConfusion q q w
    have third : Passes isIf (st.quoting q true) w ((st.quoting q true).closed q) b.rest :=
      passes_tripleQuoted rfl rfl quote found
    rw [closed_quoting mode skip] at third
    exact first.trans (second.trans third)
  · rw [if_neg triple] at found
    simp only [triple] at first
    have second : Passes isIf (st.quoting q false) cs ((st.quoting q false).closed q) b.rest :=
      passes_singleQuoted rfl rfl quote found
    rw [closed_quoting mode skip] at second
    exact first.trans second

theorem ordinary_of_isWordChar {c : Char} (word : isWordChar c = true) : Ordinary c := by
  refine ⟨?_, not_isQuote (by decide) (by decide) word, ?_, ?_⟩
  · rintro rfl
    exact absurd word (by decide)
  · cases separator : isSeparator c with
    | false => rfl
    | true =>
      rcases eq_of_isSeparator separator with rfl | rfl | rfl | rfl | rfl <;>
        exact absurd word (by decide)
  · intro bracket
    simp only [List.mem_cons, List.not_mem_nil, or_false] at bracket
    rcases bracket with rfl | rfl | rfl | rfl | rfl | rfl <;> exact absurd word (by decide)

theorem ordinary_of_isAsciiDigit {c : Char} (digit : Text.isAsciiDigit c = true) : Ordinary c := by
  apply ordinary_of_isWordChar
  have ascii : Text.isAscii c = true := by
    have := Text.isAsciiDigit_iff.1 digit
    exact Text.isAscii_iff.2 (by omega)
  simp [isWordChar, Text.isAlphanumeric_of_ascii ascii, Text.isAsciiAlphanumeric, digit]

theorem ordinary_of_takeWhile {p : Char → Bool} (each : ∀ c, p c = true → Ordinary c)
    {cs : List Char} : ∀ c ∈ cs.takeWhile p, Ordinary c := by
  induction cs with
  | nil => exact fun c mem => absurd mem List.not_mem_nil
  | cons d cs ih =>
    by_cases passes : p d = true
    · rw [List.takeWhile_cons_of_pos passes]
      exact List.forall_mem_cons.2 ⟨each d passes, ih⟩
    · rw [List.takeWhile_cons_of_neg passes]
      exact fun c mem => absurd mem List.not_mem_nil

def Stretch (cs rest : List Char) : Prop := ∃ x, cs = x ++ rest ∧ ∀ c ∈ x, Ordinary c

theorem Stretch.trans {cs mid rest : List Char} (first : Stretch cs mid)
    (second : Stretch mid rest) : Stretch cs rest := by
  obtain ⟨x, rfl, ordinary⟩ := first
  obtain ⟨y, rfl, ordinary'⟩ := second
  refine ⟨x ++ y, by rw [List.append_assoc], fun c mem => ?_⟩
  exact (List.mem_append.1 mem).elim (ordinary c) (ordinary' c)

theorem Stretch.cons {c : Char} {cs rest : List Char} (first : Ordinary c)
    (more : Stretch cs rest) : Stretch (c :: cs) rest := by
  obtain ⟨x, rfl, ordinary⟩ := more
  exact ⟨c :: x, rfl, List.forall_mem_cons.2 ⟨first, ordinary⟩⟩

theorem stretch_refl (cs : List Char) : Stretch cs cs :=
  ⟨[], rfl, fun _ mem => absurd mem List.not_mem_nil⟩

theorem stretch_dropWhile {p : Char → Bool} (each : ∀ c, p c = true → Ordinary c)
    (cs : List Char) : Stretch cs (cs.dropWhile p) :=
  ⟨cs.takeWhile p, List.takeWhile_append_dropWhile.symm, ordinary_of_takeWhile each⟩

theorem stretch_unsigned (cs : List Char) : Stretch cs (unsigned cs) := by
  unfold unsigned signOf
  split
  · exact .cons (by unfold Ordinary; decide) (stretch_refl _)
  · exact .cons (by unfold Ordinary; decide) (stretch_refl _)
  · exact stretch_refl _

theorem stretch_number {cs after : List Char} {t : Token} (read : number cs = .ok (t, after)) :
    Stretch cs after := by
  have digits (cs : List Char) := stretch_dropWhile (fun c => ordinary_of_isAsciiDigit) cs
  have fraction : Stretch (afterWhole cs) (afterFraction cs) := by
    by_cases none : fractionPart (afterWhole cs) = []
    · rw [afterFraction, none]
      exact stretch_refl _
    · obtain ⟨rest, split, -, after'⟩ := fractionPart_elim none
      rw [afterFraction, after', split]
      exact .cons (by unfold Ordinary; decide) (digits rest)
  have expo : Stretch (afterFraction cs) (afterExponent cs) := by
    by_cases none : exponentPart (afterFraction cs) = []
    · rw [afterExponent, none]
      exact stretch_refl _
    · obtain ⟨e, rest, split, mark, -, -, after'⟩ := exponentPart_elim none
      have ordinary : Ordinary e := by
        rcases mark with rfl | rfl <;> exact ordinary_of_isWordChar (by decide)
      rw [afterExponent, after', split]
      exact .cons ordinary ((stretch_unsigned rest).trans (digits _))
  rw [number_eq] at read
  obtain ⟨left, -⟩ := numberOf_rest read
  exact left ▸ (digits cs).trans (fraction.trans expo)

theorem number_plain {cs after : List Char} {t : Token} (read : number cs = .ok (t, after)) :
    t.Plain ∧ t ≠ .rbrace ∧ t ≠ .newline ∧ t ≠ .eof := by
  rcases number_elim read with ⟨n, rfl⟩ | ⟨x, rfl⟩ <;>
    exact ⟨fun _ => rfl, Token.noConfusion, Token.noConfusion, Token.noConfusion⟩

theorem wordToken_plain (word : String) :
    (wordToken word).Plain ∧ wordToken word ≠ .rbrace ∧ wordToken word ≠ .newline ∧
      wordToken word ≠ .eof := by
  unfold wordToken
  split <;> exact ⟨fun _ => rfl, Token.noConfusion, Token.noConfusion, Token.noConfusion⟩

structure Between (d : Nest) (st : SplitState) : Prop where
  mode : st.mode = .code
  skip : st.skip = 0
  depth : st.depth = d.1 + d.2

theorem Between.noted {d : Nest} {st : SplitState} (between : Between d st) (c : Char) :
    Between d (st.noted c) := ⟨between.mode, between.skip, between.depth⟩

structure PassedToken (isIf : Bool) (st : SplitState) (cs : List Char) (t : Token) (e : Nest)
    (st' : SplitState) (rest : List Char) : Prop where
  passes : Passes isIf st cs st' rest
  between : Between e st'
  code : st'.hasCode = true
  last : st'.last = some '\x7d' ↔ t = .rbrace

theorem Ordinary.ne_rbrace {c : Char} (ordinary : Ordinary c) : c ≠ '\x7d' := by
  rintro rfl
  exact ordinary.2.2.2 (by decide)

theorem passed_stretch {isIf : Bool} {d : Nest} {st : SplitState} (between : Between d st)
    {c : Char} {cs rest : List Char} (first : Ordinary c) (stretch : Stretch cs rest) {t : Token}
    (other : t ≠ .rbrace) : ∃ st', PassedToken isIf st (c :: cs) t d st' rest := by
  obtain ⟨x, rfl, ordinary⟩ := stretch
  have all : ∀ d ∈ c :: x, Ordinary d := List.forall_mem_cons.2 ⟨first, ordinary⟩
  obtain ⟨e, last, passes⟩ := passes_stretch between.mode between.skip all rest
  refine ⟨st.noted e, passes, between.noted e, rfl, fun same => ?_, fun same => absurd same other⟩
  exact absurd (Option.some.inj same) last.ne_rbrace

theorem passed_opening {isIf : Bool} {d e : Nest} {st : SplitState} (between : Between d st)
    {c : Char} (bracket : c ∈ ['(', '[', '\x7b']) {t : Token} (other : t ≠ .rbrace)
    (deeper : (e.1 : Int) + e.2 = d.1 + d.2 + 1) (rest : List Char) :
    ∃ st', PassedToken isIf st (c :: rest) t e st' rest := by
  have stays : st.enter c = st := by simp [SplitState.enter, between.mode]
  have facts : (st.enter c).atEnd c = false ∧ c ≠ '\x7d' ∧
      (st.enter c).step c rest = { st.noted c with depth := st.depth + 1 } := by
    rw [stays]
    simp only [List.mem_cons, List.not_mem_nil, or_false] at bracket
    rcases bracket with rfl | rfl | rfl <;>
      simp [SplitState.atEnd, SplitState.step, SplitState.noted, between.mode, between.skip]
  obtain ⟨inside, differs, next⟩ := facts
  refine ⟨{ st.noted c with depth := st.depth + 1 }, next ▸ .one inside,
    ⟨between.mode, between.skip, ?_⟩, rfl, fun same => ?_, fun same => absurd same other⟩
  · rw [deeper, ← between.depth]
  · exact absurd (Option.some.inj same) differs

theorem passed_closing {isIf : Bool} {d e : Nest} {st : SplitState} (between : Between d st)
    {c : Char} (bracket : c ∈ [')', ']', '\x7d']) {t : Token} (brace : c = '\x7d' ↔ t = .rbrace)
    (higher : (d.1 : Int) + d.2 = e.1 + e.2 + 1) (rest : List Char) :
    ∃ st', PassedToken isIf st (c :: rest) t e st' rest := by
  have stays : st.enter c = st := by simp [SplitState.enter, between.mode]
  have facts : (st.enter c).atEnd c = false ∧
      (st.enter c).step c rest = { st.noted c with depth := st.depth - 1 } := by
    rw [stays]
    simp only [List.mem_cons, List.not_mem_nil, or_false] at bracket
    rcases bracket with rfl | rfl | rfl <;>
      simp [SplitState.atEnd, SplitState.step, SplitState.noted, between.mode, between.skip]
  obtain ⟨inside, next⟩ := facts
  refine ⟨{ st.noted c with depth := st.depth - 1 }, next ▸ .one inside,
    ⟨between.mode, between.skip, ?_⟩, rfl, ?_⟩
  · have := between.depth
    simp only
    omega
  · rw [← brace]
    exact ⟨fun same => Option.some.inj same, fun same => by rw [← same]; rfl⟩

theorem passed_punctuation {isIf : Bool} {d e : Nest} {st : SplitState} (between : Between d st)
    {c : Char} {rest after : List Char} {t : Token} (mark : punctuation? c rest = some (t, after))
    (nest : t.nest? d = some e) : ∃ st', PassedToken isIf st (c :: rest) t e st' after := by
  unfold punctuation? at mark
  split at mark
  case h_24 => cases mark
  all_goals cases mark
  case h_1 | h_2 | h_3 | h_4 | h_5 | h_6 =>
    cases nest
    exact passed_stretch between (by unfold Ordinary; decide)
      (.cons (by unfold Ordinary; decide) (stretch_refl _)) Token.noConfusion
  -- Opening brackets, then the two kinds of closing ones.
  case h_15 | h_17 | h_19 =>
    obtain ⟨p, b⟩ := d
    cases nest
    exact passed_opening between (by decide) Token.noConfusion (by simp only; omega) _
  case h_16 | h_18 =>
    obtain ⟨p, b⟩ := d
    cases p <;> cases nest
    refine passed_closing between (by decide) ⟨fun same => ?_, fun same => ?_⟩ ?_ _
    · exact absurd same (by decide)
    · cases same
    · simp only
      omega
  case h_20 =>
    obtain ⟨p, b⟩ := d
    cases b <;> cases nest
    refine passed_closing between (by decide) ⟨fun _ => rfl, fun _ => rfl⟩ ?_ _
    simp only
    omega
  all_goals
    cases nest
    exact passed_stretch between (by unfold Ordinary; decide) (stretch_refl _) Token.noConfusion

theorem passed_tokenAt {isIf : Bool} {d e : Nest} {st : SplitState} (between : Between d st)
    {c : Char} {rest after : List Char} {t : Token} (found : TokenAt c rest t after)
    (nest : t.nest? d = some e) : ∃ st', PassedToken isIf st (c :: rest) t e st' after := by
  have words := stretch_dropWhile (fun c => ordinary_of_isWordChar)
  have quoted {st : SplitState} (between : Between d st) {q : Char} (quote : isQuote q = true)
      {cs : List Char} {b : StringBody} (body : quotedString q cs = some b) {t : Token}
      (other : t ≠ .rbrace) : PassedToken isIf st (q :: cs) t d (st.noted q) b.rest := by
    refine ⟨passes_quotedString between.mode between.skip quote body, between.noted q, rfl,
      fun same => ?_, fun same => absurd same other⟩
    rw [Option.some.inj same] at quote
    exact absurd quote (by decide)
  cases found with
  | string quote body =>
    cases nest
    exact ⟨_, quoted between quote body Token.noConfusion⟩
  | @template letter q more starts quote b body =>
    cases nest
    subst starts
    have ordinary : Ordinary c := by
      simp only [Bool.or_eq_true, decide_eq_true_eq] at letter
      rcases letter with rfl | rfl <;> exact ordinary_of_isWordChar (by decide)
    have first : Passes isIf st (c :: q :: more) (st.noted c) (q :: more) :=
      passes_ordinary between.mode between.skip ordinary (q :: more)
    have other : Token.template (String.ofList b.text) ≠ .rbrace := Token.noConfusion
    obtain ⟨passes, between', code, last⟩ := quoted (between.noted c) quote body other
    exact ⟨_, first.trans passes, between', code, last⟩
  | dollar sign named =>
    cases nest
    subst sign
    exact passed_stretch between (by unfold Ordinary; decide) (words rest) Token.noConfusion
  | number digit read =>
    obtain ⟨plain, other, -⟩ := number_plain read
    rw [plain d] at nest
    cases nest
    obtain ⟨x, split, ordinary⟩ := stretch_number read
    match x with
    | [] =>
      have short := number_rest_le c rest digit read
      rw [← show c :: rest = after from split, List.length_cons] at short
      omega
    | a :: x =>
      obtain ⟨rfl, more⟩ := List.cons.inj split
      obtain ⟨first, others⟩ := List.forall_mem_cons.1 ordinary
      exact passed_stretch between first ⟨x, more, others⟩ other
  | word letter unquoted =>
    obtain ⟨plain, other, -⟩ := wordToken_plain (String.ofList (c :: rest.takeWhile isWordChar))
    rw [plain d] at nest
    cases nest
    exact passed_stretch between (ordinary_of_isWordChar (isWordChar_of_isWordStart letter))
      (words rest) other
  | punctuation mark => exact passed_punctuation between mark nest

end Playbook.Script
