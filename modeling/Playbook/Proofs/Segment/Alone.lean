import Playbook.Proofs.Segment.Agreement

/- A segment on its own. The text of a segment is split off by itself just as it has been split off
   in the whole, and so it is before any other text that begins with no other branch. -/
namespace Playbook.Script

/-- Whether the code at the front of a text opens another branch; none while that is open. -/
def opensBranch? (finished : Bool) (code : List Char) : Option Bool :=
  if (code.takeWhile mayContinueWord).length < code.length ∨ finished = true then
    some (opensBranch code)
  else none

theorem continuesWithElse?_eq (finished : Bool) (cs : List Char) :
    continuesWithElse? finished cs = opensBranch? finished (skipSeparators false cs) := by
  simp only [continuesWithElse?, opensBranch?, opensBranch]
  cases finished <;> simp

theorem opensBranch?_some_true {finished : Bool} {code : List Char}
    (opens : opensBranch? finished code = some true) :
    ∃ word more, code = word ++ more ∧ (word = ['e', 'l', 's', 'e'] ∨ word = ['e', 'l', 'i', 'f']) ∧
      more.head?.any mayContinueWord = false ∧ (finished = false → more ≠ []) := by
  unfold opensBranch? at opens
  split at opens
  case isFalse => cases opens
  case isTrue known =>
    simp only [opensBranch, Option.some.injEq, Bool.or_eq_true, beq_iff_eq] at opens
    refine ⟨code.takeWhile mayContinueWord, code.dropWhile mayContinueWord,
      List.takeWhile_append_dropWhile.symm, opens, ?_, ?_⟩
    · cases rest : code.dropWhile mayContinueWord with
      | nil => rfl
      | cons c rest =>
        have stops := List.head?_dropWhile_not mayContinueWord code
        rw [rest] at stops
        simpa using stops
    · rintro rfl none
      have whole := List.takeWhile_append_dropWhile (p := mayContinueWord) (l := code)
      rw [none, List.append_nil] at whole
      simp [whole] at known

theorem letters_of_branch {word : List Char}
    (branch : word = ['e', 'l', 's', 'e'] ∨ word = ['e', 'l', 'i', 'f']) :
    ∀ c ∈ word, mayContinueWord c = true := by
  rcases branch with rfl | rfl <;> exact List.all_eq_true.1 rfl

theorem opensBranch?_of_word {word more : List Char}
    (branch : word = ['e', 'l', 's', 'e'] ∨ word = ['e', 'l', 'i', 'f'])
    (ends : more.head?.any mayContinueWord = false) {finished : Bool}
    (known : finished = false → more ≠ []) : opensBranch? finished (word ++ more) = some true := by
  have letters := letters_of_branch branch
  have same : (word ++ more).takeWhile mayContinueWord = word := by
    rw [List.takeWhile_append_of_pos letters]
    cases more with
    | nil => rw [List.takeWhile_nil, List.append_nil]
    | cons c more =>
      rw [List.takeWhile_cons_of_neg (by simpa using ends), List.append_nil]
  have opens : opensBranch (word ++ more) = true := by
    rw [opensBranch, same]
    rcases branch with rfl | rfl <;> decide
  rw [opensBranch?, same, opens, if_pos]
  cases finished with
  | true => exact .inr rfl
  | false =>
    left
    have some := List.length_pos_iff.2 (known rfl)
    rw [List.length_append]
    omega

def resting (inComment : Bool) (depth : Int) (hasCode : Bool) (last : Option Char) : SplitState :=
  ⟨if inComment then .comment else .code, 0, depth, hasCode, last⟩

def SplitState.beyond (st : SplitState) (c : Char) (rest : List Char) : SplitState :=
  if (st.enter c).atEnd c then st.enter c else (st.enter c).step c rest

def restsOn (inComment : Bool) (c : Char) : Bool := inComment || isSeparator c || c = '#'

theorem skipSeparators_rests {inComment : Bool} {c : Char} (rests : restsOn inComment c = true)
    (cs : List Char) :
    skipSeparators inComment (c :: cs) =
      skipSeparators (if inComment then c ≠ '\n' else c = '#') cs := by
  cases inComment with
  | true => simp [skipSeparators]
  | false =>
    by_cases comment : c = '#'
    · subst comment
      simp [skipSeparators, isSeparator]
    · simp [restsOn, comment] at rests
      simp [skipSeparators, rests, comment]

theorem skipSeparators_of_code {inComment : Bool} {c : Char} (code : restsOn inComment c = false)
    (cs : List Char) : skipSeparators inComment (c :: cs) = c :: cs := by
  simp only [restsOn, Bool.or_eq_false_iff, decide_eq_false_iff_not] at code
  simp [skipSeparators, code]

theorem resting_beyond {inComment : Bool} {c : Char} (rests : restsOn inComment c = true)
    (depth : Int) (hasCode : Bool) (last : Option Char) (rest : List Char) :
    (resting inComment depth hasCode last).beyond c rest =
      resting (if inComment then c ≠ '\n' else c = '#') depth hasCode last := by
  cases inComment with
  | true =>
    by_cases broken : c = '\n'
    · subst broken
      by_cases flat : depth ≤ 0 <;>
        simp [SplitState.beyond, SplitState.enter, SplitState.atEnd, SplitState.step, resting,
          isSeparator, flat]
    · simp [SplitState.beyond, SplitState.enter, SplitState.atEnd, SplitState.step, resting, broken]
  | false =>
    by_cases comment : c = '#'
    · subst comment
      simp [SplitState.beyond, SplitState.enter, SplitState.atEnd, SplitState.step, resting]
    · simp only [restsOn, comment, decide_false, Bool.or_false, Bool.false_or] at rests
      have code : c ≠ '"' ∧ c ≠ '\'' ∧ c ≠ '(' ∧ c ≠ '[' ∧ c ≠ '\x7b' ∧ c ≠ ')' ∧ c ≠ ']' ∧
          c ≠ '\x7d' := by
        simp only [isSeparator, Bool.or_eq_true, decide_eq_true_eq] at rests
        rcases rests with (((rfl | rfl) | rfl) | rfl) | rfl <;> decide
      simp [SplitState.beyond, SplitState.enter, SplitState.step, resting, comment, rests, code]

theorem segmentEnd?_min {finished isIf code : Bool} {st : SplitState} {n : Nat} {cs : List Char}
    (done : segmentEnd? finished isIf st n cs = some (n, code)) : cs = [] := by
  have bound := le_of_segmentEnd? _ _ _ _ _ done
  cases cs with
  | nil => rfl
  | cons c rest =>
    rw [List.length_cons] at bound
    omega

/-- Whether the segment ends with a character; none while that is open. -/
def stops? (finished isIf : Bool) (st : SplitState) (c : Char) (rest : List Char) : Option Bool :=
  if (st.enter c).atEnd c then
    if st.hasCode && st.last = some '\x7d' && isIf then
      (continuesWithElse? finished rest).map (!·)
    else some true
  else some false

theorem atEnd_of_stops {finished isIf : Bool} {st : SplitState} {c : Char} {rest : List Char}
    (stops : stops? finished isIf st c rest = some true) : (st.enter c).atEnd c = true := by
  unfold stops? at stops
  split at stops
  · assumption
  · cases stops

theorem enter_hasCode (st : SplitState) (c : Char) : (st.enter c).hasCode = st.hasCode := by
  unfold SplitState.enter
  split <;> rfl

theorem segmentEnd?_cons (finished isIf : Bool) (st : SplitState) (n : Nat) (c : Char)
    (rest : List Char) :
    segmentEnd? finished isIf st n (c :: rest) =
      (stops? finished isIf st c rest).bind fun stops =>
        if stops then some (n + 1, st.hasCode)
        else segmentEnd? finished isIf (st.beyond c rest) (n + 1) rest := by
  rw [segmentEnd?]
  simp only [stops?, enter_hasCode, last_enter, SplitState.beyond]
  by_cases ends : (st.enter c).atEnd c = true
  · simp only [ends, if_true]
    split
    · cases continuesWithElse? finished rest with
      | none => rfl
      | some more => cases more <;> rfl
    · rfl
  · simp [ends]

theorem terminator_of_atEnd {st : SplitState} {c : Char} (ends : (st.enter c).atEnd c = true) :
    st.skip = 0 ∧ (c = '\n' ∨ c = ';') := by
  have skip : (st.enter c).skip = st.skip := by
    unfold SplitState.enter
    split <;> rfl
  simp only [SplitState.atEnd, Bool.and_eq_true, Bool.or_eq_true, decide_eq_true_eq, skip] at ends
  exact ⟨ends.1.1.1, ends.1.2⟩

theorem resting_atEnd {inComment : Bool} {depth : Int} {hasCode : Bool} {last : Option Char}
    {c : Char} (ends : ((resting inComment depth hasCode last).enter c).atEnd c = true) :
    (if inComment then decide (c ≠ '\n') else decide (c = '#')) = false := by
  cases inComment with
  | true =>
    by_cases broken : c = '\n'
    · simp [broken]
    · simp [SplitState.enter, SplitState.atEnd, resting, broken] at ends
  | false =>
    obtain ⟨-, rfl | rfl⟩ := terminator_of_atEnd ends <;> rfl

theorem segmentEnd?_resting {finished inComment : Bool} {c : Char}
    (rests : restsOn inComment c = true) {rest : List Char}
    (opens : opensBranch? finished (skipSeparators inComment (c :: rest)) = some true)
    (depth : Int) (n : Nat) :
    segmentEnd? finished true (resting inComment depth true (some '\x7d')) n (c :: rest) =
      segmentEnd? finished true
        (resting (if inComment then c ≠ '\n' else c = '#') depth true (some '\x7d')) (n + 1)
        rest := by
  have goes : stops? finished true (resting inComment depth true (some '\x7d')) c rest =
      some false := by
    unfold stops?
    split
    case isFalse => rfl
    case isTrue ends =>
      rw [skipSeparators_rests rests, resting_atEnd ends, ← continuesWithElse?_eq] at opens
      rw [opens]
      rfl
  rw [segmentEnd?_cons, goes, ← resting_beyond rests]
  rfl

theorem segmentEnd?_word {word : List Char} (letters : ∀ c ∈ word, mayContinueWord c = true)
    (finished isIf : Bool) (st : SplitState) (n : Nat) (more : List Char) :
    ∃ st', segmentEnd? finished isIf st n (word ++ more) =
      segmentEnd? finished isIf st' (n + word.length) more := by
  induction word generalizing st n with
  | nil => exact ⟨st, rfl⟩
  | cons c word ih =>
    have inside : (st.enter c).atEnd c = false := by
      have letter := letters c List.mem_cons_self
      by_contra ends
      obtain ⟨-, rfl | rfl⟩ := terminator_of_atEnd (by simpa using ends) <;> cases letter
    obtain ⟨st', same⟩ := ih (fun d among => letters d (List.mem_cons_of_mem c among))
      (st.beyond c (word ++ more)) (n + 1)
    refine ⟨st', ?_⟩
    have goes : stops? finished isIf st c (word ++ more) = some false := by
      simp [stops?, inside]
    rw [List.cons_append, segmentEnd?_cons, goes, List.length_cons, Nat.add_comm word.length,
      ← Nat.add_assoc, ← same]
    rfl

theorem opensBranch?_cut {finished isIf code : Bool} {st : SplitState} {n k : Nat} {cs : List Char}
    (opens : opensBranch? finished cs = some true)
    (done : segmentEnd? finished isIf st n cs = some (n + k, code)) :
    opensBranch? finished (cs.take k) = some true := by
  obtain ⟨word, more, rfl, branch, ends, some⟩ := opensBranch?_some_true opens
  have four : word.length = 4 := by rcases branch with rfl | rfl <;> rfl
  have letters := letters_of_branch branch
  obtain ⟨st', same⟩ := segmentEnd?_word letters finished isIf st n more
  rw [same] at done
  have far := le_of_segmentEnd? _ _ _ _ _ done
  rw [List.take_append, List.take_of_length_le (by omega)]
  apply opensBranch?_of_word branch
  · cases more with
    | nil => rw [List.take_nil]; rfl
    | cons d more =>
      cases k - word.length with
      | zero => rfl
      | succ j => exact ends
  · intro unfinished none
    have longer := List.length_pos_iff.2 (some unfinished)
    rcases List.take_eq_nil_iff.1 none with short | nothing
    · omega
    · exact some unfinished nothing

theorem opensBranch?_take {finished inComment : Bool} {depth : Int} {n k : Nat} {code : Bool}
    {cs : List Char} (opens : opensBranch? finished (skipSeparators inComment cs) = some true)
    (done : segmentEnd? finished true (resting inComment depth true (some '\x7d')) n cs =
      some (n + k, code)) :
    opensBranch? finished (skipSeparators inComment (cs.take k)) = some true := by
  induction cs generalizing inComment n k with
  | nil => simpa using opens
  | cons c rest ih =>
    have bound := le_of_segmentEnd? _ _ _ _ _ done
    rw [List.length_cons] at bound
    obtain ⟨k, rfl⟩ := Nat.exists_eq_add_of_le' (show 1 ≤ k by omega)
    rw [List.take_succ_cons]
    cases rests : restsOn inComment c with
    | true =>
      rw [segmentEnd?_resting rests opens] at done
      rw [skipSeparators_rests rests] at opens ⊢
      exact ih opens (n := n + 1) (by rw [done]; congr 2; omega)
    | false =>
      rw [skipSeparators_of_code rests] at opens ⊢
      exact opensBranch?_cut opens done

def SplitState.Quoting (st : SplitState) : Prop :=
  ∀ q triple, st.mode = .quote q triple → q = '"' ∨ q = '\''

theorem SplitState.Quoting.enter {st : SplitState} (quoting : st.Quoting) (c : Char) :
    (st.enter c).Quoting := by
  unfold SplitState.enter
  split
  · nofun
  · exact quoting

theorem SplitState.Quoting.beyond {st : SplitState} (quoting : st.Quoting) (c : Char)
    (rest : List Char) : (st.beyond c rest).Quoting := by
  have entered := quoting.enter c
  unfold SplitState.beyond
  split
  · exact entered
  · generalize st.enter c = st at entered
    unfold SplitState.step
    intro q triple mode
    repeat' split at mode
    all_goals first
      | exact entered q triple mode
      | cases mode
    all_goals simp_all

theorem step_eq {st : SplitState} (quoting : st.Quoting) (c : Char) {cs ds : List Char}
    (same : ∀ q, q = '"' ∨ q = '\'' → (cs.take 2 == [q, q]) = (ds.take 2 == [q, q])) :
    st.step c cs = st.step c ds := by
  unfold SplitState.step
  cases mode : st.mode with
  | comment => rfl
  | quote q triple => simp only [same q (quoting q triple mode)]
  | code =>
    by_cases opens : c = '"' ∨ c = '\''
    · simp only [same c opens]
    · simp [not_or.1 opens]

theorem step_cut {finished isIf code : Bool} {st : SplitState} (quoting : st.Quoting) {c : Char}
    {rest : List Char} {n k : Nat}
    (done : segmentEnd? finished isIf (st.step c rest) n rest = some (n + k, code))
    {more : List Char} (grown : finished = false ∨ more = []) :
    st.step c (rest.take k ++ more) = st.step c rest := by
  have bound := le_of_segmentEnd? _ _ _ _ _ done
  match k with
  | 0 =>
    match rest with
    | a :: rest =>
      rw [List.length_cons] at bound
      omega
    | [] =>
      rcases grown with rfl | rfl
      · cases done
      · rfl
  | k + 2 =>
    apply step_eq quoting
    intro q _
    match rest with
    | [] =>
      rcases grown with rfl | rfl
      · cases done
      · rfl
    | [a] =>
      have far := segmentEnd?_le done
      rw [List.length_singleton] at far
      omega
    | a :: b :: rest => rfl
  | 1 =>
    match rest with
    | [] =>
      have far := segmentEnd?_le done
      rw [List.length_nil] at far
      omega
    | a :: rest =>
      rw [segmentEnd?_cons] at done
      obtain ⟨stops, asked, done⟩ := Option.bind_eq_some_iff.1 done
      cases stops with
      | false =>
        have none := segmentEnd?_min done
        subst none
        rcases grown with rfl | rfl
        · cases done
        · rfl
      | true =>
        obtain ⟨skip, terminator⟩ := terminator_of_atEnd (atEnd_of_stops asked)
        have plain (cs : List Char) : st.step c (a :: cs) = st.step c [] := by
          apply step_eq quoting
          rintro q (rfl | rfl) <;> rcases terminator with rfl | rfl <;> simp
        rw [List.take_succ_cons, List.cons_append, plain, plain]

theorem enter_eq_resting {st : SplitState} {c : Char} (ends : (st.enter c).atEnd c = true)
    (block : st.hasCode = true ∧ st.last = some '\x7d') :
    st.enter c = resting false st.depth true (some '\x7d') := by
  simp only [SplitState.atEnd, Bool.and_eq_true, decide_eq_true_eq] at ends
  rcases st with ⟨mode, skip, depth, hasCode, last⟩
  obtain ⟨rfl, rfl⟩ := block
  unfold SplitState.enter at ends ⊢
  split at ends <;> simp_all [resting]

theorem stops?_same {finished finished' isIf stops : Bool} {st : SplitState} {c : Char}
    {rest rest' : List Char} (asked : stops? finished isIf st c rest = some stops)
    (branch : (st.enter c).atEnd c = true → (st.hasCode && st.last = some '\x7d' && isIf) = true →
      continuesWithElse? finished rest = some (!stops) →
      continuesWithElse? finished' rest' = some (!stops)) :
    stops? finished' isIf st c rest' = some stops := by
  unfold stops? at asked ⊢
  split at asked
  case isFalse inside => rw [if_neg inside, asked]
  case isTrue ends =>
    rw [if_pos ends]
    split at asked
    case isFalse plain => rw [if_neg plain, asked]
    case isTrue block =>
      obtain ⟨more, known, flipped⟩ := Option.map_eq_some_iff.1 asked
      have answer : more = !stops := by rw [← flipped, Bool.not_not]
      rw [if_pos block, branch ends block (answer ▸ known), Option.map_some, Bool.not_not]

theorem beyond_cut {finished isIf code : Bool} {st : SplitState} (quoting : st.Quoting) {c : Char}
    {rest : List Char} {n k : Nat}
    (done : segmentEnd? finished isIf (st.beyond c rest) n rest = some (n + k, code))
    {more : List Char} (grown : finished = false ∨ more = []) :
    st.beyond c (rest.take k ++ more) = st.beyond c rest := by
  unfold SplitState.beyond at done ⊢
  split
  case isTrue => rfl
  case isFalse inside =>
    rw [if_neg inside] at done
    exact step_cut (quoting.enter c) done grown

/-- The end of a segment stays where it is when the text after it is cut off, or replaced by one
    that begins with no other branch. -/
theorem segmentEnd?_cut {finished finished' isIf code : Bool} {st : SplitState}
    (quoting : st.Quoting) {n k : Nat} {cs more : List Char}
    (done : segmentEnd? finished isIf st n cs = some (n + k, code))
    (grown : finished = false ∨ more = [] ∧ finished' = true)
    (apart : continuesWithElse? finished (cs.drop k) = some false →
      continuesWithElse? finished' more = some false) :
    segmentEnd? finished' isIf st n (cs.take k ++ more) = some (n + k, code) := by
  induction cs generalizing st n k with
  | nil =>
    unfold segmentEnd? at done
    rcases grown with rfl | ⟨rfl, rfl⟩
    · cases done
    · split at done
      · rw [List.take_nil, List.append_nil, segmentEnd?, if_pos rfl]
        exact done
      · cases done
  | cons c rest ih =>
    have bound := le_of_segmentEnd? _ _ _ _ _ done
    rw [List.length_cons] at bound
    obtain ⟨k, rfl⟩ := Nat.exists_eq_add_of_le' (show 1 ≤ k by omega)
    rw [segmentEnd?_cons] at done
    obtain ⟨stops, asked, done⟩ := Option.bind_eq_some_iff.1 done
    rw [List.take_succ_cons, List.cons_append, segmentEnd?_cons]
    rw [List.drop_succ_cons] at apart
    cases stops with
    | true =>
      obtain ⟨now, rfl⟩ := Prod.mk.inj (Option.some.inj done)
      obtain rfl : k = 0 := by omega
      rw [List.take_zero, List.nil_append]
      rw [stops?_same asked fun _ _ => apart]
      rfl
    | false =>
      have later : segmentEnd? finished isIf (st.beyond c rest) (n + 1) rest =
          some (n + 1 + k, code) := by
        rw [Nat.add_right_comm, Nat.add_assoc]
        exact done
      have goes : stops? finished' isIf st c (rest.take k ++ more) = some false := by
        apply stops?_same asked
        intro ends block opens
        simp only [Bool.and_eq_true, decide_eq_true_eq] at block
        obtain ⟨block, rfl⟩ := block
        rw [SplitState.beyond, if_pos ends, enter_eq_resting ends block] at later
        rw [continuesWithElse?_eq] at opens
        have inside := opensBranch?_take opens later
        rw [← continuesWithElse?_eq] at inside
        rcases grown with rfl | ⟨rfl, rfl⟩
        · exact continuesWithElse?_append inside finished' more
        · rw [List.append_nil]
          cases finished with
          | true => exact inside
          | false =>
            have same := continuesWithElse?_append inside true []
            rwa [List.append_nil] at same
      rw [goes, beyond_cut quoting later (grown.imp_right And.left)]
      have onward := ih (quoting.beyond c rest) later apart
      rw [Nat.add_right_comm, Nat.add_assoc] at onward
      exact onward

theorem last_beyond_ne {st : SplitState} {c : Char} (plain : c ≠ '\x7d')
    (before : st.last ≠ some '\x7d') (rest : List Char) :
    (st.beyond c rest).last ≠ some '\x7d' := by
  have entered : (st.enter c).last ≠ some '\x7d' := by rwa [last_enter]
  unfold SplitState.beyond
  split
  · exact entered
  · exact last_step_ne plain entered

theorem start_irrelevant_to_segment {finished a code : Bool} {st : SplitState} {n k : Nat}
    {cs : List Char} (plain : '\x7d' ∉ cs.take k) (before : st.last ≠ some '\x7d')
    (done : segmentEnd? finished a st n cs = some (n + k, code)) (b : Bool) :
    segmentEnd? finished b st n cs = some (n + k, code) := by
  induction cs generalizing st n k with
  | nil => exact done
  | cons c rest ih =>
    have bound := le_of_segmentEnd? _ _ _ _ _ done
    rw [List.length_cons] at bound
    obtain ⟨k, rfl⟩ := Nat.exists_eq_add_of_le' (show 1 ≤ k by omega)
    rw [List.take_succ_cons, List.mem_cons, not_or] at plain
    rw [segmentEnd?_cons] at done ⊢
    have same : stops? finished b st c rest = stops? finished a st c rest := by
      simp only [stops?, decide_eq_false before, Bool.and_false, Bool.false_and]
    rw [same]
    obtain ⟨stops, asked, done⟩ := Option.bind_eq_some_iff.1 done
    rw [asked]
    cases stops with
    | true => exact done
    | false =>
      have onward := ih plain.2 (last_beyond_ne (Ne.symm plain.1) before rest) (n := n + 1)
        (by rw [Nat.add_right_comm, Nat.add_assoc]; exact done)
      rw [Nat.add_right_comm, Nat.add_assoc] at onward
      exact onward

theorem segments_cut {finished finished' code : Bool} {k : Nat} {cs more : List Char}
    (nonempty : cs ≠ [])
    (done : segmentEnd? finished (startsWithIf cs) .start 0 cs = some (k, code))
    (grown : finished = false ∨ more = [] ∧ finished' = true)
    (apart : continuesWithElse? finished (cs.drop k) = some false →
      continuesWithElse? finished' more = some false) :
    segments finished' (cs.take k ++ more) = ⟨cs.take k, code⟩ :: segments finished' more := by
  have bound : k ≤ cs.length := by simpa using segmentEnd?_le done
  have positive : 0 < k := by
    have far := le_of_segmentEnd? _ _ _ _ _ done
    have some := List.length_pos_iff.2 nonempty
    omega
  have length : (cs.take k).length = k := List.length_take_of_le bound
  have begun : cs.take k ++ more ≠ [] := by
    apply List.append_ne_nil_of_left_ne_nil
    apply List.ne_nil_of_length_pos
    omega
  have quoting : SplitState.start.Quoting := nofun
  have whole (isIf : Bool)
      (done : segmentEnd? finished isIf .start 0 cs = some (k, code)) :
      segmentEnd? finished' isIf .start 0 (cs.take k ++ more) = some (k, code) := by
    rw [← Nat.zero_add k] at done
    have same := segmentEnd?_cut quoting done grown apart
    rwa [Nat.zero_add] at same
  have ends : segmentEnd? finished' (startsWithIf (cs.take k ++ more)) .start 0
      (cs.take k ++ more) = some (k, code) := by
    by_cases brace : '\x7d' ∈ cs.take k
    · have start : startsWithIf (cs.take k ++ more) = startsWithIf cs := by
        rw [startsWithIf_append brace, ← startsWithIf_append brace (cs.drop k),
          List.take_append_drop]
      rw [start]
      exact whole _ done
    · apply whole
      rw [← Nat.zero_add k] at done
      have any := start_irrelevant_to_segment brace (by simp [SplitState.start]) done
      simpa using any _
  rw [segments_of_some begun ends, List.take_left' length, List.drop_left' length]

theorem segments_of_mem {finished : Bool} {cs : List Char} {segment : Segment}
    (mem : segment ∈ segments finished cs) : segments true segment.text = [segment] := by
  induction cs using segments.induct finished with
  | case1 => simp at mem
  | case2 cs nonempty none => simp [segments_of_none none] at mem
  | case3 cs nonempty k code some ih =>
    rw [segments_of_some nonempty some] at mem
    rcases List.mem_cons.1 mem with rfl | later
    · have alone : segments true (cs.take k ++ []) = _ :=
        segments_cut nonempty some (.inr ⟨rfl, rfl⟩) fun _ => rfl
      rwa [List.append_nil, segments_nil] at alone
    · exact ih later

theorem readsAlone_of_mem {finished : Bool} {cs : List Char} {segment : Segment}
    (mem : segment ∈ segments finished cs) {body : List Stmt}
    (parsed : parseProgram (String.ofList segment.text) = .ok body) : ReadsAlone segment body := by
  have tokens := segments_of_mem mem
  obtain ⟨ts, tokenized, ran⟩ := ok_of_bind parsed
  have scans := scans_of_scan tokenized
  rw [String.toList_ofList] at scans
  obtain ⟨bodies, alone, joined⟩ := readsAlone_of_statements scans ran
  rw [tokens] at alone
  cases alone with
  | cons first none =>
    cases none
    rw [List.flatten_singleton] at joined
    rwa [← joined]

end Playbook.Script
