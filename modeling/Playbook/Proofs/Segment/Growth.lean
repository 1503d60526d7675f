import Mathlib.Data.List.TakeWhile
import Playbook.Script.Segment

/- Splitting a text that grows. What has been split off stays split off, whatever arrives later, and
   the rest is split as if it had stood alone: the segments of a longer text are those of its start
   followed by those of what the start has held back. -/
namespace Playbook.Script

theorem enter_of_mode_ne {st : SplitState} (h : st.mode ≠ .comment) (c : Char) :
    st.enter c = st := by
  simp [SplitState.enter, h]

theorem quoted_last_incomplete (isIf : Bool) {st : SplitState} {q : Char} {triple : Bool}
    (mode : st.mode = .quote q triple) (n : Nat) (c : Char) :
    segmentEnd? false isIf st n [c] = none := by
  have stays : st.enter c = st := enter_of_mode_ne (by simp [mode]) c
  have inside : st.atEnd c = false := by simp [SplitState.atEnd, mode]
  simp [segmentEnd?, stays, inside]

/-- The two characters looked at after a quote are there as soon as a statement is complete. -/
theorem step_append {isIf : Bool} {st : SplitState} {c : Char} {rest : List Char} {n : Nat}
    {r : Nat × Bool} (done : segmentEnd? false isIf (st.step c rest) n rest = some r)
    (ds : List Char) : st.step c (rest ++ ds) = st.step c rest := by
  match rest with
  | [] => simp [segmentEnd?] at done
  | a :: b :: more => rfl
  | [a] =>
    have once (q : Char) : ([a].take 2 == [q, q]) = false := by simp
    by_cases twice : ([a] ++ ds).take 2 == [a, a]
    -- Here the look ahead would differ, so the state has to be shown to complete nothing.
    · by_cases passing : 0 < st.skip
      · simp [SplitState.step, passing]
      by_cases slash : c = '\\'
      · subst slash
        cases mode : st.mode <;> simp [SplitState.step, mode]
      by_cases same : c = a
      · subst same
        cases mode : st.mode with
        | comment => simp [SplitState.step, mode]
        | quote q triple =>
          by_cases closes : c = q ∧ triple = true
          · obtain ⟨rfl, rfl⟩ := closes
            have unmoved : st.step c [c] = st := by
              simp [SplitState.step, passing, mode, slash]
            rw [unmoved, quoted_last_incomplete isIf mode] at done
            cases done
          · cases triple <;> simp_all [SplitState.step]
        | code =>
          by_cases opens : c = '"' ∨ c = '\''
          · have quoted : (st.step c [c]).mode = .quote c false := by
              rcases opens with rfl | rfl <;> simp [SplitState.step, passing, mode]
            rw [quoted_last_incomplete isIf quoted] at done
            cases done
          · simp only [not_or] at opens
            simp [SplitState.step, mode, opens]
      · have other : (([a] ++ ds).take 2 == [c, c]) = false := by
          cases ds <;> simp_all [Ne.symm same]
        cases mode : st.mode with
        | comment => simp [SplitState.step, mode]
        | quote q triple =>
          by_cases closes : c = q
          · subst closes
            simp only [SplitState.step, mode, other, once]
          · simp [SplitState.step, mode, closes]
        | code => simp only [SplitState.step, mode, other, once]
    · have never (q : Char) : (([a] ++ ds).take 2 == [q, q]) = false := by
        cases ds <;> simp_all
        grind
      simp only [SplitState.step, never, once]

theorem skipSeparators_append {inComment : Bool} {cs : List Char}
    (code : skipSeparators inComment cs ≠ []) (ds : List Char) :
    skipSeparators inComment (cs ++ ds) = skipSeparators inComment cs ++ ds := by
  fun_induction skipSeparators inComment cs with
  | case1 => exact absurd rfl code
  | case2 c rest ih => simpa [skipSeparators] using ih code
  | case3 inComment c rest outside blank ih => simpa [skipSeparators, outside, blank] using ih code
  | case4 inComment rest outside visible ih =>
    simpa [skipSeparators, outside, visible] using ih code
  | case5 inComment c rest outside visible plain => simp [skipSeparators, outside, visible, plain]

theorem takeWhile_append_of_stops {p : Char → Bool} {cs : List Char}
    (stops : (cs.takeWhile p).length < cs.length) (ds : List Char) :
    (cs ++ ds).takeWhile p = cs.takeWhile p := by
  rw [List.takeWhile_append, if_neg (Nat.ne_of_lt stops)]

theorem continuesWithElse?_append {cs : List Char} {b : Bool}
    (known : continuesWithElse? false cs = some b) (finished : Bool) (ds : List Char) :
    continuesWithElse? finished (cs ++ ds) = some b := by
  simp only [continuesWithElse?] at known ⊢
  split at known
  · rename_i stops
    have code : skipSeparators false cs ≠ [] := by
      intro none
      simp [none] at stops
    rw [skipSeparators_append code, takeWhile_append_of_stops stops]
    rw [if_pos (by simp only [List.length_append]; omega)]
    exact known
  · simp at known

theorem segmentEnd?_append {isIf : Bool} {st : SplitState} {n : Nat} {cs : List Char}
    {r : Nat × Bool} (done : segmentEnd? false isIf st n cs = some r) (finished : Bool)
    (ds : List Char) : segmentEnd? finished isIf st n (cs ++ ds) = some r := by
  induction cs generalizing st n with
  | nil => simp [segmentEnd?] at done
  | cons c rest ih =>
    simp only [List.cons_append, segmentEnd?] at done ⊢
    by_cases ends : (st.enter c).atEnd c
    · simp only [ends, if_true] at done ⊢
      split at done
      · rename_i asks
        rw [if_pos asks]
        cases known : continuesWithElse? false rest with
        | none => simp [known] at done
        | some more =>
          rw [continuesWithElse?_append known]
          cases more with
          | true =>
            rw [known] at done
            exact ih done
          | false => simpa [known] using done
      · rename_i plain
        rw [if_neg plain]
        exact done
    · simp only [ends] at done ⊢
      rw [if_neg Bool.false_ne_true] at done ⊢
      rw [step_append done]
      exact ih done

theorem last_step_ne {st : SplitState} {c : Char} {rest : List Char} (plain : c ≠ '}')
    (before : st.last ≠ some '}') : (st.step c rest).last ≠ some '}' := by
  unfold SplitState.step
  repeat' split
  all_goals first
    | exact before
    | simp_all

theorem last_enter (st : SplitState) (c : Char) : (st.enter c).last = st.last := by
  unfold SplitState.enter
  split <;> rfl

theorem start_irrelevant {st : SplitState} {cs : List Char} (plain : '}' ∉ cs)
    (before : st.last ≠ some '}') (finished : Bool) (n : Nat) (a b : Bool) :
    segmentEnd? finished a st n cs = segmentEnd? finished b st n cs := by
  induction cs generalizing st n with
  | nil => rfl
  | cons c rest ih =>
    simp only [List.mem_cons, not_or] at plain
    have entered : (st.enter c).last ≠ some '}' := by rwa [last_enter]
    have next : ((st.enter c).step c rest).last ≠ some '}' :=
      last_step_ne (Ne.symm plain.1) entered
    simp only [segmentEnd?, decide_eq_false entered, Bool.and_false, Bool.false_and,
      Bool.false_eq_true, if_false]
    rw [ih plain.2 next]

theorem dropWhile_append_of_exists {p : Char → Bool} {cs : List Char} {c : Char} (mem : c ∈ cs)
    (stops : p c = false) (ds : List Char) : (cs ++ ds).dropWhile p = cs.dropWhile p ++ ds := by
  rw [List.dropWhile_append]
  have nonempty : cs.dropWhile p ≠ [] := by
    intro all
    have := List.dropWhile_eq_nil_iff.1 all c mem
    simp [stops] at this
  rw [if_neg (by simpa using nonempty)]

theorem mem_dropWhile_of_stops {p : Char → Bool} {cs : List Char} {c : Char} (mem : c ∈ cs)
    (stops : p c = false) : c ∈ cs.dropWhile p := by
  have split := List.takeWhile_append_dropWhile (p := p) (l := cs)
  rw [← split, List.mem_append] at mem
  rcases mem with skipped | kept
  · have := List.mem_takeWhile_imp skipped
    simp [stops] at this
  · exact kept

theorem startsWithIf_append {cs : List Char} (brace : '}' ∈ cs) (ds : List Char) :
    startsWithIf (cs ++ ds) = startsWithIf cs := by
  have visible : Text.isBlank '}' = false := by decide
  have kept : '}' ∈ Text.trimStart cs := mem_dropWhile_of_stops brace visible
  have trimmed : Text.trimStart (cs ++ ds) = Text.trimStart cs ++ ds :=
    dropWhile_append_of_exists brace visible ds
  unfold startsWithIf
  rw [trimmed]
  match Text.trimStart cs, kept with
  | [a], mem =>
    simp only [List.mem_singleton] at mem
    subst mem
    rfl
  | [a, b], mem =>
    simp only [List.mem_cons, List.not_mem_nil, or_false] at mem
    rcases mem with rfl | rfl <;> simp
  | a :: b :: c :: more, _ =>
    by_cases word : a = 'i' ∧ b = 'f'
    · obtain ⟨rfl, rfl⟩ := word
      rfl
    · simp only [List.cons_append]
      split
      · simp_all
      · split
        · simp_all
        · rfl

theorem first_segment_stays {cs : List Char} {r : Nat × Bool}
    (done : segmentEnd? false (startsWithIf cs) .start 0 cs = some r) (finished : Bool)
    (ds : List Char) :
    segmentEnd? finished (startsWithIf (cs ++ ds)) .start 0 (cs ++ ds) = some r := by
  by_cases brace : '}' ∈ cs
  · rw [startsWithIf_append brace]
    exact segmentEnd?_append done finished ds
  · rw [start_irrelevant brace (by simp [SplitState.start])] at done
    exact segmentEnd?_append done finished ds

theorem segmentEnd?_le {finished isIf : Bool} {st : SplitState} {n k : Nat} {cs : List Char}
    {code : Bool} (done : segmentEnd? finished isIf st n cs = some (k, code)) :
    k ≤ n + cs.length := by
  induction cs generalizing st n with
  | nil =>
    unfold segmentEnd? at done
    split at done
    · cases done
      simp
    · cases done
  | cons c rest ih =>
    have later (st' : SplitState)
        (h : segmentEnd? finished isIf st' (n + 1) rest = some (k, code)) :
        k ≤ n + (c :: rest).length := by
      have := ih h
      simp only [List.length_cons]
      omega
    have now : n + 1 ≤ n + (c :: rest).length := by simp
    unfold segmentEnd? at done
    simp only at done
    split at done
    · split at done
      · split at done
        · exact later _ done
        · cases done
          exact now
        · cases done
      · cases done
        exact now
    · exact later _ done

/-- The texts of segments, one after the other. -/
def covered (segs : List Segment) : List Char := segs.flatMap Segment.text

@[simp] theorem covered_nil : covered [] = [] := rfl

@[simp] theorem covered_cons (s : Segment) (segs : List Segment) :
    covered (s :: segs) = s.text ++ covered segs := rfl

theorem covered_append (a b : List Segment) : covered (a ++ b) = covered a ++ covered b := by
  simp [covered]

@[simp] theorem segments_nil (finished : Bool) : segments finished [] = [] := by
  rw [segments]
  simp

theorem segments_of_none {finished : Bool} {cs : List Char}
    (h : segmentEnd? finished (startsWithIf cs) .start 0 cs = none) :
    segments finished cs = [] := by
  rw [segments]
  split
  · rfl
  · split
    · rfl
    · simp_all

theorem segments_of_some {finished : Bool} {cs : List Char} {k : Nat} {code : Bool}
    (nonempty : cs ≠ [])
    (h : segmentEnd? finished (startsWithIf cs) .start 0 cs = some (k, code)) :
    segments finished cs = ⟨cs.take k, code⟩ :: segments finished (cs.drop k) := by
  rw [segments, dif_neg nonempty]
  split
  · simp_all
  · simp_all

theorem segments_eq_cons {finished : Bool} {cs : List Char} {segment : Segment}
    {rest : List Segment} (split : segments finished cs = segment :: rest) :
    ∃ k code, cs ≠ [] ∧ segmentEnd? finished (startsWithIf cs) .start 0 cs = some (k, code) ∧
      segment = ⟨cs.take k, code⟩ ∧ segments finished (cs.drop k) = rest := by
  by_cases nonempty : cs = []
  · rw [nonempty, segments_nil] at split
    cases split
  cases first : segmentEnd? finished (startsWithIf cs) .start 0 cs with
  | none =>
    rw [segments_of_none first] at split
    cases split
  | some r =>
    obtain ⟨k, code⟩ := r
    rw [segments_of_some nonempty first, List.cons.injEq] at split
    exact ⟨k, code, nonempty, rfl, split.1.symm, split.2⟩

theorem segments_drop (finished : Bool) (cs : List Char) {done left : List Segment}
    (split : segments finished cs = done ++ left) :
    segments finished (cs.drop (covered done).length) = left := by
  induction done generalizing cs with
  | nil => simpa using split
  | cons segment rest ih =>
    obtain ⟨k, code, -, ends, rfl, later⟩ := segments_eq_cons split
    have bound : k ≤ cs.length := by simpa using segmentEnd?_le ends
    rw [covered_cons, List.length_append, List.length_take, Nat.min_eq_left bound, ← List.drop_drop]
    exact ih (cs.drop k) later

theorem covered_segments_isPrefix (finished : Bool) (cs : List Char) :
    covered (segments finished cs) <+: cs := by
  induction cs using segments.induct finished with
  | case1 => simp
  | case2 cs nonempty none => simp [segments_of_none none]
  | case3 cs nonempty k code some ih =>
    rw [segments_of_some nonempty some, covered_cons]
    conv => rhs; rw [← List.take_append_drop k cs]
    exact (List.prefix_append_right_inj _).2 ih

/-- What a text holds back: all that comes after its complete statements. -/
def heldBack (cs : List Char) : List Char := cs.drop (covered (segments false cs)).length

@[simp] theorem heldBack_nil : heldBack [] = [] := by simp [heldBack]

theorem heldBack_of_some {cs : List Char} {k : Nat} {code : Bool} (nonempty : cs ≠ [])
    (h : segmentEnd? false (startsWithIf cs) .start 0 cs = some (k, code)) :
    heldBack cs = heldBack (cs.drop k) := by
  have bound : k ≤ cs.length := by simpa using segmentEnd?_le h
  rw [heldBack, segments_of_some nonempty h, covered_cons]
  simp only [List.length_append, List.length_take, Nat.min_eq_left bound]
  rw [heldBack, List.drop_drop]

/-- The segments of a text that has grown: first those there were before, then those of what had
    been held back together with what has come in. -/
theorem segments_append (finished : Bool) (cs ds : List Char) :
    segments finished (cs ++ ds) =
      segments false cs ++ segments finished (heldBack cs ++ ds) := by
  induction cs using segments.induct false with
  | case1 => simp
  | case2 cs nonempty none => simp [segments_of_none none, heldBack]
  | case3 cs nonempty k code some ih =>
    have bound : k ≤ cs.length := by simpa using segmentEnd?_le some
    have longer : cs ++ ds ≠ [] := by simp [nonempty]
    rw [segments_of_some longer (first_segment_stays some finished ds),
      segments_of_some nonempty some, List.take_append_of_le_length bound,
      List.drop_append_of_le_length bound, ih, heldBack_of_some nonempty some, List.cons_append]

theorem segmentEnd?_isSome (isIf : Bool) (st : SplitState) (n : Nat) (cs : List Char) :
    (segmentEnd? true isIf st n cs).isSome := by
  induction cs generalizing st n with
  | nil => simp [segmentEnd?]
  | cons c rest ih =>
    have decided : (continuesWithElse? true rest).isSome := by
      simp only [continuesWithElse?]
      split <;> simp
    simp only [segmentEnd?]
    split
    · split
      · split
        · exact ih _ _
        · rfl
        · simp_all
      · rfl
    · exact ih _ _

theorem covered_segments_finished (cs : List Char) : covered (segments true cs) = cs := by
  induction cs using segments.induct true with
  | case1 => simp
  | case2 cs nonempty none =>
    have := segmentEnd?_isSome (startsWithIf cs) .start 0 cs
    simp [none] at this
  | case3 cs nonempty k code some ih =>
    rw [segments_of_some nonempty some, covered_cons, ih, List.take_append_drop]

end Playbook.Script
