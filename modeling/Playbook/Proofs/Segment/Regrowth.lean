import Playbook.Proofs.Segment.Alone

/- Segments before another text than the one they have been split off from. They stay the same,
   unless that text begins with another branch; and a text that does so cannot be read. -/
namespace Playbook.Script

theorem mem_terminator {isIf code : Bool} {st : SplitState} {n k : Nat} {cs : List Char}
    (done : segmentEnd? false isIf st n cs = some (n + k, code)) :
    ∃ c ∈ cs.take k, c = '\n' ∨ c = ';' := by
  induction cs generalizing st n k with
  | nil => cases done
  | cons c rest ih =>
    have bound := le_of_segmentEnd? _ _ _ _ _ done
    rw [List.length_cons] at bound
    obtain ⟨k, rfl⟩ := Nat.exists_eq_add_of_le' (show 1 ≤ k by omega)
    rw [List.take_succ_cons]
    rw [segmentEnd?_cons] at done
    obtain ⟨stops, asked, done⟩ := Option.bind_eq_some_iff.1 done
    cases stops with
    | true => exact ⟨c, List.mem_cons_self, (terminator_of_atEnd (atEnd_of_stops asked)).2⟩
    | false =>
      have later : segmentEnd? false isIf (st.beyond c rest) (n + 1) rest =
          some (n + 1 + k, code) := by
        rw [Nat.add_right_comm, Nat.add_assoc]
        exact done
      obtain ⟨d, among, terminator⟩ := ih later
      exact ⟨d, List.mem_cons_of_mem c among, terminator⟩

theorem opensBranch?_of_mem {code : List Char} {c : Char} (among : c ∈ code)
    (terminator : c = '\n' ∨ c = ';') : opensBranch? false code = some (opensBranch code) := by
  have stops : mayContinueWord c = false := by rcases terminator with rfl | rfl <;> decide
  have shorter : (code.takeWhile mayContinueWord).length < code.length := by
    by_contra all
    have whole := (List.takeWhile_prefix mayContinueWord (l := code)).eq_of_length_le (by omega)
    rw [← whole] at among
    rw [List.mem_takeWhile_imp among] at stops
    cases stops
  rw [opensBranch?, if_pos (.inl shorter)]

theorem skipSeparators_segment {inComment isIf code : Bool} {depth : Int} {last : Option Char}
    {n k : Nat} {cs : List Char}
    (done : segmentEnd? false isIf (resting inComment depth false last) n cs =
      some (n + k, code)) :
    (∀ more, skipSeparators inComment (cs.take k ++ more) = skipSeparators false more) ∨
      ∃ b, opensBranch? false (skipSeparators inComment (cs.take k)) = some b := by
  induction cs generalizing inComment n k with
  | nil => cases done
  | cons c rest ih =>
    have bound := le_of_segmentEnd? _ _ _ _ _ done
    rw [List.length_cons] at bound
    obtain ⟨k, rfl⟩ := Nat.exists_eq_add_of_le' (show 1 ≤ k by omega)
    have found := mem_terminator done
    rw [List.take_succ_cons] at found ⊢
    cases rests : restsOn inComment c with
    | false =>
      right
      obtain ⟨d, among, terminator⟩ := found
      exact ⟨_, by rw [skipSeparators_of_code rests, opensBranch?_of_mem among terminator]⟩
    | true =>
      rw [segmentEnd?_cons] at done
      obtain ⟨stops, asked, done⟩ := Option.bind_eq_some_iff.1 done
      simp only [List.cons_append, skipSeparators_rests rests]
      cases stops with
      | false =>
        rw [resting_beyond rests] at done
        exact ih (n := n + 1) (by rw [Nat.add_right_comm, Nat.add_assoc]; exact done)
      | true =>
        left
        obtain rfl : k = 0 := by
          have now := (Prod.mk.inj (Option.some.inj done)).1
          omega
        intro more
        rw [resting_atEnd (atEnd_of_stops asked), List.take_zero, List.nil_append]

theorem continuesWithElse?_segment {isIf code : Bool} {k : Nat} {cs : List Char}
    (done : segmentEnd? false isIf .start 0 cs = some (k, code)) :
    (∀ finished more,
        continuesWithElse? finished (cs.take k ++ more) = continuesWithElse? finished more) ∨
      ∃ b, ∀ finished more, continuesWithElse? finished (cs.take k ++ more) = some b := by
  rw [← Nat.zero_add k] at done
  have begun : segmentEnd? false isIf (resting false 0 false none) 0 cs = some (0 + k, code) := done
  rcases skipSeparators_segment begun with gap | ⟨b, known⟩
  · left
    intro finished more
    rw [continuesWithElse?_eq, continuesWithElse?_eq, gap]
  · right
    rw [← continuesWithElse?_eq] at known
    exact ⟨b, continuesWithElse?_append known⟩

theorem no_branch_later {cs more : List Char} {done left : List Segment}
    (split : segments false cs = done ++ left) (before : continuesWithElse? false cs = some false)
    (apart : continuesWithElse? true more = some false) :
    continuesWithElse? true (covered done ++ more) = some false := by
  induction done generalizing cs with
  | nil => exact apart
  | cons segment done ih =>
    obtain ⟨k, code, -, ends, rfl, later⟩ := segments_eq_cons split
    rw [covered_cons, List.append_assoc]
    rcases continuesWithElse?_segment ends with gap | ⟨b, known⟩
    · rw [gap]
      apply ih later
      rw [← gap, List.take_append_drop]
      exact before
    · have same := known false (cs.drop k)
      rw [List.take_append_drop, before] at same
      rw [known, same]

/-- Segments that have been split off are split off in the same way before any text that begins with
    no other branch. -/
theorem segments_regrown {cs more : List Char} {done left : List Segment}
    (split : segments false cs = done ++ left) (apart : continuesWithElse? true more = some false) :
    segments true (covered done ++ more) = done ++ segments true more := by
  induction done generalizing cs with
  | nil => rfl
  | cons segment done ih =>
    obtain ⟨k, code, nonempty, ends, rfl, later⟩ := segments_eq_cons split
    rw [covered_cons, List.append_assoc, List.cons_append, ← ih later]
    apply segments_cut nonempty ends (.inl rfl)
    intro before
    exact no_branch_later later before apart

theorem text_ne_nil {finished : Bool} {cs : List Char} {segment : Segment}
    (mem : segment ∈ segments finished cs) : segment.text ≠ [] := by
  intro empty
  have alone := segments_of_mem mem
  rw [empty, segments_nil] at alone
  cases alone

theorem covered_eq_nil {finished : Bool} {cs : List Char} {segs : List Segment}
    (among : ∀ segment ∈ segs, segment ∈ segments finished cs) (empty : covered segs = []) :
    segs = [] := by
  cases segs with
  | nil => rfl
  | cons segment rest =>
    rw [covered_cons, List.append_eq_nil_iff] at empty
    exact absurd empty.1 (text_ne_nil (among segment List.mem_cons_self))

theorem eq_of_covered {finished : Bool} {cs : List Char} {a b : List Segment}
    (left : a <+: segments finished cs) (right : b <+: segments finished cs)
    (same : covered a = covered b) : a = b := by
  have longer {a b : List Segment} (right : b <+: segments finished cs)
      (same : covered a = covered b) (front : a <+: b) : a = b := by
    obtain ⟨more, rfl⟩ := front
    rw [covered_append, List.self_eq_append_right] at same
    have none := covered_eq_nil
      (fun segment mem => right.subset (List.mem_append_right a mem)) same
    rw [none, List.append_nil]
  rcases List.prefix_or_prefix_of_prefix left right with front | front
  · exact longer right same front
  · exact (longer left same.symm front).symm

theorem hasCode_beyond {st : SplitState} (code : st.hasCode = true) (c : Char) (rest : List Char) :
    (st.beyond c rest).hasCode = true := by
  have entered : (st.enter c).hasCode = true := by rw [enter_hasCode, code]
  unfold SplitState.beyond
  split
  · exact entered
  · unfold SplitState.step
    repeat' split
    all_goals first | exact entered | rfl

theorem hasCode_of_segmentEnd? {finished isIf code : Bool} {st : SplitState} {n k : Nat}
    {cs : List Char} (before : st.hasCode = true)
    (done : segmentEnd? finished isIf st n cs = some (k, code)) : code = true := by
  induction cs generalizing st n with
  | nil =>
    unfold segmentEnd? at done
    split at done
    · cases done
      exact before
    · cases done
  | cons c rest ih =>
    rw [segmentEnd?_cons] at done
    obtain ⟨stops, -, done⟩ := Option.bind_eq_some_iff.1 done
    cases stops with
    | true =>
      cases done
      exact before
    | false => exact ih (hasCode_beyond before c rest) done

theorem branch_of_segmentEnd? {inComment isIf code : Bool} {depth : Int} {last : Option Char}
    {n k : Nat} {cs : List Char}
    (opens : opensBranch? true (skipSeparators inComment cs) = some true)
    (done : segmentEnd? true isIf (resting inComment depth false last) n cs =
      some (n + k, code)) :
    (code = false ∧ skipSeparators inComment cs = skipSeparators false (cs.drop k)) ∨
      (code = true ∧ opensBranch? true (skipSeparators inComment (cs.take k)) = some true) := by
  induction cs generalizing inComment n k with
  | nil => cases opens
  | cons c rest ih =>
    have bound := le_of_segmentEnd? _ _ _ _ _ done
    rw [List.length_cons] at bound
    obtain ⟨k, rfl⟩ := Nat.exists_eq_add_of_le' (show 1 ≤ k by omega)
    have first := done
    rw [segmentEnd?_cons] at done
    obtain ⟨stops, asked, done⟩ := Option.bind_eq_some_iff.1 done
    rw [List.take_succ_cons, List.drop_succ_cons]
    cases rests : restsOn inComment c with
    | true =>
      rw [skipSeparators_rests rests] at opens
      simp only [skipSeparators_rests rests]
      cases stops with
      | true =>
        obtain ⟨now, rfl⟩ := Prod.mk.inj (Option.some.inj done)
        obtain rfl : k = 0 := by omega
        rw [resting_atEnd (atEnd_of_stops asked)]
        exact .inl ⟨rfl, rfl⟩
      | false =>
        rw [resting_beyond rests] at done
        exact ih opens (n := n + 1) (by rw [Nat.add_right_comm, Nat.add_assoc]; exact done)
    | false =>
      rw [skipSeparators_of_code rests] at opens
      simp only [skipSeparators_of_code rests]
      right
      refine ⟨?_, opensBranch?_cut opens first⟩
      obtain ⟨word, more, split, branch, -⟩ := opensBranch?_some_true opens
      obtain rfl : c = 'e' := by
        rcases branch with rfl | rfl <;> exact (List.cons.inj split).1
      have letter : ((resting inComment depth false last).enter 'e').atEnd 'e' = false := by
        cases inComment <;> rfl
      cases stops with
      | true =>
        rw [atEnd_of_stops asked] at letter
        cases letter
      | false =>
        apply hasCode_of_segmentEnd? _ done
        simp only [restsOn, Bool.or_eq_false_iff] at rests
        rw [rests.1.1]
        rfl

theorem malformed_of_branch {cs : List Char} (opens : continuesWithElse? true cs = some true)
    (body : List Stmt) : parseProgram (String.ofList cs) ≠ .ok body := by
  intro parsed
  obtain ⟨ts, tokenized, ran⟩ := ok_of_bind parsed
  have scans := scans_of_scan tokenized
  rw [String.toList_ofList] at scans
  rw [continuesWithElse?_of_scans scans, statements_no_branch ran] at opens
  cases opens

theorem malformed_segment_of_branch {cs : List Char}
    (opens : continuesWithElse? true cs = some true) :
    ∃ gaps segment left, segments true cs = gaps ++ segment :: left ∧
      (∀ gap ∈ gaps, gap.hasCode = false) ∧ segment.hasCode = true ∧
      ∀ body, parseProgram (String.ofList segment.text) ≠ .ok body := by
  induction cs using segments.induct true with
  | case1 => cases opens
  | case2 cs nonempty none =>
    have ends := segmentEnd?_isSome (startsWithIf cs) .start 0 cs
    rw [none] at ends
    cases ends
  | case3 cs nonempty k code some ih =>
    rw [segments_of_some nonempty some]
    rw [continuesWithElse?_eq] at opens
    rw [← Nat.zero_add k] at some
    have begun : segmentEnd? true (startsWithIf cs) (resting false 0 false none) 0 cs =
      .some (0 + k, code) := some
    rcases branch_of_segmentEnd? opens begun with ⟨rfl, gap⟩ | ⟨rfl, branch⟩
    · rw [gap, ← continuesWithElse?_eq] at opens
      obtain ⟨gaps, segment, left, split, empty, code, malformed⟩ := ih opens
      refine ⟨⟨cs.take k, false⟩ :: gaps, segment, left, by rw [split, List.cons_append], ?_,
        code, malformed⟩
      exact List.forall_mem_cons.2 ⟨rfl, empty⟩
    · rw [← continuesWithElse?_eq] at branch
      exact ⟨[], ⟨cs.take k, true⟩, _, rfl, List.forall_mem_nil _, rfl, malformed_of_branch branch⟩

end Playbook.Script
