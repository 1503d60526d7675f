import Playbook.Proofs.Segment.Regrowth
import Playbook.Proofs.Segment.Restarting

/- The segments of a text lie side by side from its beginning on. Each of them ends with the character
   that completes its statement, or with the text, and is without code just if nothing but blanks,
   separators and comments is in it. -/
namespace Playbook.Script

/-- Blanks, separators and comments, each of these up to the end of its line. -/
inductive Idle : List Char → Prop where
  | nil : Idle []
  | separator {c : Char} {cs : List Char} (separates : isSeparator c = true) (more : Idle cs) :
    Idle (c :: cs)
  | comment {text cs : List Char} (line : '\n' ∉ text) (ends : ∀ c ∈ cs.head?, c = '\n')
    (more : Idle cs) : Idle ('#' :: (text ++ cs))

theorem Idle.widen {c : Char} {cs : List Char} (idle : Idle ('#' :: cs)) (inside : c ≠ '\n') :
    Idle ('#' :: c :: cs) := by
  cases idle with
  | separator separates => exact absurd separates (by decide)
  | @comment text cs line ends more =>
    have longer : '\n' ∉ c :: text := by
      simp only [List.mem_cons, not_or]
      exact ⟨Ne.symm inside, line⟩
    exact .comment longer ends more

theorem dropWhile_comment {text cs : List Char} (line : '\n' ∉ text)
    (ends : ∀ c ∈ cs.head?, c = '\n') : (text ++ cs).dropWhile (· ≠ '\n') = cs := by
  have inside : ∀ c ∈ text, decide (c ≠ '\n') = true := by
    intro c mem
    simp only [decide_eq_true_eq]
    rintro rfl
    exact line mem
  rw [List.dropWhile_append_of_pos inside]
  cases cs with
  | nil => rfl
  | cons c cs =>
    obtain rfl := ends c rfl
    rfl

theorem Idle.skipped {cs : List Char} (idle : Idle cs) : skipSeparators false cs = [] := by
  induction idle with
  | nil => rfl
  | separator separates _ ih => simpa [skipSeparators, separates] using ih
  | @comment text cs line ends _ ih =>
    rw [skipSeparators_rests rfl]
    have opened := skipSeparators_comment (text ++ cs)
    rw [dropWhile_comment line ends, ih] at opened
    exact opened

theorem Idle.bare {cs : List Char} (ends : ∀ c ∈ cs.head?, c = '\n') (more : Idle cs) :
    Idle ('#' :: cs) := by
  have nothing : '\n' ∉ ([] : List Char) := List.not_mem_nil
  exact .comment nothing ends more

theorem idle_of_skipped {inComment : Bool} {cs : List Char}
    (skipped : skipSeparators inComment cs = []) : Idle (if inComment then '#' :: cs else cs) := by
  fun_induction skipSeparators inComment cs with
  | case1 inComment =>
    cases inComment with
    | true => exact .bare (by simp) .nil
    | false => exact .nil
  | case2 c rest ih =>
    have later := ih skipped
    by_cases broken : c = '\n'
    · subst broken
      have line : Idle ('\n' :: rest) := .separator rfl (by simpa using later)
      exact .bare (by simp) line
    · exact Idle.widen (by simpa [broken] using later) broken
  | case3 inComment c rest outside separates ih =>
    rw [if_neg outside]
    exact .separator separates (ih skipped)
  | case4 inComment rest outside _ ih =>
    rw [if_neg outside]
    exact ih skipped
  | case5 => cases skipped

theorem idle_iff_skipped {cs : List Char} : Idle cs ↔ skipSeparators false cs = [] :=
  ⟨Idle.skipped, idle_of_skipped⟩

section
variable {p q : Nat} {c : Char} {rest after : List Char} {ts : List Token}

theorem scans_passed (step : lexStep? p c rest = some ([], q, after)) (scans : Scans q after ts) :
    Scans p (c :: rest) ts := scans_step step scans

theorem scans_ended (step : lexStep? p c rest = some ([.newline], q, after))
    (scans : Scans q after ts) : Scans p (c :: rest) (.newline :: ts) := scans_step step scans

end

theorem Idle.scans {cs : List Char} (idle : Idle cs) :
    ∃ n, Scans 0 cs (List.replicate n .newline ++ [.eof]) := by
  induction idle with
  | nil => exact ⟨0, scans_nil 0⟩
  | @separator c cs separates _ ih =>
    obtain ⟨n, scans⟩ := ih
    rcases eq_of_isSeparator separates with rfl | rfl | rfl | rfl | rfl
    · exact ⟨n, scans_passed rfl scans⟩
    · exact ⟨n, scans_passed rfl scans⟩
    · exact ⟨n, scans_passed rfl scans⟩
    · exact ⟨n + 1, scans_ended rfl scans⟩
    · exact ⟨n + 1, scans_ended rfl scans⟩
  | @comment text cs line ends _ ih =>
    obtain ⟨n, scans⟩ := ih
    have passed : lexStep? 0 '#' (text ++ cs) = some ([], 0, cs) := by
      conv => rhs; rw [← dropWhile_comment line ends]
      rfl
    exact ⟨n, scans_passed passed scans⟩

section
variable {finished isIf code : Bool} {st : SplitState} {n k : Nat} {cs : List Char}

theorem hasCode_beyond_of_code {inComment : Bool} {c : Char} (noticed : restsOn inComment c = false)
    (depth : Int) (hasCode : Bool) (last : Option Char) (rest : List Char) :
    ((resting inComment depth hasCode last).beyond c rest).hasCode = true := by
  simp only [restsOn, Bool.or_eq_false_iff, decide_eq_false_iff_not] at noticed
  obtain ⟨⟨rfl, visible⟩, code⟩ := noticed
  have inside : c ≠ '\n' ∧ c ≠ ';' := by
    constructor <;> rintro rfl <;> cases visible
  have goes : ((resting false depth hasCode last).enter c).atEnd c = false := by
    simp [SplitState.atEnd, inside]
  have entered : (resting false depth hasCode last).enter c = resting false depth hasCode last :=
    enter_of_mode_ne (by simp [resting]) c
  rw [SplitState.beyond, goes, entered]
  simp only [SplitState.step, resting, visible, code]
  repeat' split
  all_goals first | rfl | contradiction

theorem segmentEnd?_step {c : Char} {rest : List Char}
    (done : segmentEnd? finished isIf st n (c :: rest) = some (n + k, code)) :
    (k = 1 ∧ code = st.hasCode ∧ (c = '\n' ∨ c = ';')) ∨
      ∃ j, k = j + 1 ∧
        segmentEnd? finished isIf (st.beyond c rest) (n + 1) rest = some (n + 1 + j, code) := by
  have bound := le_of_segmentEnd? _ _ _ _ _ done
  rw [List.length_cons] at bound
  obtain ⟨j, rfl⟩ := Nat.exists_eq_add_of_le' (show 1 ≤ k by omega)
  rw [segmentEnd?_cons] at done
  obtain ⟨stops, asked, done⟩ := Option.bind_eq_some_iff.1 done
  cases stops with
  | true =>
    obtain ⟨now, rfl⟩ := Prod.mk.inj (Option.some.inj done)
    exact .inl ⟨by omega, rfl, (terminator_of_atEnd (atEnd_of_stops asked)).2⟩
  | false =>
    refine .inr ⟨j, rfl, ?_⟩
    rw [Nat.add_right_comm, Nat.add_assoc]
    exact done

theorem skipped_iff_of_segmentEnd? {inComment : Bool} {depth : Int} {last : Option Char}
    (done : segmentEnd? finished isIf (resting inComment depth false last) n cs =
      some (n + k, code)) : code = false ↔ skipSeparators inComment (cs.take k) = [] := by
  induction cs generalizing inComment n k with
  | nil =>
    unfold segmentEnd? at done
    split at done
    · obtain ⟨-, rfl⟩ := Prod.mk.inj (Option.some.inj done)
      simp [skipSeparators, resting]
    · cases done
  | cons c rest ih =>
    rcases segmentEnd?_step done with ⟨rfl, rfl, terminator⟩ | ⟨j, rfl, later⟩
    · have rests : restsOn inComment c = true := by
        rcases terminator with rfl | rfl <;> simp [restsOn, isSeparator]
      rw [List.take_succ_cons, List.take_zero, skipSeparators_rests rests]
      simp [skipSeparators, resting]
    · rw [List.take_succ_cons]
      cases rests : restsOn inComment c with
      | true =>
        rw [resting_beyond rests] at later
        rw [skipSeparators_rests rests]
        exact ih later
      | false =>
        have noticed := hasCode_of_segmentEnd? (hasCode_beyond_of_code rests _ _ _ _) later
        rw [skipSeparators_of_code rests, noticed]
        simp

theorem terminated_of_segmentEnd? (done : segmentEnd? finished isIf st n cs = some (n + k, code)) :
    (∃ c ∈ (cs.take k).getLast?, c = '\n' ∨ c = ';') ∨ finished = true ∧ cs.drop k = [] := by
  induction cs generalizing st n k with
  | nil =>
    unfold segmentEnd? at done
    split at done
    · rename_i complete
      exact .inr ⟨complete, List.drop_nil⟩
    · cases done
  | cons c rest ih =>
    rcases segmentEnd?_step done with ⟨rfl, -, terminator⟩ | ⟨j, rfl, later⟩
    · exact .inl ⟨c, rfl, terminator⟩
    · rw [List.take_succ_cons, List.drop_succ_cons]
      rcases ih later with ⟨d, last, ends⟩ | complete
      · left
        refine ⟨d, ?_, ends⟩
        rw [Option.mem_def] at last
        rw [List.getLast?_cons, last]
        rfl
      · exact .inr complete

end

/-- What is known of a segment, given what of the text comes after it. -/
structure Tile (finished : Bool) (segment : Segment) (rest : List Char) : Prop where
  some : segment.text ≠ []
  ends : (∃ c ∈ segment.text.getLast?, c = '\n' ∨ c = ';') ∨ finished = true ∧ rest = []
  idle : segment.hasCode = false ↔ Idle segment.text

theorem tile_of_segmentEnd? {finished isIf code : Bool} {k : Nat} {cs : List Char}
    (nonempty : cs ≠ []) (done : segmentEnd? finished isIf .start 0 cs = some (k, code)) :
    Tile finished ⟨cs.take k, code⟩ (cs.drop k) := by
  have far := le_of_segmentEnd? _ _ _ _ _ done
  rw [← Nat.zero_add k] at done
  constructor
  · intro none
    have long := List.length_pos_iff.2 nonempty
    rcases List.take_eq_nil_iff.1 none with short | empty
    · omega
    · exact nonempty empty
  · exact terminated_of_segmentEnd? done
  · rw [show SplitState.start = resting false 0 false none from rfl] at done
    exact (skipped_iff_of_segmentEnd? done).trans idle_iff_skipped.symm

theorem tile_of_segments {finished : Bool} {cs : List Char} {before after : List Segment}
    {segment : Segment} (split : segments finished cs = before ++ segment :: after) :
    ∃ rest, cs = covered before ++ segment.text ++ rest ∧ Tile finished segment rest := by
  have reached : covered before <+: cs := by
    have whole := covered_segments_isPrefix finished cs
    rw [split, covered_append] at whole
    exact (List.prefix_append _ _).trans whole
  have left := segments_drop finished cs split
  obtain ⟨k, code, nonempty, ends, rfl, -⟩ := segments_eq_cons left
  refine ⟨_, ?_, tile_of_segmentEnd? nonempty ends⟩
  rw [List.append_assoc, List.take_append_drop]
  exact (List.prefix_iff_eq_append.1 reached).symm

theorem mem_spansFrom {start : Nat} {segs : List Segment} {span : Span}
    (mem : span ∈ spansFrom start segs) : ∃ before segment after,
      segs = before ++ segment :: after ∧ span.start = start + byteLength (covered before) ∧
      span.stop = span.start + byteLength segment.text ∧ span.hasCode = segment.hasCode := by
  induction segs generalizing start with
  | nil => cases mem
  | cons s segs ih =>
    rcases List.mem_cons.1 mem with rfl | later
    · exact ⟨[], s, segs, rfl, rfl, rfl, rfl⟩
    · obtain ⟨before, segment, after, rfl, first, last, code⟩ := ih later
      refine ⟨s :: before, segment, after, rfl, ?_, last, code⟩
      rw [first, covered_cons, byteLength_append, Segment.bytes_eq, Nat.add_assoc]

theorem isChain_spansFrom (start : Nat) (segs : List Segment) :
    (spansFrom start segs).IsChain (fun a b => b.start = a.stop) := by
  induction segs generalizing start with
  | nil => exact .nil
  | cons s segs ih =>
    cases segs with
    | nil => exact .singleton _
    | cons s' segs => exact .cons_cons rfl (ih _)

theorem byteLength_pos {cs : List Char} (some : cs ≠ []) : 0 < byteLength cs := by
  cases cs with
  | nil => exact absurd rfl some
  | cons c cs =>
    have size := c.utf8Size_pos
    rw [byteLength_cons]
    omega

/-- A place is that of a piece of the text, with a front before it and a rest after it. -/
structure Covers (cs : List Char) (span : Span) (front piece rest : List Char) : Prop where
  whole : cs = front ++ piece ++ rest
  start : span.start = byteLength front
  stop : span.stop = byteLength (front ++ piece)

/-- The places of the segments begin with the text and follow one another, and those of a finished
    text end with it. Each is that of some characters, the last of which ends a statement or a
    finished text. There is no code in it just if it has only blanks, separators and comments, and
    these are read as ends of statements. -/
theorem segments_tile_the_text (finished : Bool) (cs : List Char) :
    (∀ first ∈ (spans finished cs).head?, first.start = 0) ∧
    (spans finished cs).IsChain (fun a b => b.start = a.stop) ∧
    (finished = true → endOf (spans finished cs) = byteLength cs) ∧
    ∀ span ∈ spans finished cs, span.start < span.stop ∧
      ∃ front piece rest, Covers cs span front piece rest ∧
        ((∃ c ∈ piece.getLast?, c = '\n' ∨ c = ';') ∨ finished = true ∧ rest = []) ∧
        (span.hasCode = false ↔ Idle piece) ∧
        (span.hasCode = false → ∃ n lexemes, tokenize (String.ofList piece) = .ok lexemes ∧
          tokensOf lexemes = List.replicate n .newline ++ [.eof]) := by
  refine ⟨?first, isChain_spansFrom 0 _, ?whole, ?each⟩
  case first =>
    rw [spans]
    cases segments finished cs with
    | nil =>
      intro first mem
      cases mem
    | cons s segs =>
      intro first mem
      cases mem
      rfl
  case whole =>
    rintro rfl
    rw [spans, endOf_spansFrom, covered_segments_finished]
  case each =>
    intro span mem
    obtain ⟨before, segment, after, split, start, stop, code⟩ := mem_spansFrom mem
    rw [Nat.zero_add] at start
    obtain ⟨rest, whole, tile⟩ := tile_of_segments split
    have long := byteLength_pos tile.some
    refine ⟨by omega, covered before, segment.text, rest, ⟨whole, start, ?_⟩, tile.ends, ?_, ?_⟩
    · rw [stop, start, byteLength_append]
    · rw [code]
      exact tile.idle
    · rw [code]
      intro none
      obtain ⟨n, scans⟩ := (tile.idle.1 none).scans
      exact ⟨n, tokenize_of_scans scans⟩

namespace Tiled

def source : List Char := "a;# é\n\tb".toList

end Tiled

/-- Between two statements there is a comment with a letter of two bytes, and the last statement
    ends with the text. -/
theorem segments_tile_the_text_around_a_comment :
    spans true Tiled.source = [⟨0, 2, true⟩, ⟨2, 7, false⟩, ⟨7, 9, true⟩] ∧
      ∃ front piece rest, Covers Tiled.source ⟨2, 7, false⟩ front piece rest ∧ Idle piece ∧
        ∃ n lexemes, tokenize (String.ofList piece) = .ok lexemes ∧
          tokensOf lexemes = List.replicate n .newline ++ [.eof] := by
  have places : spans true Tiled.source = [⟨0, 2, true⟩, ⟨2, 7, false⟩, ⟨7, 9, true⟩] := by
    decide +kernel
  have mem : (⟨2, 7, false⟩ : Span) ∈ spans true Tiled.source := by
    rw [places]
    exact .tail _ List.mem_cons_self
  obtain ⟨-, front, piece, rest, covers, -, idle, read⟩ :=
    (segments_tile_the_text true Tiled.source).2.2.2 _ mem
  exact ⟨places, front, piece, rest, covers, idle.1 rfl, read rfl⟩

end Playbook.Script
