import Playbook.Proofs.Segment.Growth

/- The places of the segments in a text. A text that grows keeps the segments it had, at their
   places. What comes after the end of any segment is split as it is within the text, with all
   places counted from that end. -/
namespace Playbook.Script

/-- The places of the segments of a text. -/
def spans (finished : Bool) (cs : List Char) : List Span := spansFrom 0 (segments finished cs)

def byteLength (cs : List Char) : Nat := (String.ofList cs).utf8ByteSize

/-- The same place, when the text begins by so many bytes earlier. -/
def Span.shift (offset : Nat) (span : Span) : Span :=
  ⟨offset + span.start, offset + span.stop, span.hasCode⟩

/-- Where the last of the places ends; the beginning of the text if there is none. -/
def endOf (places : List Span) : Nat := (places.getLast?.map Span.stop).getD 0

@[simp] theorem byteLength_nil : byteLength [] = 0 := rfl

@[simp] theorem byteLength_cons (c : Char) (cs : List Char) :
    byteLength (c :: cs) = c.utf8Size + byteLength cs := by
  simp [byteLength, String.ofList_cons]

@[simp] theorem byteLength_append (cs ds : List Char) :
    byteLength (cs ++ ds) = byteLength cs + byteLength ds := by
  simp [byteLength, String.ofList_append]

theorem Segment.bytes_eq (s : Segment) : s.bytes = byteLength s.text := rfl

theorem front_unique {front front' rest rest' : List Char} (same : front ++ rest = front' ++ rest')
    (long : byteLength front = byteLength front') : rest = rest' := by
  induction front generalizing front' with
  | nil =>
    cases front' with
    | nil => exact same
    | cons c more =>
      have := c.utf8Size_pos
      simp only [byteLength_nil, byteLength_cons] at long
      omega
  | cons c more ih =>
    cases front' with
    | nil =>
      have := c.utf8Size_pos
      simp only [byteLength_nil, byteLength_cons] at long
      omega
    | cons d more' =>
      simp only [List.cons_append, List.cons.injEq] at same
      obtain ⟨rfl, same⟩ := same
      exact ih same (by simpa using long)

theorem spansFrom_append (start : Nat) (front rest : List Segment) :
    spansFrom start (front ++ rest) =
      spansFrom start front ++ spansFrom (start + byteLength (covered front)) rest := by
  induction front generalizing start with
  | nil => simp [spansFrom]
  | cons s front ih => simp [spansFrom, ih, Segment.bytes_eq, Nat.add_assoc]

theorem spansFrom_shift (offset start : Nat) (segs : List Segment) :
    (spansFrom start segs).map (Span.shift offset) = spansFrom (offset + start) segs := by
  induction segs generalizing start with
  | nil => rfl
  | cons s segs ih => simp [spansFrom, ih, Span.shift, Nat.add_assoc]

theorem endOf_spansFrom (segs : List Segment) :
    endOf (spansFrom 0 segs) = byteLength (covered segs) := by
  rcases List.eq_nil_or_concat segs with rfl | ⟨front, s, rfl⟩
  · rfl
  · simp [spansFrom_append, spansFrom, endOf, covered_append, Segment.bytes_eq]

theorem take_spansFrom (start k : Nat) (segs : List Segment) :
    (spansFrom start segs).take k = spansFrom start (segs.take k) := by
  induction segs generalizing start k with
  | nil => simp [spansFrom]
  | cons s segs ih =>
    cases k with
    | zero => simp [spansFrom]
    | succ k => simp [spansFrom, ih]

theorem drop_spansFrom (start k : Nat) (segs : List Segment) :
    (spansFrom start segs).drop k =
      spansFrom (start + byteLength (covered (segs.take k))) (segs.drop k) := by
  induction segs generalizing start k with
  | nil => simp [spansFrom]
  | cons s segs ih =>
    cases k with
    | zero => simp
    | succ k => simp [spansFrom, ih, Segment.bytes_eq, Nat.add_assoc]

theorem spans_grown (finished : Bool) (cs ds : List Char) :
    spans false cs <+: spans finished (cs ++ ds) := by
  rw [spans, spans, segments_append, spansFrom_append]
  exact List.prefix_append _ _

section Restart
variable (finished : Bool) (cs : List Char) (k : Nat)

theorem byteLength_covered_take : byteLength (covered ((segments finished cs).take k)) =
    endOf ((spans finished cs).take k) := by
  rw [spans, take_spansFrom, endOf_spansFrom]

theorem covered_take_isPrefix : covered ((segments finished cs).take k) <+: cs := by
  have whole : covered ((segments finished cs).take k) <+: covered (segments finished cs) := by
    conv => rhs; rw [← List.take_append_drop k (segments finished cs), covered_append]
    exact List.prefix_append _ _
  exact whole.trans (covered_segments_isPrefix finished cs)

theorem spans_after {front rest : List Char} (split : cs = front ++ rest)
    (ends : byteLength front = endOf ((spans finished cs).take k)) :
    (spans finished rest).map (Span.shift (byteLength front)) = (spans finished cs).drop k := by
  obtain ⟨rest', whole⟩ := covered_take_isPrefix finished cs k
  have same : rest = rest' :=
    front_unique (split.symm.trans whole.symm)
      (ends.trans (byteLength_covered_take finished cs k).symm)
  have cut : cs.drop (covered ((segments finished cs).take k)).length = rest := by
    simpa [same] using congrArg (List.drop (covered ((segments finished cs).take k)).length)
      whole.symm
  have left : segments finished rest = (segments finished cs).drop k := by
    rw [← cut]
    exact segments_drop finished cs (List.take_append_drop k (segments finished cs)).symm
  rw [spans, left, spansFrom_shift, Nat.add_zero, spans, drop_spansFrom, Nat.zero_add,
    byteLength_covered_take, ends]

end Restart

/-- Splitting never takes anything back, and it can be taken up again after any segment. The places
    found in a text that may grow are the first ones found in whatever it grows to. The end of any
    segment is one of the ends of the characters, and what comes after it is split into the segments
    that are left, with their places counted from there. -/
theorem splitting_settled_and_resumable :
    (∀ (finished : Bool) (cs ds : List Char), spans false cs <+: spans finished (cs ++ ds)) ∧
      ∀ (finished : Bool) (cs : List Char) (k : Nat),
        (∃ front rest, cs = front ++ rest ∧
          byteLength front = endOf ((spans finished cs).take k)) ∧
        ∀ front rest, cs = front ++ rest →
          byteLength front = endOf ((spans finished cs).take k) →
            (spans finished rest).map (Span.shift (byteLength front)) =
              (spans finished cs).drop k := by
  refine ⟨spans_grown, fun finished cs k => ⟨?_, fun front rest => spans_after finished cs k⟩⟩
  obtain ⟨rest, whole⟩ := covered_take_isPrefix finished cs k
  exact ⟨_, rest, whole.symm, byteLength_covered_take finished cs k⟩

namespace Growing

def block : List Char := "a;if a \x7b\n\x7d\n".toList

def onward : List Char := "b=\"é;\"\nc".toList

end Growing

/-- As long as it is open whether the block has another branch it is held back. The statement after
    it has a letter of two bytes. -/
theorem splitting_settled_and_resumable_after_a_block :
    (spans false Growing.block <+: spans true (Growing.block ++ Growing.onward) ∧
      spans false Growing.block = [⟨0, 2, true⟩] ∧
      spans true (Growing.block ++ Growing.onward) =
        [⟨0, 2, true⟩, ⟨2, 11, true⟩, ⟨11, 19, true⟩, ⟨19, 20, true⟩]) ∧
      byteLength Growing.block = endOf ((spans true (Growing.block ++ Growing.onward)).take 2) ∧
      (spans true Growing.onward).map (Span.shift (byteLength Growing.block)) =
        (spans true (Growing.block ++ Growing.onward)).drop 2 := by
  have ends : byteLength Growing.block =
      endOf ((spans true (Growing.block ++ Growing.onward)).take 2) := by decide +kernel
  exact ⟨⟨splitting_settled_and_resumable.1 true _ _, by decide +kernel, by decide +kernel⟩, ends,
    (splitting_settled_and_resumable.2 true _ 2).2 _ _ rfl ends⟩

end Playbook.Script
