import Playbook.Proofs.Execution.Stream

/- The moments of a stream: its states right after each segment that has been run to its end. From
   any of them the stream goes on as a stream of its own. -/
namespace Playbook.Script
variable {S T : Type}

namespace Progress

/-- The progress and the world after each segment that has been run to its end. -/
def visits (h : Handler (StateM S)) (save : Saver (StateM S)) (p : Progress) (w : S) :
    List Segment → List (Progress × S)
  | [] => []
  | segment :: rest =>
    match runSegment h save p segment w with
    | ((.ok true, p), w) => (p, w) :: visits h save p w rest
    | _ => []

def visitsUnlessFault (h : Handler (StateM S)) (save : Saver (StateM S)) (p : Progress) (w : S)
    (segs : List Segment) : List (Progress × S) :=
  if p.execution.fault.isSome then [] else visits h save p w segs

def moments (h : Handler (StateM S)) (save : Saver (StateM S)) (p : Progress) (w : S) :
    List String → List (Progress × S)
  | [] => visitsUnlessFault h save p w (segments true p.execution.pending.toList)
  | chunk :: rest =>
    let p := p.receive chunk
    let segs := segments false p.execution.pending.toList
    visitsUnlessFault h save p w segs ++
      match carryOn h save p segs w with
      | ((.ok (), p), w) => moments h save p w rest
      | _ => []

variable {h : Handler (StateM S)} {save : Saver (StateM S)}

theorem carryOn_of_visit {p q : Progress} {w u : S} {segs : List Segment}
    (sound : ¬p.execution.fault.isSome = true) (visit : (q, u) ∈ visits h save p w segs) :
    ∃ done left, segs = done ++ left ∧ carryOn h save p done w = ((.ok (), q), u) ∧
      q.execution.fault.isSome = false := by
  induction segs generalizing p w with
  | nil => simp [visits] at visit
  | cons segment rest ih =>
    rw [visits] at visit
    rcases one : runSegment h save p segment w with ⟨⟨more, p'⟩, w'⟩
    rw [one] at visit
    rcases more with e | _ | _
    · simp at visit
    · simp at visit
    · have goes := runSegment_fault h save sound segment w one
      have onward (done : List Segment) :
          carryOn h save p (segment :: done) w = carryOn h save p' done w' := by
        rw [carryOn_cons h save sound, one]
      rcases List.mem_cons.1 visit with now | later
      · cases now
        exact ⟨[segment], rest, rfl, by rw [onward, carryOn_nil], goes⟩
      · obtain ⟨done, left, split, ran, sound'⟩ := ih (by simp [goes]) later
        exact ⟨segment :: done, left, by rw [split, List.cons_append], by rw [onward, ran], sound'⟩

theorem visit_of_mem {p : Progress} {w : S} {segs : List Segment} {m : Progress × S}
    (mem : m ∈ visitsUnlessFault h save p w segs) :
    ¬p.execution.fault.isSome = true ∧ m ∈ visits h save p w segs := by
  unfold visitsUnlessFault at mem
  split at mem
  · simp at mem
  · rename_i sound
    exact ⟨sound, mem⟩

theorem receive_empty (p : Progress) : p.receive "" = p := by simp [receive]

theorem segments_of_moved {p q : Progress} {finished : Bool} {done left : List Segment}
    (split : segments finished p.execution.pending.toList = done ++ left)
    (moved : Moved (covered done) p q) :
    segments finished q.execution.pending.toList = left := by
  rw [moved.pending, String.toList_ofList]
  exact segments_drop finished _ split

/-- What a moment of a stream is: nothing has failed, all of the code is still there, and the stream
    goes on from there. -/
structure Moment (h : Handler (StateM S)) (save : Saver (StateM S)) (p : Progress) (w : S)
    (chunks : List String) (q : Progress) (u : S) : Prop where
  opened : q.execution.finalized = false
  sound : q.execution.fault = none
  rest : ∃ rest, stream h save p chunks w = stream h save q rest u ∧
    q.execution.full ++ String.join rest = p.execution.full ++ String.join chunks

theorem onward_of_visit {p q : Progress} {w u : S} {finished : Bool}
    (visit : (q, u) ∈
      visitsUnlessFault h save p w (segments finished p.execution.pending.toList)) :
    q.execution.fault = none ∧ q.execution.finalized = p.execution.finalized ∧
      q.execution.full = p.execution.full ∧
      carryOn h save p (segments finished p.execution.pending.toList) w =
        carryOn h save q (segments finished q.execution.pending.toList) u := by
  obtain ⟨sound, visit⟩ := visit_of_mem visit
  obtain ⟨done, left, split, ran, sound'⟩ := carryOn_of_visit sound visit
  obtain ⟨done', left', split', moved, all⟩ := carryOn_moved h save p done w ran
  rw [all rfl sound', List.append_nil] at split'
  subst split'
  have front : covered done <+: p.execution.pending.toList := by
    refine List.IsPrefix.trans ?_ (covered_segments_isPrefix finished _)
    rw [split, covered_append]
    exact List.prefix_append _ _
  refine ⟨by simpa using sound', moved.finalized, moved.full front, ?_⟩
  rw [segments_of_moved split moved, split, carryOn_append, ran]

theorem moment_of_mem {p q : Progress} {w u : S} {chunks : List String}
    (opened : p.execution.finalized = false) (mem : (q, u) ∈ moments h save p w chunks) :
    Moment h save p w chunks q u := by
  induction chunks generalizing p w with
  | nil =>
    obtain ⟨sound, finalized, full, onward⟩ := onward_of_visit mem
    have opened' := finalized.trans opened
    refine ⟨opened', sound, [], ?_, by rw [full]⟩
    rw [stream, stream, finalize_eq_carryOn h save opened, finalize_eq_carryOn h save opened',
      onward]
  | cons chunk rest ih =>
    have opened' : (p.receive chunk).execution.finalized = false := opened
    have received : (p.receive chunk).execution.full ++ String.join rest =
        p.execution.full ++ String.join (chunk :: rest) := by
      simp only [receive, Execution.full, String.join_cons, String.append_assoc]
    rw [moments, List.mem_append] at mem
    rcases mem with now | later
    · obtain ⟨sound, finalized, full, onward⟩ := onward_of_visit now
      have reopened := finalized.trans opened'
      -- An empty piece makes the stream run the segments that are left of this one.
      refine ⟨reopened, sound, "" :: rest, ?_, ?_⟩
      · rw [stream_cons h save opened, stream_cons h save reopened, receive_empty, onward]
      · rw [String.join_cons, String.empty_append, full, received]
    · rcases ran : carryOn h save (p.receive chunk)
        (segments false (p.receive chunk).execution.pending.toList) w with ⟨⟨r, p'⟩, w'⟩
      rw [ran] at later
      cases r with
      | error e => simp at later
      | ok o =>
        have found := ih ((carryOn_finalized h save _ _ w ran).trans opened') later
        obtain ⟨rest', same, full⟩ := found.rest
        refine ⟨found.opened, found.sound, rest', ?_, ?_⟩
        · rw [stream_cons h save opened, ran]
          exact same
        · rw [full, carryOn_full h save _ false w ran, received]

end Progress

namespace Coupling
variable {K : Coupling S T} {counted : Prop} {h : Handler (StateM S)} {g : Handler (StateM T)}
  {save : Saver (StateM S)} {save' : Saver (StateM T)}

theorem visits_coupled (H : K.Handlers h g) (V : K.Savers counted save save') {p p' q : Progress}
    {w u : S} {w' : T} (same : K.Progresses counted p p') (worlds : K.worlds w w')
    {segs : List Segment} (visit : (q, u) ∈ Progress.visits h save p w segs) :
    ∃ q' u', K.Progresses counted q q' ∧ K.worlds u u' := by
  induction segs generalizing p p' w w' with
  | nil => simp [Progress.visits] at visit
  | cons segment rest ih =>
    rw [Progress.visits] at visit
    have coupled := @runSegment_coupled _ _ _ _ _ _ _ _ H V _ _ _ _ same worlds segment
    rcases one : Progress.runSegment h save p segment w with ⟨⟨more, next⟩, v⟩
    rw [one] at visit coupled
    match more with
    | .error e | .ok false => simp at visit
    | .ok true =>
      obtain ⟨-, related, worlds'⟩ := coupled rfl
      rcases List.mem_cons.1 visit with now | later
      · cases now
        exact ⟨_, _, related, worlds'⟩
      · exact ih related worlds' later

theorem moments_coupled (H : K.Handlers h g) (V : K.Savers counted save save')
    {p p' q : Progress} {w u : S} {w' : T} (same : K.Progresses counted p p')
    (worlds : K.worlds w w') {chunks : List String}
    (moment : (q, u) ∈ Progress.moments h save p w chunks) :
    ∃ q' u', K.Progresses counted q q' ∧ K.worlds u u' := by
  induction chunks generalizing p p' w w' with
  | nil => exact visits_coupled H V same worlds (Progress.visit_of_mem moment).2
  | cons chunk rest ih =>
    have received : K.Progresses counted (p.receive chunk) p' := { same with }
    rw [Progress.moments, List.mem_append] at moment
    rcases moment with now | later
    · exact visits_coupled H V received worlds (Progress.visit_of_mem now).2
    · have coupled := carryOn_coupled H V received worlds
        (segments false (p.receive chunk).execution.pending.toList)
      rcases ran : Progress.carryOn h save (p.receive chunk)
        (segments false (p.receive chunk).execution.pending.toList) w with ⟨⟨r, next⟩, v⟩
      rw [ran] at later coupled
      cases r with
      | error e => simp at later
      | ok o =>
        obtain ⟨-, related, worlds'⟩ := coupled rfl
        exact ih related worlds' later

end Coupling
end Playbook.Script
