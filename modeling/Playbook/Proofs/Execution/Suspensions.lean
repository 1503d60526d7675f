import Playbook.Proofs.Execution.Along
import Playbook.Proofs.Execution.Effects

/- Which statements are followed by a checkpoint: those that complete and in which something takes
   effect, each by one of its own, which records the moment right after it. -/
namespace Playbook.Script
variable {S σ τ : Type}

namespace Attempt
variable (h : Handler (StateM S)) (a : Attempt S)

/-- What the code comes to; none if it cannot be read. -/
def block? : Option ((Except Fault Unit × Machine) × S) :=
  match parseProgram (String.ofList a.segment.text) with
  | .ok body => some (runBlock h a.before.execution.names a.before.agent body a.world)
  | .error _ => none

/-- What takes effect in the code. -/
def effects : List Effect :=
  match parseProgram (String.ofList a.segment.text) with
  | .ok body =>
    blockEffects h body ⟨a.before.execution.names, a.before.agent, false, none, none⟩ a.world
  | .error _ => []

/-- The code completes, and something has taken effect in it. -/
def suspends : Bool :=
  match a.block? h with
  | some ((.ok (), _), _) => !(a.effects h).isEmpty
  | _ => false

variable {h a}

theorem block?_of_parsed {body : List Stmt}
    (parsed : parseProgram (String.ofList a.segment.text) = .ok body) :
    a.block? h = some (runBlock h a.before.execution.names a.before.agent body a.world) := by
  rw [block?, parsed]

theorem suspends_of_malformed {e : SyntaxError}
    (parsed : parseProgram (String.ofList a.segment.text) = .error e) : a.suspends h = false := by
  rw [suspends, block?, parsed]

theorem suspends_of_failed {f : Fault} {s : Machine} {v : S}
    (ran : a.block? h = some ((.error f, s), v)) : a.suspends h = false := by
  rw [suspends, ran]

end Attempt

/-- Numbers go up by one from the last one before to the last one after, in 64 bits. -/
def Numbered : Nat → List Checkpoint → Nat → Prop
  | last, [], next => next = last
  | last, c :: rest, next => c.id.number = (last + 1) % UInt64.size ∧ Numbered c.id.number rest next

theorem Numbered.append {a b c : Nat} {first second : List Checkpoint} (before : Numbered a first b)
    (after : Numbered b second c) : Numbered a (first ++ second) c := by
  induction first generalizing a with
  | nil =>
    obtain rfl : b = a := before
    exact after
  | cons d rest ih => exact ⟨before.1, ih before.2⟩

theorem Numbered.range {last next : Nat} {cs : List Checkpoint} (numbered : Numbered last cs next)
    (room : last + cs.length < UInt64.size) :
    cs.map (·.id.number) = List.range' (last + 1) cs.length := by
  induction cs generalizing last with
  | nil => rfl
  | cons c rest ih =>
    obtain ⟨number, later⟩ := numbered
    rw [List.length_cons] at room
    rw [Nat.mod_eq_of_lt (by omega)] at number
    rw [List.map_cons, List.length_cons, List.range'_succ, ih later (by omega), number]

/-- The checkpoint records the moment right after the code has completed. -/
structure RecordedBy (h : Handler (StateM S)) (c : Checkpoint) (a : Attempt S) : Prop where
  after : ∃ s v, a.block? h = some ((.ok (), s), v) ∧ c.data.names = storedNames s.names ∧
    c.data.state = s.agent.snapshot
  statement : c.data.statement = String.ofList (Text.trim a.segment.text)
  executed : c.data.executed.toList = Progress.reach a
  response : c.data.executed.toList <+: c.data.response.toList
  number : c.data.number = c.id.number

namespace Surroundings

/-- Unless a save has failed, the checkpoints of these attempts have been saved between the two. -/
def Writes (h : Handler (StateM (Surroundings σ τ))) (w : Surroundings σ τ)
    (log : List (Attempt (Surroundings σ τ))) (v : Surroundings σ τ) : Prop :=
  v.refused = [] → w.refused = [] ∧ ∃ cs, v.saved = w.saved ++ cs ∧
    List.Forall₂ (RecordedBy h) cs (log.filter (·.suspends h)) ∧
    Numbered w.manager.last cs v.manager.last

namespace Writes
variable {h : Handler (StateM (Surroundings σ τ))} {w u v : Surroundings σ τ}
  {log log' : List (Attempt (Surroundings σ τ))}

theorem of_sameStore (same : SameStore w v) (nothing : ∀ a ∈ log, a.suspends h = false) :
    Writes h w log v := by
  intro kept
  refine ⟨same.refused.symm.trans kept, [], by rw [same.saved, List.append_nil], ?_, ?_⟩
  · rw [List.filter_eq_nil_iff.2 fun a among => by simp [nothing a among]]
    exact .nil
  · exact congrArg CheckpointManager.last same.manager

theorem refl (w : Surroundings σ τ) : Writes h w [] w :=
  of_sameStore ⟨rfl, rfl, rfl, rfl⟩ (List.forall_mem_nil _)

theorem append (first : Writes h w log u) (second : Writes h u log' v) :
    Writes h w (log ++ log') v := by
  intro kept
  obtain ⟨kept', later, saved', recorded', numbered'⟩ := second kept
  obtain ⟨kept'', now, saved, recorded, numbered⟩ := first kept'
  refine ⟨kept'', now ++ later, by rw [saved', saved, List.append_assoc], ?_,
    numbered.append numbered'⟩
  rw [List.filter_append]
  exact List.rel_append recorded recorded'

end Writes

section Saving
variable {h : Handler (StateM σ)} {store : CheckpointStore τ} {clock : Nat → String}

theorem suspends_of_completed {a : Attempt (Surroundings σ τ)} {s : Machine}
    {v : Surroundings σ τ} (ran : a.block? (noting h) = some ((.ok (), s), v)) :
    a.suspends (noting h) = s.suspended := by
  have completed := ran
  unfold Attempt.block? at completed
  cases parsed : parseProgram (String.ofList a.segment.text) with
  | error e =>
    rw [parsed] at completed
    cases completed
  | ok body =>
    rw [parsed] at completed
    have flag := (block_effects (τ := τ) h body).suspended
      ⟨a.before.execution.names, a.before.agent, false, none, none⟩ a.world
    have same : (execBlock (noting h) body).from
        ⟨a.before.execution.names, a.before.agent, false, none, none⟩ a.world = ((.ok (), s), v) :=
      Option.some.inj completed
    rw [same, or_iff_right Bool.false_ne_true] at flag
    rw [Attempt.suspends, ran, Attempt.effects, parsed]
    apply Bool.eq_iff_iff.2
    rw [flag, Bool.not_eq_true', List.isEmpty_eq_false_iff]

theorem record_writes {p q : Progress} {segment : Segment} {body : List Stmt} {s : Machine}
    {w u v : Surroundings σ τ} {r : Except StoreError Unit}
    (ran : (Attempt.mk p segment w).block? (noting h) = some ((.ok (), s), u))
    (same : SameStore w u)
    (recorded : Progress.record (keeping (some store) clock) (p.succeed s segment body.length)
      segment.text s.suspended u = ((r, q), v)) : Writes (noting h) w [⟨p, segment, w⟩] v := by
  have suspends := suspends_of_completed ran
  revert recorded
  refine Progress.record_elim (keeping (some store) clock) (p.succeed s segment body.length)
    segment.text s.suspended u
    (motive := fun x => x = ((r, q), v) → Writes (noting h) w [⟨p, segment, w⟩] v) ?_ ?_ ?_
  · rintro (unknown | unsuspended) recorded
    · cases unknown
    · cases recorded
      apply Writes.of_sameStore same
      intro a among
      rw [List.mem_singleton.1 among, suspends, unsuspended]
  · intro f e u' known _ asked recorded
    cases recorded
    intro kept
    exact absurd kept (refused_of_asked (some store) clock f _ _ _ _ known asked)
  · intro f id u' known suspended asked recorded
    cases recorded
    obtain rfl : save store clock = f := Option.some.inj known
    obtain ⟨number, -, -, manager, saved⟩ := save_of_ok asked
    intro kept
    have refused := (save_refused asked).symm.trans kept
    refine ⟨same.refused.symm.trans refused, _, by rw [saved, same.saved], ?_, ?_⟩
    · rw [List.filter_cons_of_pos (suspends.trans suspended), List.filter_nil]
      refine .cons ⟨⟨s, u, ran, rfl, rfl⟩, rfl, ?_, ?_, rfl⟩ .nil
      · exact String.toList_append.trans (congrArg (_ ++ ·) String.toList_ofList)
      · rw [CheckpointManager.dataFor, Execution.request, Execution.full, String.toList_append]
        exact List.prefix_append _ _
    · rw [← same.manager, manager, number]
      exact ⟨rfl, rfl⟩

theorem runSegment_writes {p q : Progress} {segment : Segment} {w v : Surroundings σ τ}
    {r : Except StoreError Bool} (runs : (!segment.hasCode || p.execution.returned.isSome) = false)
    (ran : Progress.runSegment (noting h) (keeping (some store) clock) p segment w = ((r, q), v)) :
    Writes (noting h) w [⟨p, segment, w⟩] v := by
  have only {u : Surroundings σ τ} (same : SameStore w u)
      (nothing : (Attempt.mk p segment w).suspends (noting h) = false) :
      Writes (noting h) w [⟨p, segment, w⟩] u := by
    apply Writes.of_sameStore same
    intro a among
    rw [List.mem_singleton.1 among, nothing]
  revert ran
  refine Progress.runSegment_elim (noting h) (keeping (some store) clock) p segment w
    (motive := fun x => x = ((r, q), v) → Writes (noting h) w [⟨p, segment, w⟩] v) ?_ ?_ ?_ ?_
  · intro passed
    rw [passed] at runs
    cases runs
  · intro err _ parsed ran
    cases ran
    exact only ⟨rfl, rfl, rfl, rfl⟩ (Attempt.suspends_of_malformed parsed)
  · intro body fault s u _ parsed block ran
    cases ran
    have same := runBlock_sameStore h p.execution.names p.agent body w
    rw [block] at same
    have whole := (Attempt.block?_of_parsed (h := noting h) (a := ⟨p, segment, w⟩) parsed).trans
      (congrArg some block)
    exact only same (Attempt.suspends_of_failed whole)
  · intro body s u saved q' v' _ parsed block recorded ran
    cases ran
    have same := runBlock_sameStore h p.execution.names p.agent body w
    rw [block] at same
    have whole := (Attempt.block?_of_parsed (h := noting h) (a := ⟨p, segment, w⟩) parsed).trans
      (congrArg some block)
    exact record_writes whole same recorded

theorem carryOn_writes {p q : Progress} (sound : ¬p.execution.fault.isSome = true)
    (segs : List Segment) {w v : Surroundings σ τ} {r : Except StoreError Unit}
    (ran : p.carryOn (noting h) (keeping (some store) clock) segs w = ((r, q), v)) :
    Writes (noting h) w (Progress.attempts (noting h) (keeping (some store) clock) p w segs) v := by
  induction segs generalizing p w with
  | nil =>
    rw [Progress.carryOn_nil] at ran
    cases ran
    exact .refl _
  | cons segment rest ih =>
    rw [Progress.carryOn_cons _ _ sound] at ran
    by_cases passed : (!segment.hasCode || p.execution.returned.isSome) = true
    · rw [Progress.attempts_of_passed _ _ passed]
      rw [Progress.runSegment_passed _ _ p segment w passed] at ran
      exact ih (p := { p with execution := p.execution.advance segment.text }) sound ran
    · have runs := (Bool.not_eq_true _).mp passed
      rcases one : Progress.runSegment (noting h) (keeping (some store) clock) p segment w
        with ⟨⟨more, p'⟩, w'⟩
      rw [one] at ran
      have now := runSegment_writes runs one
      rw [Progress.attempts_of_runs _ _ runs, one]
      rcases more with e | _ | _
      · cases ran
        exact now
      · have stopped := Progress.runSegment_fault _ _ sound segment w one
        simp only [Progress.carryOn_of_fault _ _ stopped] at ran
        cases ran
        exact now
      · have goes := Progress.runSegment_fault _ _ sound segment w one
        exact now.append (ih (by simp [goes]) ran)

theorem take_writes (p : Progress) (i : Input) (w : Surroundings σ τ) :
    Writes (noting h) w (p.attemptsAt (noting h) (keeping (some store) clock) w i)
      (p.take (noting h) (keeping (some store) clock) i w).2 := by
  cases offer : p.offered i with
  | none =>
    obtain ⟨e, refused⟩ := Progress.take_of_refused (noting h) (keeping (some store) clock) offer w
    rw [refused, Progress.attemptsAt_of_refused _ _ offer]
    exact .refl w
  | some asked =>
    obtain ⟨code, finished⟩ := asked
    rw [Progress.take_of_offered _ _ offer]
    by_cases fault : p.execution.fault.isSome = true
    · have waits : (p.await code).execution.fault.isSome = true := fault
      rw [Progress.attemptsAt_of_fault _ _ fault, Progress.carryOn_of_fault _ _ waits]
      exact .refl w
    · rw [Progress.attemptsAt_of_offered _ _ offer fault]
      rcases ran : Progress.carryOn (noting h) (keeping (some store) clock) (p.await code)
        (segments finished code.toList) w with ⟨⟨r, q⟩, v⟩
      exact carryOn_writes (p := p.await code) fault _ ran

theorem session_writes (p : Progress) (inputs : List Input) (w : Surroundings σ τ) :
    Writes (noting h) w (p.session (noting h) (keeping (some store) clock) w inputs)
      (p.takeAll (noting h) (keeping (some store) clock) inputs w).2 := by
  induction inputs generalizing p w with
  | nil => exact .refl w
  | cons i rest ih => exact (take_writes p i w).append (ih _ _)

end Saving
end Surroundings

/-- The code is a segment of all the code, and what has been run before is what comes before it. -/
structure Attempt.Within (code : List Char) (a : Attempt S) : Prop where
  hasCode : a.segment.hasCode = true
  place : ∃ front back, segments true code = front ++ a.segment :: back ∧
    a.before.execution.executed = String.ofList (covered front)

section Places
variable {h : Handler (StateM S)} {save : Saver (StateM S)} {p : Progress} {w : S} {a : Attempt S}

theorem Progress.place_of_attempt {segs : List Segment}
    (among : a ∈ Progress.attempts h save p w segs) :
    a.segment.hasCode = true ∧ ∃ front back, segs = front ++ a.segment :: back ∧
      a.before.execution.executed = p.execution.executed ++ String.ofList (covered front) := by
  induction segs generalizing p w with
  | nil => cases among
  | cons segment rest ih =>
    have later {q : Progress} {v : S} (moved : Progress.Moved segment.text p q)
        (among : a ∈ Progress.attempts h save q v rest) :
        a.segment.hasCode = true ∧ ∃ front back, segment :: rest = front ++ a.segment :: back ∧
          a.before.execution.executed = p.execution.executed ++ String.ofList (covered front) := by
      obtain ⟨code, front, back, split, executed⟩ := ih among
      refine ⟨code, segment :: front, back, by rw [split, List.cons_append], ?_⟩
      rw [executed, moved.executed, covered_cons, String.ofList_append, String.append_assoc]
    by_cases passed : (!segment.hasCode || p.execution.returned.isSome) = true
    · rw [Progress.attempts_of_passed _ _ passed] at among
      have moved := Progress.runSegment_moved h save p segment w
        (Progress.runSegment_passed h save p segment w passed)
      exact later (by simpa using moved) among
    · have runs := (Bool.not_eq_true _).mp passed
      rw [Progress.attempts_of_runs _ _ runs] at among
      rcases List.mem_cons.1 among with rfl | after
      · refine ⟨?_, [], rest, rfl, ?_⟩
        · simp only [Bool.or_eq_false_iff, Bool.not_eq_false'] at runs
          exact runs.1
        · rw [covered_nil]
          simp
      · rcases one : Progress.runSegment h save p segment w with ⟨⟨more, q⟩, v⟩
        rw [one] at after
        match more with
        | .error e | .ok false => cases after
        | .ok true =>
          have moved := Progress.runSegment_moved h save p segment w one
          exact later (by simpa using moved) after

end Places

namespace Coupling
variable {T : Type} {K : Coupling S T} {h : Handler (StateM S)} {g : Handler (StateM T)}
  {save : Saver (StateM S)} {q p : Progress} {v : T} {w : S} {code more : List Char}

theorem Along.within (along : K.Along g q v true code more p w) (new : q.execution.executed = "")
    {segs : List Segment} (front : segs <+: segments true (p.execution.pending.toList ++ more))
    (sound : ¬p.execution.fault.isSome = true) {a : Attempt S}
    (among : a ∈ Progress.attempts h save p w segs) : a.Within code := by
  obtain ⟨done, left, split, -, rest⟩ := along.way
  obtain ⟨executed, pending⟩ := rest (by simpa using sound)
  obtain ⟨code, before, back, place, reached⟩ := Progress.place_of_attempt among
  obtain ⟨later, whole⟩ := front
  refine ⟨code, done ++ before, back ++ later, ?_, ?_⟩
  · rw [split, ← pending, ← whole, place]
    simp
  · rw [reached, executed, new, String.empty_append, covered_append, String.ofList_append]

theorem Along.session (H : K.Handlers h g) (L : K.Loses save) (new : q.execution.executed = "")
    {chunks : List String} (along : K.Along g q v true code (String.join chunks).toList p w)
    {a : Attempt S}
    (among : a ∈ Progress.session h save p w (chunks.map .chunk ++ [.ending])) :
    a.Within code := by
  induction chunks generalizing p w with
  | nil =>
    have offer : p.offered .ending = some (p.execution.pending, true) := by
      simp only [Progress.offered, along.opened, Bool.false_eq_true, if_false]
    have last : Progress.session h save p w ([].map .chunk ++ [.ending]) =
      Progress.attemptsAt h save p w .ending := List.append_nil _
    rw [last] at among
    by_cases fault : p.execution.fault.isSome = true
    · rw [Progress.attemptsAt_of_fault _ _ fault] at among
      cases among
    rw [Progress.attemptsAt_of_offered _ _ offer fault] at among
    refine along.within new ?_ fault among
    simp
  | cons chunk rest ih =>
    have offer : p.offered (.chunk chunk) = some (p.execution.pending ++ chunk, false) := by
      simp only [Progress.offered, along.opened, Bool.false_eq_true, if_false]
    rw [String.join_cons, String.toList_append] at along
    have received := along.receive
    rw [List.map_cons, List.cons_append, Progress.session, List.mem_append,
      Progress.take_of_offered _ _ offer] at among
    rcases ran : Progress.carryOn h save (p.await (p.execution.pending ++ chunk))
      (segments false (p.execution.pending ++ chunk).toList) w with ⟨⟨r, p'⟩, w'⟩
    rw [ran] at among
    rcases among with now | later
    · by_cases fault : p.execution.fault.isSome = true
      · rw [Progress.attemptsAt_of_fault _ _ fault] at now
        cases now
      rw [Progress.attemptsAt_of_offered _ _ offer fault] at now
      refine received.within new ?_ fault now
      rw [segments_append]
      exact List.prefix_append _ _
    · exact ih (received.carryOn H L ran) later

end Coupling
theorem Attempt.Within.one_statement {a : Attempt S} {code : List Char} (within : a.Within code)
    {body : List Stmt} (parsed : parseProgram (String.ofList a.segment.text) = .ok body) :
    body.length = 1 := by
  obtain ⟨hasCode, front, back, split, -⟩ := within
  have mem : a.segment ∈ segments true code := by
    rw [split]
    exact List.mem_append_right front List.mem_cons_self
  rw [(readsAlone_of_mem mem parsed).count, if_pos hasCode]

namespace Surroundings

theorem asked_of_block {h : Handler (StateM σ)} {a : Attempt (Surroundings σ τ)}
    {r : Except Fault Unit × Machine} {v : Surroundings σ τ}
    (ran : a.block? (noting h) = some (r, v)) :
    suspendedCalls v.calls =
      suspendedCalls a.world.calls ++ askedCalls (a.effects (noting h)) := by
  unfold Attempt.block? at ran
  unfold Attempt.effects
  cases parsed : parseProgram (String.ofList a.segment.text) with
  | error e =>
    rw [parsed] at ran
    cases ran
  | ok body =>
    rw [parsed] at ran
    have asked := (block_effects (τ := τ) h body).asked
      ⟨a.before.execution.names, a.before.agent, false, none, none⟩ a.world
    have same : (execBlock (noting h) body).from
        ⟨a.before.execution.names, a.before.agent, false, none, none⟩ a.world = (r, v) :=
      Option.some.inj ran
    rw [same] at asked
    exact asked

end Surroundings

namespace Setting

/-- The statements that a new execution runs of the code in these chunks, until it is summed up. -/
def attempts (x : Setting σ τ) (chunks : List String) : List (Attempt (Surroundings σ τ)) :=
  x.fresh.session (Surroundings.noting x.handler) x.saver x.surroundings
    (chunks.map .chunk ++ [.ending])

/-- The surroundings in which it is then summed up. -/
def ending (x : Setting σ τ) (chunks : List String) : Surroundings σ τ :=
  (x.after (chunks.map .chunk ++ [.ending])).2

/-- If no save fails, the checkpoints of a run are those of the statements that complete and in
    which a call or a step takes effect, one for each and in their order. Each records the moment
    right after its statement, and their numbers go up by one. -/
theorem checkpoints_follow_suspensions (x : Setting σ τ) {store : CheckpointStore τ}
    (known : x.store = some store) (chunks : List String) (kept : (x.ending chunks).refused = []) :
    (∀ a ∈ x.attempts chunks, a.Within (String.join chunks).toList ∧
      (∀ body, parseProgram (String.ofList a.segment.text) = .ok body → body.length = 1) ∧
      ∀ r v, a.block? (Surroundings.noting x.handler) = some (r, v) → suspendedCalls v.calls =
        suspendedCalls a.world.calls ++ askedCalls (a.effects (Surroundings.noting x.handler))) ∧
    (x.attempts chunks).Pairwise Progress.Apart ∧
    List.Forall₂ (RecordedBy (Surroundings.noting x.handler)) (x.ending chunks).saved
      ((x.attempts chunks).filter (·.suspends (Surroundings.noting x.handler))) ∧
    Numbered x.manager.last (x.ending chunks).saved (x.ending chunks).manager.last ∧
    (x.manager.last + (x.ending chunks).saved.length < UInt64.size →
      (x.ending chunks).saved.map (·.id.number) =
        List.range' (x.manager.last + 1) (x.ending chunks).saved.length) := by
  refine ⟨?_, (Progress.placed_session _ _ x.fresh x.surroundings _).1, ?_⟩
  · intro a among
    have within := (fresh_along (x := x) (String.join chunks).toList true).session
      (Surroundings.answering_handlers x.handler) (Surroundings.answering_loses x.store x.clock)
      rfl among
    exact ⟨within, fun body parsed => within.one_statement parsed,
      fun r v ran => Surroundings.asked_of_block ran⟩
  · have writes : Surroundings.Writes (Surroundings.noting x.handler) x.surroundings
        (x.attempts chunks) (x.ending chunks) := by
      unfold attempts ending after saver
      rw [known]
      exact Surroundings.session_writes x.fresh _ x.surroundings
    obtain ⟨-, saved, all, recorded, numbered⟩ := writes kept
    obtain rfl : (x.ending chunks).saved = saved := all
    exact ⟨recorded, numbered, numbered.range⟩

def callInABranch : List String :=
  ["ask = Call\nif tr", "ue \x7b y = ask(\"X\") \x7d\nStep(\"Main:02:QUE\")", "\nz = 1\n"]

theorem checkpoints_follow_suspensions_in_a_branch :
    (prepared.ending callInABranch).saved.map (fun c => (c.data.statement, c.id.number)) =
      [("if true \x7b y = ask(\"X\") \x7d", 1), ("Step(\"Main:02:QUE\")", 2)] ∧
    List.Forall₂ (RecordedBy (Surroundings.noting prepared.handler))
      (prepared.ending callInABranch).saved ((prepared.attempts callInABranch).filter
        (·.suspends (Surroundings.noting prepared.handler))) ∧
    (prepared.attempts callInABranch).length = 4 := by
  refine ⟨by decide +kernel, ?_, by decide +kernel⟩
  have kept : (prepared.ending callInABranch).refused = [] := by decide +kernel
  exact (checkpoints_follow_suspensions prepared rfl callInABranch kept).2.2.1

end Setting
end Playbook.Script
