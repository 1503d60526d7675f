import Playbook.Proofs.Execution.Returning
import Playbook.Proofs.Segment.Alone

/- Which statements are run by what is fed to an execution. Chunks, whole responses and the ending
   may come in any order, and any save may fail in between; still every statement is run once at
   most, and none is left out before a fault, a return or a failure to save. -/
namespace Playbook.Script
variable {S : Type}

inductive Input where
  | chunk (text : String)
  | response (text : String)
  | ending

/-- The code of a segment is run, from this progress and in this world. -/
structure Attempt (S : Type) where
  before : Progress
  segment : Segment
  world : S

namespace Attempt
variable (h : Handler (StateM S)) (save : Saver (StateM S)) (a : Attempt S)

def outcome : (Except StoreError Bool × Progress) × S :=
  Progress.runSegment h save a.before a.segment a.world

def failed : Bool := (a.outcome h save).1.2.execution.fault.isSome

/-- Nothing more is run after a fault, a return or a failure to save. -/
def stops : Bool :=
  match (a.outcome h save).1 with
  | (.ok true, p) => p.execution.returned.isSome
  | _ => true

end Attempt

namespace Progress
variable (h : Handler (StateM S)) (save : Saver (StateM S))

def take (p : Progress) : Input → StateM S (Except ExecutionError Unit × Progress)
  | .chunk text => addChunk h save p text
  | .response text => continueWith h save p text
  | .ending => do
    let (r, p) ← finalize h save p
    return (r.map fun _ => (), p)

/-- Whatever becomes of an input, the next one is taken. -/
def takeAll (p : Progress) : List Input → StateM S Progress
  | [] => pure p
  | i :: rest => do
    let (_, p) ← take h save p i
    takeAll p rest

def await (p : Progress) (code : String) : Progress :=
  { p with execution := { p.execution with pending := code } }

def offered (p : Progress) (i : Input) : Option (String × Bool) :=
  if p.execution.finalized then none
  else match i with
    | .chunk text => some (p.execution.pending ++ text, false)
    | .response text => (p.execution.remainder? text).map fun rest => (rest, false)
    | .ending => some (p.execution.pending, true)

/-- The statements that an input makes complete, with the stretches between them. -/
def due (p : Progress) (i : Input) : List Segment :=
  match p.offered i with
  | none => []
  | some (code, finished) => segments finished code.toList

/-- The code of which segments is run. -/
def attempts (p : Progress) (w : S) : List Segment → List (Attempt S)
  | [] => []
  | segment :: rest =>
    let later := match runSegment h save p segment w with
      | ((.ok true, p), w) => attempts p w rest
      | _ => []
    if segment.hasCode && p.execution.returned.isNone then ⟨p, segment, w⟩ :: later else later

/-- The code that is run by an input. -/
def attemptsAt (p : Progress) (w : S) (i : Input) : List (Attempt S) :=
  match p.offered i with
  | none => []
  | some (code, _) =>
    if p.execution.fault.isSome then [] else attempts h save (p.await code) w (p.due i)

/-- The code that is run by all inputs. -/
def session (p : Progress) (w : S) : List Input → List (Attempt S)
  | [] => []
  | i :: rest =>
    attemptsAt h save p w i ++
      let ((_, q), v) := take h save p i w
      session q v rest

/-- All that has happened is these attempts, one after the other, none of them after a fault or a
    return. -/
inductive Linked : Progress → S → List (Attempt S) → Progress → S → Prop
  | idle {p p' : Progress} {w : S} (passed : Passed p p') : Linked p w [] p' w
  | next {p q p' : Progress} {w v w' : S} {a : Attempt S} {log : List (Attempt S)}
    {r : Except StoreError Bool} (passed : Passed p a.before) (here : a.world = w)
    (code : a.segment.hasCode = true) (unreturned : a.before.execution.returned = none)
    (sound : a.before.execution.fault = none) (ran : a.outcome h save = ((r, q), v))
    (last : r = .ok true ∨ log = [])
    (later : Linked q v log p' w') : Linked p w (a :: log) p' w'

variable {h save}

theorem Linked.after {p q p' : Progress} {w w' : S} {log : List (Attempt S)} (passed : Passed p q)
    (linked : Linked h save q w log p' w') : Linked h save p w log p' w' := by
  cases linked with
  | idle onward => exact .idle (passed.trans onward)
  | next onward here code unreturned sound ran last later =>
    exact .next (passed.trans onward) here code unreturned sound ran last later

/-- What has been run of segments, and what has been moved to the executed code. -/
structure Accounted (h : Handler (StateM S)) (save : Saver (StateM S)) (p : Progress) (w : S)
    (segs : List Segment) (log : List (Attempt S)) (p' : Progress) (w' : S) : Prop where
  linked : Linked h save p w log p' w'
  inOrder : log.map (·.segment) <+: segs.filter (·.hasCode)
  whole : log.map (·.segment) = segs.filter (·.hasCode) ∨ p.execution.returned.isSome = true ∨
    p.execution.fault.isSome = true ∨ ∃ a, log.getLast? = some a ∧ a.stops h save = true
  going : ∀ a ∈ log.dropLast, a.stops h save = false
  moved : ∃ done, done <+: segs ∧
    p'.execution.executed = p.execution.executed ++ String.ofList (covered done) ∧
    (p'.execution.returned = none →
      done.filter (·.hasCode) = (log.filter fun a => !a.failed h save).map (·.segment))

theorem Accounted.nothing {p p' : Progress} {w : S} {segs : List Segment} (passed : Passed p p')
    (executed : p'.execution.executed = p.execution.executed)
    (due : segs = [] ∨ p.execution.fault.isSome = true) :
    Accounted h save p w segs [] p' w where
  linked := .idle passed
  inOrder := List.nil_prefix
  whole := by
    rcases due with rfl | fault
    · exact .inl rfl
    · exact .inr (.inr (.inl fault))
  going := List.forall_mem_nil _
  moved := ⟨[], List.nil_prefix, by rw [executed]; simp, fun _ => rfl⟩

theorem attempts_of_returned {p : Progress} (returned : p.execution.returned.isSome = true)
    (w : S) (segs : List Segment) : attempts h save p w segs = [] := by
  induction segs generalizing p with
  | nil => rfl
  | cons segment rest ih =>
    have passed : (!segment.hasCode || p.execution.returned.isSome) = true := by
      rw [returned, Bool.or_true]
    have none : (segment.hasCode && p.execution.returned.isNone) = false := by
      rw [Option.isNone_eq_false_iff.2 returned, Bool.and_false]
    simp only [attempts, runSegment_passed h save p segment w passed, none]
    exact ih returned

theorem Linked.returned {p p' : Progress} {w w' : S} {log : List (Attempt S)}
    (linked : Linked h save p w log p' w') (unreturned : p'.execution.returned = none) :
    p.execution.returned = none := by
  cases linked with
  | idle passed => exact passed.returned.symm.trans unreturned
  | next passed _ _ before => exact passed.returned.symm.trans before

variable (h save)

theorem passed_advance (p : Progress) (text : List Char) :
    Passed p { p with execution := p.execution.advance text } := ⟨rfl, rfl, rfl, rfl, rfl, rfl, rfl⟩

theorem attempts_of_passed {p : Progress} {segment : Segment}
    (passed : (!segment.hasCode || p.execution.returned.isSome) = true) (w : S)
    (rest : List Segment) : attempts h save p w (segment :: rest) =
      attempts h save { p with execution := p.execution.advance segment.text } w rest := by
  have skipped : (segment.hasCode && p.execution.returned.isNone) = false := by
    cases code : segment.hasCode with
    | false => rfl
    | true =>
      rw [code] at passed
      exact Option.isNone_eq_false_iff.2 passed
  rw [attempts]
  simp only [runSegment_passed h save p segment w passed, skipped]
  rfl

theorem attempts_of_runs {p : Progress} {segment : Segment}
    (runs : (!segment.hasCode || p.execution.returned.isSome) = false) (w : S)
    (rest : List Segment) : attempts h save p w (segment :: rest) =
      ⟨p, segment, w⟩ :: match runSegment h save p segment w with
        | ((.ok true, p), w) => attempts h save p w rest
        | _ => [] := by
  have run : (segment.hasCode && p.execution.returned.isNone) = true := by
    simpa using runs
  rw [attempts, if_pos run]

theorem accounted_passed {p p' : Progress} {w w' : S} {segment : Segment} {rest : List Segment}
    (passed : (!segment.hasCode || p.execution.returned.isSome) = true)
    (later : Accounted h save { p with execution := p.execution.advance segment.text } w rest
      (attempts h save { p with execution := p.execution.advance segment.text } w rest) p' w') :
    Accounted h save p w (segment :: rest) (attempts h save p w (segment :: rest)) p' w' := by
  rw [attempts_of_passed h save passed]
  constructor
  case linked => exact later.linked.after (passed_advance p segment.text)
  case going => exact later.going
  case inOrder =>
    cases code : segment.hasCode with
    | false =>
      rw [List.filter_cons_of_neg (by simp [code])]
      exact later.inOrder
    | true =>
      rw [code] at passed
      rw [attempts_of_returned (p := { p with execution := p.execution.advance segment.text })
        passed]
      exact List.nil_prefix
  case whole =>
    cases code : segment.hasCode with
    | false =>
      rw [List.filter_cons_of_neg (by simp [code])]
      exact later.whole
    | true =>
      rw [code] at passed
      exact .inr (.inl passed)
  case moved =>
    obtain ⟨done, front, executed, ran⟩ := later.moved
    refine ⟨segment :: done, List.cons_prefix_cons.2 ⟨rfl, front⟩, ?_, ?_⟩
    · rw [executed, covered_cons, String.ofList_append, ← String.append_assoc]
      rfl
    · intro unreturned
      have before : p.execution.returned = none := later.linked.returned unreturned
      rw [before, Option.isSome_none, Bool.or_false] at passed
      rw [List.filter_cons_of_neg (by simpa using passed)]
      exact ran unreturned

theorem fault_of_refusal {p q : Progress} {segment : Segment} {w v : S} {e : StoreError}
    (ran : runSegment h save p segment w = ((.error e, q), v)) :
    q.execution.fault = p.execution.fault := by
  revert ran
  refine runSegment_elim h save p segment w
    (motive := fun x => x = ((.error e, q), v) → q.execution.fault = p.execution.fault) ?_ ?_ ?_ ?_
  · intro _ ran
    cases ran
  · intro err _ _ ran
    cases ran
  · intro body fault s u _ _ _ ran
    cases ran
  · intro body s u saved q' v' _ _ _ recorded ran
    have kept := record_fault save (p.succeed s segment body.length) segment.text s.suspended u
    rw [recorded] at kept
    cases saved with
    | ok _ => cases ran
    | error e =>
      cases ran
      exact kept

theorem accounted_last {p q : Progress} {w v : S} {segment : Segment} (rest : List Segment)
    {r : Except StoreError Bool} (code : segment.hasCode = true)
    (unreturned : p.execution.returned = none) (sound : p.execution.fault = none)
    (ran : runSegment h save p segment w = ((r, q), v)) (last : r ≠ .ok true) :
    Accounted h save p w (segment :: rest) [⟨p, segment, w⟩] q v := by
  have outcome : Attempt.outcome h save ⟨p, segment, w⟩ = ((r, q), v) := ran
  have faultless : ¬p.execution.fault.isSome = true := by simp [sound]
  have moved := runSegment_moved h save p segment w ran
  constructor
  case linked =>
    exact .next (.refl p) rfl code unreturned sound outcome (.inr rfl) (.idle (.refl q))
  case inOrder =>
    rw [List.filter_cons_of_pos code]
    exact List.cons_prefix_cons.2 ⟨rfl, List.nil_prefix⟩
  case whole =>
    refine .inr (.inr (.inr ⟨⟨p, segment, w⟩, rfl, ?_⟩))
    rw [Attempt.stops, outcome]
    rcases r with e | _ | _
    · rfl
    · rfl
    · exact absurd rfl last
  case going => exact List.forall_mem_nil _
  case moved =>
    rcases r with e | _ | _
    · have failed : Attempt.failed h save ⟨p, segment, w⟩ = false := by
        rw [Attempt.failed, outcome, fault_of_refusal h save ran, sound]
        rfl
      refine ⟨[segment], List.cons_prefix_cons.2 ⟨rfl, List.nil_prefix⟩, ?_, ?_⟩
      · simpa using moved.executed
      · intro _
        simp [code, failed]
    · have failed : Attempt.failed h save ⟨p, segment, w⟩ = true := by
        rw [Attempt.failed, outcome, runSegment_fault h save faultless segment w ran]
        rfl
      refine ⟨[], List.nil_prefix, by simpa using moved.executed, ?_⟩
      intro _
      simp [failed]
    · exact absurd rfl last

theorem accounted_next {p q p' : Progress} {w v w' : S} {segment : Segment} {rest : List Segment}
    (code : segment.hasCode = true) (unreturned : p.execution.returned = none)
    (sound : p.execution.fault = none)
    (ran : runSegment h save p segment w = ((.ok true, q), v))
    (later : Accounted h save q v rest (attempts h save q v rest) p' w') :
    Accounted h save p w (segment :: rest) (⟨p, segment, w⟩ :: attempts h save q v rest) p' w' := by
  have outcome : Attempt.outcome h save ⟨p, segment, w⟩ = ((.ok true, q), v) := ran
  have faultless : ¬p.execution.fault.isSome = true := by simp [sound]
  have moved := runSegment_moved h save p segment w ran
  have goes := runSegment_fault h save faultless segment w ran
  have failed : Attempt.failed h save ⟨p, segment, w⟩ = false := by
    rw [Attempt.failed, outcome]
    exact goes
  have stops : Attempt.stops h save ⟨p, segment, w⟩ = q.execution.returned.isSome := by
    rw [Attempt.stops, outcome]
  constructor
  case linked =>
    exact .next (.refl p) rfl code unreturned sound outcome (.inl rfl) later.linked
  case inOrder =>
    rw [List.filter_cons_of_pos code]
    exact List.cons_prefix_cons.2 ⟨rfl, later.inOrder⟩
  case whole =>
    rw [List.filter_cons_of_pos code, List.map_cons]
    rcases later.whole with all | returned | fault | ⟨a, last, stopped⟩
    · exact .inl (congrArg _ all)
    · rw [attempts_of_returned returned]
      exact .inr (.inr (.inr ⟨_, rfl, stops.trans returned⟩))
    · rw [goes] at fault
      cases fault
    · refine .inr (.inr (.inr ⟨a, ?_, stopped⟩))
      rw [List.getLast?_cons, last]
      rfl
  case going =>
    intro a among
    cases log : attempts h save q v rest with
    | nil =>
      rw [log] at among
      cases among
    | cons b log' =>
      rw [log, List.dropLast_cons_cons] at among
      rcases List.mem_cons.1 among with rfl | among
      · rw [stops]
        by_contra returned
        rw [attempts_of_returned ((Bool.not_eq_false _).mp returned)] at log
        cases log
      · exact later.going a (log ▸ among)
  case moved =>
    obtain ⟨done, front, executed, run⟩ := later.moved
    refine ⟨segment :: done, List.cons_prefix_cons.2 ⟨rfl, front⟩, ?_, ?_⟩
    · have first : q.execution.executed = p.execution.executed ++ String.ofList segment.text := by
        simpa using moved.executed
      rw [executed, first, covered_cons, String.ofList_append, String.append_assoc]
    · intro unreturned
      rw [List.filter_cons_of_pos code, List.filter_cons_of_pos (by simp [failed]), run unreturned]
      rfl

theorem accounted_carryOn {p : Progress} (sound : ¬p.execution.fault.isSome = true)
    (segs : List Segment) (w : S) {r : Except StoreError Unit} {p' : Progress} {w' : S}
    (ran : carryOn h save p segs w = ((r, p'), w')) :
    Accounted h save p w segs (attempts h save p w segs) p' w' := by
  induction segs generalizing p w with
  | nil =>
    rw [carryOn_nil] at ran
    cases ran
    exact .nothing (.refl _) rfl (.inl rfl)
  | cons segment rest ih =>
    rw [carryOn_cons h save sound] at ran
    have unfaulted : p.execution.fault = none := by simpa using sound
    by_cases passed : (!segment.hasCode || p.execution.returned.isSome) = true
    · rw [runSegment_passed h save p segment w passed] at ran
      exact accounted_passed h save passed
        (ih (p := { p with execution := p.execution.advance segment.text }) sound w ran)
    · obtain ⟨code, unreturned⟩ : segment.hasCode = true ∧ p.execution.returned = none := by
        simpa using passed
      rw [attempts_of_runs h save ((Bool.not_eq_true _).mp passed)]
      rcases one : runSegment h save p segment w with ⟨⟨more, q⟩, v⟩
      rw [one] at ran
      rcases more with e | _ | _
      · cases ran
        exact accounted_last h save rest code unreturned unfaulted one nofun
      · have stopped := runSegment_fault h save sound segment w one
        simp only [carryOn_of_fault h save stopped] at ran
        cases ran
        exact accounted_last h save rest code unreturned unfaulted one nofun
      · have goes := runSegment_fault h save sound segment w one
        exact accounted_next h save code unreturned unfaulted one (ih (by simp [goes]) v ran)

theorem take_of_refused {p : Progress} {i : Input} (refused : p.offered i = none) (w : S) :
    ∃ e, take h save p i w = ((.error e, p), w) := by
  unfold offered at refused
  split at refused
  case isTrue closed =>
    refine ⟨.finalized, ?_⟩
    cases i with
    | chunk text =>
      rw [take, addChunk, if_pos closed]
      rfl
    | response text =>
      rw [take, continueWith, if_pos closed]
      rfl
    | ending =>
      rw [take, finalize, if_pos closed]
      rfl
  case isFalse opened =>
    cases i with
    | chunk text => cases refused
    | ending => cases refused
    | response text =>
      have divergent := Option.map_eq_none_iff.1 refused
      refine ⟨.divergent p.execution.executed.utf8ByteSize, ?_⟩
      rw [take, continueWith, if_neg opened]
      simp only [divergent]
      rfl

def settle (i : Input) (r : Except StoreError Unit) (p : Progress) : Progress :=
  match i, r with
  | .ending, .ok () => p.close
  | _, _ => p

theorem take_of_offered {p : Progress} {i : Input} {code : String} {finished : Bool}
    (offer : p.offered i = some (code, finished)) (w : S) :
    take h save p i w =
      match carryOn h save (p.await code) (segments finished code.toList) w with
      | ((r, q), v) => ((r.mapError .checkpoint, settle i r q), v) := by
  unfold offered at offer
  split at offer
  case isTrue => cases offer
  case isFalse opened =>
    have unclosed : p.execution.finalized = false := by simpa using opened
    cases i with
    | chunk text =>
      cases offer
      rw [take, addChunk_eq_carryOn h save unclosed]
      rfl
    | response text =>
      obtain ⟨rest, left, same⟩ := Option.map_eq_some_iff.1 offer
      cases same
      rw [take, continueWith, if_neg opened]
      simp only [left]
      exact run_eq_carryOn h save (p.await code) false w
    | ending =>
      cases offer
      rw [take, bind_apply, finalize_eq_carryOn h save unclosed]
      have same : p.await p.execution.pending = p := rfl
      rw [same]
      rcases carryOn h save p (segments true p.execution.pending.toList) w with ⟨⟨r, q⟩, v⟩
      cases r <;> rfl

theorem settle_passed (i : Input) (r : Except StoreError Unit) (p : Progress) :
    Passed p (settle i r p) ∧ (settle i r p).execution.executed = p.execution.executed := by
  unfold settle
  split <;> exact ⟨⟨rfl, rfl, rfl, rfl, rfl, rfl, rfl⟩, rfl⟩

variable {h save} in
theorem Linked.before {p p' p'' : Progress} {w w' : S} {log : List (Attempt S)}
    (linked : Linked h save p w log p' w') (passed : Passed p' p'') :
    Linked h save p w log p'' w' := by
  induction linked with
  | idle onward => exact .idle (onward.trans passed)
  | next onward here code unreturned sound ran last _ ih =>
    exact .next onward here code unreturned sound ran last (ih passed)

theorem due_of_offered {p : Progress} {i : Input} {code : String} {finished : Bool}
    (offer : p.offered i = some (code, finished)) : p.due i = segments finished code.toList := by
  rw [due, offer]

theorem attemptsAt_of_refused {p : Progress} {i : Input} (refused : p.offered i = none) (w : S) :
    attemptsAt h save p w i = [] := by
  rw [attemptsAt, refused]

theorem attemptsAt_of_fault {p : Progress} (fault : p.execution.fault.isSome = true) (w : S)
    (i : Input) : attemptsAt h save p w i = [] := by
  unfold attemptsAt
  split
  · rfl
  · rw [if_pos fault]

theorem attemptsAt_of_offered {p : Progress} {i : Input} {code : String} {finished : Bool}
    (offer : p.offered i = some (code, finished)) (sound : ¬p.execution.fault.isSome = true)
    (w : S) : attemptsAt h save p w i =
      attempts h save (p.await code) w (segments finished code.toList) := by
  rw [attemptsAt, due_of_offered offer, offer]
  exact if_neg sound

theorem accounted_take (p : Progress) (i : Input) (w : S) :
    Accounted h save p w (p.due i) (attemptsAt h save p w i) (take h save p i w).1.2
      (take h save p i w).2 := by
  cases offer : p.offered i with
  | none =>
    obtain ⟨e, refused⟩ := take_of_refused h save offer w
    rw [refused, due, offer, attemptsAt_of_refused h save offer]
    exact .nothing (.refl p) rfl (.inl rfl)
  | some asked =>
    obtain ⟨code, finished⟩ := asked
    have taken := take_of_offered h save offer w
    have waiting : Passed p (p.await code) := ⟨rfl, rfl, rfl, rfl, rfl, rfl, rfl⟩
    rcases ran : carryOn h save (p.await code) (segments finished code.toList) w with ⟨⟨r, q⟩, v⟩
    rw [ran] at taken
    obtain ⟨passed, executed⟩ := settle_passed i r q
    rw [taken, due_of_offered offer]
    by_cases fault : p.execution.fault.isSome = true
    · rw [attemptsAt_of_fault h save fault]
      have waits : (p.await code).execution.fault.isSome = true := fault
      rw [carryOn_of_fault h save waits] at ran
      cases ran
      exact .nothing (waiting.trans passed) executed (.inr fault)
    · rw [attemptsAt_of_offered h save offer fault]
      have account := accounted_carryOn h save (p := p.await code) fault _ w ran
      obtain ⟨done, front, moved, run⟩ := account.moved
      exact { account with
        linked := (account.linked.after waiting).before passed
        moved := ⟨done, front, executed.trans moved, fun open_ => run (passed.returned ▸ open_)⟩ }

/-- The code up to and including the segment. -/
def reach (a : Attempt S) : List Char := a.before.execution.executed.toList ++ a.segment.text

/-- The second segment comes after the first in the code. -/
def Apart (a b : Attempt S) : Prop := reach a <+: b.before.execution.executed.toList

/-- Attempts lie apart between the code that has been run before and the code that has been run
    afterwards. -/
structure Placed (p : Progress) (log : List (Attempt S)) (p' : Progress) : Prop where
  apart : log.Pairwise Apart
  later : ∀ a ∈ log, p.execution.executed.toList <+: a.before.execution.executed.toList
  done : p'.execution.fault = none → ∀ a ∈ log, reach a <+: p'.execution.executed.toList

theorem grown_of_carryOn (p : Progress) (segs : List Segment) (w : S) {r : Except StoreError Unit}
    {p' : Progress} {w' : S} (ran : carryOn h save p segs w = ((r, p'), w')) :
    p.execution.executed.toList <+: p'.execution.executed.toList := by
  obtain ⟨done, left, -, moved, -⟩ := carryOn_moved h save p segs w ran
  rw [moved.executed, String.toList_append]
  exact List.prefix_append _ _

theorem Placed.nil (p p' : Progress) : Placed p ([] : List (Attempt S)) p' :=
  ⟨.nil, List.forall_mem_nil _, fun _ => List.forall_mem_nil _⟩

theorem Placed.after {p q p' : Progress} {log : List (Attempt S)} (placed : Placed q log p')
    (grown : p.execution.executed.toList <+: q.execution.executed.toList) : Placed p log p' :=
  ⟨placed.apart, fun a among => grown.trans (placed.later a among), placed.done⟩

theorem Placed.cons {p q p' : Progress} {segment : Segment} {w : S} {log : List (Attempt S)}
    (reached : q.execution.executed.toList = reach ⟨p, segment, w⟩) (placed : Placed q log p')
    (grown : q.execution.executed.toList <+: p'.execution.executed.toList) :
    Placed p (⟨p, segment, w⟩ :: log) p' := by
  constructor
  · rw [List.pairwise_cons]
    refine ⟨?_, placed.apart⟩
    intro b among
    rw [Apart, ← reached]
    exact placed.later b among
  · intro a among
    rcases List.mem_cons.1 among with rfl | among
    · exact List.prefix_rfl
    · refine List.IsPrefix.trans ?_ (placed.later a among)
      rw [reached]
      exact List.prefix_append _ _
  · intro sound a among
    rcases List.mem_cons.1 among with rfl | among
    · rw [← reached]
      exact grown
    · exact placed.done sound a among

theorem reached_of_moved {p q : Progress} {segment : Segment} {w : S}
    (moved : Moved segment.text p q) :
    q.execution.executed.toList = reach ⟨p, segment, w⟩ := by
  rw [moved.executed, String.toList_append, String.toList_ofList]
  rfl

theorem attempts_placed {p : Progress} (sound : ¬p.execution.fault.isSome = true)
    (segs : List Segment) (w : S) {r : Except StoreError Unit} {p' : Progress} {w' : S}
    (ran : carryOn h save p segs w = ((r, p'), w')) :
    Placed p (attempts h save p w segs) p' := by
  induction segs generalizing p w with
  | nil => exact .nil p p'
  | cons segment rest ih =>
    rw [carryOn_cons h save sound] at ran
    rw [attempts]
    rcases one : runSegment h save p segment w with ⟨⟨more, q⟩, v⟩
    rw [one] at ran
    have moved := runSegment_moved h save p segment w one
    rcases more with e | _ | _
    · cases ran
      have reached := reached_of_moved (w := w) (by simpa using moved)
      dsimp only
      split
      · exact .cons reached (.nil _ _) List.prefix_rfl
      · exact .nil p _
    · have stopped := runSegment_fault h save sound segment w one
      simp only [carryOn_of_fault h save stopped] at ran
      cases ran
      dsimp only
      split
      · refine ⟨List.pairwise_singleton _ _, ?_, ?_⟩
        · intro a among
          obtain rfl := List.mem_singleton.1 among
          exact List.prefix_rfl
        · intro sound'
          rw [sound'] at stopped
          cases stopped
      · exact .nil p _
    · have goes := runSegment_fault h save sound segment w one
      have reached := reached_of_moved (w := w) (by simpa using moved)
      have placed := ih (by simp [goes]) v ran
      dsimp only
      split
      · exact .cons reached placed (grown_of_carryOn h save q rest v ran)
      · apply placed.after
        rw [reached]
        exact List.prefix_append _ _

/-- An execution that runs nothing more. -/
def Settled (p : Progress) : Prop := p.execution.fault.isSome = true ∨ p.execution.finalized = true

/-- Nothing that counts has changed. -/
structure Still (p p' : Progress) : Prop where
  names : p'.execution.names = p.execution.names
  agent : p'.agent = p.agent
  executed : p'.execution.executed = p.execution.executed
  settled : Settled p → Settled p'

theorem take_of_settled {p : Progress} (settled : Settled p) (i : Input) (w : S) :
    Still p (take h save p i w).1.2 ∧ (take h save p i w).2 = w ∧
      attemptsAt h save p w i = [] := by
  cases offer : p.offered i with
  | none =>
    obtain ⟨e, refused⟩ := take_of_refused h save offer w
    rw [refused]
    exact ⟨⟨rfl, rfl, rfl, id⟩, rfl, attemptsAt_of_refused h save offer w⟩
  | some asked =>
    obtain ⟨code, finished⟩ := asked
    have fault : p.execution.fault.isSome = true := by
      refine settled.resolve_right fun closed => ?_
      simp [offered, closed] at offer
    have waits : (p.await code).execution.fault.isSome = true := fault
    rw [take_of_offered h save offer, carryOn_of_fault h save waits]
    obtain ⟨passed, executed⟩ := settle_passed i (.ok ()) (p.await code)
    have same : (p.await code).execution.fault = p.execution.fault := rfl
    refine ⟨⟨passed.names, passed.agent, executed, fun _ => .inl ?_⟩, rfl,
      attemptsAt_of_fault h save fault w i⟩
    rw [passed.fault]
    exact fault

theorem takeAll_of_settled {p : Progress} (settled : Settled p) (inputs : List Input) (w : S) :
    Still p (takeAll h save p inputs w).1 ∧ (takeAll h save p inputs w).2 = w ∧
      session h save p w inputs = [] := by
  induction inputs generalizing p with
  | nil => exact ⟨⟨rfl, rfl, rfl, id⟩, rfl, rfl⟩
  | cons i rest ih =>
    obtain ⟨still, world, none⟩ := take_of_settled h save settled i w
    rw [takeAll, session, bind_apply, none]
    rcases taken : take h save p i w with ⟨⟨r, q⟩, v⟩
    rw [taken] at still world
    obtain rfl : v = w := world
    obtain ⟨onward, world', none'⟩ := ih (still.settled settled)
    exact ⟨⟨onward.names.trans still.names, onward.agent.trans still.agent,
      onward.executed.trans still.executed, fun _ => onward.settled (still.settled settled)⟩,
      world', none'⟩

theorem grown_of_take (p : Progress) (i : Input) (w : S) :
    p.execution.executed.toList <+: (take h save p i w).1.2.execution.executed.toList := by
  obtain ⟨done, -, executed, -⟩ := (accounted_take h save p i w).moved
  rw [executed, String.toList_append]
  exact List.prefix_append _ _

theorem placed_take {p : Progress} (sound : ¬p.execution.fault.isSome = true) (i : Input) (w : S) :
    Placed p (attemptsAt h save p w i) (take h save p i w).1.2 := by
  cases offer : p.offered i with
  | none =>
    rw [attemptsAt_of_refused h save offer]
    exact .nil p _
  | some asked =>
    obtain ⟨code, finished⟩ := asked
    rw [take_of_offered h save offer, attemptsAt_of_offered h save offer sound]
    rcases ran : carryOn h save (p.await code) (segments finished code.toList) w with ⟨⟨r, q⟩, v⟩
    obtain ⟨passed, executed⟩ := settle_passed i r q
    have placed := attempts_placed h save (p := p.await code) sound _ w ran
    refine ⟨placed.apart, placed.later, ?_⟩
    simp only [executed, passed.fault]
    exact placed.done

/-- In a whole session, every statement that is run comes after those that have been run before. -/
theorem placed_session (p : Progress) (w : S) (inputs : List Input) :
    (session h save p w inputs).Pairwise Apart ∧
      ∀ a ∈ session h save p w inputs,
        p.execution.executed.toList <+: a.before.execution.executed.toList := by
  induction inputs generalizing p w with
  | nil => exact ⟨.nil, List.forall_mem_nil _⟩
  | cons i rest ih =>
    by_cases fault : p.execution.fault.isSome = true
    · rw [(takeAll_of_settled h save (.inl fault) (i :: rest) w).2.2]
      exact ⟨.nil, List.forall_mem_nil _⟩
    have placed := placed_take h save fault i w
    have grown := grown_of_take h save p i w
    rw [session]
    rcases taken : take h save p i w with ⟨⟨r, q⟩, v⟩
    rw [taken] at placed grown
    obtain ⟨apart, later⟩ := ih q v
    constructor
    · rw [List.pairwise_append]
      refine ⟨placed.apart, apart, ?_⟩
      intro a among b after
      cases sound : q.execution.fault with
      | none => exact (placed.done sound a among).trans (later b after)
      | some f =>
        have settled : Settled q := .inl (by rw [sound]; rfl)
        dsimp only at after
        rw [(takeAll_of_settled h save settled rest v).2.2] at after
        cases after
    · intro a among
      rcases List.mem_append.1 among with now | after
      · exact placed.later a now
      · exact grown.trans (later a after)

theorem one_statement_each {p : Progress} {i : Input} {w : S} {a : Attempt S}
    (among : a ∈ attemptsAt h save p w i) {body : List Stmt}
    (parsed : parseProgram (String.ofList a.segment.text) = .ok body) : body.length = 1 := by
  have listed := (accounted_take h save p i w).inOrder.subset (List.mem_map_of_mem among)
  obtain ⟨mem, code⟩ := List.mem_filter.1 listed
  rw [due] at mem
  split at mem
  · cases mem
  · rw [(readsAlone_of_mem mem parsed).count, if_pos code]

theorem finalized_of_ending {p : Progress} {w : S} (ok : (take h save p .ending w).1.1 = .ok ()) :
    (take h save p .ending w).1.2.execution.finalized = true := by
  cases offer : p.offered .ending with
  | none =>
    obtain ⟨e, refused⟩ := take_of_refused h save offer w
    rw [refused] at ok
    cases ok
  | some asked =>
    obtain ⟨code, finished⟩ := asked
    have taken := take_of_offered h save offer w
    rcases ran : carryOn h save (p.await code) (segments finished code.toList) w with ⟨⟨r, q⟩, v⟩
    rw [ran] at taken
    rw [taken] at ok ⊢
    cases r with
    | error e => cases ok
    | ok u => rfl

/-- Whatever comes in, each input runs the statements that it makes complete, one after the other
    and up to the first fault, return or failure to save; the executed code only grows. After a
    fault or the ending nothing happens any more. In no session does a statement run twice. -/
theorem every_statement_runs_once (p : Progress) (w : S) :
    (∀ i,
      p.execution.executed.toList <+: (take h save p i w).1.2.execution.executed.toList ∧
      (take h save p i w).1.2.execution.executed.toList <+:
        (take h save p i w).1.2.execution.full.toList ∧
      Accounted h save p w (p.due i) (attemptsAt h save p w i) (take h save p i w).1.2
        (take h save p i w).2 ∧
      (∀ a ∈ attemptsAt h save p w i, ∀ body,
        parseProgram (String.ofList a.segment.text) = .ok body → body.length = 1) ∧
      (i = .ending → (take h save p i w).1.1 = .ok () →
        (take h save p i w).1.2.execution.finalized = true)) ∧
    (Settled p → ∀ inputs, Still p (takeAll h save p inputs w).1 ∧
      (takeAll h save p inputs w).2 = w ∧ session h save p w inputs = []) ∧
    ∀ inputs, (session h save p w inputs).Pairwise Apart := by
  refine ⟨fun i => ⟨grown_of_take h save p i w, ?_, accounted_take h save p i w, ?_, ?_⟩, ?_, ?_⟩
  · rw [Execution.full, String.toList_append]
    exact List.prefix_append _ _
  · intro a among body parsed
    exact one_statement_each h save among parsed
  · rintro rfl ok
    exact finalized_of_ending h save ok
  · intro settled inputs
    exact takeAll_of_settled h save settled inputs w
  · intro inputs
    exact (placed_session h save p w inputs).1

def unsavable : Saver (StateM (Surroundings Prepared MemoryStore)) :=
  Surroundings.keeping (some (MemoryStore.store 0)) fun _ => "monday"

def answering : Handler (StateM (Surroundings Prepared MemoryStore)) :=
  Surroundings.noting Setting.prepared.handler

def threeStatements : List Input :=
  [.chunk "Call(\"X\")\ny = 1\n", .chunk "z = 2\n", .ending]

def unstarted : Progress := ⟨.start "main" [], .fresh "a" "A"⟩

/-- What has been run is not run again when its checkpoint could not be saved. -/
theorem every_statement_runs_once_when_nothing_is_saved :
    (session answering unsavable unstarted Setting.prepared.surroundings threeStatements).map
        (fun a => (String.ofList a.segment.text, (a.outcome answering unsavable).1.1.toOption)) =
      [("Call(\"X\")\n", none), ("y = 1\n", some true), ("z = 2\n", some true)] ∧
    (session answering unsavable unstarted Setting.prepared.surroundings threeStatements).Pairwise
      Apart ∧
    ∃ p v, takeAll answering unsavable unstarted threeStatements Setting.prepared.surroundings =
        (p, v) ∧ Settled p ∧
      ∀ inputs, Still p (takeAll answering unsavable p inputs v).1 ∧
        (takeAll answering unsavable p inputs v).2 = v ∧
        session answering unsavable p v inputs = [] := by
  have log : (session answering unsavable unstarted Setting.prepared.surroundings
      threeStatements).map
        (fun a => (String.ofList a.segment.text, (a.outcome answering unsavable).1.1.toOption)) =
      [("Call(\"X\")\n", none), ("y = 1\n", some true), ("z = 2\n", some true)] := by
    decide +kernel
  have closed : (takeAll answering unsavable unstarted threeStatements
      Setting.prepared.surroundings).1.execution.finalized = true := by
    decide +kernel
  have apart := (every_statement_runs_once answering unsavable unstarted
    Setting.prepared.surroundings).2.2 threeStatements
  rcases ended : takeAll answering unsavable unstarted threeStatements
    Setting.prepared.surroundings with ⟨p, v⟩
  rw [ended] at closed
  have settled : Settled p := .inr closed
  exact ⟨log, apart, p, v, rfl, settled,
    (every_statement_runs_once answering unsavable p v).2.1 settled⟩

end Progress
end Playbook.Script
