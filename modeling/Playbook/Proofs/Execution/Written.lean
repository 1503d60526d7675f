import Playbook.Proofs.Execution.Moments
import Playbook.Proofs.Execution.Surroundings

/- Every checkpoint of a stream has been written at one of its moments, and records the names, the
   agent and the code of that moment. Of any response that the run could have come from the code run
   so far is the start, so neither the checkpoint nor the response is refused when the run goes on. -/
namespace Playbook.Script

/-- The moments of a new execution whose code arrives in the given pieces. -/
def Setting.moments {σ τ : Type} (x : Setting σ τ) (chunks : List String) :
    List (Progress × Surroundings σ τ) :=
  Progress.moments (Surroundings.noting x.handler) x.saver ⟨.start x.id x.names, x.agent⟩
    x.surroundings chunks

namespace Surroundings
variable {σ τ : Type}

/-- The checkpoint records the progress. -/
def Records (c : Checkpoint) (q : Progress) : Prop :=
  ∃ text now number,
    c.data = CheckpointManager.dataFor (q.execution.request q.agent text) now number

/-- The checkpoint has been written just before the moment. -/
structure WrittenAt (c : Checkpoint) (q : Progress) (u : Surroundings σ τ) : Prop where
  newest : u.saved.getLast? = some c
  records : Records c q

/-- Nothing has been saved in between, and no save has failed. -/
structure SameStore (w v : Surroundings σ τ) : Prop where
  manager : v.manager = w.manager
  contents : v.contents = w.contents
  saved : v.saved = w.saved
  refused : v.refused = w.refused

def unsaved (w : Surroundings σ τ) : Coupling (Surroundings σ τ) (Surroundings σ τ) :=
  .equal (fun u v => u = v ∧ SameStore w u) (fun _ => True) (fun _ _ _ => trivial)
    (fun _ _ => trivial)

theorem unsaved_handlers (w : Surroundings σ τ) (h : Handler (StateM σ)) :
    (unsaved w).Handlers (noting h) (noting h) where
  suspend := by
    rintro a b u v ⟨rfl, -⟩ ⟨rfl, same⟩ c
    exact ⟨rfl, ⟨rfl, trivial⟩, rfl, same.manager, same.contents, same.saved, same.refused⟩
  hostFunction := by
    rintro a b u v ⟨rfl, -⟩ ⟨rfl, same⟩ name args
    exact ⟨rfl, ⟨rfl, trivial⟩, rfl, same.manager, same.contents, same.saved, same.refused⟩
  reserved := by
    rintro a b u v ⟨rfl, -⟩ ⟨rfl, same⟩ name
    exact ⟨rfl, rfl, same.manager, same.contents, same.saved, same.refused⟩

theorem runBlock_sameStore (h : Handler (StateM σ)) (names : Namespace) (a : AgentState)
    (body : List Stmt) (w : Surroundings σ τ) :
    SameStore w (runBlock (noting h) names a body w).2 :=
  (Coupling.runBlock_coupled (unsaved_handlers w h) names ⟨rfl, trivial⟩
    ⟨rfl, rfl, rfl, rfl, rfl⟩ body).worlds.2

theorem runBlock_saved (h : Handler (StateM σ)) (names : Namespace) (a : AgentState)
    (body : List Stmt) (w : Surroundings σ τ) :
    (runBlock (noting h) names a body w).2.saved = w.saved :=
  (runBlock_sameStore h names a body w).saved

variable {h : Handler (StateM σ)} {store : Option (CheckpointStore τ)} {clock : Nat → String}

theorem record_saved {p : Progress} {text : List Char} {suspended : Bool}
    {w u : Surroundings σ τ} {r : Except StoreError Unit} {q : Progress}
    (ran : Progress.record (keeping store clock) p text suspended w = ((r, q), u)) :
    u.saved = w.saved ∨ r = .ok () ∧ ∃ c, u.saved = w.saved ++ [c] ∧ Records c q := by
  revert ran
  refine Progress.record_elim (keeping store clock) p text suspended w (motive := fun x =>
    x = ((r, q), u) → u.saved = w.saved ∨
      r = .ok () ∧ ∃ c, u.saved = w.saved ++ [c] ∧ Records c q) ?_ ?_ ?_
  · intro _ ran
    cases ran
    exact .inl rfl
  · intro f e u' known _ asked ran
    cases ran
    obtain ⟨store, rfl, rfl⟩ := Option.map_eq_some_iff.1 known
    simp only [save] at asked
    split at asked <;> cases asked
    exact .inl rfl
  · intro f id u' known _ asked ran
    cases ran
    obtain ⟨store, rfl, rfl⟩ := Option.map_eq_some_iff.1 known
    obtain ⟨-, -, -, -, saved⟩ := save_of_ok asked
    exact .inr ⟨rfl, _, saved, text, _, _, rfl⟩

theorem runSegment_saved {p : Progress} {segment : Segment} {w u : Surroundings σ τ}
    {r : Except StoreError Bool} {q : Progress}
    (ran : Progress.runSegment (noting h) (keeping store clock) p segment w = ((r, q), u)) :
    u.saved = w.saved ∨ r = .ok true ∧ ∃ c, u.saved = w.saved ++ [c] ∧ Records c q := by
  revert ran
  refine Progress.runSegment_elim (noting h) (keeping store clock) p segment w
    (motive := fun x => x = ((r, q), u) → u.saved = w.saved ∨
      r = .ok true ∧ ∃ c, u.saved = w.saved ++ [c] ∧ Records c q) ?_ ?_ ?_ ?_
  · intro _ ran
    cases ran
    exact .inl rfl
  · intro err _ _ ran
    cases ran
    exact .inl rfl
  · intro body fault s w' _ _ block ran
    have kept := runBlock_saved h p.execution.names p.agent body w
    rw [block] at kept
    cases ran
    exact .inl kept
  · intro body s w' outcome q' u' _ _ block recorded ran
    have kept := runBlock_saved h p.execution.names p.agent body w
    rw [block] at kept
    cases ran
    rcases record_saved recorded with same | ⟨rfl, c, more, records⟩
    · exact .inl (same.trans kept)
    · exact .inr ⟨rfl, c, by rw [more, kept], records⟩

theorem carryOn_saved {p : Progress} {segs : List Segment} {w w' : Surroundings σ τ}
    {r : Except StoreError Unit} {p' : Progress}
    (ran : p.carryOn (noting h) (keeping store clock) segs w = ((r, p'), w')) {c : Checkpoint}
    (mem : c ∈ w'.saved) :
    c ∈ w.saved ∨ ∃ q u,
      (q, u) ∈ Progress.visitsUnlessFault (noting h) (keeping store clock) p w segs ∧
        WrittenAt c q u := by
  unfold Progress.visitsUnlessFault
  induction segs generalizing p w with
  | nil =>
    rw [Progress.carryOn_nil] at ran
    cases ran
    exact .inl mem
  | cons segment rest ih =>
    by_cases fault : p.execution.fault.isSome = true
    · rw [Progress.carryOn_of_fault _ _ fault] at ran
      cases ran
      exact .inl mem
    rw [Progress.carryOn_cons _ _ fault] at ran
    rw [if_neg fault, Progress.visits]
    rcases one : Progress.runSegment (noting h) (keeping store clock) p segment w
      with ⟨⟨more, q⟩, u⟩
    rw [one] at ran
    have saved := runSegment_saved one
    have unsaved (stopped : more ≠ .ok true) (left : w' = u) : c ∈ w.saved := by
      rcases saved with same | ⟨goes, -⟩
      · rw [← same, ← left]
        exact mem
      · exact absurd goes stopped
    rcases more with e | _ | _
    · cases ran
      exact .inl (unsaved (by simp) rfl)
    · -- The run has stopped, and what it has saved was there before the segment.
      have stopped := Progress.runSegment_fault _ _ fault segment w one
      simp only [Progress.carryOn_of_fault (noting h) (keeping store clock) stopped] at ran
      cases ran
      exact .inl (unsaved (by simp) rfl)
    · have goes := Progress.runSegment_fault _ _ fault segment w one
      have later := ih ran
      rw [if_neg (by simp [goes])] at later
      rcases later with before | ⟨q', u', visit, written⟩
      · rcases saved with same | ⟨-, c', added, records⟩
        · exact .inl (same ▸ before)
        · rw [added, List.mem_append, List.mem_singleton] at before
          rcases before with old | rfl
          · exact .inl old
          · exact .inr ⟨q, u, List.mem_cons_self, by rw [added, List.getLast?_concat], records⟩
      · exact .inr ⟨q', u', List.mem_cons_of_mem _ visit, written⟩

/-- Every checkpoint that a stream has saved has been written at one of its moments. -/
theorem stream_saved {p : Progress} (opened : p.execution.finalized = false)
    {chunks : List String} {w : Surroundings σ τ} {c : Checkpoint}
    (mem : c ∈ (p.stream (noting h) (keeping store clock) chunks w).2.saved) :
    c ∈ w.saved ∨ ∃ q u,
      (q, u) ∈ Progress.moments (noting h) (keeping store clock) p w chunks ∧
        WrittenAt c q u := by
  induction chunks generalizing p w with
  | nil =>
    rw [Progress.stream, Progress.finalize_eq_carryOn _ _ opened] at mem
    rcases ran : p.carryOn (noting h) (keeping store clock)
      (segments true p.execution.pending.toList) w with ⟨⟨r, p'⟩, w'⟩
    rw [ran] at mem
    refine carryOn_saved ran ?_
    cases r <;> exact mem
  | cons chunk rest ih =>
    rw [Progress.stream_cons _ _ opened] at mem
    rw [Progress.moments]
    rcases ran : (p.receive chunk).carryOn (noting h) (keeping store clock)
      (segments false (p.receive chunk).execution.pending.toList) w with ⟨⟨r, p'⟩, w'⟩
    rw [ran] at mem
    have first (mem : c ∈ w'.saved) := carryOn_saved ran mem
    cases r with
    | error e =>
      rcases first mem with old | ⟨q, u, visit, written⟩
      · exact .inl old
      · exact .inr ⟨q, u, List.mem_append_left _ visit, written⟩
    | ok o =>
      have kept := Progress.carryOn_finalized _ _ _ _ w ran
      rcases ih (kept.trans opened) mem with before | ⟨q, u, later, written⟩
      · rcases first before with old | ⟨q, u, visit, written⟩
        · exact .inl old
        · exact .inr ⟨q, u, List.mem_append_left _ visit, written⟩
      · exact .inr ⟨q, u, List.mem_append_right _ later, written⟩

end Surroundings

theorem Setting.saved_at_a_moment {σ τ : Type} (x : Setting σ τ) (chunks : List String)
    {c : Checkpoint} (mem : c ∈ (x.stream chunks).2.saved) :
    ∃ q u, (q, u) ∈ x.moments chunks ∧ Surroundings.WrittenAt c q u := by
  rcases Surroundings.stream_saved rfl mem with impossible | found
  · cases impossible
  · exact found

variable {S : Type}

namespace Progress

def complete (h : Handler (StateM S)) (save : Saver (StateM S)) (p : Progress)
    (response : String) : StateM S (Except ExecutionError Summary × Progress) := do
  match ← continueWith h save p response with
  | (.error e, p) => return (.error e, p)
  | (.ok (), p) => finalize h save p

/-- Forgets what has not been run. -/
def withoutPending (p : Progress) : Progress :=
  { p with execution := { p.execution with pending := "" } }

theorem remainder?_append (e : Execution) (rest : String) :
    e.remainder? (e.executed ++ rest) = some rest := by
  have split : Text.dropStart? e.executed.toList (e.executed ++ rest).toList =
      some rest.toList := Text.dropStart?_eq_some_iff.2 String.toList_append
  rw [Execution.remainder?, split, Option.map_some, String.ofList_toList]

theorem eq_append_of_remainder {e : Execution} {response rest : String}
    (accepted : e.remainder? response = some rest) : response = e.executed ++ rest := by
  obtain ⟨chars, split, rfl⟩ := Option.map_eq_some_iff.1 accepted
  rw [← String.toList_inj, String.toList_append, String.toList_ofList]
  exact Text.dropStart?_eq_some_iff.1 split

/-- A response that starts with the code run so far is taken in like one more piece of code. -/
theorem complete_eq_stream (h : Handler (StateM S)) (save : Saver (StateM S)) {p : Progress}
    (opened : p.execution.finalized = false) (rest : String) :
    complete h save p (p.execution.executed ++ rest) = stream h save p.withoutPending [rest] := by
  have taken : continueWith h save p (p.execution.executed ++ rest) =
      addChunk h save p.withoutPending rest := by
    simp only [continueWith, addChunk, remainder?_append, opened, withoutPending,
      String.empty_append, Bool.false_eq_true, if_false]
  unfold complete
  rw [taken]
  rfl

/-- Resumes a checkpoint and goes on with a whole response. -/
def recover (h : Handler (StateM S)) (save : Saver (StateM S)) (b : AgentState) (c : Checkpoint)
    (response : String) : StateM S (Except ExecutionError Summary × Progress) :=
  match Execution.resume b c with
  | .error e => return (.error e, ⟨.start c.id.execution [], b⟩)
  | .ok p => p.complete h save response

end Progress

namespace Surroundings

/-- What the resumption of a recorded moment starts from. -/
structure Resumed (b : AgentState) (c : Checkpoint) (q r : Progress) : Prop where
  names : r.execution.names = c.data.namespace_
  executed : r.execution.executed = q.execution.executed
  pending : r.execution.pending = q.execution.pending
  returned : r.execution.returned = none
  fault : r.execution.fault = none
  statements : r.execution.statements = 0
  finalized : r.execution.finalized = false
  agent : r.agent = b.restore q.agent.snapshot

theorem recover_of_records {c : Checkpoint} {q : Progress} (records : Records c q)
    (b : AgentState) : ∃ r, Resumed b c q r ∧
      ∀ (h : Handler (StateM S)) (save : Saver (StateM S)) (response : String),
        Progress.recover h save b c response = r.complete h save response := by
  obtain ⟨text, now, number, data⟩ := records
  have front : Text.dropStart? c.data.executed.toList c.data.response.toList =
      some q.execution.pending.toList := by
    rw [data]
    exact Text.dropStart?_eq_some_iff.2 String.toList_append
  simp only [Progress.recover, Execution.resume, front]
  refine ⟨_, ⟨rfl, ?_, ?_, rfl, rfl, rfl, rfl, ?_⟩, fun _ _ _ => rfl⟩
  · simp only [data, CheckpointManager.dataFor, Execution.request]
  · simp only [String.ofList_toList]
  · simp only [data, CheckpointManager.dataFor]
    rfl

end Surroundings

/-- What an execution comes to that takes up a checkpoint and the whole response. -/
def Setting.recover {σ τ : Type} (x : Setting σ τ) (c : Checkpoint) (response : String) :
    (Except ExecutionError Summary × Progress) × Surroundings σ τ :=
  Progress.recover (Surroundings.noting x.handler) x.saver x.agent c response x.surroundings

end Playbook.Script
