import Playbook.Ensemble
import Playbook.Proofs.Agent.Resuming

/- Resuming again. When the code after the newest checkpoint completes nothing that suspends, and
   what it asks of others is answered in the same way each time, resuming comes to the same as often
   as it is done. Variables may be left over, those that the agent has had before and those that it
   has in the end; the code must not be able to tell. -/
namespace Playbook
open Script Activity

def World.Asked (w w' : World) : Prop := ∃ more, w' = { w with requests := w.requests ++ more }

/-- The checkpoint is the newest of the agent in the store. -/
def World.Newest (store : CheckpointStore World) (id : AgentId) (c : Checkpoint) (w : World) :
    Prop :=
  ∃ m, w.managers.get? id = some m ∧ m.latest store w = .ok (some c)

section Newest
variable {σ : Type} {store : CheckpointStore World} {inner : CheckpointStore σ} {get : World → σ}
  {put : σ → World → World} {id : AgentId} {c : Checkpoint} {w w' : World}

theorem World.Newest.recovered {a : AgentState} (newest : w.Newest store id c) :
    CheckpointManager.recover store (w.managers.get? id) a w = .ok (c, a.restore c.data.state) := by
  obtain ⟨m, managed, latest⟩ := newest
  simp only [CheckpointManager.recover, managed, latest]

theorem World.Newest.aside (newest : w.Newest (inner.focus get put) id c)
    (managers : w'.managers = w.managers) (same : get w' = get w) :
    w'.Newest (inner.focus get put) id c := by
  obtain ⟨m, managed, latest⟩ := newest
  refine ⟨m, managers ▸ managed, ?_⟩
  simp only [CheckpointManager.latest, CheckpointManager.load, CheckpointStore.focus, same]
    at latest ⊢
  exact latest

/-- In worlds that are kept the checkpoint is the newest. The others keep them, and so does whoever
    asks the engine. -/
structure Lasting (C : Course World) (kept : World → Prop) (store : CheckpointStore World)
    (id : AgentId) (c : Checkpoint) : Prop where
  newest {w : World} (here : kept w) : w.Newest store id c
  others {p q : Point World} (acts : C.acts p q) (here : kept p.world) : kept q.world
  asking {w w' : World} (asked : w.Asked w') (here : kept w) : kept w'

/-- To ask the engine keeps the checkpoint the newest where requests are no part of the store, as
    they are of neither memory nor files. -/
theorem lasting_newest {C : Course World}
    (apart : ∀ w requests, get { w with requests } = get w)
    (others : ∀ p q, C.acts p q → p.world.Newest (inner.focus get put) id c →
      q.world.Newest (inner.focus get put) id c) :
    Lasting C (World.Newest (inner.focus get put) id c) (inner.focus get put) id c := by
  refine ⟨fun here => here, fun acts here => others _ _ acts here, ?_⟩
  rintro w _ ⟨more, rfl⟩ here
  exact here.aside rfl (apart _ _)

end Newest

namespace Agent

/-- What suspending calls come to. -/
abbrev Suspending := AgentState → SuspendCall → Activity World (Except String Value × AgentState)

/-- Whatever the one handler answers is answered in the same way on this host, with suspending calls
    that come to this, as long as the world is kept. The agent may have had any of these variables. -/
def AnswersAs (host : Host) (C : Course World) (kept : World → Prop) (left : List String)
    (h : Handler Option) (suspend : Suspending) : Prop :=
  ∀ before : AgentState, before.vars.Sorted → (∀ name ∈ before.vars.keys, name ∈ left) →
    (finishing C kept).Handlers left before h { host.handler with suspend }

/-- What can be answered from the agent alone. What others would have to answer has no answer; all
    variables are shown when none is missing that may have been left over. -/
def alone (left : List String) : Handler Option where
  suspend _ _ := none
  hostFunction a name _ :=
    match name with
    | "MeetingStateGet" | "MeetingStateSet" | "MeetingMembers" => none
    | _ => some (none, a)
  reserved a name :=
    match name with
    | "agent" => some (some (.map [("id", .str a.id), ("klass", .str a.klass)]))
    | "call_stack" => some (some (.list (a.stack.pointers.map .str)))
    | "state" => if left.all a.vars.contains then some (some (.map a.vars)) else none
    | _ => none

variable {C : Course World} {kept : World → Prop} {store : CheckpointStore World}
  {left : List String} {h : Handler Option}

/-- Nothing but suspending calls has to be looked at where nothing else is asked of others. -/
theorem answersAs_alone
    {suspended : AgentState → SuspendCall → Option (Except String Value × AgentState)}
    (others : ∀ p q, C.acts p q → kept p.world → kept q.world) (host : Host) {suspend : Suspending}
    (answers : ∀ {before a a' b : AgentState} {c : SuspendCall} {r : Except String Value},
      before.Overlaid a b → suspended a c = some (r, a') →
        ∃ b', (finishing C kept).yields (suspend b c) (r, b') ∧ before.Overlaid a' b') :
    AnswersAs host C kept left { alone left with suspend := suspended } suspend := by
  intro before rising covers
  refine ⟨fun known => covers _ known, answers, ?_, ?_⟩
  · intro a a' b name args r overlaid answered
    simp only [alone] at answered
    split at answered
    · cases answered
    · cases answered
    · cases answered
    · rename_i stateless silent unseen
      cases answered
      refine ⟨b, ?_, overlaid⟩
      simp only [Host.handler, Host.handlerOver, Host.hostFunction]
      exact (finishing C kept).ofPure _
  · intro a b name view overlaid answered
    have told : ∀ w, Host.reserved b name w = view := by
      intro w
      simp only [alone] at answered
      split at answered
      · cases answered
        simp only [Host.reserved, overlaid.id, overlaid.klass]
      · cases answered
        simp only [Host.reserved, overlaid.stack]
      · split at answered
        · rename_i all
          cases answered
          have shown := overlaid.vars_eq rising fun name known =>
            Dict.mem_keys_iff.2
              (Option.isSome_iff_exists.1 (List.all_eq_true.1 all name (covers name known)))
          simp only [Host.reserved, shown]
        · cases answered
      · cases answered
    exact fun p here => .act fun q acts => .done ⟨told _, others p q acts here⟩

variable {a b : Agent} {c : Checkpoint} {before : AgentState}

def codeFor (a : Agent) (state : AgentState) (playbook : String) (args : List Value) :
    Option (Except AgentError String) :=
  match a.host.engine ((Invocation.plain playbook args).request state) with
  | .error e => some (.error (.engine e))
  | .ok g =>
    match g.broken with
    | some text => some (.error (.engine text))
    | none => some (.ok (String.join g.chunks))

theorem regenerate_yields {id : AgentId} (lasts : Lasting C kept store id c) {s t : AgentState}
    {playbook : String} {args : List Value} {r : Except AgentError String}
    (overlaid : before.Overlaid s t) (replied : a.codeFor s playbook args = some r) :
    (finishing C kept).yields (a.regenerate t playbook args) r := by
  have request : (Invocation.plain playbook args).request t =
      (Invocation.plain playbook args).request s := by
    simp only [Invocation.request, overlaid.id, overlaid.klass, overlaid.stack]
  have asked : (finishing C kept).yields
      (a.host.generate ((Invocation.plain playbook args).request t))
      ((a.host.engine ((Invocation.plain playbook args).request t)).mapError .engine) :=
    fun p here => .act fun q acts =>
      .done ⟨rfl, lasts.asking ⟨[_], rfl⟩ (lasts.others acts here)⟩
  refine (finishing C kept).ofBind asked ?_
  simp only [codeFor] at replied
  rw [request]
  cases engine : a.host.engine ((Invocation.plain playbook args).request s) with
  | error e =>
    rw [engine] at replied
    cases replied
    exact (finishing C kept).ofPure _
  | ok g =>
    rw [engine] at replied
    cases broken : g.broken <;> simp only [broken, Except.mapError] at replied ⊢ <;>
      cases replied <;> exact (finishing C kept).ofPure _

/-- The code after a checkpoint, run on what the checkpoint holds and on nothing else, with these
    answers and nowhere to save anything. -/
def unaided (a : Agent) (h : Handler Option) (c : Checkpoint) :
    Option (Except AgentError Summary × AgentState) :=
  goOn h unsaved a.codeFor c ((AgentState.fresh a.state.id a.state.klass).restore c.data.state)

def unaidedNoted (a : Agent) (h : Handler Option) (c : Checkpoint) :
    Option ((Except AgentError Summary × AgentState) × List SuspendCall) :=
  (goOn h.noted unsaved.noted (noteless a.codeFor) c
    ((AgentState.fresh a.state.id a.state.klass).restore c.data.state)).run []

/-- The agent is in no frame, and with these answers what the checkpoint holds is enough to come to
    this result and state: nothing that suspends completes, and no variable is wanted that may have
    been left over, from before or from this. -/
structure Enough (a : Agent) (store : CheckpointStore World) (left : List String)
    (h : Handler Option) (c : Checkpoint) (r : Except AgentError Summary) (final : AgentState) :
    Prop where
  durable : a.store = some store
  outside : a.state.stack = []
  rising : a.state.vars.Sorted
  before : ∀ name ∈ a.state.vars.keys, name ∈ left
  after : ∀ name ∈ final.vars.keys, name ∈ left
  unaided : a.unaided h c = some (r, final)
  supplied (s : Summary) (ended : r = .ok s) : ¬ s.Wanting left

/-- How an agent resumes, whoever recovers the checkpoint and goes on with it. -/
def resumeBy {m : Type → Type v} [Monad m] (a : Agent)
    (recover : CheckpointStore World → m (Except StoreError (Checkpoint × AgentState)))
    (goOn : Checkpoint → AgentState → m (Except AgentError Summary × AgentState)) :
    m (Except AgentError (Option Summary) × Agent) := do
  match a.store with
  | none => return (.error .notDurable, a)
  | some store =>
    match ← recover store with
    | .error (.noCheckpoint _) => return (.ok none, a)
    | .error e => return (.error (.store e), a)
    | .ok (c, state) =>
      let (r, state) ← goOn c state
      let state := { state with stack := state.stack.take a.state.stack.length }
      return (r.map some, { a with state })

def recovery (a : Agent) (store : CheckpointStore World) :
    Activity World (Except StoreError (Checkpoint × AgentState)) :=
  Activity.ask fun w => CheckpointManager.recover store (w.managers.get? a.state.id) a.state w

/-- Resumes, with these answers to the suspending calls. -/
def resumeAnswered (a : Agent) (suspend : Suspending) :
    Activity World (Except AgentError (Option Summary) × Agent) :=
  a.resumeBy a.recovery (goOn { a.host.handler with suspend } a.saver a.regenerate)

/-- The same with the suspending calls that are made. -/
def resumeNoted (a : Agent) (suspend : Suspending) :
    Activity World ((Except AgentError (Option Summary) × Agent) × List SuspendCall) :=
  (a.resumeBy (m := Noted (Activity World)) (fun store => StateT.lift (a.recovery store))
    (goOn (Handler.noted { a.host.handler with suspend }) a.saver.noted
      (noteless a.regenerate))).run []

theorem resumeAnswered_suspend (a : Agent) :
    a.resumeAnswered a.host.handler.suspend = a.resume := by
  simp only [resume, continueFrom_eq]
  rfl

theorem resumeBy_alike {m n : Type → Type 1} [Monad m] [Monad n] [LawfulMonad m] [LawfulMonad n]
    (D : Comparison m n) (a : Agent)
    {recover : CheckpointStore World → m (Except StoreError (Checkpoint × AgentState))}
    {recover' : CheckpointStore World → n (Except StoreError (Checkpoint × AgentState))}
    {goOn : Checkpoint → AgentState → m (Except AgentError Summary × AgentState)}
    {goOn' : Checkpoint → AgentState → n (Except AgentError Summary × AgentState)}
    (recovers : ∀ store, D.rel (· = ·) (recover store) (recover' store))
    (goes : ∀ c state, D.rel Likeness.same.Answers (goOn c state) (goOn' c state)) :
    D.rel (· = ·) (a.resumeBy recover goOn) (a.resumeBy recover' goOn') := by
  unfold resumeBy
  cases a.store with
  | none => exact D.ofPure rfl
  | some store =>
    refine D.ofBind (recovers store) ?_
    rintro found _ rfl
    rcases found with fault | ⟨c, state⟩
    · cases fault <;> exact D.ofPure rfl
    · refine D.ofBind (goes c state) ?_
      rintro p q same
      rw [same.eq]
      exact D.ofPure rfl

theorem resumeNoted_forgets (a : Agent) (suspend : Suspending) :
    (·.1) <$> a.resumeNoted suspend = a.resumeAnswered suspend :=
  forgets (resumeBy_alike forgetting a (fun _ => forgetting_of (fun _ => rfl) _ id)
    (goOn_forgetting _ a.saver a.regenerate)) (fun _ _ => id) []

/-- Resumes time after time, each time with answers of its own to the suspending calls. -/
def resumeOver (a : Agent) :
    List Suspending → Activity World (List (Except AgentError (Option Summary)) × Agent)
  | [] => return ([], a)
  | suspend :: rest => do
    let (r, a) ← a.resumeAnswered suspend
    let (rs, a) ← a.resumeOver rest
    return (r :: rs, a)

end Agent

/-- Laid over an agent on which it has been laid before, it leaves that agent. -/
theorem AgentState.Overlaid.again {before final a b : AgentState} (rising : before.vars.Sorted)
    (first : before.Overlaid final a) (again : Overlaid { a with stack := [] } final b) :
    { b with stack := [] } = { a with stack := [] } := by
  have agents : b.agents = a.agents := by
    have first := first.agents
    have again := again.agents
    by_cases none : final.agents.isEmpty = true
    · simpa only [none, if_true] using again
    · rw [if_neg none] at first again
      exact again.trans first.symm
  have vars : b.vars = a.vars := by
    have risen := first.sorted rising
    refine Dict.eq_of_get? (again.sorted risen) risen fun name => ?_
    have first := first.vars name
    have again : b.vars.get? name = (final.vars.get? name).or (a.vars.get? name) := again.vars name
    rw [again, first]
    cases final.vars.get? name <;> rfl
  obtain ⟨id, klass⟩ := again.own
  obtain ⟨_, _, _, _, _⟩ := b
  cases agents
  cases vars
  cases id
  cases klass
  rfl

namespace Agent
variable {C : Course World} {kept : World → Prop} {a b : Agent} {store : CheckpointStore World}
  {left : List String} {h : Handler Option} {c : Checkpoint} {r : Except AgentError Summary}
  {final : AgentState} {p : Point World}

/-- The agent with what has been left behind laid over what it had. -/
def Resumed (a : Agent) (final : AgentState) (b : Agent) : Prop :=
  ∃ s, a.state.Overlaid final s ∧ b = { a with state := { s with stack := [] } }

namespace Resumed

theorem id (resumed : a.Resumed final b) : b.state.id = a.state.id := by
  obtain ⟨s, overlaid, rfl⟩ := resumed
  exact overlaid.own.1

theorem host (resumed : a.Resumed final b) : b.host = a.host := by
  obtain ⟨s, overlaid, rfl⟩ := resumed
  rfl

theorem stack (resumed : a.Resumed final b) : b.state.stack = [] := by
  obtain ⟨s, overlaid, rfl⟩ := resumed
  rfl

theorem unaided (resumed : a.Resumed final b) (h : Handler Option) (c : Checkpoint) :
    b.unaided h c = a.unaided h c ∧ b.unaidedNoted h c = a.unaidedNoted h c := by
  obtain ⟨s, overlaid, rfl⟩ := resumed
  simp only [Agent.unaided, unaidedNoted, overlaid.own]
  exact ⟨rfl, rfl⟩

theorem again {b' : Agent} (rising : a.state.vars.Sorted) (first : a.Resumed final b)
    (again : b.Resumed final b') : b' = b := by
  obtain ⟨s, overlaid, rfl⟩ := first
  obtain ⟨s', overlaid', rfl⟩ := again
  rw [overlaid.again rising overlaid']

end Resumed

section Enough
variable (enough : a.Enough store left h c r final)
include enough

theorem Enough.resumed (resumed : a.Resumed final b) : b.Enough store left h c r final := by
  have same := (resumed.unaided h c).1
  obtain ⟨s, overlaid, rfl⟩ := resumed
  refine ⟨enough.durable, rfl, overlaid.sorted enough.rising, fun name known => ?_, enough.after,
    same.trans enough.unaided, enough.supplied⟩
  obtain ⟨v, found⟩ := Dict.mem_keys_iff.1 known
  have found := (overlaid.vars name).symm.trans found
  cases there : final.vars.get? name with
  | some v => exact enough.after name (Dict.mem_keys_iff.2 ⟨v, there⟩)
  | none =>
    rw [there] at found
    exact enough.before name (Dict.mem_keys_iff.2 ⟨v, found⟩)

theorem Enough.noted : ∃ calls, a.unaidedNoted h c = some ((r, final), calls) :=
  noted_of_run (goOn_forgetting h unsaved a.codeFor c _) (fun _ _ => Likeness.Answers.eq)
    enough.unaided []

variable (lasts : Lasting C kept store a.state.id c)
include lasts

section Noted
variable {calls : List SuspendCall} (noted : a.unaidedNoted h c = some ((r, final), calls))
  {suspend : Suspending} (answered : AnswersAs a.host C kept left h suspend)
include noted answered

theorem goOn_yields :
    ∃ s, (finishing C kept).yields
      ((goOn (Handler.noted { a.host.handler with suspend }) a.saver.noted
        (noteless a.regenerate) c (a.state.restore c.data.state)).run []) ((r, s), calls) ∧
      a.state.Overlaid final s := by
  have replies : ∀ s t playbook args reply, a.state.Overlaid s t →
      a.codeFor s playbook args = some reply →
        (finishing C kept).yields (a.regenerate t playbook args) reply :=
    fun _ _ _ _ _ => regenerate_yields lasts
  have start := (AgentState.Overlaid.start enough.outside).restore c.data.state
  have handlers := answered a.state enough.rising enough.before
  exact goOn_reaches handlers a.saver.noted replies start noted enough.supplied

theorem resumeNoted_finishes (here : kept p.world) :
    Finishes C (fun x q => kept q.world ∧ x.1.1 = r.map some ∧ a.Resumed final x.1.2 ∧ x.2 = calls)
      ⟨a.resumeNoted suspend, p⟩ := by
  obtain ⟨s, yields, overlaid⟩ := goOn_yields enough lasts noted answered
  unfold resumeNoted resumeBy recovery
  rw [enough.durable]
  refine Finishes.act fun q acts => ?_
  have kept' := lasts.others acts here
  dsimp only
  rw [(lasts.newest kept').recovered]
  refine (yields q kept').bind ?_
  rintro _ q' ⟨rfl, there⟩
  exact .done ⟨there, rfl, ⟨s, overlaid, by rw [enough.outside, enough.durable]; rfl⟩, rfl⟩

end Noted

theorem resumeAnswered_finishes {suspend : Suspending}
    (answered : AnswersAs a.host C kept left h suspend) (here : kept p.world) :
    Finishes C (fun x q => kept q.world ∧ x.1 = r.map some ∧ a.Resumed final x.2)
      ⟨a.resumeAnswered suspend, p⟩ := by
  obtain ⟨_, noted⟩ := enough.noted
  rw [← resumeNoted_forgets]
  refine (resumeNoted_finishes enough lasts noted answered here).bind ?_
  rintro x q ⟨there, same, resumed, -⟩
  exact .done ⟨there, same, resumed⟩

theorem resumeOver_finishes (resumed : a.Resumed final b) {answers : List Suspending}
    (answered : ∀ suspend ∈ answers, AnswersAs a.host C kept left h suspend)
    (here : kept p.world) :
    Finishes C (fun x q => kept q.world ∧ x = (List.replicate answers.length (r.map some), b))
      ⟨b.resumeOver answers, p⟩ := by
  induction answers generalizing p with
  | nil => exact .done ⟨here, rfl⟩
  | cons suspend rest ih =>
    obtain ⟨first, more⟩ := List.forall_mem_cons.1 answered
    have one := resumeAnswered_finishes (enough.resumed resumed) (resumed.id ▸ lasts)
      (resumed.host ▸ first) here
    refine one.bind ?_
    rintro ⟨_, b'⟩ q ⟨there, rfl, again⟩
    -- What the first of these leaves is the agent that it has been given.
    cases resumed.again enough.rising again
    refine (ih more there).bind ?_
    rintro _ q' ⟨last, rfl⟩
    exact .done ⟨last, rfl⟩

end Enough

/-- When with these answers what the newest checkpoint holds is enough, and the host answers like
    this as long as the world is kept, resuming comes to its end, and to what the checkpoint comes to
    by itself, laid over what the agent had. Resuming again comes to its end each time as well, gives
    the same result and leaves the very same agent, whatever others do meanwhile as long as they
    keep the world, and whatever suspending calls would come to that have no such answer. All of them
    make the same suspending calls in the same order, which to note makes no difference. -/
theorem resuming_again_changes_nothing (lasts : Lasting C kept store a.state.id c)
    (answered : AnswersAs a.host C kept left h a.host.handler.suspend)
    (enough : a.Enough store left h c r final) (here : kept p.world) :
    Finishes C (fun (once, b) q =>
      kept q.world ∧ once = r.map some ∧ a.Resumed final b ∧ b.state.stack = [] ∧
      ∀ answers, (∀ suspend ∈ answers, AnswersAs a.host C kept left h suspend) →
        ∀ p', kept p'.world → Finishes C (fun (again, b') q' =>
          kept q'.world ∧ again = List.replicate answers.length once ∧ b' = b)
          ⟨b.resumeOver answers, p'⟩) ⟨a.resume, p⟩ ∧
    (∀ (b : Agent) suspend, (·.1) <$> b.resumeNoted suspend = b.resumeAnswered suspend) ∧
    ∃ calls, Finishes C (fun x q => kept q.world ∧ a.Resumed final x.1.2 ∧ x.2 = calls)
        ⟨a.resumeNoted a.host.handler.suspend, p⟩ ∧
      ∀ b, a.Resumed final b → ∀ suspend, AnswersAs a.host C kept left h suspend →
        ∀ p', kept p'.world → Finishes C (fun x q' => kept q'.world ∧ x.1.2 = b ∧ x.2 = calls)
          ⟨b.resumeNoted suspend, p'⟩ := by
  refine ⟨?_, resumeNoted_forgets, ?_⟩
  · rw [← resumeAnswered_suspend a]
    refine (resumeAnswered_finishes enough lasts answered here).weaken ?_
    rintro ⟨_, b⟩ q ⟨there, rfl, resumed⟩
    refine ⟨there, rfl, resumed, resumed.stack, fun answers all p' later => ?_⟩
    refine (resumeOver_finishes enough lasts resumed all later).weaken ?_
    rintro _ q' ⟨last, rfl⟩
    exact ⟨last, rfl, rfl⟩
  · obtain ⟨calls, noted⟩ := enough.noted
    refine ⟨calls, (resumeNoted_finishes enough lasts noted answered here).weaken ?_, ?_⟩
    · rintro x q ⟨there, -, resumed, made⟩
      exact ⟨there, resumed, made⟩
    · intro b resumed suspend all p' later
      have noted' := (resumed.unaided h c).2.trans noted
      have ends := resumeNoted_finishes (enough.resumed resumed) (resumed.id ▸ lasts) noted'
        (resumed.host ▸ all) later
      refine ends.weaken ?_
      rintro x q' ⟨last, -, again, made⟩
      exact ⟨last, resumed.again enough.rising again, made⟩

section Reciting

def reciter (code : String) : Agent where
  state := .fresh "reciter" "Reciter"
  host :=
    { inbox := 0
      repertoire := Repertoire.empty.addPlaybook "Main"
      engine _ := .ok ⟨[code], none⟩
      batchTimeout := 0
      maxBatchMessages := 1
      meetingTimeout := 0 }
  execution := "reciter"
  store := some (Ensemble.memoryStore 1000)

def reciterWorld (number : Nat) (memory : MemoryStore) : World :=
  let w := World.start 0 "2024-01-01T00:00:00Z" .empty
  { w with memory, managers := w.managers.insert "reciter" ⟨"reciter", number, none⟩ }

/-- It speaks, goes on with what it had before, and counts its variables; what speaking again comes
    to cannot be added to that. -/
def adder : Agent :=
  reciter "$n = 1\nSay(\"user\", \"\")\n$m = $n + 1\nReturn(len(state) + Say(\"user\", \"\"))\n"

def spoken : Checkpoint :=
  ⟨⟨"reciter", 1⟩, ⟨[⟨⟨"Main", "01", none⟩, none, []⟩], [("n", .int 1)], []⟩, [("args", .arr [])],
    "Say(\"user\", \"\")", "$n = 1\nSay(\"user\", \"\")\n",
    "$n = 1\nSay(\"user\", \"\")\n$m = $n + 1\nReturn(len(state) + Say(\"user\", \"\"))\n",
    "2024-01-01T00:00:00Z", 1⟩

def spokenWorld : World := reciterWorld 1 [("reciter", [(1, spoken.data)])]

def toUser (left : List String) : Handler Option :=
  { alone left with suspend := fun a c =>
      match c with
      | .say "user" _ => some (.ok .null, a)
      | _ => none }

/-- What the user is told gets lost, and no other call ever comes to a result. -/
def deaf : Suspending
  | a, .say "user" _ => return (.ok .null, a)
  | _, _ => .iterate () fun _ => return .inl ()

def said? : SuspendCall → Option (String × String)
  | .say target content => some (target, content)
  | _ => none

theorem eq_of_said? {calls : List SuspendCall} {target content : String}
    (said : calls.map said? = [some (target, content)]) : calls = [.say target content] := by
  obtain ⟨call, rfl, said⟩ := List.map_eq_singleton_iff.1 said
  cases call <;> cases said
  rfl

section Speaking

abbrev promptly : Course World := .prompt (OrderHom.const Nat 0)

abbrev Spoken : World → Prop := World.Newest (Ensemble.memoryStore 1000) "reciter" spoken

theorem answersAs_toUser {suspend : Suspending}
    (said : ∀ b content,
      (finishing promptly Spoken).yields (suspend b (.say "user" content)) (.ok .null, b)) :
    AnswersAs adder.host promptly Spoken left (toUser left) suspend := by
  refine answersAs_alone (fun _ _ same here => same ▸ here) _ ?_
  intro before a a' b c r overlaid answered
  split at answered
  · cases answered
    exact ⟨b, said b _, overlaid⟩
  · cases answered

theorem adder_enough : ∃ r final, adder.Enough (Ensemble.memoryStore 1000) ["m", "n"]
    (toUser ["m", "n"]) spoken r final := by
  have sound : ((adder.unaided (toUser ["m", "n"]) spoken).bind fun p =>
      p.1.toOption.map fun s => (s.fault, p.2.vars.keys)) =
      some (some (.failed (.unsupported "+" "int" "null")
        "Return(len(state) + Say(\"user\", \"\"))" 4 ["Main:01"]), ["m", "n"]) := by
    decide +kernel
  obtain ⟨⟨r, final⟩, unaided, sound⟩ := Option.bind_eq_some_iff.1 sound
  obtain ⟨s, returned, sound⟩ := Option.map_eq_some_iff.1 sound
  obtain ⟨failed, named⟩ := Prod.mk.inj sound
  refine ⟨r, final, rfl, rfl, List.Pairwise.nil, nofun, fun _ known => named ▸ known, unaided, ?_⟩
  rintro s' rfl ⟨f, met, wanting⟩
  cases returned
  cases failed.symm.trans met
  obtain ⟨name, -, missing | missing⟩ := wanting <;> cases missing

theorem lasting_spoken : Lasting promptly Spoken (Ensemble.memoryStore 1000) adder.state.id spoken :=
  lasting_newest (fun _ _ => rfl) fun _ _ same here => same ▸ here

theorem answersAs_user :
    AnswersAs adder.host promptly Spoken left (toUser left) adder.host.handler.suspend := by
  refine answersAs_toUser fun b content p here => .act ?_
  rintro _ rfl
  exact .done ⟨rfl, here.aside rfl rfl⟩

theorem answersAs_deaf : AnswersAs adder.host promptly Spoken left (toUser left) deaf :=
  answersAs_toUser fun _ _ => (finishing promptly Spoken).ofPure _

/-- Nothing changes although nobody would ever answer any other suspending call. The user is spoken
    to once each time. -/
theorem resuming_again_changes_nothing_after_speaking :
    ∃ once b w w', adder.resume.atOnce 0 spokenWorld = some ((once, b), w) ∧
      (b.resumeOver [b.host.handler.suspend, deaf]).atOnce 0 w = some (([once, once], b), w') ∧
      ∃ x v y v', (adder.resumeNoted adder.host.handler.suspend).atOnce 0 spokenWorld =
          some ((x, [.say "user" ""]), v) ∧
        (b.resumeNoted deaf).atOnce 0 w = some ((y, [.say "user" ""]), v') := by
  obtain ⟨r, final, enough⟩ := adder_enough
  have ends : ((adder.resume.atOnce 0 spokenWorld).bind fun p =>
      (p.1.2.resumeOver [p.1.2.host.handler.suspend, deaf]).atOnce 0 p.2).isSome = true := by
    decide +kernel
  have heard : ((adder.resumeNoted adder.host.handler.suspend).atOnce 0 spokenWorld).map
      (·.1.2.map said?) = some [some ("user", "")] := by
    decide +kernel
  have repeated : ((adder.resume.atOnce 0 spokenWorld).bind fun p =>
      (p.1.2.resumeNoted deaf).atOnce 0 p.2).isSome = true := by
    decide +kernel
  obtain ⟨⟨ended, w'⟩, ends⟩ := Option.isSome_iff_exists.1 ends
  obtain ⟨⟨⟨once, b⟩, w⟩, ran, again⟩ := Option.bind_eq_some_iff.1 ends
  obtain ⟨⟨⟨x, _⟩, v⟩, heard, said⟩ := Option.map_eq_some_iff.1 heard
  cases eq_of_said? said
  rw [ran] at repeated
  obtain ⟨⟨⟨y, calls'⟩, v'⟩, repeated⟩ := Option.isSome_iff_exists.1 repeated
  have newest : Spoken spokenWorld := ⟨_, rfl, rfl⟩
  obtain ⟨first, -, calls, made, makes⟩ := resuming_again_changes_nothing lasting_spoken
    answersAs_user enough (p := ⟨0, spokenWorld, 0⟩) newest
  obtain ⟨there, -, resumed, -, onward⟩ := first.atOnce (fun _ => rfl) ran
  have all : ∀ suspend ∈ [b.host.handler.suspend, deaf],
      AnswersAs adder.host promptly Spoken ["m", "n"] (toUser ["m", "n"]) suspend := by
    rw [resumed.host, List.forall_mem_cons, List.forall_mem_singleton]
    exact ⟨answersAs_user, answersAs_deaf⟩
  obtain ⟨-, same, stays⟩ := (onward _ all ⟨0, w, 0⟩ there).atOnce (fun _ => rfl) again
  obtain ⟨_, _⟩ := ended
  cases same
  cases stays
  obtain ⟨-, -, rfl⟩ := made.atOnce (fun _ => rfl) heard
  obtain ⟨-, -, rfl⟩ :=
    (makes _ resumed deaf answersAs_deaf ⟨0, w, 0⟩ there).atOnce (fun _ => rfl) repeated
  exact ⟨once, _, w, w', ran, again, x, v, y, v', heard, repeated⟩

end Speaking

/-- It turns over what it has left behind. -/
def toggler : Agent :=
  reciter "Say(\"user\", \"\")\n$n = \"n\" in state and not $n\nReturn($n)\n"

def truth? : Option Value → Option Bool
  | some (.bool b) => some b
  | _ => none

theorem eq_of_truth? {v : Option Value} {b : Bool} (known : truth? v = some b) :
    v = some (.bool b) := by
  unfold truth? at known
  split at known <;> cases known
  rfl

/-- Variables that the checkpoint does not have are kept, and are seen by what views all of them. -/
theorem resuming_again_finds_what_was_left :
    ∃ s a w s₁ a₁ w₁ s₂ a₂ w₂,
      (toggler.run "Main" []).atOnce 0 (reciterWorld 0 []) = some ((.ok s, a), w) ∧
      s.fault = none ∧ a.resume.atOnce 0 w = some ((.ok (some s₁), a₁), w₁) ∧
      a₁.resume.atOnce 0 w₁ = some ((.ok (some s₂), a₂), w₂) ∧
      s₁.returned = some (.bool true) ∧ a₁.state.vars.get? "n" = some (.bool true) ∧
      s₂.returned = some (.bool false) ∧ a₂.state.vars.get? "n" = some (.bool false) := by
  have played : (((toggler.run "Main" []).atOnce 0 (reciterWorld 0 [])).bind fun p =>
      p.1.1.toOption.bind fun s => (p.1.2.resume.atOnce 0 p.2).bind fun q =>
        q.1.1.toOption.join.bind fun s₁ => (q.1.2.resume.atOnce 0 q.2).bind fun r =>
          r.1.1.toOption.join.map fun s₂ =>
            (s.fault.isNone, truth? s₁.returned, truth? (q.1.2.state.vars.get? "n"),
              truth? s₂.returned, truth? (r.1.2.state.vars.get? "n"))) =
      some (true, some true, some true, some false, some false) := by
    decide +kernel
  obtain ⟨⟨⟨r, a⟩, w⟩, ran, played⟩ := Option.bind_eq_some_iff.1 played
  obtain ⟨s, ended, played⟩ := Option.bind_eq_some_iff.1 played
  obtain ⟨⟨⟨r₁, a₁⟩, w₁⟩, first, played⟩ := Option.bind_eq_some_iff.1 played
  obtain ⟨s₁, ended₁, played⟩ := Option.bind_eq_some_iff.1 played
  obtain ⟨⟨⟨r₂, a₂⟩, w₂⟩, second, played⟩ := Option.bind_eq_some_iff.1 played
  obtain ⟨s₂, ended₂, played⟩ := Option.map_eq_some_iff.1 played
  simp only [Prod.mk.injEq, Option.isNone_iff_eq_none] at played
  obtain ⟨sound, returned₁, left₁, returned₂, left₂⟩ := played
  cases r <;> cases ended
  rcases r₁ with _ | _ | _ <;> cases ended₁
  rcases r₂ with _ | _ | _ <;> cases ended₂
  exact ⟨s, a, w, s₁, a₁, w₁, s₂, a₂, w₂, ran, sound, first, second, eq_of_truth? returned₁,
    eq_of_truth? left₁, eq_of_truth? returned₂, eq_of_truth? left₂⟩

end Reciting

end Agent
end Playbook
