import Playbook.Proofs.Activity.Turns
import Playbook.Proofs.Inbox.Division
import Playbook.World

/- One agent collects a batch from its inbox while others put messages into it, whatever the order
   of their doings. Nothing is lost, doubled or brought out of its order. -/
namespace Playbook
open Activity BatchRequest

/-- Others put messages at the end of an inbox, and take none out of it. -/
def Feeds (n : Nat) (arrivals : List Message) (w w' : World) : Prop :=
  ∀ inbox, w.post.boxes[n]? = some inbox → w'.post.boxes[n]? = some (inbox ++ arrivals)

theorem box_of_get {p : PostOffice} {n : Nat} {inbox : Inbox} (box : p.boxes[n]? = some inbox) :
    p.box n = inbox := by
  rw [PostOffice.box, List.getD_eq_getElem?_getD, box, Option.getD_some]

theorem setBox_get {p : PostOffice} {n : Nat} {inbox : Inbox} (box : p.boxes[n]? = some inbox)
    (left : Inbox) : (p.setBox n left).boxes[n]? = some left := by
  obtain ⟨inside, -⟩ := List.getElem?_eq_some_iff.1 box
  rw [PostOffice.setBox, List.getElem?_set_self inside]

theorem put_get {p : PostOffice} {k : Nat} {inbox : Inbox} (box : p.boxes[k]? = some inbox)
    (n : Nat) (m : Message) :
    (p.put n m).boxes[k]? = some (inbox ++ if n = k then [m] else []) := by
  by_cases here : n = k
  · subst here
    rw [if_pos rfl, PostOffice.put, box_of_get box]
    exact setBox_get box _
  · rw [if_neg here, List.append_nil]
    exact (List.getElem?_set_ne here).trans box

theorem turn_get {p : PostOffice} {k : Nat} {inbox : Inbox} (box : p.boxes[k]? = some inbox)
    (n : Nat) (m : Message) (sender : AgentId) (klass : String) (addressee : AgentId) :
    ((p.put n m).closeTurn sender klass addressee n).boxes[k]? =
      some (inbox ++ if n = k then
        [m, (Draft.marker sender klass addressee).toMessage (Uuid.ofBits p.nextId) p.date]
      else []) := by
  have put : ({ p.put n m with nextId := p.nextId + 1 } : PostOffice).boxes[k]? =
      some (inbox ++ if n = k then [m] else []) := put_get box n m
  refine (put_get put n _).trans ?_
  split <;> simp [PostOffice.put, PostOffice.setBox]

theorem box_of_gets {p p' : PostOffice} {k : Nat} {added : Inbox}
    (length : p'.boxes.length = p.boxes.length)
    (gets : ∀ {inbox}, p.boxes[k]? = some inbox → p'.boxes[k]? = some (inbox ++ added))
    (outside : p.boxes.length ≤ k → added = []) : p'.box k = p.box k ++ added := by
  obtain inside | outer := Nat.lt_or_ge k p.boxes.length
  · have box := List.getElem?_eq_getElem inside
    rw [box_of_get (gets box), box_of_get box]
  · have before := List.getElem?_eq_none outer
    have after := List.getElem?_eq_none (Nat.le_trans (Nat.le_of_eq length) outer)
    simp only [PostOffice.box, List.getD_eq_getElem?_getD, before, after, outside outer,
      List.append_nil]

theorem collect_of_box {n : Nat} {r : BatchRequest} {batch taken left : List Message}
    {complete : Bool} {w : World} {inbox : Inbox} (box : w.post.boxes[n]? = some inbox)
    (looked : r.collect batch inbox = (taken, left, complete)) :
    World.collect n r batch w = ((taken, complete), { w with post := w.post.setBox n left }) := by
  simp only [World.collect, box_of_get box, looked]

theorem giveUp_of_box {n : Nat} {r : BatchRequest} {batch : List Message} {w : World}
    {inbox : Inbox} (box : w.post.boxes[n]? = some inbox) :
    World.giveUp n r batch w = ((r.giveUp batch inbox).1,
      { w with post := w.post.setBox n (r.giveUp batch inbox).2 }) := by
  simp only [World.giveUp, box_of_get box]

theorem feeds_of_put (n k : Nat) (m : Message) (w : World) :
    Feeds n (if k = n then [m] else []) w { w with post := w.post.put k m } :=
  fun _ box => put_get box k m

def batchRound (n : Nat) (r : BatchRequest) (deadline : Nat) (batch : List Message) :
    Activity World (List Message ⊕ List Message) := do
  let (batch, complete) ← Activity.change (World.collect n r batch)
  if complete then return .inr batch
  else if ← Activity.wait n deadline then return .inl batch
  else return .inr (← Activity.change (World.giveUp n r batch))

theorem collectBatch_eq (n : Nat) (r : BatchRequest) :
    collectBatch n r = .act (fun t w => (t, w)) fun t =>
      .loop [] (batchRound n r (t + r.timeout)) .done := rfl

theorem within_collectBatch {allowed : World → World → Prop} (n : Nat) (r : BatchRequest)
    (stays : ∀ w, allowed w w)
    (reads : ∀ (w : World) left, allowed w { w with post := w.post.setBox n left }) :
    Within allowed (collectBatch n r) := by
  rw [collectBatch_eq]
  refine .act (fun _ w => stays w) fun t => .loop (fun batch => ?_) .done
  refine .act (fun _ w => reads w _) fun (batch, complete) => ?_
  cases complete with
  | true => exact .done _
  | false =>
    refine .listen fun heard => ?_
    cases heard with
    | true => exact .done _
    | false => exact .act (fun _ w => reads w _) fun batch => .done _

def stopping (n : Nat) (r : BatchRequest) (batch : List Message) :
    Activity World (List Message) :=
  .act (fun _ w => World.giveUp n r batch w) .done

def waiting (n : Nat) (r : BatchRequest) (deadline : Nat) (batch : List Message) :
    Activity World (List Message) :=
  .listen n deadline fun heard =>
    if heard then .loop batch (batchRound n r deadline) .done else stopping n r batch

def looking (n : Nat) (r : BatchRequest) (deadline : Nat) (batch : List Message) :
    Activity World (List Message) :=
  .act (fun _ w => World.collect n r batch w) fun (batch, complete) =>
    if complete then .done batch else waiting n r deadline batch

theorem batchRound_bind (n : Nat) (r : BatchRequest) (deadline : Nat) (batch : List Message) :
    (batchRound n r deadline batch).bind (afterRound (batchRound n r deadline) .done) =
      looking n r deadline batch := by
  change Activity.act _ _ = Activity.act _ _
  congr
  funext (batch, complete)
  cases complete with
  | true => rfl
  | false =>
    change Activity.listen _ _ _ = Activity.listen _ _ _
    congr
    funext heard
    cases heard <;> rfl

inductive Collecting (n : Nat) (r : BatchRequest) (began : Nat) (arrived : List Message) :
    Inbox → Nat → Activity World (List Message) → Prop
  | asked {inbox : Inbox} {t : Nat} (now : began ≤ t) (divided : Divided r arrived [] none inbox) :
    Collecting n r began arrived inbox t (collectBatch n r)
  | between {inbox : Inbox} {t deadline : Nat} {batch : List Message}
      (span : began + r.timeout ≤ deadline) (divided : Divided r arrived batch none inbox) :
    Collecting n r began arrived inbox t (.loop batch (batchRound n r deadline) .done)
  | looks {inbox : Inbox} {t deadline : Nat} {batch : List Message}
      (span : began + r.timeout ≤ deadline) (divided : Divided r arrived batch none inbox) :
    Collecting n r began arrived inbox t (looking n r deadline batch)
  | waits {inbox : Inbox} {t deadline : Nat} {batch : List Message}
      (span : began + r.timeout ≤ deadline) (divided : Divided r arrived batch none inbox) :
    Collecting n r began arrived inbox t (waiting n r deadline batch)
  | stops {inbox : Inbox} {t : Nat} {batch : List Message} (past : began + r.timeout ≤ t)
      (divided : Divided r arrived batch none inbox) :
    Collecting n r began arrived inbox t (stopping n r batch)
  | ended {inbox : Inbox} {t : Nat} {batch : List Message} {marker : Option Message}
      (outcome : Outcome r (began + r.timeout ≤ t) arrived batch marker inbox) :
    Collecting n r began arrived inbox t (.done batch)

namespace Collecting
variable {n : Nat} {r : BatchRequest} {began t : Nat} {arrived : List Message} {inbox : Inbox}
  {x : Activity World (List Message)}

theorem arrive (here : Collecting n r began arrived inbox t x) (more : List Message) :
    Collecting n r began (arrived ++ more) (inbox ++ more) t x := by
  cases here with
  | asked now divided => exact .asked now (divided.arrive more)
  | between span divided => exact .between span (divided.arrive more)
  | looks span divided => exact .looks span (divided.arrive more)
  | waits span divided => exact .waits span (divided.arrive more)
  | stops past divided => exact .stops past (divided.arrive more)
  | ended outcome => exact .ended (outcome.arrive more)

theorem later {u : Nat} (later : t ≤ u) (here : Collecting n r began arrived inbox t x) :
    Collecting n r began arrived inbox u x := by
  cases here with
  | asked now divided => exact .asked (Nat.le_trans now later) divided
  | between span divided => exact .between span divided
  | looks span divided => exact .looks span divided
  | waits span divided => exact .waits span divided
  | stops past divided => exact .stops (Nat.le_trans past later) divided
  | ended outcome => exact .ended (outcome.mono fun past => Nat.le_trans past later)

theorem move {w : World} {b : Underway World (List Message)}
    (here : Collecting n r began arrived inbox t x) (box : w.post.boxes[n]? = some inbox)
    (moved : Move ⟨x, t, w⟩ b) :
    ∃ left, b.world.post.boxes[n]? = some left ∧
      Collecting n r began arrived left b.time b.left := by
  cases here with
  | asked now divided =>
    rw [collectBatch_eq] at moved
    cases moved
    exact ⟨inbox, box, .between (Nat.add_le_add_right now _) divided⟩
  | between span divided =>
    cases moved
    have round : Collecting n r began arrived inbox t (looking n r _ _) := .looks span divided
    rw [← batchRound_bind] at round
    exact ⟨inbox, box, round⟩
  | @looks deadline batch span divided =>
    obtain ⟨taken, left, complete, marker, looked, onward, closed, drained⟩ := divided.collect
    cases moved
    simp only [collect_of_box box looked]
    refine ⟨left, setBox_get box left, ?_⟩
    cases complete with
    | true => exact .ended (.kept onward (closed rfl))
    | false =>
      rw [drained rfl] at onward
      exact .waits span onward
  | waits span divided =>
    refine ⟨inbox, ?_⟩
    cases moved with
    | heard => exact ⟨box, .between span divided⟩
    | late _ _ _ _ _ past => exact ⟨box, .stops (Nat.le_trans span past) divided⟩
  | @stops batch past divided =>
    cases moved
    simp only [giveUp_of_box box]
    exact ⟨_, setBox_get box _, .ended (divided.giveUp past)⟩
  | ended outcome => cases moved

theorem step {a b : Underway World (List Message)} {more : List Message}
    (here : ∃ inbox, a.world.post.boxes[n]? = some inbox ∧
      Collecting n r began arrived inbox a.time a.left) (step : Activity.Step (Feeds n) a more b) :
    ∃ inbox, b.world.post.boxes[n]? = some inbox ∧
      Collecting n r began (arrived ++ more) inbox b.time b.left := by
  obtain ⟨inbox, box, here⟩ := here
  cases step with
  | others fed => exact ⟨inbox ++ more, fed inbox box, here.arrive more⟩
  | time later =>
    rw [List.append_nil]
    exact ⟨inbox, box, here.later later⟩
  | own moved =>
    rw [List.append_nil]
    exact here.move box moved

end Collecting

section
variable (n : Nat) (r : BatchRequest) (t : Nat) (w : World)

/-- Left alone, an activity comes to its end. -/
def Ends (a : Underway World (List Message)) : Prop :=
  ∃ batch t' w', Steps (Feeds n) a [] ⟨.done batch, t', w'⟩

variable {n} in
theorem Ends.after {a b : Underway World (List Message)} (ends : Ends n b)
    (first : Steps (Feeds n) a [] b) : Ends n a := by
  obtain ⟨batch, t', w', ran⟩ := ends
  exact ⟨batch, t', w', first.trans ran⟩

theorem stopping_ends (batch : List Message) : Ends n ⟨stopping n r batch, t, w⟩ :=
  ⟨_, _, _, .one (.own (.act ..))⟩

theorem waiting_ends (deadline : Nat) (batch : List Message) :
    Ends n ⟨waiting n r deadline batch, t, w⟩ := by
  have late := Move.late n deadline
    (fun heard => if heard then .loop batch (batchRound n r deadline) .done else stopping n r batch)
    (max t deadline) w (Nat.le_max_right ..)
  have given : Steps (Feeds n) ⟨waiting n r deadline batch, t, w⟩ []
      ⟨stopping n r batch, max t deadline, w⟩ :=
    (Steps.one (.time (Nat.le_max_left ..))).trans (.one (.own late))
  exact (stopping_ends n r _ w batch).after given

theorem looking_ends (deadline : Nat) (batch : List Message) :
    Ends n ⟨looking n r deadline batch, t, w⟩ := by
  have looked : Steps (Feeds n) ⟨looking n r deadline batch, t, w⟩ [] _ := .one (.own (.act ..))
  refine Ends.after ?_ looked
  rcases World.collect n r batch w with ⟨⟨taken, complete⟩, w'⟩
  cases complete with
  | true => exact ⟨taken, t, w', .none _⟩
  | false => exact waiting_ends n r t w' deadline taken

theorem between_ends (deadline : Nat) (batch : List Message) :
    Ends n ⟨.loop batch (batchRound n r deadline) .done, t, w⟩ := by
  have round := Move.round batch (batchRound n r deadline) .done t w
  rw [batchRound_bind] at round
  exact (looking_ends n r t w deadline batch).after (.one (.own round))

theorem asked_ends : Ends n ⟨collectBatch n r, t, w⟩ := by
  refine (between_ends n r t w (t + r.timeout) []).after ?_
  rw [collectBatch_eq]
  exact .one (.own (.act ..))

end

theorem Collecting.ends {n : Nat} {r : BatchRequest} {began t : Nat} {arrived : List Message}
    {inbox : Inbox} {x : Activity World (List Message)}
    (here : Collecting n r began arrived inbox t x) (w : World) : Ends n ⟨x, t, w⟩ := by
  cases here with
  | asked => exact asked_ends n r t w
  | between => exact between_ends n r t w _ _
  | looks => exact looking_ends n r t w _ _
  | waits => exact waiting_ends n r t w _ _
  | stops => exact stopping_ends n r t w _
  | ended => exact ⟨_, t, w, .none _⟩

/-- Wherever the arrivals fall among the steps of the collecting, it comes to its end if it is left
    alone, and when it has ended, what has arrived is divided into the batch, what is left in the
    inbox, and one marker at most, as the request has it. -/
theorem collecting_divides_the_inbox (n : Nat) (r : BatchRequest) {inbox : Inbox} {t : Nat}
    {w : World} {arrivals : List Message} {a : Underway World (List Message)}
    (box : w.post.boxes[n]? = some inbox)
    (ran : Steps (Feeds n) ⟨collectBatch n r, t, w⟩ arrivals a) :
    Ends n a ∧ ∀ batch, a.left = .done batch →
      ∃ marker left, a.world.post.boxes[n]? = some left ∧
        r.Fulfilled (t + r.timeout ≤ a.time) (inbox ++ arrivals) batch marker left := by
  have start : Collecting n r t inbox inbox t (collectBatch n r) :=
    .asked (Nat.le_refl t) (.start r inbox)
  obtain ⟨left, box', there⟩ := ran.keep
    (fun arrived a => ∃ inbox, a.world.post.boxes[n]? = some inbox ∧
      Collecting n r t arrived inbox a.time a.left)
    Collecting.step ⟨inbox, box, start⟩
  refine ⟨there.ends a.world, ?_⟩
  intro batch done
  rw [done] at there
  cases there with
  | ended outcome => exact ⟨_, left, box', outcome.fulfilled⟩

def putting (n time : Nat) (m : Message) : Activity World (List Message) :=
  .sleepUntil time fun _ =>
    .act (fun _ w => ((), { w with post := w.post.put n m })) fun _ => .done []

theorem putting_within (n k time : Nat) (m : Message) :
    Within (Schedule.Doings (Feeds n)) (putting k time m) := by
  refine .sleepUntil fun _ => .act ?_ fun _ => .done []
  intro _ w
  exact ⟨_, feeds_of_put n k m w⟩

theorem feeds_of_collect (n : Nat) (w : World) : Feeds n [] w (Signals.collect w).2 := by
  intro inbox box
  rw [List.append_nil]
  exact box

def letter (sender content : String) : Message :=
  (Draft.direct sender "" "inbox" content).toMessage "" ""

def fromAda : BatchRequest := ⟨fun m => m.sender = "ada", 10, 3, none⟩

def twoLetters : World :=
  { World.start 0 "" .empty with
    post := { PostOffice.start 0 "" with boxes := [[letter "bob" "1", letter "ada" "2"]] } }

def whileOthersWrite : Schedule World (List Message) :=
  { Schedule.start twoLetters with
    ready := [⟨0, collectBatch 0 fromAda⟩, ⟨1, putting 0 4 (letter "ada" "4")⟩,
      ⟨2, putting 0 3 (letter "bob" "3")⟩, ⟨3, putting 0 6 (letter "ada" endOfTurn)⟩] }

/-- A marker ends the batch below the least number. -/
theorem collecting_divides_the_inbox_while_others_write :
    twoLetters.post.boxes[0]? = some [letter "bob" "1", letter "ada" "2"] ∧
    ∃ arrivals a, Steps (Feeds 0) ⟨collectBatch 0 fromAda, 0, twoLetters⟩ arrivals a ∧
      a.left = .done [letter "ada" "2", letter "ada" "4"] ∧
      ∃ marker left, a.world.post.boxes[0]? = some left ∧
        fromAda.Fulfilled (10 ≤ a.time) ([letter "bob" "1", letter "ada" "2"] ++ arrivals)
          [letter "ada" "2", letter "ada" "4"] marker left := by
  have result : (whileOthersWrite.runUntil 0 50).result? 0 =
      some [letter "ada" "2", letter "ada" "4"] := by
    decide +kernel
  have standing : whileOthersWrite.Standing 0 (collectBatch 0 fromAda) :=
    .ready ⟨rfl, rfl, rfl⟩
  have company : whileOthersWrite.Company (Schedule.Doings (Feeds 0)) 0 := by
    constructor
    · intro r among other
      simp only [whileOthersWrite, List.mem_cons, List.not_mem_nil, or_false] at among
      rcases among with rfl | rfl | rfl | rfl
      · exact absurd rfl other
      all_goals exact putting_within ..
    · intro v among
      cases among
  obtain ⟨arrivals, ran⟩ := standing.steps_of_result (feeds_of_collect 0) company result
  refine ⟨rfl, arrivals, _, ran, rfl, ?_⟩
  exact (collecting_divides_the_inbox 0 fromAda rfl ran).2 _ rfl

end Playbook
