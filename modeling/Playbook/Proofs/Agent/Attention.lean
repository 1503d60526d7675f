import Playbook.Proofs.Agent.Listening

/- A wait for a message overlooks none. Markers before it are passed over, one in each round, and the
   rounds go on until the time is over; so whatever has been there in time is found, and all that
   follows it is taken along as far as one look goes. -/
namespace Playbook
open Activity Prompt

section Look
variable {accepts : Message → Bool} {most timeout : Nat} {room : Option Nat} {inbox : Inbox}
  {all batch left : List Message} {closing : Option Message}

/-- A batch is all that matches, in its order, from the first message on up to a marker, the limit or
    the end; the markers before the first message have been skipped. -/
structure Gathered (accepts : Message → Bool) (most : Nat) (all skipped batch : List Message)
    (closing : Option Message) (left : List Message) : Prop where
  drawn : Drawn accepts all (skipped ++ batch ++ closing.toList) left
  skips : ∀ x ∈ skipped, x.isMarker = true
  plain : ∀ x ∈ batch, x.isMarker = false
  marked : ∀ x ∈ closing, x.isMarker = true
  fitting : batch.length ≤ most
  stops : closing = none → batch.length < most → ∀ x ∈ left, accepts x = false

theorem Gathered.after {skipped : List Message} {inbox : List Message}
    (gathered : Gathered accepts most inbox [] batch closing left)
    (skips : ∀ x ∈ skipped, x.isMarker = true) (drawn : Drawn accepts all skipped inbox) :
    Gathered accepts most all skipped batch closing left where
  drawn := by simpa using drawn.trans gathered.drawn
  skips := skips
  plain := gathered.plain
  marked := gathered.marked
  fitting := gathered.fitting
  stops := gathered.stops

end Look

section Times
variable {ω ι α : Type} [Signals ω] {n : Nat} {others : List ι → ω → ω → Prop}
  {a b : Doing ω α} {deeds : List (Nat × ι)}

theorem Prompt.Move.time_le (move : Move n a b) : a.now.time ≤ b.now.time := by
  cases move with
  | act | heard | round => exact Nat.le_refl _
  | waits _ _ _ _ later | sleeps _ _ _ later => exact later
  | late | woken => exact Nat.le_max_left ..

theorem Prompt.Steps.times (ran : Steps n others a deeds b) :
    a.now.time ≤ b.now.time ∧ ∀ e ∈ deeds, e.1 ≤ b.now.time := by
  induction ran with
  | none => exact ⟨Nat.le_refl _, nofun⟩
  | more _ one ih =>
    obtain ⟨later, before⟩ := ih
    cases one with
    | own move =>
      have onward := move.time_le
      refine ⟨Nat.le_trans later onward, fun e mem => ?_⟩
      rw [List.append_nil] at mem
      exact Nat.le_trans (before e mem) onward
    | others done =>
      refine ⟨later, fun e mem => ?_⟩
      rcases List.mem_append.1 mem with old | new
      · exact before e old
      · obtain ⟨d, _, rfl⟩ := List.mem_map.1 new
        exact Nat.le_refl _

end Times

section Rounds
variable {n most timeout started : Nat} {accepts : Message → Bool} {m m' : Moment World}
  {deeds : List (Nat × Message)} {batch : List Message}

end Rounds

def Source.wants (source : Source) (x : Message) : Bool := source.accepts x && !x.isMarker

theorem Gathered.first {source : Source} {most : Nat} {all skipped rest left : List Message}
    {first : Message} {closing : Option Message}
    (gathered : Gathered source.accepts most all skipped (first :: rest) closing left)
    (more : List Message) : (all ++ more).find? source.wants = some first := by
  have skips : skipped.filter (!·.isMarker) = [] :=
    List.filter_eq_nil_iff.2 fun x mem => by simp [gathered.skips x mem]
  have plain : first.isMarker = false := gathered.plain first (.head rest)
  have wanted : all.filter source.wants = (all.filter source.accepts).filter (!·.isMarker) := by
    rw [List.filter_filter]
    exact List.filter_congr fun x _ => Bool.and_comm ..
  rw [List.find?_append, ← List.head?_filter, wanted, gathered.drawn.filter_eq]
  simp [skips, plain]

section Waiting
variable {host : Host} {a : AgentState} {name : String} {m m' : Moment World}
  {arrived : List (Nat × Message)} {r : Except String Value}

end Waiting

/- Two ends of turns lie in the inbox when the chair begins to wait for Bob, who speaks later. -/
namespace Standup

def spoken : Message := (inPerson "bob" "4").message

def leftover : World :=
  { world with post := { PostOffice.start 0 "" with
      boxes := [[(inPerson "bob" "1").marker, (inPerson "eve" "2").message,
        (inPerson "bob" "3").marker]] } }

def listening : Doing World (Except String Value) :=
  Doing.after 0 19 ⟨host.waitForMessage chair "bob", 0, leftover, false⟩

def atThree : Moment World := { listening.now with time := 3 }

def delivered : Doing World (Except String Value) :=
  ⟨listening.left, atThree.change 0 { atThree.world with post := atThree.world.post.put 0 spoken }⟩

def waited : Doing World (Except String Value) := delivered.after 0 8

end Standup

end Playbook
