import Playbook.Activity

/- Activities that take turns. One runs until it has to wait; those that can go on do so in the
   order in which they were started or woken. The clock stands still as long as anyone can go on,
   then jumps to the next deadline. -/
namespace Playbook

class Signals (ω : Type) where
  /-- The signals raised since the last look, oldest first, and the world without them. -/
  collect : ω → List Nat × ω

structure Running (ω α : Type) : Type 1 where
  name : Nat
  activity : Activity ω α

structure Waiting (ω α : Type) : Type 1 where
  name : Nat
  /-- None for an activity that waits for its time only. -/
  signal : Option Nat
  deadline : Nat
  next : Bool → Activity ω α

structure Schedule (ω α : Type) : Type 1 where
  clock : Nat
  world : ω
  /-- Signals that nobody was waiting for; the next one to listen hears them at once. -/
  unheard : List Nat
  /-- The first one has the turn. -/
  ready : List (Running ω α)
  /-- In the order in which they began to wait. -/
  waiting : List (Waiting ω α)
  results : List (Nat × α)

namespace Schedule
variable {ω α : Type}

def start (world : ω) : Schedule ω α := ⟨0, world, [], [], [], []⟩

def enter (s : Schedule ω α) (name : Nat) (activity : Activity ω α) : Schedule ω α :=
  { s with ready := ⟨name, activity⟩ :: s.ready }

def spawn (s : Schedule ω α) (name : Nat) (activity : Activity ω α) : Schedule ω α :=
  { s with ready := s.ready ++ [⟨name, activity⟩] }

def result? (s : Schedule ω α) (name : Nat) : Option α := s.results.lookup name

def firstWaiting (signal : Nat) :
    List (Waiting ω α) → Option (Waiting ω α × List (Waiting ω α))
  | [] => none
  | w :: rest =>
    if w.signal = some signal then some (w, rest)
    else (firstWaiting signal rest).map fun (found, others) => (found, w :: others)

/-- A signal wakes the one who has waited longest for it, or is kept, once at most. -/
def raise (s : Schedule ω α) (signal : Nat) : Schedule ω α :=
  match firstWaiting signal s.waiting with
  | some (w, waiting) => { s with waiting, ready := s.ready ++ [⟨w.name, w.next true⟩] }
  | none => if s.unheard.contains signal then s else { s with unheard := signal :: s.unheard }

def settle [Signals ω] (s : Schedule ω α) : Schedule ω α :=
  let (raised, world) := Signals.collect s.world
  raised.foldl raise { s with world }

def turn [Signals ω] (s : Schedule ω α) (name : Nat) : Activity ω α → Schedule ω α
  | .done a => { s with results := (name, a) :: s.results }
  | .act run next =>
    let (b, world) := run s.clock s.world
    (settle { s with world }).enter name (next b)
  | .listen signal deadline next =>
    if s.unheard.contains signal then
      { s with unheard := s.unheard.erase signal }.enter name (next true)
    else if deadline ≤ s.clock then s.enter name (next false)
    else { s with waiting := s.waiting ++ [⟨name, some signal, deadline, next⟩] }
  | .sleepUntil time next =>
    if time ≤ s.clock then s.enter name (next ())
    else { s with waiting := s.waiting ++ [⟨name, none, time, fun _ => next ()⟩] }
  | .loop state round next =>
    s.enter name ((round state).bind fun
      | .inl state => .loop state round next
      | .inr b => next b)

def earliest? : List (Waiting ω α) → Option Nat
  | [] => none
  | w :: rest => some (match earliest? rest with
    | none => w.deadline
    | some d => min w.deadline d)

/-- The clock jumps to the next deadline, and those who waited for it go on. -/
def pass (s : Schedule ω α) : Option (Schedule ω α) :=
  match earliest? s.waiting with
  | none => none
  | some time =>
    let (woken, waiting) := s.waiting.partition fun w => w.deadline ≤ time
    some { s with
      clock := max s.clock time
      waiting
      ready := woken.map fun w => ⟨w.name, w.next false⟩ }

def step [Signals ω] (s : Schedule ω α) : Option (Schedule ω α) :=
  match s.ready with
  | r :: ready => some (turn { s with ready } r.name r.activity)
  | [] => s.pass

/-- Goes on until an activity has its result, nothing is left to do, or so many steps are done. -/
def runUntil [Signals ω] (name : Nat) : Nat → Schedule ω α → Schedule ω α
  | 0, s => s
  | steps + 1, s =>
    if (s.result? name).isSome then s
    else match s.step with
      | none => s
      | some s => runUntil name steps s

end Schedule
end Playbook
