import Playbook.Ensemble

/- A system driven from outside, step by step. Every step is an activity that has the turn at once
   and is waited for; activities left running go on whenever a later step waits. -/
namespace Playbook

structure Simulation (α : Type) : Type 1 where
  schedule : Schedule World α
  /-- The name of the next activity. -/
  next : Nat

namespace Simulation
variable {α β : Type}

def manySteps : Nat := 1000000000000

def start (w : World) : Simulation α := ⟨Schedule.start w, 0⟩

def world (s : Simulation α) : World := s.schedule.world

def act (s : Simulation α) (f : World → β × World) : β × Simulation α :=
  let (b, world) := f s.world
  (b, { s with schedule := ({ s.schedule with world } : Schedule World α).settle })

def launch (s : Simulation α) (a : Activity World α) : Nat × Simulation α :=
  (s.next, ⟨s.schedule.spawn s.next a, s.next + 1⟩)

/-- Waits for an activity. None when it waits for something that will never happen. -/
def await (s : Simulation α) (name : Nat) : Option α × Simulation α :=
  let schedule := s.schedule.runUntil name manySteps
  (schedule.result? name, { s with schedule })

def perform (s : Simulation α) (a : Activity World α) : Option α × Simulation α :=
  await ⟨s.schedule.enter s.next a, s.next + 1⟩ s.next

def launchAll (s : Simulation α) : List (Activity World α) → List Nat × Simulation α
  | [] => ([], s)
  | a :: rest =>
    let (name, s) := s.launch a
    let (names, s) := s.launchAll rest
    (name :: names, s)

def awaitAll (s : Simulation α) : List Nat → List (Option α) × Simulation α
  | [] => ([], s)
  | name :: rest =>
    let (result, s) := s.await name
    let (results, s) := s.awaitAll rest
    (result :: results, s)

end Simulation
end Playbook
