import Playbook.Message

/- The messages that wait for an agent, and how a batch is taken from them. A batch collects
   matching messages in the order of their arrival and leaves the others where they are; a marker
   that matches is used up and ends the batch. -/
namespace Playbook

abbrev Inbox := List Message

structure BatchRequest where
  accepts : Message → Bool
  timeout : Nat
  least : Nat
  /-- No bound, if not given. -/
  most : Option Nat

structure Scan where
  taken : List Message
  left : Inbox
  /-- Whether a marker or the bound has ended the batch. -/
  closed : Bool
deriving DecidableEq, Repr

namespace Inbox

def scan (accepts : Message → Bool) (room : Option Nat) : Inbox → Scan
  | [] => ⟨[], [], room == some 0⟩
  | m :: rest =>
    if room = some 0 then ⟨[], m :: rest, true⟩
    else if !accepts m then
      let s := scan accepts room rest
      { s with left := m :: s.left }
    else if m.isMarker then ⟨[], rest, true⟩
    else
      let s := scan accepts (room.map (· - 1)) rest
      { s with taken := m :: s.taken }

end Inbox

namespace BatchRequest

/-- A look through the inbox with part of the batch already taken: the batch grown by it, what is
    left, and whether the batch is complete. -/
def collect (r : BatchRequest) (batch : List Message) (inbox : Inbox) :
    List Message × Inbox × Bool :=
  let s := Inbox.scan r.accepts (r.most.map (· - batch.length)) inbox
  let batch := batch ++ s.taken
  (batch, s.left, s.closed || (!batch.isEmpty && decide (r.least ≤ batch.length)))

/-- When the time is over: a batch that is too small goes back to the front of the inbox. -/
def giveUp (r : BatchRequest) (batch : List Message) (inbox : Inbox) : List Message × Inbox :=
  if r.least ≤ batch.length then (batch, inbox) else ([], batch ++ inbox)

def next (accepts : Message → Bool) (timeout : Nat) : BatchRequest := ⟨accepts, timeout, 1, some 1⟩

end BatchRequest

end Playbook
