import Playbook.Meeting.Room
import Playbook.Meeting.Error

/- All rooms, the directory that finds them by the id of their meeting, and the books in which
   agents note the meetings they own and those they have joined. A room lives as long as its owner's
   book has it, or somebody holds on to it; neither the directory nor a joined meeting keeps it
   alive. -/
namespace Playbook

structure OwnedMeeting where
  room : Nat
  required : List AgentId
  optional : List AgentId
deriving DecidableEq, Repr

structure JoinedMeeting where
  room : Nat
  id : MeetingId
  owner : AgentId
  topic : String
deriving DecidableEq, Repr

structure MeetingBook where
  owned : Dict OwnedMeeting
  joined : Dict JoinedMeeting

namespace MeetingBook

def empty : MeetingBook := ⟨[], []⟩

def contains (b : MeetingBook) (id : MeetingId) : Bool :=
  b.owned.contains id || b.joined.contains id

def addOwned (b : MeetingBook) (id : MeetingId) (m : OwnedMeeting) : MeetingBook :=
  { b with owned := b.owned.insert id m }

def addJoined (b : MeetingBook) (m : JoinedMeeting) : MeetingBook :=
  { b with joined := b.joined.insert m.id m }

def close (b : MeetingBook) (id : MeetingId) : MeetingBook := { b with owned := b.owned.erase id }

def leave (b : MeetingBook) (id : MeetingId) : MeetingBook := { b with joined := b.joined.erase id }

end MeetingBook

structure MeetingHouse where
  rooms : List Room
  /-- Rooms that live although no book has them, once for each holder. -/
  held : List Nat
  directory : Dict Nat
  books : Dict MeetingBook

namespace MeetingHouse

def empty : MeetingHouse := ⟨[], [], [], []⟩

def book (h : MeetingHouse) (agent : AgentId) : MeetingBook :=
  (h.books.get? agent).getD MeetingBook.empty

def setBook (h : MeetingHouse) (agent : AgentId) (b : MeetingBook) : MeetingHouse :=
  { h with books := h.books.insert agent b }

def room? (h : MeetingHouse) (n : Nat) : Option Room := h.rooms[n]?

def modifyRoom (h : MeetingHouse) (n : Nat) (f : Room → Room) : MeetingHouse :=
  { h with rooms := h.rooms.modify n f }

def alive (h : MeetingHouse) (n : Nat) : Bool :=
  h.held.contains n || h.books.any fun (_, b) => b.owned.any fun (_, m) => m.room == n

/-- Adds a room, held by its maker. -/
def build (h : MeetingHouse) (r : Room) : Nat × MeetingHouse :=
  let n := h.rooms.length
  (n, { h with rooms := h.rooms ++ [r], held := n :: h.held })

def hold (h : MeetingHouse) (n : Nat) : MeetingHouse := { h with held := n :: h.held }

def release (h : MeetingHouse) (n : Nat) : MeetingHouse := { h with held := h.held.erase n }

def register (h : MeetingHouse) (id : MeetingId) (n : Nat) : MeetingHouse :=
  { h with directory := h.directory.insert id n }

def size (h : MeetingHouse) : Nat := h.directory.length

/-- Finds the living room of a meeting; an entry that has outlived its room is removed. -/
def lookup (h : MeetingHouse) (id : MeetingId) : Option Nat × MeetingHouse :=
  match h.directory.get? id with
  | none => (none, h)
  | some n =>
    if h.alive n then (some n, h)
    else (none, { h with directory := h.directory.erase id })

def prune (h : MeetingHouse) : MeetingHouse :=
  { h with directory := h.directory.filter fun e => h.alive e.2 }

def roomOf (h : MeetingHouse) (agent : AgentId) (id : MeetingId) : Except MeetingError Nat :=
  match (h.book agent).owned.get? id with
  | some m => .ok m.room
  | none =>
    match (h.book agent).joined.get? id with
    | some m => if h.alive m.room then .ok m.room else .error (.notFound id)
    | none => .error (.notFound id)

def roomsOf (h : MeetingHouse) (agent : AgentId) : List Room :=
  let b := h.book agent
  let joined := b.joined.filter fun e => h.alive e.2.room
  (b.owned.map (·.2.room) ++ joined.map (·.2.room)).filterMap h.room?

def toValue (h : MeetingHouse) (agent : AgentId) : Value :=
  .map (Dict.ofList ((h.roomsOf agent).map fun r => (r.id, r.toValue)))

end MeetingHouse
end Playbook
