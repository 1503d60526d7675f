import Playbook.Meeting.House
import Playbook.PostOffice
import Playbook.AgentState

/- What agents share: inboxes and meeting rooms. -/
namespace Playbook

structure Assembly where
  post : PostOffice
  house : MeetingHouse

structure Signature where
  id : AgentId
  klass : String
deriving DecidableEq, Repr

def AgentState.signature (a : AgentState) : Signature := ⟨a.id, a.klass⟩

namespace Assembly

def start (nextId : Nat) (date : String) : Assembly :=
  ⟨PostOffice.start nextId date, MeetingHouse.empty⟩

def mint (a : Assembly) : String × Assembly :=
  let (id, post) := a.post.mint
  (id, { a with post })

def write (a : Assembly) (d : Draft) : Message × Assembly :=
  let (m, post) := a.post.write d
  (m, { a with post })

/-- An operation on the inboxes; one that fails changes nothing. -/
def withPost (a : Assembly) (r : Except PostError PostOffice) : Except PostError Unit × Assembly :=
  match r with
  | .error e => (.error e, a)
  | .ok post => (.ok (), { a with post })

def deliver (a : Assembly) (m : Message) : Except PostError Unit × Assembly :=
  a.withPost (a.post.deliver m)

def deliverTurn (a : Assembly) (m : Message) : Except PostError Unit × Assembly :=
  a.withPost (a.post.deliverTurn m)

def lookup (a : Assembly) (id : MeetingId) : Option Nat × Assembly :=
  let (n, house) := a.house.lookup id
  (n, { a with house })

def modifyRoom (a : Assembly) (n : Nat) (f : Room → Room) : Assembly :=
  { a with house := a.house.modifyRoom n f }

end Assembly
end Playbook
