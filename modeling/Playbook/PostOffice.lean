import Playbook.Inbox
import Playbook.Dict
import Playbook.Uuid

/- The inboxes of all agents, and delivery into them. An inbox keeps its number for ever; whoever
   knows the number can go on reading it after the agent has been struck off the addresses. -/
namespace Playbook

structure PostOffice where
  boxes : List Inbox
  addresses : Dict Nat
  /-- The inboxes that have got a message since someone last looked, oldest arrival first. -/
  arrivals : List Nat
  /-- Free bits of the next id. -/
  nextId : Nat
  /-- The time that new messages bear. -/
  date : String

namespace PostOffice

def start (nextId : Nat) (date : String) : PostOffice := ⟨[], [], [], nextId, date⟩

def mint (p : PostOffice) : String × PostOffice :=
  (Uuid.ofBits p.nextId, { p with nextId := p.nextId + 1 })

def write (p : PostOffice) (d : Draft) : Message × PostOffice :=
  let (id, p) := p.mint
  (d.toMessage id p.date, p)

def box (p : PostOffice) (n : Nat) : Inbox := p.boxes.getD n []

def setBox (p : PostOffice) (n : Nat) (inbox : Inbox) : PostOffice :=
  { p with boxes := p.boxes.set n inbox }

def enter (p : PostOffice) (agent : AgentId) : Nat × PostOffice :=
  match p.addresses.get? agent with
  | some n => (n, p)
  | none =>
    let n := p.boxes.length
    (n, { p with boxes := p.boxes ++ [[]], addresses := p.addresses.insert agent n })

def remove (p : PostOffice) (agent : AgentId) : Bool × PostOffice :=
  (p.addresses.contains agent, { p with addresses := p.addresses.erase agent })

def boxOf? (p : PostOffice) (agent : AgentId) : Option Nat := p.addresses.get? agent

def agents (p : PostOffice) : List AgentId := p.addresses.keys

def put (p : PostOffice) (n : Nat) (m : Message) : PostOffice :=
  { p.setBox n (p.box n ++ [m]) with arrivals := p.arrivals ++ [n] }

def deliver (p : PostOffice) (m : Message) : Except PostError PostOffice :=
  match m.recipient with
  | none => .error (.noRecipient m.id)
  | some addressee =>
    match p.boxOf? addressee with
    | none => .error (.agentNotFound addressee)
    | some n => .ok (p.put n m)

def closeTurn (p : PostOffice) (sender : AgentId) (klass : String) (addressee : AgentId) (n : Nat) :
    PostOffice :=
  let (m, p) := p.write (.marker sender klass addressee)
  p.put n m

def deliverTurn (p : PostOffice) (m : Message) : Except PostError PostOffice :=
  match m.recipient with
  | none => .error (.noRecipient m.id)
  | some addressee =>
    match p.boxOf? addressee with
    | none => .error (.agentNotFound addressee)
    | some n => .ok ((p.put n m).closeTurn m.sender m.senderKlass addressee n)

/-- A turn of one message for each member that has an inbox, but not for the sender; counts them. -/
def fanOut (m : Message) (count : Nat) (p : PostOffice) : List AgentId → Nat × PostOffice
  | [] => (count, p)
  | member :: rest =>
    if member = m.sender then fanOut m count p rest
    else match p.boxOf? member with
      | none => fanOut m count p rest
      | some n =>
        let p := (p.put n (m.addressedTo member)).closeTurn m.sender m.senderKlass member n
        fanOut m (count + 1) p rest

def broadcast (p : PostOffice) (members : List AgentId) (m : Message) :
    Except PostError (Nat × PostOffice) :=
  if m.kind ≠ .broadcast ∨ m.meeting = none then .error (.notBroadcast m.id)
  else .ok (fanOut m 0 p members)

end PostOffice
end Playbook
