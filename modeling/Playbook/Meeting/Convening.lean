import Playbook.Assembly
import Playbook.Message.Payload

/- How an owner brings a meeting about: a room is made, everybody is invited, and the answers of the
   required attendees decide. -/
namespace Playbook

structure MeetingRequest where
  playbook : String
  topic : String
  required : List AgentId
  optional : List AgentId
deriving DecidableEq, Repr

namespace MeetingRequest

def attendee (name : String) : Except MeetingError AgentId :=
  (checkId .agent name).mapError (.invalidAttendee name)

def ofNames (playbook topic : String) (required optional : List String) :
    Except MeetingError MeetingRequest := do
  return ⟨playbook, topic, ← required.mapM attendee, ← optional.mapM attendee⟩

end MeetingRequest

/-- A meeting being arranged. -/
structure Convening where
  meeting : MeetingId
  room : Nat
  /-- Required attendees that have not answered, once for each invitation. -/
  pending : List AgentId
  /-- Required attendees that have declined or do not exist. -/
  rejected : List AgentId
deriving DecidableEq, Repr

namespace Convening

def isAnswer (meeting : MeetingId) (m : Message) : Bool :=
  m.kind = .response && m.meeting = some meeting

def invitees (r : MeetingRequest) : List (AgentId × Bool) :=
  r.required.map (·, true) ++ r.optional.map (·, false)

/-- The owner needs no invitation. An attendee without inbox counts as having declined. -/
def inviteAll (owner : Signature) (invitation : Invitation) (c : Convening) (a : Assembly) :
    List (AgentId × Bool) → Convening × Assembly
  | [] => (c, a)
  | (attendee, required) :: rest =>
    if attendee = owner.id then inviteAll owner invitation c a rest
    else
      let draft : Draft := ⟨owner.id, owner.klass, some attendee, some c.meeting,
        invitation.toJson.compress, .invitation⟩
      let (m, a) := a.write draft
      let (delivered, a) := a.deliver m
      let c := match delivered, required with
        | .ok (), true => { c with pending := c.pending ++ [attendee] }
        | .error _, true => { c with rejected := c.rejected ++ [attendee] }
        | _, false => c
      inviteAll owner invitation c a rest

/-- Makes a room, held until the meeting is settled, and invites everybody. -/
def start (owner : Signature) (r : MeetingRequest) (a : Assembly) : Convening × Assembly :=
  let (id, a) := a.mint
  let (room, house) := a.house.build (Room.start id owner.id r.topic r.playbook)
  let a := { a with house := house.register id room }
  inviteAll owner ⟨id, owner.id, r.playbook, r.topic⟩ ⟨id, room, [], []⟩ a (invitees r)

def applyResponse (room : Nat) (m : Message) (a : Assembly) :
    Except PostError InvitationResponse × Assembly :=
  match m.response with
  | .error e => (.error e, a)
  | .ok r => (.ok r, if r.accepted then a.modifyRoom room (·.addMember r.attendee) else a)

/-- An answer that cannot be read is passed over, and only the first answer to an invitation
    counts. -/
def hear (c : Convening) (m : Message) (a : Assembly) : Convening × Assembly :=
  match applyResponse c.room m a with
  | (.error _, a) => (c, a)
  | (.ok r, a) =>
    if c.pending.contains r.attendee then
      let c := { c with pending := c.pending.erase r.attendee }
      (if r.accepted then c else { c with rejected := c.rejected ++ [r.attendee] }, a)
    else (c, a)

def hearAll (c : Convening) (a : Assembly) : List Message → Convening × Assembly
  | [] => (c, a)
  | m :: rest =>
    let (c, a) := c.hear m a
    c.hearAll a rest

/-- Rejections come before missing answers. -/
def fault? (c : Convening) : Option MeetingError :=
  if !c.rejected.isEmpty then some (.rejected c.meeting c.rejected)
  else if !c.pending.isEmpty then some (.timedOut c.meeting c.pending)
  else none

/-- Lets go of the room. It lives on only when the meeting has come about and stands in the book of
    its owner. -/
def settle (c : Convening) (owner : Signature) (r : MeetingRequest) (a : Assembly) :
    Except MeetingError MeetingId × Assembly :=
  let house := a.house.release c.room
  match c.fault? with
  | some e => (.error e, { a with house })
  | none =>
    let book := (house.book owner.id).addOwned c.meeting ⟨c.room, r.required, r.optional⟩
    (.ok c.meeting, { a with house := house.setBook owner.id book })

end Convening
end Playbook
