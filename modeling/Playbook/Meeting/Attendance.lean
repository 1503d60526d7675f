import Playbook.Meeting.Convening

/- What agents do with meetings besides arranging them: they answer invitations, speak, leave and
   close. -/
namespace Playbook

/-- What came of an invitation. -/
inductive InvitationOutcome where
  | joined (meeting : JoinedMeeting) (invitation : Invitation)
  /-- Nothing was answered. -/
  | alreadyJoined (meeting : MeetingId)
  | rejected (meeting : MeetingId) (reason : String)
deriving DecidableEq, Repr

namespace Assembly

def respond (who : Signature) (i : Invitation) (accepted : Bool) (reason : Option String)
    (a : Assembly) : Except MeetingError Unit × Assembly :=
  let response : InvitationResponse := ⟨i.meeting, who.id, accepted, reason⟩
  let (m, a) := a.write ⟨who.id, who.klass, some i.owner, some i.meeting,
    response.toJson.compress, .response⟩
  let (r, a) := a.deliver m
  (r.mapError .post, a)

def join (who : Signature) (n : Nat) (room : Room) (a : Assembly) : JoinedMeeting × Assembly :=
  let joined : JoinedMeeting := ⟨n, room.id, room.owner, room.topic⟩
  let house := a.house.modifyRoom n (·.addMember who.id)
  (joined, { a with house := house.setBook who.id ((house.book who.id).addJoined joined) })

/-- Accepts when the playbook is known. The answer goes out last. -/
def handleInvitation (who : Signature) (knows : String → Bool) (m : Message) (a : Assembly) :
    Except MeetingError InvitationOutcome × Assembly :=
  if m.kind ≠ .invitation then (.error (.notInvitation m.id), a)
  else match m.invitation with
    | .error e => (.error (.post e), a)
    | .ok i =>
      if (a.house.book who.id).contains i.meeting then (.ok (.alreadyJoined i.meeting), a)
      else if !knows i.playbook then
        let reason := s!"unknown playbook '{i.playbook}'"
        let (r, a) := a.respond who i false (some reason)
        (r.map fun () => .rejected i.meeting reason, a)
      else
        let (n, a) := a.lookup i.meeting
        match n.bind fun n => (a.house.room? n).map (n, ·) with
        | none => (.error (.notFound i.meeting), a)
        | some (n, room) =>
          let (joined, a) := a.join who n room
          let (r, a) := a.respond who i true none
          (r.map fun () => .joined joined i, a)

def closeMeeting (owner : AgentId) (id : MeetingId) (a : Assembly) : Bool × Assembly :=
  let book := a.house.book owner
  if book.owned.contains id then
    (true, { a with house := (a.house.setBook owner (book.close id)).prune })
  else (false, a)

def leaveMeeting (who : AgentId) (id : MeetingId) (a : Assembly) : Bool × Assembly :=
  let book := a.house.book who
  match book.joined.get? id with
  | none => (false, a)
  | some m =>
    let house := a.house.setBook who (book.leave id)
    let house := if house.alive m.room then house.modifyRoom m.room (·.removeMember who) else house
    (true, { a with house })

def recordResponse (m : Message) (a : Assembly) :
    Except MeetingError InvitationResponse × Assembly :=
  match m.meeting with
  | none => (.error (.noMeetingId m.id), a)
  | some id =>
    match a.lookup id with
    | (none, a) => (.error (.notFound id), a)
    | (some n, a) =>
      let (r, a) := Convening.applyResponse n m a
      (r.mapError .post, a)

def sayToMeeting (who : Signature) (id : MeetingId) (content : String) (a : Assembly) :
    Except MeetingError Nat × Assembly :=
  let (n, a) := a.lookup id
  match n.bind a.house.room? with
  | none => (.error (.notFound id), a)
  | some room =>
    if !room.hasMember who.id then (.error .notInMeeting, a)
    else
      let (m, a) := a.write (.broadcast who.id who.klass id content)
      match a.post.broadcast room.members m with
      | .error e => (.error (.post e), a)
      | .ok (count, post) => (.ok count, { a with post })

end Assembly
end Playbook
