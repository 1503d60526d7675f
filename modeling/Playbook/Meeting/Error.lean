import Playbook.Message

/- What can go wrong in arranging a meeting. -/
namespace Playbook

inductive MeetingError where
  | rejected (meeting : MeetingId) (attendees : List AgentId)
  | timedOut (meeting : MeetingId) (missing : List AgentId)
  /-- Never made, or dropped by its owner. -/
  | notFound (meeting : MeetingId)
  | notInMeeting
  | invalidAttendee (name : String) (fault : IdError)
  | notInvitation (message : MessageId)
  | noMeetingId (message : MessageId)
  | post (e : PostError)
deriving DecidableEq, Repr

def MeetingError.message : MeetingError → String
  | .rejected meeting attendees =>
    s!"required attendee(s) rejected meeting {meeting}: [" ++ ", ".intercalate attendees ++ "]"
  | .timedOut meeting missing =>
    s!"required attendee(s) did not answer meeting {meeting} within the timeout: [" ++
      ", ".intercalate missing ++ "]"
  | .notFound meeting => s!"Meeting not found: {meeting}"
  | .notInMeeting => "Not in a meeting"
  | .invalidAttendee name fault => s!"Invalid attendee '{name}': {fault.message}"
  | .notInvitation message =>
    s!"Invalid meeting message: message {message} is not a meeting invitation"
  | .noMeetingId message => s!"Invalid meeting message: message {message} has no meeting id"
  | .post e => e.message

end Playbook
