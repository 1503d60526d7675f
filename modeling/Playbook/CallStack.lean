import Playbook.Value
import Playbook.Identifier

/- Where an agent stands: one frame per playbook it is inside of, the innermost last. -/
namespace Playbook

structure Pointer where
  playbook : String
  step : String
  session : Option String
deriving DecidableEq, Repr

namespace Pointer

def display (p : Pointer) : String := p.playbook ++ ":" ++ p.step

def atStep (p : Pointer) (step : String) : Pointer := { p with step }

end Pointer

structure Frame where
  pointer : Pointer
  locals : Namespace
  meeting : Option MeetingId
  /-- The execution that drives the frame; never stored. -/
  execution : Option ExecutionId

structure FrameSnapshot where
  pointer : Pointer
  meeting : Option MeetingId
  locals : Dict Json

def Frame.snapshot (f : Frame) : FrameSnapshot := ⟨f.pointer, f.meeting, Namespace.toJson f.locals⟩

def FrameSnapshot.toFrame (s : FrameSnapshot) : Frame :=
  ⟨s.pointer, Namespace.ofJson s.locals, s.meeting, none⟩

abbrev CallStack := List Frame

namespace CallStack

def push (stack : CallStack) (frame : Frame) : CallStack := stack ++ [frame]

def pop (stack : CallStack) : CallStack := stack.dropLast

def innermost? (stack : CallStack) : Option Frame := stack.getLast?

def pointers (stack : CallStack) : List String := stack.map fun f => f.pointer.display

/-- The meeting of the innermost frame that belongs to one: calls made inside a meeting stay
    inside it. -/
def currentMeeting? (stack : CallStack) : Option MeetingId := stack.reverse.findSome? (·.meeting)

def modifyInnermost (f : Frame → Frame) : CallStack → CallStack
  | [] => []
  | [frame] => [f frame]
  | frame :: rest => frame :: modifyInnermost f rest

def advance (stack : CallStack) (step : String) : CallStack :=
  stack.modifyInnermost fun f => { f with pointer := f.pointer.atStep step }

def snapshot (stack : CallStack) : List FrameSnapshot := stack.map Frame.snapshot

def ofSnapshot (frames : List FrameSnapshot) : CallStack := frames.map FrameSnapshot.toFrame

theorem length_modifyInnermost (f : Frame → Frame) (stack : CallStack) :
    (stack.modifyInnermost f).length = stack.length := by
  induction stack with
  | nil => rfl
  | cons frame rest ih =>
    cases rest with
    | nil => rfl
    | cons next more => simpa [modifyInnermost] using ih

theorem modifyInnermost_concat (f : Frame → Frame) (below : CallStack) (frame : Frame) :
    modifyInnermost f (below ++ [frame]) = below ++ [f frame] := by
  induction below with
  | nil => rfl
  | cons first rest ih =>
    cases rest with
    | nil => rfl
    | cons second more => exact congrArg (first :: ·) ih

end CallStack
end Playbook
