import Playbook.Json.Ascii
import Playbook.Main
import Playbook.Proofs.Agent.Depth
import Playbook.Proofs.Checkpoint.Kept
import Playbook.Proofs.Checkpoint.Numbering
import Playbook.Proofs.Checkpoint.Stores
import Playbook.Proofs.Execution.Chunking
import Playbook.Proofs.Execution.Regeneration
import Playbook.Proofs.Execution.Suspensions
import Playbook.Proofs.Inbox.Batches
import Playbook.Proofs.Meeting.Attendance
import Playbook.Proofs.Meeting.Rendezvous
import Playbook.Report.Agent
import Playbook.Report.Request
import Playbook.Proofs.Execution.Internals
import Playbook.Proofs.Meeting.Failure
import Playbook.Proofs.Printing.Expressions
import Playbook.Proofs.Printing.RoundTrip
import Playbook.Proofs.Activity.Ending
import Playbook.Proofs.Agent.Recursion
import Playbook.Proofs.Agent.Refusal
import Playbook.Proofs.Meeting.Ownership
import Playbook.Proofs.Meeting.Sharing
import Playbook.Proofs.Meeting.OneRoom
import Playbook.Proofs.Activity.Rounds
import Playbook.Proofs.Meeting.NamedTwice
import Playbook.Proofs.Inbox.Looks
import Playbook.Proofs.Agent.Serving
import Playbook.Proofs.Agent.Listening
import Playbook.Proofs.Segment.Restarting
import Playbook.Proofs.Agent.Attention
import Playbook.Proofs.Agent.Winding
import Playbook.Proofs.Agent.Repeating
import Playbook.Proofs.Inbox.Successive
import Playbook.Proofs.Meeting.Broadcast
import Playbook.Proofs.Value.Comparison
import Playbook.Proofs.Value.Places
import Playbook.Proofs.Restoring
import Playbook.Proofs.Execution.Assigning
import Playbook.Proofs.Parser.Templates
import Playbook.Proofs.Checkpoint.Paths
import Playbook.Proofs.Segment.Tiling
import Playbook.Proofs.Execution.Lines
import Playbook.Proofs.Value.Containers
import Playbook.Proofs.Parser.Signs
