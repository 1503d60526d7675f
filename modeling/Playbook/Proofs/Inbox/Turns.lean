import Playbook.Agent.Conversation
import Playbook.Proofs.Inbox.Batches

/- Turns of conversation in an inbox: a message, whether said to one agent or in a meeting, and the
   marker that closes it. A marker does not tell which conversation it belongs to. -/
namespace Playbook

structure Turn where
  message : Message
  marker : Message
  said : (message.kind = .direct ∧ message.meeting = none) ∨
    (message.kind = .broadcast ∧ message.meeting.isSome = true)
  marks : marker.isMarker = true
  unassigned : marker.meeting = none
  own : marker.sender = message.sender

namespace Turn
variable {t : Turn} {id : MeetingId} {members : List AgentId} {s : AgentId}

def sender (t : Turn) : AgentId := t.message.sender

def messages (t : Turn) : List Message := [t.message, t.marker]

def saidIn (id : MeetingId) (t : Turn) : Bool := t.message.meeting = some id

def parts (t : Turn) : List (Turn × Message) := [(t, t.message), (t, t.marker)]

def partsOf (turns : List Turn) : List (Turn × Message) := turns.flatMap parts

theorem map_partsOf (turns : List Turn) :
    (partsOf turns).map (·.2) = turns.flatMap messages := by
  rw [partsOf, List.map_flatMap]
  rfl

theorem message_plain (t : Turn) : t.message.kind.isControl = false := by
  rcases t.said with ⟨kind, -⟩ | ⟨kind, -⟩ <;> rw [kind] <;> rfl

theorem marker_plain (t : Turn) : t.marker.kind.isControl = false := by
  have marks := t.marks
  simp only [Message.isMarker, Bool.and_eq_true, Bool.not_eq_true'] at marks
  exact marks.2

theorem accepts_marker (t : Turn) (id : MeetingId) (members : List AgentId) :
    (Source.meeting id members).accepts t.marker = members.contains t.sender := by
  simp [Source.accepts, t.marker_plain, t.marks, t.unassigned, t.own, sender]

theorem accepts_message (t : Turn) (id : MeetingId) (members : List AgentId) :
    (Source.meeting id members).accepts t.message =
      (t.saidIn id || (t.message.isMarker && members.contains t.sender)) := by
  simp [Source.accepts, t.message_plain, saidIn, sender]

theorem sender_accepts_message (t : Turn) (s : AgentId) :
    (Source.sender s).accepts t.message = decide (t.sender = s) := by
  rw [Source.accepts, t.message_plain]
  rfl

theorem sender_accepts_marker (t : Turn) (s : AgentId) :
    (Source.sender s).accepts t.marker = decide (t.sender = s) := by
  rw [Source.accepts, t.marker_plain, sender, ← t.own]
  rfl

theorem of_accepts {p : Turn × Message} {turns : List Turn} (part : p ∈ partsOf turns)
    (accepted : (Source.meeting id members).accepts p.2 = true) :
    p.1.saidIn id = true ∨ (p.2.isMarker = true ∧ p.1.sender ∈ members) := by
  obtain ⟨t, -, mem⟩ := List.mem_flatMap.1 part
  simp only [parts, List.mem_cons, List.not_mem_nil, or_false] at mem
  rcases mem with rfl | rfl
  · rw [accepts_message, Bool.or_eq_true, Bool.and_eq_true, List.contains_iff_mem] at accepted
    exact accepted
  · rw [accepts_marker, List.contains_iff_mem] at accepted
    exact .inr ⟨t.marks, accepted⟩

theorem fst_mem {p : Turn × Message} {turns : List Turn} (part : p ∈ partsOf turns) :
    p.1 ∈ turns := by
  obtain ⟨t, known, mem⟩ := List.mem_flatMap.1 part
  simp only [parts, List.mem_cons, List.not_mem_nil, or_false] at mem
  rcases mem with rfl | rfl <;> exact known

theorem of_plain {x : Message} {turns : List Turn} (mem : x ∈ turns.flatMap messages)
    (plain : x.isMarker = false) : ∃ t ∈ turns, x = t.message := by
  obtain ⟨t, known, part⟩ := List.mem_flatMap.1 mem
  simp only [messages, List.mem_cons, List.not_mem_nil, or_false] at part
  rcases part with rfl | rfl
  · exact ⟨t, known, rfl⟩
  · rw [t.marks] at plain
    cases plain

/-- Someone whose markers a meeting does not take for its own by mistake. -/
def Apart (id : MeetingId) (members : List AgentId) (turns : List Turn) (s : AgentId) : Prop :=
  s ∈ members → ∀ t ∈ turns, t.sender = s → t.saidIn id = true

end Turn

def Closed : List Message → Prop
  | [] => True
  | x :: rest => (x.isMarker = true ∨ rest.head?.any (·.isMarker) = true) ∧ Closed rest

namespace Closed
variable {l l' : List Message}

theorem append (first : Closed l) (second : Closed l') : Closed (l ++ l') := by
  induction l with
  | nil => exact second
  | cons x rest ih =>
    obtain ⟨closed, more⟩ := first
    refine ⟨closed.imp_right fun marked => ?_, ih more⟩
    cases rest with
    | nil => cases marked
    | cons y rest => exact marked

theorem of_append (closed : Closed (l ++ l')) : Closed l' := by
  induction l with
  | nil => exact closed
  | cons x rest ih => exact ih closed.2

theorem length_le_one (closed : Closed (l ++ l')) (plain : ∀ x ∈ l, x.isMarker = false) :
    l.length ≤ 1 := by
  match l with
  | [] => exact Nat.zero_le 1
  | [_] => exact Nat.le_refl 1
  | x :: y :: rest =>
    rcases closed.1 with marked | marked
    · rw [plain x (.head _)] at marked
      cases marked
    · have marked : y.isMarker = true := marked
      rw [plain y (.tail x (.head rest))] at marked
      cases marked

end Closed

/-- Of what is from someone, every message is followed by a marker. -/
def Turnwise (s : AgentId) (inbox : Inbox) : Prop :=
  Closed (inbox.filter (Source.sender s).accepts)

namespace Turnwise
variable {s : AgentId} {id : MeetingId} {members : List AgentId} {inbox more : Inbox}

theorem append (first : Turnwise s inbox) (second : Turnwise s more) :
    Turnwise s (inbox ++ more) := by
  rw [Turnwise, List.filter_append]
  exact Closed.append first second

theorem of_turn (t : Turn) : Turnwise s t.messages := by
  by_cases own : t.sender = s
  · simp [Turnwise, Turn.messages, Turn.sender_accepts_message, Turn.sender_accepts_marker, own,
      Closed, t.marks]
  · simp [Turnwise, Turn.messages, Turn.sender_accepts_message, Turn.sender_accepts_marker, own,
      Closed]

theorem of_marker (t : Turn) : Turnwise s [t.marker] := by
  by_cases own : t.sender = s <;>
    simp [Turnwise, Turn.sender_accepts_marker, own, Closed, t.marks]

theorem of_turns (turns : List Turn) : Turnwise s (turns.flatMap Turn.messages) := by
  induction turns with
  | nil => trivial
  | cons t rest ih => exact (of_turn t).append ih

theorem of_refused (t : Turn) (apart : s ∈ members → t.sender = s → t.saidIn id = true) :
    Turnwise s (t.messages.filter (!(Source.meeting id members).accepts ·)) := by
  by_cases own : t.sender = s
  · by_cases member : s ∈ members
    · have accepted : t.messages.filter (!(Source.meeting id members).accepts ·) = [] := by
        simp [Turn.messages, Turn.accepts_message, Turn.accepts_marker, apart member own, own, member]
      rw [accepted]
      trivial
    · have kept : (Source.meeting id members).accepts t.marker = false := by
        simp [Turn.accepts_marker, own, member]
      cases message : (Source.meeting id members).accepts t.message <;>
        simp [Turnwise, Turn.messages, message, kept, Turn.sender_accepts_message,
          Turn.sender_accepts_marker, own, Closed, t.marks]
  · have nothing : (t.messages.filter (!(Source.meeting id members).accepts ·)).filter
        (Source.sender s).accepts = [] := by
      simp [Turn.messages, Turn.sender_accepts_message, Turn.sender_accepts_marker, own]
    rw [Turnwise, nothing]
    trivial

/-- A meeting leaves behind it what others have said, turn by turn. -/
theorem of_kept {turns : List Turn} {front back : List (Turn × Message)}
    (apart : Turn.Apart id members turns s) (split : Turn.partsOf turns = front ++ back) :
    Turnwise s ((front.map (·.2)).filter (!(Source.meeting id members).accepts ·) ++
      back.map (·.2)) := by
  induction turns generalizing front with
  | nil =>
    obtain ⟨rfl, rfl⟩ := List.append_eq_nil_iff.1 split.symm
    trivial
  | cons t rest ih =>
    have own : s ∈ members → t.sender = s → t.saidIn id = true := fun member =>
      apart member t (.head rest)
    have apart' : Turn.Apart id members rest s := fun member t' mem =>
      apart member t' (.tail t mem)
    match front with
    | [] =>
      rw [List.nil_append] at split
      rw [← split, Turn.map_partsOf]
      exact of_turns (t :: rest)
    | [p] =>
      have split : (t, t.message) :: (t, t.marker) :: Turn.partsOf rest = p :: back := split
      obtain ⟨rfl, rfl⟩ := List.cons.inj split
      -- Only the message has been looked at.
      have later := (of_marker t).append (of_turns (s := s) rest)
      have whole := of_turns (s := s) (t :: rest)
      rw [List.map_cons, List.map_cons, Turn.map_partsOf]
      cases accepted : (Source.meeting id members).accepts t.message with
      | true => simpa [accepted] using later
      | false => simpa [accepted, Turn.messages] using whole
    | p :: q :: front =>
      have both : (t, t.message) :: (t, t.marker) :: Turn.partsOf rest =
          p :: q :: (front ++ back) := split
      simp only [List.cons.injEq] at both
      obtain ⟨rfl, rfl, onward⟩ := both
      have block := (of_refused t own).append (ih apart' onward)
      rwa [← List.append_assoc, ← List.filter_append] at block

end Turnwise

namespace PostOffice
variable {p p' p'' : PostOffice} {kind kind' : Turn → Prop} {m : Message} {n : Nat}

/-- What has been added to each inbox is a number of turns. -/
structure AddsTurns (kind : Turn → Prop) (p p' : PostOffice) : Prop where
  added : ∀ {n : Nat} {inbox : Inbox}, p.boxes[n]? = some inbox →
    ∃ turns : List Turn, p'.boxes[n]? = some (inbox ++ turns.flatMap Turn.messages) ∧
      ∀ t ∈ turns, kind t

theorem AddsTurns.refl (kind : Turn → Prop) (p : PostOffice) : p.AddsTurns kind p where
  added box := ⟨[], by rwa [List.flatMap_nil, List.append_nil], by simp⟩

theorem AddsTurns.trans (first : p.AddsTurns kind p') (second : p'.AddsTurns kind p'') :
    p.AddsTurns kind p'' where
  added := by
    intro n inbox box
    obtain ⟨turns, box', kinds⟩ := first.added box
    obtain ⟨more, box'', kinds'⟩ := second.added box'
    refine ⟨turns ++ more, by rw [box'', List.flatMap_append, List.append_assoc], ?_⟩
    intro t mem
    exact (List.mem_append.1 mem).elim (kinds t) (kinds' t)

theorem AddsTurns.mono (adds : p.AddsTurns kind p') (wider : ∀ t, kind t → kind' t) :
    p.AddsTurns kind' p' where
  added box := by
    obtain ⟨turns, box', kinds⟩ := adds.added box
    exact ⟨turns, box', fun t mem => wider t (kinds t mem)⟩

theorem addsTurns_closeTurn (p : PostOffice) (n : Nat) (addressee : AgentId)
    (said : (m.kind = .direct ∧ m.meeting = none) ∨
      (m.kind = .broadcast ∧ m.meeting.isSome = true)) :
    p.AddsTurns (·.message = m)
      ((p.put n m).closeTurn m.sender m.senderKlass addressee n) where
  added := by
    intro k inbox box
    rw [turn_get box]
    split
    · have marks : ((Draft.marker m.sender m.senderKlass addressee).toMessage
          (Uuid.ofBits p.nextId) p.date).isMarker = true := by
        simp [Draft.toMessage, Draft.marker, Draft.direct, Message.isMarker, MessageKind.isControl]
      have own : ((Draft.marker m.sender m.senderKlass addressee).toMessage
          (Uuid.ofBits p.nextId) p.date).sender = m.sender := by
        simp only [Draft.toMessage, Draft.marker, Draft.direct]
      have unassigned : ((Draft.marker m.sender m.senderKlass addressee).toMessage
          (Uuid.ofBits p.nextId) p.date).meeting = none := by
        simp only [Draft.toMessage, Draft.marker, Draft.direct]
      exact ⟨[⟨m, _, said, marks, unassigned, own⟩], rfl, by simp⟩
    · exact ⟨[], rfl, by simp⟩

/-- What reaches an inbox, said to its owner or in a meeting, comes in turns. -/
theorem addsTurns_deliverTurn (said : m.kind = .direct ∧ m.meeting = none)
    (delivered : p.deliverTurn m = .ok p') : p.AddsTurns (·.message = m) p' := by
  unfold deliverTurn at delivered
  split at delivered
  · cases delivered
  split at delivered
  · cases delivered
  · cases delivered
    exact addsTurns_closeTurn _ _ _ (.inl said)

theorem addsTurns_fanOut {id : MeetingId} (said : m.kind = .broadcast ∧ m.meeting = some id)
    (count : Nat) (p : PostOffice) (members : List AgentId) :
    p.AddsTurns (fun t => t.sender = m.sender ∧ t.saidIn id = true)
      (fanOut m count p members).2 := by
  induction members generalizing count p with
  | nil => exact AddsTurns.refl _ p
  | cons member rest ih =>
    unfold fanOut
    split
    · exact ih count p
    split
    · exact ih count p
    · have meets : (m.addressedTo member).meeting.isSome = true := by
        rw [Message.addressedTo, said.2]
        rfl
      refine AddsTurns.trans ?_ (ih (count + 1) _)
      refine (addsTurns_closeTurn (m := m.addressedTo member) _ _ _ (.inr ⟨said.1, meets⟩)).mono ?_
      intro t message
      simp [Turn.sender, Turn.saidIn, message, Message.addressedTo, said.2]

end PostOffice
end Playbook
