import Playbook.Inbox

/- How a batch divides an inbox. What has been looked at lies in front: its matching messages are in
   the batch, the others are where they were. Whatever comes in later lies behind. -/
namespace Playbook

namespace Inbox
variable {accepts : Message → Bool}

/-- What a scan has looked at, and the marker that has ended it. -/
structure Scanned (accepts : Message → Bool) (room : Option Nat) (inbox : Inbox) (s : Scan)
    (front back : Inbox) (marker : Option Message) : Prop where
  divided : inbox = front ++ back
  matching : front.filter accepts = s.taken ++ marker.toList
  left : s.left = front.filter (!accepts ·) ++ back
  plain : ∀ m ∈ s.taken, m.isMarker = false
  marked : ∀ m ∈ marker, m.isMarker = true
  fitting : ∀ k, room = some k → s.taken.length ≤ k
  closed : s.closed = true → marker.isSome = true ∨ room = some s.taken.length
  drained : s.closed = false → marker = none

namespace Scanned
variable {room : Option Nat} {m : Message} {rest front back : Inbox} {s : Scan}
  {marker : Option Message}

theorem pass (refused : accepts m = false)
    (scanned : Scanned accepts room rest s front back marker) :
    Scanned accepts room (m :: rest) { s with left := m :: s.left } (m :: front) back marker where
  divided := by rw [scanned.divided, List.cons_append]
  matching := by rw [List.filter_cons_of_neg (by simp [refused]), scanned.matching]
  left := by
    rw [List.filter_cons_of_pos (by simp [refused]), scanned.left, List.cons_append]
  plain := scanned.plain
  marked := scanned.marked
  fitting := scanned.fitting
  closed := scanned.closed
  drained := scanned.drained

theorem take (space : room ≠ some 0) (accepted : accepts m = true) (plain : m.isMarker = false)
    (scanned : Scanned accepts (room.map (· - 1)) rest s front back marker) :
    Scanned accepts room (m :: rest) { s with taken := m :: s.taken } (m :: front) back marker where
  divided := by rw [scanned.divided, List.cons_append]
  matching := by rw [List.filter_cons_of_pos accepted, scanned.matching, List.cons_append]
  left := by rw [List.filter_cons_of_neg (by simp [accepted]), scanned.left]
  plain := by
    intro a among
    cases among with
    | head => exact plain
    | tail _ later => exact scanned.plain a later
  marked := scanned.marked
  fitting := by
    intro k bound
    have fits := scanned.fitting (k - 1) (by rw [bound]; rfl)
    have positive : k ≠ 0 := fun none => space (none ▸ bound)
    simp only [List.length_cons]
    omega
  closed := by
    intro closed
    refine (scanned.closed closed).imp_right fun full => ?_
    obtain ⟨k, bound, less⟩ := Option.map_eq_some_iff.1 full
    have positive : k ≠ 0 := fun none => space (none ▸ bound)
    rw [bound, List.length_cons, ← less, Nat.sub_add_cancel (Nat.pos_of_ne_zero positive)]
  drained := scanned.drained

end Scanned

theorem scan_divides (accepts : Message → Bool) (room : Option Nat) (inbox : Inbox) :
    ∃ front back marker,
      Scanned accepts room inbox (inbox.scan accepts room) front back marker := by
  induction inbox generalizing room with
  | nil => exact ⟨[], [], none, by constructor <;> simp [scan]⟩
  | cons m rest ih =>
    unfold scan
    split
    case isTrue full =>
      exact ⟨[], m :: rest, none, by constructor <;> simp [full]⟩
    case isFalse space =>
      split
      case isTrue refused =>
        obtain ⟨front, back, marker, scanned⟩ := ih room
        exact ⟨m :: front, back, marker, scanned.pass (by simpa using refused)⟩
      case isFalse accepted =>
        have accepted : accepts m = true := by simpa using accepted
        split
        case isTrue marked =>
          exact ⟨[m], rest, some m, by constructor <;> simp [accepted, marked]⟩
        case isFalse plain =>
          obtain ⟨front, back, marker, scanned⟩ := ih (room.map (· - 1))
          exact ⟨m :: front, back, marker, scanned.take space accepted (by simpa using plain)⟩

/-- A scan passes over what an earlier one has left. -/
theorem scan_append_of_refused (accepts : Message → Bool) (room : Option Nat) {front : Inbox}
    (refused : ∀ m ∈ front, accepts m = false) (back : Inbox) :
    scan accepts room (front ++ back) =
      ⟨(scan accepts room back).taken, front ++ (scan accepts room back).left,
        (scan accepts room back).closed⟩ := by
  induction front with
  | nil => rfl
  | cons m rest ih =>
    have passed := ih fun a among => refused a (.tail m among)
    rw [List.cons_append, scan]
    split
    case isTrue full =>
      cases back <;> simp [scan, full]
    case isFalse space =>
      rw [refused m (.head rest), passed]
      rfl

end Inbox

namespace BatchRequest

/-- A batch under way, or at its end if a marker has been used up: of all that has arrived, a front
    has been looked at. -/
structure Divided (r : BatchRequest) (arrived batch : List Message) (marker : Option Message)
    (inbox : Inbox) : Prop where
  front : ∃ front back, arrived = front ++ back ∧
    front.filter r.accepts = batch ++ marker.toList ∧
    inbox = front.filter (!r.accepts ·) ++ back
  plain : ∀ m ∈ batch, m.isMarker = false
  marked : ∀ m ∈ marker, m.isMarker = true
  fitting : ∀ k, r.most = some k → batch.length ≤ k

variable {r : BatchRequest} {arrived batch : List Message} {marker : Option Message}
  {inbox : Inbox}

namespace Divided

theorem start (r : BatchRequest) (inbox : Inbox) : Divided r inbox [] none inbox where
  front := ⟨[], inbox, rfl, rfl, rfl⟩
  plain := by simp
  marked := by simp
  fitting := by simp

theorem arrive (divided : Divided r arrived batch marker inbox) (more : List Message) :
    Divided r (arrived ++ more) batch marker (inbox ++ more) where
  front := by
    obtain ⟨front, back, split, matching, left⟩ := divided.front
    exact ⟨front, back ++ more, by rw [split, List.append_assoc], matching,
      by rw [left, List.append_assoc]⟩
  plain := divided.plain
  marked := divided.marked
  fitting := divided.fitting

theorem scan (divided : Divided r arrived batch none inbox) :
    ∃ s marker, Inbox.scan r.accepts (r.most.map (· - batch.length)) inbox = s ∧
      Divided r arrived (batch ++ s.taken) marker s.left ∧
      (s.closed = true → marker.isSome = true ∨ r.most = some (batch ++ s.taken).length) ∧
      (s.closed = false → marker = none) := by
  obtain ⟨front, back, split, matching, left⟩ := divided.front
  have refused : ∀ m ∈ front.filter (!r.accepts ·), r.accepts m = false := by simp
  obtain ⟨seen, unseen, marker, scanned⟩ :=
    Inbox.scan_divides r.accepts (r.most.map (· - batch.length)) back
  rw [left, Inbox.scan_append_of_refused r.accepts _ refused]
  generalize Inbox.scan r.accepts (r.most.map (· - batch.length)) back = s at scanned
  refine ⟨_, marker, rfl, ⟨⟨front ++ seen, unseen, ?_, ?_, ?_⟩, ?_, scanned.marked, ?_⟩, ?_,
    scanned.drained⟩
  · rw [split, scanned.divided, List.append_assoc]
  · rw [List.filter_append, matching, scanned.matching]
    simp
  · rw [List.filter_append, scanned.left, List.append_assoc]
  · intro m among
    exact (List.mem_append.1 among).elim (divided.plain m) (scanned.plain m)
  · intro k bound
    have fits := divided.fitting k bound
    have more : s.taken.length ≤ k - batch.length := scanned.fitting _ (by rw [bound]; rfl)
    calc (batch ++ s.taken).length = batch.length + s.taken.length := List.length_append
      _ ≤ k := by omega
  · intro closed
    refine (scanned.closed closed).imp_right fun full => ?_
    obtain ⟨k, bound, less⟩ := Option.map_eq_some_iff.1 full
    have fits := divided.fitting k bound
    rw [bound, List.length_append, ← less, Nat.add_sub_cancel' fits]

theorem collect (divided : Divided r arrived batch none inbox) :
    ∃ taken left complete marker, r.collect batch inbox = (taken, left, complete) ∧
      Divided r arrived taken marker left ∧
      (complete = true →
        marker.isSome = true ∨ r.most = some taken.length ∨ r.least ≤ taken.length) ∧
      (complete = false → marker = none) := by
  obtain ⟨s, marker, scanned, onward, closed, drained⟩ := divided.scan
  refine ⟨_, _, _, marker, by rw [BatchRequest.collect, scanned], onward, ?_, ?_⟩
  · intro complete
    rcases Bool.or_eq_true_iff.1 complete with marked | enough
    · exact (closed marked).imp_right .inl
    · exact .inr (.inr (of_decide_eq_true (Bool.and_eq_true_iff.1 enough).2))
  · intro going
    exact drained (Bool.or_eq_false_iff.1 going).1

theorem whole (divided : Divided r arrived batch marker inbox) :
    (batch ++ marker.toList ++ inbox).Perm arrived := by
  obtain ⟨front, back, split, matching, left⟩ := divided.front
  rw [← matching, left, split, ← List.append_assoc]
  exact (List.filter_append_perm r.accepts front).append_right back

theorem inOrder (divided : Divided r arrived batch marker inbox) :
    batch ++ marker.toList <+: arrived.filter r.accepts := by
  obtain ⟨front, back, split, matching, -⟩ := divided.front
  rw [split, List.filter_append, matching]
  exact List.prefix_append _ _

theorem others (divided : Divided r arrived batch marker inbox) :
    inbox.filter (!r.accepts ·) = arrived.filter (!r.accepts ·) := by
  obtain ⟨front, back, split, -, left⟩ := divided.front
  rw [left, split, List.filter_append, List.filter_append, List.filter_filter]
  simp

theorem accepted (divided : Divided r arrived batch marker inbox) {m : Message}
    (among : m ∈ batch ++ marker.toList) : r.accepts m = true := by
  obtain ⟨front, back, -, matching, -⟩ := divided.front
  rw [← matching] at among
  exact (List.mem_filter.1 among).2

end Divided

/-- How a batch can come out: kept, for a reason, or given up for want of messages when the time is
    over. -/
inductive Outcome (r : BatchRequest) (expired : Prop) (arrived : List Message) :
    List Message → Option Message → Inbox → Prop
  | kept {batch : List Message} {marker : Option Message} {inbox : Inbox}
      (divided : Divided r arrived batch marker inbox)
      (ended : marker.isSome = true ∨ r.most = some batch.length ∨ r.least ≤ batch.length) :
      Outcome r expired arrived batch marker inbox
  | givenUp {taken : List Message} {inbox : Inbox} (late : expired)
      (divided : Divided r arrived taken none inbox) (few : taken.length < r.least) :
      Outcome r expired arrived [] none (taken ++ inbox)

theorem Outcome.arrive {expired : Prop} (outcome : Outcome r expired arrived batch marker inbox)
    (more : List Message) : Outcome r expired (arrived ++ more) batch marker (inbox ++ more) := by
  cases outcome with
  | kept divided ended => exact .kept (divided.arrive more) ended
  | givenUp late divided few =>
    rw [List.append_assoc]
    exact .givenUp late (divided.arrive more) few

theorem Outcome.mono {expired after : Prop} (onward : expired → after)
    (outcome : Outcome r expired arrived batch marker inbox) :
    Outcome r after arrived batch marker inbox := by
  cases outcome with
  | kept divided ended => exact .kept divided ended
  | givenUp late divided few => exact .givenUp (onward late) divided few

theorem Divided.giveUp {expired : Prop} (late : expired)
    (divided : Divided r arrived batch none inbox) :
    Outcome r expired arrived (r.giveUp batch inbox).1 none (r.giveUp batch inbox).2 := by
  unfold BatchRequest.giveUp
  split
  case isTrue enough => exact .kept divided (.inr (.inr enough))
  case isFalse few => exact .givenUp late divided (Nat.lt_of_not_le few)

/-- What a batch request owes when it is over, of all that has arrived: a batch, what is left, and
    the marker that has been used up, if any. -/
structure Fulfilled (r : BatchRequest) (expired : Prop) (arrived batch : List Message)
    (marker : Option Message) (left : Inbox) : Prop where
  whole : (batch ++ marker.toList ++ left).Perm arrived
  fitting : ∀ k, r.most = some k → batch.length ≤ k
  matching : ∀ m ∈ batch, r.accepts m = true ∧ m.isMarker = false
  marked : ∀ m ∈ marker, r.accepts m = true ∧ m.isMarker = true
  inOrder : batch ++ marker.toList <+: arrived.filter r.accepts
  others : left.filter (!r.accepts ·) = arrived.filter (!r.accepts ·)
  /-- Either nothing that matches is left behind before the last message taken, and the batch is
      large enough unless a marker or the bound has ended it; or the time is over, and the too few
      messages taken are back in front. -/
  ended :
    ((∃ front back, arrived = front ++ back ∧ front.filter r.accepts = batch ++ marker.toList ∧
        left = front.filter (!r.accepts ·) ++ back) ∧
      (marker = none → r.most ≠ some batch.length → r.least ≤ batch.length)) ∨
    (expired ∧ batch = [] ∧ marker = none ∧
      ∃ front back, arrived = front ++ back ∧ (front.filter r.accepts).length < r.least ∧
        left = front.filter r.accepts ++ front.filter (!r.accepts ·) ++ back)

theorem Outcome.fulfilled {expired : Prop}
    (outcome : Outcome r expired arrived batch marker inbox) :
    Fulfilled r expired arrived batch marker inbox := by
  cases outcome with
  | kept divided ended =>
    constructor
    case whole => exact divided.whole
    case fitting => exact divided.fitting
    case matching =>
      intro m among
      exact ⟨divided.accepted (List.mem_append_left _ among), divided.plain m among⟩
    case marked =>
      intro m among
      exact ⟨divided.accepted (List.mem_append_right _ (Option.mem_toList.2 among)),
        divided.marked m among⟩
    case inOrder => exact divided.inOrder
    case others => exact divided.others
    case ended =>
      refine .inl ⟨divided.front, ?_⟩
      intro unmarked unbound
      rcases ended with marked | full | enough
      · rw [unmarked] at marked
        cases marked
      · exact absurd full unbound
      · exact enough
  | @givenUp taken left late divided few =>
    obtain ⟨front, back, split, matching, rest⟩ := divided.front
    rw [Option.toList_none, List.append_nil] at matching
    constructor
    case whole =>
      have whole := divided.whole
      rwa [Option.toList_none, List.append_nil] at whole
    case fitting => simp
    case matching => simp
    case marked => simp
    case inOrder => exact List.nil_prefix
    case others =>
      rw [List.filter_append, divided.others, ← matching, List.filter_filter]
      simp
    case ended =>
      refine .inr ⟨late, rfl, rfl, front, back, split, ?_, ?_⟩
      · rwa [matching]
      · rw [matching, rest, List.append_assoc]

end BatchRequest
end Playbook
