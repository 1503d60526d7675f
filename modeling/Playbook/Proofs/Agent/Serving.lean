import Playbook.Proofs.Agent.Depth
import Playbook.Proofs.Inbox.Looks

/- How an agent serves its inbox. A batch is a list of things to do, each message in one of them: one
   for each control message, in the order of arrival, and one for the conversation of each meeting.
   They are done one after the other, whatever comes of them. -/
namespace Playbook
open Script Activity Prompt

inductive Task where
  | control (m : Message)
  | converse (meeting : Option MeetingId) (messages : List Message)

namespace Task

def messages : Task → List Message
  | .control m => [m]
  | .converse _ messages => messages

def control? : Task → Option Message
  | .control m => some m
  | .converse .. => none

def meeting? : Task → Option (Option MeetingId)
  | .control _ => none
  | .converse meeting _ => some meeting

def saidIn (meeting : Option MeetingId) (m : Message) : Bool :=
  !m.kind.isControl && !m.isMarker && m.meeting = meeting

/-- The tasks that a batch is divided into. -/
structure Divide (batch : List Message) (tasks : List Task) : Prop where
  /-- Every control message is dealt with once, in the order of arrival. -/
  controls : tasks.filterMap control? = batch.filter (·.kind.isControl)
  /-- What is said in a meeting is dealt with together, in the order of arrival. -/
  said : ∀ meeting messages, .converse meeting messages ∈ tasks ↔
    messages = batch.filter (saidIn meeting) ∧ messages ≠ []
  /-- No meeting comes up twice. -/
  once : (tasks.filterMap meeting?).Nodup
  /-- Every message but markers is in one task, and in one only. -/
  whole : (tasks.flatMap messages).Perm (batch.filter (!·.isMarker))

end Task

namespace Conversations
variable {c : Conversations} {m : Message} {batch : List Message} {meeting : Option MeetingId}

def of (c : Conversations) : Option MeetingId → List Message
  | none => c.direct
  | some id => (c.meetings.get? id).getD []

/-- What is noted is noted in the order of the meetings, and something of each. -/
structure Tidy (c : Conversations) : Prop where
  sorted : c.meetings.Sorted
  filled : ∀ {id messages}, c.meetings.get? id = some messages → messages ≠ []

theorem tidy_empty : empty.Tidy := ⟨.nil, nofun⟩

theorem Tidy.add (tidy : c.Tidy) (m : Message) : (c.add m).Tidy := by
  unfold Conversations.add
  cases m.meeting with
  | none => exact ⟨tidy.sorted, tidy.filled⟩
  | some id =>
    refine ⟨Dict.sorted_insert tidy.sorted id _, ?_⟩
    intro other messages found
    by_cases same : id = other
    · subst same
      rw [Dict.get?_insert_self] at found
      cases found
      simp
    · rw [Dict.get?_insert_of_ne _ _ same] at found
      exact tidy.filled found

theorem of_add (c : Conversations) (m : Message) (meeting : Option MeetingId) :
    (c.add m).of meeting = c.of meeting ++ if m.meeting = meeting then [m] else [] := by
  unfold Conversations.add
  cases here : m.meeting with
  | none => cases meeting <;> simp [of]
  | some id =>
    cases meeting with
    | none => simp [of]
    | some other =>
      by_cases same : id = other
      · subst same
        simp [of, Dict.get?_insert_self]
      · simp [of, Dict.get?_insert_of_ne _ _ same, same]

theorem Tidy.mem_groups (tidy : c.Tidy) (meeting : Option MeetingId) (messages : List Message) :
    (meeting, messages) ∈ c.groups ↔ messages = c.of meeting ∧ messages ≠ [] := by
  unfold groups
  rw [List.mem_append]
  cases meeting with
  | none =>
    have apart : (none, messages) ∉ c.meetings.map fun e => (some e.1, e.2) := by simp
    cases said : c.direct with
    | nil =>
      simp only [said, of, List.isEmpty_nil, if_true, apart, List.not_mem_nil, or_self, false_iff]
      rintro ⟨rfl, some_message⟩
      exact some_message rfl
    | cons m rest =>
      simp only [said, of, List.isEmpty_cons, if_false, apart, or_false, List.mem_singleton,
        Prod.mk.injEq, true_and, Bool.false_eq_true]
      constructor
      · rintro rfl
        exact ⟨rfl, List.cons_ne_nil m rest⟩
      · exact And.left
  | some id =>
    have apart : (some id, messages) ∉ if c.direct.isEmpty then [] else [(none, c.direct)] := by
      split <;> simp
    have among : (some id, messages) ∈ (c.meetings.map fun e => (some e.1, e.2)) ↔
        (id, messages) ∈ c.meetings := by
      simp
    simp only [apart, false_or, among, of]
    constructor
    · intro mem
      have found := Dict.get?_of_mem tidy.sorted mem
      exact ⟨by rw [found, Option.getD_some], tidy.filled found⟩
    · rintro ⟨rfl, some_message⟩
      cases found : c.meetings.get? id with
      | none =>
        rw [found] at some_message
        exact absurd rfl some_message
      | some messages => exact Dict.mem_of_get? found

theorem Tidy.nodup_groups (tidy : c.Tidy) : (c.groups.map Prod.fst).Nodup := by
  have names : (c.meetings.map fun e => (some e.1, e.2)).map Prod.fst =
      (c.meetings.map Prod.fst).map some := by
    rw [List.map_map, List.map_map]
    rfl
  have distinct : ((c.meetings.map Prod.fst).map some).Nodup := by
    apply List.Pairwise.map _ _ tidy.sorted
    intro id other less same
    cases same
    exact String.lt_irrefl id less
  rw [groups, List.map_append, names]
  split
  · exact distinct
  · exact List.nodup_cons.2 ⟨by simp, distinct⟩

theorem flatMap_groups (c : Conversations) :
    c.groups.flatMap Prod.snd = c.direct ++ c.meetings.flatMap Prod.snd := by
  rw [groups, List.flatMap_append, List.flatMap_map]
  congr 1
  cases c.direct <;> simp

theorem perm_flatMap_insert {d : Dict (List Message)} (sorted : d.Sorted) (key : String)
    (m : Message) :
    ((d.insert key ((d.get? key).getD [] ++ [m])).flatMap Prod.snd).Perm
      (m :: d.flatMap Prod.snd) := by
  induction d with
  | nil => simp [Dict.insert, Dict.get?]
  | cons e rest ih =>
    obtain ⟨k, messages⟩ := e
    obtain ⟨above, sorted'⟩ := Dict.sorted_cons.1 sorted
    unfold Dict.insert Dict.get?
    split
    · simp only [List.flatMap_cons, Option.getD_some, List.append_assoc]
      exact List.perm_middle
    · rename_i different
      split
      · rename_i before
        have absent : Dict.get? rest key = none := by
          cases found : Dict.get? rest key with
          | none => rfl
          | some value =>
            have later := above _ (Dict.mem_of_get? found)
            exact absurd (String.lt_trans before later) (String.lt_irrefl key)
        simp [absent]
      · simp only [List.flatMap_cons]
        exact ((ih sorted').append_left messages).trans List.perm_middle

theorem Tidy.perm_groups_add (tidy : c.Tidy) (m : Message) :
    ((c.add m).groups.flatMap Prod.snd).Perm (m :: c.groups.flatMap Prod.snd) := by
  rw [flatMap_groups, flatMap_groups]
  unfold Conversations.add
  cases m.meeting with
  | none =>
    simp only [List.append_assoc]
    exact List.perm_middle
  | some id =>
    exact ((perm_flatMap_insert tidy.sorted id m).append_left c.direct).trans List.perm_middle

theorem Tidy.foldl (tidy : c.Tidy) (batch : List Message) :
    (batch.foldl Conversations.add c).Tidy := by
  induction batch generalizing c with
  | nil => exact tidy
  | cons m rest ih => exact ih (tidy.add m)

theorem of_foldl (c : Conversations) (batch : List Message) (meeting : Option MeetingId) :
    (batch.foldl Conversations.add c).of meeting =
      c.of meeting ++ batch.filter (·.meeting = meeting) := by
  induction batch generalizing c with
  | nil => simp
  | cons m rest ih =>
    rw [List.foldl_cons, ih, of_add, List.filter_cons, List.append_assoc]
    split <;> simp_all

theorem Tidy.perm_foldl (tidy : c.Tidy) (batch : List Message) :
    ((batch.foldl Conversations.add c).groups.flatMap Prod.snd).Perm
      (c.groups.flatMap Prod.snd ++ batch) := by
  induction batch generalizing c with
  | nil => simp
  | cons m rest ih =>
    rw [List.foldl_cons]
    refine (ih (tidy.add m)).trans ?_
    exact ((tidy.perm_groups_add m).append_right rest).trans List.perm_middle.symm

end Conversations

section Tasks

def Message.isSpoken (m : Message) : Bool := !m.kind.isControl && !m.isMarker

def spokenIn (batch : List Message) : Conversations :=
  (batch.filter (·.isSpoken)).foldl Conversations.add .empty

/-- First the control messages, then the conversations. -/
def tasksOf (batch : List Message) : List Task :=
  (batch.filter (·.kind.isControl)).map .control ++
    (spokenIn batch).groups.map fun g => .converse g.1 g.2

theorem divide_tasksOf (batch : List Message) : Task.Divide batch (tasksOf batch) := by
  have tidy : (spokenIn batch).Tidy := Conversations.tidy_empty.foldl _
  have said : ∀ meeting, (spokenIn batch).of meeting = batch.filter (Task.saidIn meeting) := by
    intro meeting
    have nothing : Conversations.empty.of meeting = [] := by cases meeting <;> rfl
    rw [spokenIn, Conversations.of_foldl, nothing, List.nil_append, List.filter_filter]
    congr 1
    funext m
    rw [Task.saidIn, Message.isSpoken, Bool.and_comm]
  constructor
  case controls =>
    rw [tasksOf, List.filterMap_append, List.filterMap_map, List.filterMap_map]
    have nothing : (Task.control? ∘ fun g : Option MeetingId × List Message =>
        Task.converse g.1 g.2) = fun _ => none := rfl
    have each : (Task.control? ∘ Task.control) = some := rfl
    rw [nothing, each]
    simp
  case said =>
    intro meeting messages
    have among : .converse meeting messages ∈ tasksOf batch ↔
        (meeting, messages) ∈ (spokenIn batch).groups := by
      simp [tasksOf]
    rw [among, tidy.mem_groups, said]
  case once =>
    rw [tasksOf, List.filterMap_append, List.filterMap_map, List.filterMap_map]
    have nothing : (Task.meeting? ∘ Task.control) = fun _ => none := rfl
    have each : (Task.meeting? ∘ fun g : Option MeetingId × List Message =>
        Task.converse g.1 g.2) = some ∘ Prod.fst := rfl
    rw [nothing, each, List.filterMap_eq_map, List.filterMap_eq_nil_iff.2 fun _ _ => rfl]
    exact tidy.nodup_groups
  case whole =>
    have messages : (tasksOf batch).flatMap Task.messages =
        batch.filter (·.kind.isControl) ++ (spokenIn batch).groups.flatMap Prod.snd := by
      rw [tasksOf, List.flatMap_append, List.flatMap_map, List.flatMap_map]
      have each : (fun m => (Task.control m).messages) = fun m => [m] := rfl
      rw [each]
      simp [Task.messages]
    have spoken : ((spokenIn batch).groups.flatMap Prod.snd).Perm (batch.filter (·.isSpoken)) :=
      Conversations.tidy_empty.perm_foldl _
    rw [messages]
    refine (spoken.append_left _).trans ?_
    have parted := List.filter_append_perm (·.kind.isControl) (batch.filter (!·.isMarker))
    rw [List.filter_filter, List.filter_filter] at parted
    have control : (fun m : Message => m.kind.isControl && !m.isMarker) = (·.kind.isControl) := by
      funext m
      cases kind : m.kind.isControl <;> simp [Message.isMarker, kind]
    rwa [control] at parted

namespace Agent.Handling
variable {handler : String} {c : Conversations} {m : Message}

def deal (handler : String) (h : Handling) : Task → Activity World Handling
  | .control m => h.receive m
  | .converse meeting messages => h.perform ⟨handler, [], meeting, messages⟩

def dealAll (handler : String) (h : Handling) : List Task → Activity World Handling
  | [] => .done h
  | task :: rest => (h.deal handler task).bind fun h => h.dealAll handler rest

theorem dealAll_append (handler : String) (h : Handling) (tasks more : List Task) :
    h.dealAll handler (tasks ++ more) =
      (h.dealAll handler tasks).bind fun h => h.dealAll handler more := by
  induction tasks generalizing h with
  | nil => rfl
  | cons task rest ih =>
    rw [List.cons_append, dealAll, dealAll, bind_assoc]
    congr 1
    funext k
    exact ih k

def noting (h : Handling) (c : Conversations) : Handling := { h with conversations := c }

theorem perform_noting (h : Handling) (c : Conversations) (i : Invocation) :
    (h.noting c).perform i = (h.perform i).bind fun k => .done (k.noting c) := by
  show Activity.bind _ _ = Activity.bind (Activity.bind _ _) _
  rw [bind_assoc]
  congr 1
  funext ⟨r, agent⟩
  cases r <;> rfl

theorem receive_noting (h : Handling) (c : Conversations) (control : m.kind.isControl = true) :
    (h.noting c).receive m = (h.receive m).bind fun k => .done (k.noting c) := by
  unfold receive
  split
  · show Activity.bind _ _ = Activity.bind (Activity.bind _ _) _
    rw [bind_assoc]
    congr 1
    funext outcome
    rcases outcome with fault | ⟨joined, invitation⟩ | meeting | ⟨meeting, reason⟩
    · rfl
    · show Activity.bind _ _ = Activity.bind (Activity.bind _ _) _
      rw [perform_noting, bind_assoc, bind_assoc]
      rfl
    · rfl
    · rfl
  · rfl
  · simp_all [MessageKind.isControl]
  · simp_all [MessageKind.isControl]

theorem receive_spoken (h : Handling) (spoken : m.kind.isControl = false) :
    h.receive m = .done (if m.isMarker then h else h.noting (h.conversations.add m)) := by
  unfold receive
  split
  · simp_all [MessageKind.isControl]
  · simp_all [MessageKind.isControl]
  · rfl
  · rfl

theorem converse_eq (h : Handling) (handler : String)
    (groups : List (Option MeetingId × List Message)) :
    h.converse handler groups = h.dealAll handler (groups.map fun g => .converse g.1 g.2) := by
  induction groups generalizing h with
  | nil => rfl
  | cons group rest ih =>
    obtain ⟨meeting, messages⟩ := group
    show Activity.bind _ _ = Activity.bind _ _
    congr 1
    funext k
    exact ih k

theorem converse_noting (h : Handling) (c : Conversations) (handler : String)
    (groups : List (Option MeetingId × List Message)) :
    (h.noting c).converse handler groups =
      (h.converse handler groups).bind fun k => .done (k.noting c) := by
  induction groups generalizing h with
  | nil => rfl
  | cons group rest ih =>
    obtain ⟨meeting, messages⟩ := group
    show Activity.bind _ _ = Activity.bind (Activity.bind _ _) _
    rw [perform_noting, bind_assoc, bind_assoc]
    congr 1
    funext k
    exact ih k

theorem receiveAll_eq (handler : String) (h : Handling) (c : Conversations)
    (batch : List Message) :
    h.receiveAll batch =
      ((h.noting c).dealAll handler ((batch.filter (·.kind.isControl)).map .control)).bind
        fun k => .done (k.noting ((batch.filter (·.isSpoken)).foldl .add h.conversations)) := by
  induction batch generalizing h with
  | nil => rfl
  | cons m rest ih =>
    cases kind : m.kind.isControl with
    | true =>
      have again : h.receive m = (h.receive m).bind fun k => .done (k.noting h.conversations) :=
        h.receive_noting h.conversations kind
      have silent : ¬ m.isSpoken = true := by simp [Message.isSpoken, kind]
      rw [List.filter_cons_of_pos (by exact kind), List.filter_cons_of_neg silent, List.map_cons,
        dealAll, deal, receive_noting h c kind, receiveAll]
      show Activity.bind _ _ = _
      rw [again, bind_assoc, bind_assoc, bind_assoc, bind_assoc]
      congr 1
      funext k
      exact ih (k.noting h.conversations)
    | false =>
      rw [List.filter_cons_of_neg (by simp [kind]), receiveAll, receive_spoken h kind]
      cases marked : m.isMarker with
      | true =>
        rw [List.filter_cons_of_neg (by simp [Message.isSpoken, marked])]
        exact ih h
      | false =>
        rw [List.filter_cons_of_pos (by simp [Message.isSpoken, kind, marked])]
        exact ih (h.noting (h.conversations.add m))

end Agent.Handling

theorem Agent.handleBatch_eq {a : Agent} {handler : String}
    (knows : a.host.repertoire.messageHandler = some handler) (batch : List Message) :
    a.handleBatch batch = (Handling.dealAll handler ⟨a, 0, .empty⟩ (tasksOf batch)).bind
      fun h => .done (h.runs, h.agent) := by
  rw [handleBatch, knows, Handling.receiveAll_eq handler _ .empty, tasksOf, Handling.dealAll_append]
  show Activity.bind (Activity.bind _ _) _ = _
  rw [bind_assoc, bind_assoc]
  congr 1
  funext k
  show Activity.bind (Handling.converse (k.noting (spokenIn batch)) handler _) _ = _
  rw [Handling.converse_noting, bind_assoc, Handling.converse_eq]
  rfl

end Tasks

section Service
variable {n most idle : Nat} {m m' m₁ m₂ : Moment World} {deeds more : List (Nat × Message)}

/-- A batch has been taken out of an inbox, and perhaps the marker after it; what else came, before
    or after that, is there in order. -/
structure Takes (n most : Nat) (m : Moment World) (deeds : List (Nat × Message))
    (batch : List Message) (marker : Option Message) (m' : Moment World) : Prop where
  divided : ∃ seen later left, deeds = seen ++ later ∧
    m.world.post.box n ++ seen.map (·.2) = batch ++ marker.toList ++ left ∧
    m'.world.post.box n = left ++ later.map (·.2)
  plain : ∀ x ∈ batch, x.isMarker = false
  marked : ∀ x ∈ marker, x.isMarker = true
  fitting : batch.length ≤ most
  something : batch = [] → marker.isSome = true

theorem takes_of_look {timeout : Nat} {seen later : List (Nat × Message)}
    {batch left : List Message} (room : 0 < most)
    (looked : (BatchRequest.upTo most (fun _ => true) timeout).collect []
      (m.world.post.box n ++ seen.map (·.2)) = (batch, left, true))
    (box : m'.world.post.box n = left ++ later.map (·.2)) :
    ∃ marker, Takes n most m (seen ++ later) batch marker m' := by
  obtain ⟨taken, left', complete, marker, looked', divided, done, -⟩ :=
    (BatchRequest.Divided.start (.upTo most (fun _ => true) timeout)
      (m.world.post.box n ++ seen.map (·.2))).collect
  rw [looked'] at looked
  cases looked
  obtain ⟨front, back, split, matching, rest⟩ := divided.front
  have all : front.filter (BatchRequest.upTo most (fun _ => true) timeout).accepts = front := by
    simp
  have none_left : front.filter (!(BatchRequest.upTo most (fun _ => true) timeout).accepts ·) = [] := by
    simp
  rw [all] at matching
  rw [none_left, List.nil_append] at rest
  subst matching rest
  refine ⟨marker, ⟨seen, later, left, rfl, split, box⟩, divided.plain, divided.marked,
    divided.fitting most rfl, ?_⟩
  rintro rfl
  rcases done rfl with marked | full | enough
  · exact marked
  · simp only [List.length_nil, Option.some.injEq] at full
    omega
  · simp at enough

def Host.listening (host : Host) (idle : Nat) : Activity World (Nat × List Message) :=
  Activity.now.bind fun started =>
    (collectBatch host.inbox (.upTo host.maxBatchMessages (fun _ => true) idle)).bind fun batch =>
      .done (started, batch)

def Agent.respond (a : Agent) (idle handled : Nat) :
    Nat × List Message → Activity World ((Nat × Agent) ⊕ (Nat × Agent))
  | (started, []) => Activity.now.bind fun now =>
    .done (if idle ≤ now - started then .inr (handled, a) else .inl (handled, a))
  | (_, m :: rest) => (a.handleBatch (m :: rest)).bind fun p =>
    .done (.inl (handled + (m :: rest).length, p.2))

/-- A whole period has gone by in which there was nothing in the inbox. What is there now has come in
    its very last moment. -/
structure Lull (n idle : Nat) (m : Moment World) (deeds : List (Nat × Message))
    (m' : Moment World) : Prop where
  nothing : m.world.post.box n = []
  time : m'.time = m.time + idle
  last : ∀ e ∈ deeds, e.1 = m'.time
  box : m'.world.post.box n = deeds.map (·.2)

theorem Takes.stable {batch : List Message} {marker : Option Message} :
    Stable n (Delivers n) fun arrived m' => Takes n most m arrived batch marker m' := by
  rintro arrived m' deeds w ⟨⟨seen, later, left, rfl, split, box⟩, plain, marked, fitting, something⟩ done
  refine ⟨⟨seen, later ++ deeds.map (m'.time, ·), left, by simp, split, ?_⟩, plain, marked, fitting,
    something⟩
  show w.post.box n = _
  rw [done.box, box]
  simp [Function.comp_def]

theorem Lull.stable : Stable n (Delivers n) fun arrived m' => Lull n idle m arrived m' := by
  rintro arrived m' deeds w ⟨nothing, time, last, box⟩ done
  refine ⟨nothing, time, ?_, ?_⟩
  · intro e mem
    rcases List.mem_append.1 mem with old | new
    · exact last e old
    · obtain ⟨x, _, rfl⟩ := List.mem_map.1 new
      rfl
  · show w.post.box n = _
    rw [done.box, box]
    simp [Function.comp_def]

inductive Listened (n most idle : Nat) (m : Moment World) (deeds : List (Nat × Message))
    (batch : List Message) (m' : Moment World) : Prop
  | some {marker : Option Message} (takes : Takes n most m deeds batch marker m')
    (early : m'.time = m.time ∨ m'.time < m.time + idle)
  | nothing (empty : batch = []) (lull : Lull n idle m deeds m')

theorem Looked.listened {inbox : Inbox} {batch : List Message} (room : 0 < most)
    (inbox_eq : m.world.post.box n = inbox)
    (looked : Looked n m.time (.upTo most (fun _ => true) idle) inbox batch deeds m') :
    Listened n most idle m deeds batch m' := by
  subst inbox_eq
  cases looked with
  | taken split looked box early =>
    obtain ⟨marker, takes⟩ := takes_of_look room looked box
    rw [← split] at takes
    exact .some takes (early.imp_right And.right)
  | vain empty vain =>
    obtain ⟨box, finished, seen, later, split, refused, last⟩ := vain
    have nothing : m.world.post.box n ++ seen.map (·.2) = [] :=
      List.eq_nil_iff_forall_not_mem.2 fun x mem => nomatch refused x mem
    obtain ⟨empty_inbox, unseen⟩ := List.append_eq_nil_iff.1 nothing
    rw [List.map_eq_nil_iff] at unseen
    subst unseen
    rw [List.nil_append] at split
    subst split
    refine .nothing empty ⟨empty_inbox, finished, ?_, ?_⟩
    · rw [finished]
      exact last
    · rw [box, empty_inbox, List.nil_append]

theorem keeps_listening (host : Host) (began : Nat) (inbox : Inbox) :
    Keeps host.inbox (Delivers host.inbox)
      (fun arrived m => m.time = began ∧
        m.world.post.box host.inbox = inbox ++ arrived.map (·.2))
      (host.listening idle) fun p arrived m => p.1 = began ∧
        Looked host.inbox began (.upTo host.maxBatchMessages (fun _ => true) idle) inbox p.2
          arrived m := by
  have stable (p : Nat × List Message) : Stable host.inbox (Delivers host.inbox) fun arrived m =>
      p.1 = began ∧ Looked host.inbox began (.upTo host.maxBatchMessages (fun _ => true) idle)
        inbox p.2 arrived m := by
    rintro arrived m deeds w ⟨same, looked⟩ done
    exact ⟨same, Looked.stable _ looked done⟩
  have collects : Keeps host.inbox (Delivers host.inbox)
      (fun arrived m => m.time = began ∧
        m.world.post.box host.inbox = inbox ++ arrived.map (·.2))
      (collectBatch host.inbox (.upTo host.maxBatchMessages (fun _ => true) idle))
      (Looked host.inbox began (.upTo host.maxBatchMessages (fun _ => true) idle) inbox) :=
    keeps_collectOne
  refine .act (fun t arrived m => t = began ∧ m.time = began ∧
    m.world.post.box host.inbox = inbox ++ arrived.map (·.2)) collects.stable ?_ ?_
  · rintro arrived m ⟨time, box⟩
    exact ⟨time, time, box⟩
  · intro t
    refine .assuming fun same => ?_
    subst same
    exact collects.bind fun batch =>
      .weaken (Looked.stable batch) (fun looked => ⟨rfl, looked⟩) (.done (t, batch) (stable _))

theorem listened_of_steps {host : Host} {started : Nat} {batch : List Message}
    (room : 0 < host.maxBatchMessages)
    (ran : Steps host.inbox (Delivers host.inbox) ⟨host.listening idle, m⟩ deeds
      ⟨.done (started, batch), m'⟩) :
    started = m.time ∧ Listened host.inbox host.maxBatchMessages idle m deeds batch m' := by
  have begins : m.time = m.time ∧ m.world.post.box host.inbox =
      m.world.post.box host.inbox ++ ([] : List (Nat × Message)).map (·.2) :=
    ⟨rfl, (List.append_nil _).symm⟩
  have looked := (keeps_listening host m.time (m.world.post.box host.inbox)).sound begins ran
  exact ⟨looked.1, looked.2.listened room rfl⟩

theorem box_of_listening {host : Host} {x : Activity World (Nat × List Message)}
    (ran : Steps host.inbox (Delivers host.inbox) ⟨host.listening idle, m⟩ deeds ⟨x, m'⟩)
    (going : ∀ p, x ≠ .done p) :
    m'.world.post.box host.inbox = m.world.post.box host.inbox ++ deeds.map (·.2) := by
  let grown (arrived : List (Nat × Message)) (m' : Moment World) : Prop :=
    m'.world.post.box host.inbox = m.world.post.box host.inbox ++ arrived.map (·.2)
  have stable : Stable host.inbox (Delivers host.inbox) grown := by
    intro arrived m₁ deeds w box done
    refine done.box.trans ?_
    rw [box]
    simp [Function.comp_def]
  have begins : grown [] m := (List.append_nil _).symm
  generalize reached : (⟨x, m'⟩ : Doing World _) = d at ran
  cases ran.sequel with
  | first early =>
    cases reached
    exact (Steps.now_last stable (fun box => box) begins early).1
  | second early late =>
    subst reached
    have box := (Steps.now_last stable (fun box => box) begins early).1
    obtain ⟨x', rfl, collecting⟩ := Steps.map late
    rcases box_of_seeking collecting with ⟨batch, finished⟩ | ⟨-, more⟩
    · cases finished
      exact absurd rfl (going _)
    · refine more.trans ?_
      rw [box]
      simp

inductive Dealt (n : Nat) (handler : String) :
    Agent.Handling → Moment World → List Task → List (Nat × Message) → Agent.Handling →
      Moment World → Prop
  | nothing {h : Agent.Handling} {m m' : Moment World} {deeds : List (Nat × Message)}
    (still : Still n (Delivers n) m deeds m') : Dealt n handler h m [] deeds h m'
  | task {h k l : Agent.Handling} {m m₁ m' : Moment World} {task : Task} {tasks : List Task}
    {early late : List (Nat × Message)}
    (ran : Steps n (Delivers n) ⟨h.deal handler task, m⟩ early ⟨.done k, m₁⟩)
    (rest : Dealt n handler k m₁ tasks late l m') :
    Dealt n handler h m (task :: tasks) (early ++ late) l m'

/-- Tasks that are being dealt with, or have been. -/
inductive Dealing (n : Nat) (handler : String) :
    Agent.Handling → Moment World → List Task → List (Nat × Message) → Moment World → Prop
  | finished {h k : Agent.Handling} {m m' : Moment World} {tasks : List Task}
    {deeds : List (Nat × Message)} (dealt : Dealt n handler h m tasks deeds k m') :
    Dealing n handler h m tasks deeds m'
  | within {h : Agent.Handling} {m m' : Moment World} {task : Task} {tasks : List Task}
    {deeds : List (Nat × Message)} {x : Activity World Agent.Handling}
    (ran : Steps n (Delivers n) ⟨h.deal handler task, m⟩ deeds ⟨x, m'⟩) :
    Dealing n handler h m (task :: tasks) deeds m'
  | after {h k : Agent.Handling} {m m₁ m' : Moment World} {task : Task} {tasks : List Task}
    {early late : List (Nat × Message)}
    (ran : Steps n (Delivers n) ⟨h.deal handler task, m⟩ early ⟨.done k, m₁⟩)
    (rest : Dealing n handler k m₁ tasks late m') :
    Dealing n handler h m (task :: tasks) (early ++ late) m'

variable {handler : String} {h : Agent.Handling} {x : Activity World Agent.Handling}
  {tasks : List Task}

theorem Dealt.of_steps {k : Agent.Handling}
    (ran : Steps n (Delivers n) ⟨h.dealAll handler tasks, m⟩ deeds ⟨.done k, m'⟩) :
    Dealt n handler h m tasks deeds k m' := by
  induction tasks generalizing h m deeds with
  | nil =>
    obtain ⟨finished, still⟩ := ran.still
    cases finished
    exact .nothing still
  | cons task rest ih =>
    obtain ⟨early, late, k', m₁, rfl, first, second⟩ := ran.bind_done
    exact .task first (ih second)

theorem Dealing.of_steps
    (ran : Steps n (Delivers n) ⟨h.dealAll handler tasks, m⟩ deeds ⟨x, m'⟩) :
    Dealing n handler h m tasks deeds m' := by
  induction tasks generalizing h m deeds with
  | nil =>
    obtain ⟨-, still⟩ := ran.still
    exact .finished (.nothing still)
  | cons task rest ih =>
    generalize reached : (⟨x, m'⟩ : Doing World Agent.Handling) = d at ran
    cases ran.sequel with
    | first early =>
      cases reached
      exact .within early
    | second first second =>
      subst reached
      exact .after first (ih second)

inductive ServiceRound (host : Host) (handler : String) (idle handled : Nat) (b : Agent)
    (m : Moment World) (deeds : List (Nat × Message))
    (x : Activity World ((Nat × Agent) ⊕ (Nat × Agent))) (m' : Moment World) : Prop
  | listens
    (box : m'.world.post.box host.inbox = m.world.post.box host.inbox ++ deeds.map (·.2))
    (going : ∀ r, x ≠ .done r)
  | deals {batch : List Message} {marker : Option Message} {tasks : List Task}
    {early late : List (Nat × Message)} {m₁ : Moment World} (split : deeds = early ++ late)
    (takes : Takes host.inbox host.maxBatchMessages m early batch marker m₁)
    (divide : Task.Divide batch tasks)
    (dealing : Dealing host.inbox handler ⟨b, 0, .empty⟩ m₁ tasks late m')
    (going : ∀ r, x ≠ .done r)
  | dealt {batch : List Message} {marker : Option Message} {tasks : List Task}
    {early late : List (Nat × Message)} {m₁ : Moment World} {h : Agent.Handling}
    (split : deeds = early ++ late)
    (takes : Takes host.inbox host.maxBatchMessages m early batch marker m₁)
    (divide : Task.Divide batch tasks)
    (dealt : Dealt host.inbox handler ⟨b, 0, .empty⟩ m₁ tasks late h m')
    (same : h.agent.host = host)
    (result : ∀ r, x = .done r → r = .inl (handled + batch.length, h.agent))
  | idles (lull : Lull host.inbox idle m deeds m')
    (result : ∀ r, x = .done r → r = .inr (handled, b))

section Turns
variable {b : Agent} {handled : Nat} {batch : List Message}
  {y : Activity World ((Nat × Agent) ⊕ (Nat × Agent))}

theorem ServiceRound.of_listened (knows : b.host.repertoire.messageHandler = some handler)
    (patient : 0 < idle)
    (listened : Listened b.host.inbox b.host.maxBatchMessages idle m deeds batch m₁)
    (ran : Steps b.host.inbox (Delivers b.host.inbox)
      ⟨b.respond idle handled (m.time, batch), m₁⟩ more ⟨y, m'⟩) :
    ServiceRound b.host handler idle handled b m (deeds ++ more) y m' := by
  cases batch with
  | nil =>
    cases listened with
    | some takes early =>
      obtain ⟨takes', time, result⟩ := Steps.now_last Takes.stable
        (P := fun arrived m' => Takes b.host.inbox b.host.maxBatchMessages m arrived [] _ m')
        (fun takes => ⟨takes.divided, takes.plain, takes.marked, takes.fitting, takes.something⟩)
        takes ran
      have in_time : ¬ idle ≤ m₁.time - m.time := by omega
      refine .dealt (List.append_nil _).symm takes' (divide_tasksOf [])
        (.nothing fun x => .none _) rfl ?_
      intro r finished
      rw [result r finished, if_neg in_time]
      rfl
    | nothing _ lull =>
      obtain ⟨lull', time, result⟩ := Steps.now_last Lull.stable
        (P := fun arrived m' => Lull b.host.inbox idle m arrived m')
        (fun lull => ⟨lull.nothing, lull.time, lull.last, lull.box⟩) lull ran
      have late : idle ≤ m₁.time - m.time := by
        rw [lull.time]
        omega
      refine .idles lull' ?_
      intro r finished
      rw [result r finished, if_pos late]
  | cons message rest =>
    cases listened with
    | nothing empty => cases empty
    | some takes =>
      obtain ⟨x₁, rfl, handling⟩ := Steps.map ran
      have follows := Steps.upholds handling
        (Agent.handleBatch_upholds (W := Watch.nothing) (fun store _ => Watch.Keeps.nothing store) _)
      rw [Agent.handleBatch_eq knows] at handling
      obtain ⟨x₂, rfl, dealing⟩ := Steps.map handling
      cases x₂ with
      | done h =>
        cases follows with
        | done follows =>
        refine .dealt rfl takes (divide_tasksOf _) (.of_steps dealing) follows.host ?_
        intro r finished
        cases finished
        rfl
      | _ =>
        refine .deals rfl takes (divide_tasksOf _) (.of_steps dealing) ?_
        intro r finished
        cases finished

theorem ServiceRound.of_steps (knows : b.host.repertoire.messageHandler = some handler)
    (room : 0 < b.host.maxBatchMessages) (patient : 0 < idle)
    (ran : Steps b.host.inbox (Delivers b.host.inbox)
      ⟨(b.host.listening idle).bind (b.respond idle handled), m⟩ deeds ⟨y, m'⟩) :
    ServiceRound b.host handler idle handled b m deeds y m' := by
  generalize reached : (⟨y, m'⟩ : Doing World _) = d at ran
  cases ran.sequel with
  | @second _ _ found _ _ early late =>
    obtain ⟨started, batch⟩ := found
    subst reached
    obtain ⟨rfl, listened⟩ := listened_of_steps room early
    exact .of_listened knows patient listened late
  | @first _ x₁ _ early =>
    cases reached
    cases x₁ with
    | done found =>
      obtain ⟨started, batch⟩ := found
      obtain ⟨rfl, listened⟩ := listened_of_steps room early
      rw [← List.append_nil deeds]
      exact .of_listened knows patient listened (.none _)
    | _ =>
      refine .listens (box_of_listening early nofun) ?_
      intro r finished
      cases finished

end Turns

section Rounds
variable {host : Host} {a b : Agent} {batches : List (List Message)}
  {before : List (Nat × Message)} {d : Doing World (Nat × Agent)}

end Rounds

end Service
end Playbook
