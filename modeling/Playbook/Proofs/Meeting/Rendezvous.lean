import Playbook.Proofs.Activity.Prompt
import Playbook.Proofs.Meeting.Guests

/- An owner waits for the answers of those whom it has invited. Others write into its inbox as they
   please; whoever answers does so in its own name. Whatever comes before the deadline is heard. -/
namespace Playbook
open Activity Prompt Convening

theorem isMarker_of_isAnswer {id : MeetingId} {m : Message} (answer : isAnswer id m = true) :
    m.isMarker = false := by
  have kind : m.kind = .response ∧ m.meeting = some id := by simpa [isAnswer] using answer
  simp [Message.isMarker, kind.1, MessageKind.isControl]

theorem Inbox.scan_all {accepts : Message → Bool} {inbox : Inbox}
    (plain : ∀ m ∈ inbox, accepts m = true → m.isMarker = false) :
    inbox.scan accepts none = ⟨inbox.filter accepts, inbox.filter (!accepts ·), false⟩ := by
  induction inbox with
  | nil => rfl
  | cons m rest ih =>
    have later := ih fun m' mem => plain m' (List.mem_cons_of_mem _ mem)
    rw [scan, if_neg (by simp)]
    by_cases accepted : accepts m = true
    · rw [plain m List.mem_cons_self accepted]
      simp [accepted, later]
    · simp [accepted, later]

theorem collect_answers (id : MeetingId) (timeout : Nat) (inbox : Inbox) :
    BatchRequest.collect ⟨isAnswer id, timeout, 1, none⟩ [] inbox =
      (inbox.filter (isAnswer id), inbox.filter (!isAnswer id ·),
        !(inbox.filter (isAnswer id)).isEmpty) := by
  have looked : inbox.scan (isAnswer id) (Option.map (· - ([] : List Message).length) none) = _ :=
    Inbox.scan_all fun m _ answer => isMarker_of_isAnswer answer
  simp only [BatchRequest.collect, looked, List.nil_append, Bool.false_or]
  cases inbox.filter (isAnswer id) <;> simp

/-- How all that has arrived is divided: the answers heard, in front, the other answers, which are
    in the inbox, and everything else, which is there too. -/
structure Parted (id : MeetingId) (inbox : Inbox) (arrived heard rest : List (Nat × Message))
    (left : Inbox) : Prop where
  others : left.filter (!isAnswer id ·) = (inbox ++ arrived.map (·.2)).filter (!isAnswer id ·)
  answers : arrived.filter (isAnswer id ·.2) = heard ++ rest
  unheard : left.filter (isAnswer id) = rest.map (·.2)

namespace Parted
variable {id : MeetingId} {inbox left : Inbox} {arrived heard rest : List (Nat × Message)}

theorem arrive (parted : Parted id inbox arrived heard rest left) (more : List (Nat × Message)) :
    Parted id inbox (arrived ++ more) heard (rest ++ more.filter (isAnswer id ·.2))
      (left ++ more.map (·.2)) where
  others := by
    rw [List.filter_append, parted.others, List.map_append, ← List.append_assoc,
      List.filter_append (inbox ++ arrived.map (·.2))]
  answers := by rw [List.filter_append, parted.answers, List.append_assoc]
  unheard := by
    rw [List.filter_append, parted.unheard, List.map_append, List.filter_map]
    rfl

theorem take (parted : Parted id inbox arrived heard rest left) :
    Parted id inbox arrived (heard ++ rest) [] (left.filter (!isAnswer id ·)) where
  others := by rw [List.filter_filter, ← parted.others]; simp
  answers := by rw [List.append_nil, parted.answers]
  unheard := by rw [List.filter_filter]; simp

end Parted

section
variable (n : Nat) (id : MeetingId) (deadline : Nat) (inbox : Inbox)

/-- The owner has heard such answers. At the deadline it has heard all that came before. -/
structure Midway (heard arrived : List (Nat × Message)) (m : Moment World) : Prop where
  own : ∀ e ∈ arrived, isAnswer id e.2 = true → OwnAnswer id e.2
  past : ∀ e ∈ arrived, e.1 ≤ m.time
  bound : m.time ≤ deadline
  early : ∀ e ∈ heard, e.1 < deadline
  parted : ∃ rest left, m.world.post.boxes[n]? = some left ∧
    Parted id inbox arrived heard rest left ∧ (deadline ≤ m.time → ∀ e ∈ rest, deadline ≤ e.1)

variable {n id deadline inbox} {heard arrived : List (Nat × Message)} {m : Moment World}

theorem Midway.stable (heard : List (Nat × Message)) :
    Stable n (Answering n id) (Midway n id deadline inbox heard) := by
  intro arrived m deeds w midway done
  obtain ⟨rest, left, box, parted, timely⟩ := midway.parted
  refine ⟨?_, ?_, midway.bound, midway.early, _, _, done.feeds left box,
    by simpa [Function.comp_def] using parted.arrive (deeds.map (m.time, ·)), ?_⟩
  · intro e mem answer
    rcases List.mem_append.1 mem with old | new
    · exact midway.own e old answer
    · obtain ⟨x, among, rfl⟩ := List.mem_map.1 new
      exact done.own x among answer
  · intro e mem
    rcases List.mem_append.1 mem with old | new
    · exact midway.past e old
    · obtain ⟨x, among, rfl⟩ := List.mem_map.1 new
      exact Nat.le_refl _
  · intro late e mem
    rcases List.mem_append.1 mem with old | new
    · exact timely late e old
    · obtain ⟨x, among, rfl⟩ := List.mem_map.1 (List.mem_filter.1 new).1
      exact late

theorem Midway.calling (midway : Midway n id deadline inbox heard arrived m) (called : Bool) :
    Midway n id deadline inbox heard arrived { m with called } :=
  ⟨midway.own, midway.past, midway.bound, midway.early, midway.parted⟩

theorem midway_start (none : inbox.filter (isAnswer id) = [])
    (box : m.world.post.boxes[n]? = some inbox) (bound : m.time ≤ deadline) :
    Midway n id deadline inbox [] [] m where
  own e mem := nomatch mem
  past e mem := nomatch mem
  bound := bound
  early e mem := nomatch mem
  parted := ⟨[], inbox, box, ⟨by simp, rfl, none⟩, fun _ e mem => nomatch mem⟩

theorem Midway.change (midway : Midway n id deadline inbox heard arrived m) {w : World}
    (same : w.post.boxes[n]? = m.world.post.boxes[n]?) :
    Midway n id deadline inbox heard arrived (m.change n w) := by
  obtain ⟨rest, left, box, divided⟩ := midway.parted
  exact ⟨midway.own, midway.past, midway.bound, midway.early, rest, left, same.trans box, divided⟩

/-- A call is not missed: when there are answers in the inbox, the owner will look. -/
def Awake (n : Nat) (id : MeetingId) (m : Moment World) : Prop :=
  ∀ left, m.world.post.boxes[n]? = some left → left.filter (isAnswer id) ≠ [] → m.called = true

theorem Awake.arrive {deeds : List Message} {w : World} {left : Inbox}
    (box : m.world.post.boxes[n]? = some left) (awake : Awake n id m)
    (done : Answering n id deeds m.world w) : Awake n id (m.change n w) := by
  intro left' box' answers
  cases deeds with
  | nil =>
    have same := done.feeds left box
    rw [List.append_nil] at same
    cases same.symm.trans box'
    have called := awake left box answers
    simp [Moment.change, called]
  | cons d rest =>
    have calls : n ∈ w.post.arrivals := done.calls (by simp)
    simp [Moment.change, Signals.collect, calls]

def Searching (n : Nat) (id : MeetingId) (deadline : Nat) (inbox : Inbox)
    (heard : List (Nat × Message)) (batch : List Message) : Assertion Message World :=
  fun arrived m => batch = [] ∧ Midway n id deadline inbox heard arrived m ∧ m.time < deadline

def Found (n : Nat) (id : MeetingId) (deadline : Nat) (inbox : Inbox)
    (heard : List (Nat × Message)) (batch : List Message) : Assertion Message World :=
  fun arrived m => ∃ more, batch = more.map (·.2) ∧
    Midway n id deadline inbox (heard ++ more) arrived m ∧ (more = [] → deadline ≤ m.time)

theorem searching_stable (heard : List (Nat × Message)) (batch : List Message) :
    Stable n (Answering n id) (Searching n id deadline inbox heard batch) := by
  rintro arrived m deeds w ⟨none, midway, early⟩ done
  exact ⟨none, Midway.stable heard midway done, early⟩

theorem found_stable (heard : List (Nat × Message)) (batch : List Message) :
    Stable n (Answering n id) (Found n id deadline inbox heard batch) := by
  rintro arrived m deeds w ⟨more, same, midway, late⟩ done
  exact ⟨more, same, Midway.stable _ midway done, late⟩

def Idle (n : Nat) (id : MeetingId) (deadline : Nat) (inbox : Inbox)
    (heard : List (Nat × Message)) (batch : List Message) : Assertion Message World :=
  fun arrived m => Searching n id deadline inbox heard batch arrived m ∧ Awake n id m

theorem idle_stable (heard : List (Nat × Message)) (batch : List Message) :
    Stable n (Answering n id) (Idle n id deadline inbox heard batch) := by
  rintro arrived m deeds w ⟨searching, awake⟩ done
  obtain ⟨rest, left, box, _⟩ := searching.2.1.parted
  exact ⟨searching_stable heard batch searching done, awake.arrive box done⟩

theorem Midway.look (midway : Midway n id deadline inbox heard arrived m)
    (early : m.time < deadline) (timeout : Nat) : ∃ batch complete w,
    World.collect n ⟨isAnswer id, timeout, 1, none⟩ [] m.world = ((batch, complete), w) ∧
      (complete = true → Found n id deadline inbox heard batch arrived (m.change n w)) ∧
      (complete = false → Idle n id deadline inbox heard batch arrived (m.change n w)) := by
  obtain ⟨rest, left, box, parted, timely⟩ := midway.parted
  refine ⟨_, _, _, collect_of_box box (collect_answers id timeout left), ?_, ?_⟩
  · intro complete
    rw [parted.unheard] at complete ⊢
    refine ⟨rest, rfl, ⟨midway.own, midway.past, midway.bound, ?_, [], _, setBox_get box _,
      parted.take, ?_⟩, ?_⟩
    · intro e mem
      rcases List.mem_append.1 mem with old | new
      · exact midway.early e old
      · have among : e ∈ arrived.filter (isAnswer id ·.2) := by
          rw [parted.answers]
          exact List.mem_append_right _ new
        exact Nat.lt_of_le_of_lt (midway.past e (List.mem_filter.1 among).1) early
    · intro _ e mem
      cases mem
    · rintro rfl
      simp at complete
  · intro complete
    have none : left.filter (isAnswer id) = [] := by simpa using complete
    have whole : left.filter (!isAnswer id ·) = left := by
      rw [List.filter_eq_self]
      intro m' mem
      have refused := List.filter_eq_nil_iff.1 none m' mem
      simpa using refused
    rw [whole]
    refine ⟨⟨none, midway.change ((setBox_get box left).trans box.symm), early⟩, ?_⟩
    intro left' box' answers
    cases (setBox_get box left).symm.trans box'
    exact absurd none answers

theorem batchRound_eq (r : BatchRequest) (batch : List Message) :
    batchRound n r deadline batch = .act (fun _ w => World.collect n r batch w) fun p =>
      if p.2 then .done (.inr p.1) else .listen n deadline fun heard =>
        if heard then .done (.inl p.1)
        else .act (fun _ w => World.giveUp n r p.1 w) fun batch => .done (.inr batch) := by
  rfl

theorem Idle.late {batch : List Message} (idle : Idle n id deadline inbox heard batch arrived m)
    (called : m.called = false) :
    Midway n id deadline inbox heard arrived { m with time := max m.time deadline } := by
  obtain ⟨⟨_, midway, early⟩, awake⟩ := idle
  obtain ⟨rest, left, box, parted, _⟩ := midway.parted
  have none : rest = [] := by
    cases rest with
    | nil => rfl
    | cons e rest =>
      have calls := awake left box (by rw [parted.unheard]; simp)
      rw [called] at calls
      cases calls
  refine ⟨midway.own, ?_, ?_, midway.early, rest, left, box, parted, ?_⟩
  · intro e mem
    exact Nat.le_trans (midway.past e mem) (Nat.le_max_left ..)
  · exact Nat.max_le.2 ⟨midway.bound, Nat.le_refl _⟩
  · intro _ e mem
    rw [none] at mem
    cases mem

theorem keeps_batchRound (heard : List (Nat × Message)) (timeout : Nat) (batch : List Message) :
    Keeps n (Answering n id) (Searching n id deadline inbox heard batch)
      (batchRound n ⟨isAnswer id, timeout, 1, none⟩ deadline batch)
      (afterwards (Searching n id deadline inbox heard) (Found n id deadline inbox heard)) := by
  rw [batchRound_eq]
  refine .act (fun p => if p.2 then Found n id deadline inbox heard p.1
    else Idle n id deadline inbox heard p.1) (searching_stable heard batch) ?_ ?_
  · rintro arrived m ⟨rfl, midway, early⟩
    obtain ⟨batch, complete, w, looked, found, idle⟩ := midway.look early timeout
    rw [looked]
    cases complete with
    | true => exact found rfl
    | false => exact idle rfl
  rintro ⟨batch, complete⟩
  cases complete with
  | true =>
    show Keeps n _ (afterwards (Searching n id deadline inbox heard) (Found n id deadline inbox heard)
      (.inr batch)) (.done (Sum.inr batch)) _
    exact .done _ (found_stable heard batch)
  | false =>
    refine .listen (fun called => if called then Searching n id deadline inbox heard batch
      else fun arrived m => batch = [] ∧ Midway n id deadline inbox heard arrived m ∧ deadline ≤ m.time)
      (idle_stable heard batch) ?_ ?_ ?_ ?_
    · rintro arrived m again ⟨⟨none, midway, early⟩, _⟩ _
      exact ⟨none, midway.calling again, early⟩
    · rintro arrived m u ⟨⟨none, midway, early⟩, awake⟩ _ later before
      obtain ⟨rest, left, box, parted, _⟩ := midway.parted
      refine ⟨⟨none, ⟨midway.own, fun e mem => Nat.le_trans (midway.past e mem) later,
        Nat.le_of_lt before, midway.early, rest, left, box, parted, ?_⟩, before⟩, awake⟩
      intro late
      exact absurd before (Nat.not_lt.2 late)
    · intro arrived m idle called
      exact ⟨idle.1.1, idle.late called, Nat.le_max_right ..⟩
    · intro called
      cases called with
      | true =>
        show Keeps n _ (afterwards (Searching n id deadline inbox heard)
          (Found n id deadline inbox heard) (.inl batch)) (.done (Sum.inl batch)) _
        exact .done _ (searching_stable heard batch)
      | false =>
        refine .act (Found n id deadline inbox heard) ?_ ?_ ?_
        · rintro arrived m deeds w ⟨none, midway, late⟩ done
          exact ⟨none, Midway.stable heard midway done, late⟩
        · rintro arrived m ⟨rfl, midway, late⟩
          obtain ⟨rest, left, box, _⟩ := midway.parted
          rw [giveUp_of_box box]
          refine ⟨[], rfl, ?_, fun _ => late⟩
          rw [List.append_nil]
          exact midway.change ((setBox_get box left).trans box.symm)
        · intro batch
          show Keeps n _ (afterwards (Searching n id deadline inbox heard)
            (Found n id deadline inbox heard) (.inr batch)) (.done (Sum.inr batch)) _
          exact .done _ (found_stable heard batch)

theorem calm_batchLoop_halts (r : BatchRequest) (batch : List Message) {m : Moment World}
    (uncalled : m.called = false) (calm : n ∉ m.world.post.arrivals) :
    Halts n ⟨.loop batch (batchRound n r deadline) .done, m⟩ := by
  have round := Move.round (n := n) batch (batchRound n r deadline) .done m
  rw [batchRound_bind] at round
  refine Halts.after ?_ (.more round (.one (.act ..)))
  have quiet : (m.change n (World.collect n r batch m.world).2).called = false := by
    have arrivals : (World.collect n r batch m.world).2.post.arrivals = m.world.post.arrivals := rfl
    simp [Moment.change, Signals.collect, uncalled, arrivals, calm]
  generalize m.change n (World.collect n r batch m.world).2 = m' at quiet
  rcases World.collect n r batch m.world with ⟨⟨taken, complete⟩, w⟩
  cases complete with
  | true => exact ⟨taken, m', .none _⟩
  | false => exact ⟨_, _, .more (.late _ _ _ quiet) (.one (.act ..))⟩

theorem batchLoop_halts (n : Nat) (r : BatchRequest) (deadline : Nat) (batch : List Message)
    (m : Moment World) : Halts n ⟨.loop batch (batchRound n r deadline) .done, m⟩ := by
  have round := Move.round (n := n) batch (batchRound n r deadline) .done m
  rw [batchRound_bind] at round
  refine Halts.after ?_ (.more round (.one (.act ..)))
  have calm : n ∉ (m.change n (World.collect n r batch m.world).2).world.post.arrivals := by
    simp [Moment.change, Signals.collect]
  generalize m.change n (World.collect n r batch m.world).2 = m' at calm
  rcases World.collect n r batch m.world with ⟨⟨taken, complete⟩, w⟩
  cases complete with
  | true => exact ⟨taken, m', .none _⟩
  | false =>
    cases called : m'.called with
    | false => exact ⟨_, _, .more (.late _ _ _ called) (.one (.act ..))⟩
    | true =>
      refine Halts.after ?_ (.one (.heard _ _ _ called false))
      exact calm_batchLoop_halts r taken rfl calm

theorem keeps_collectBatch (heard : List (Nat × Message)) {now timeout : Nat}
    (span : now + timeout = deadline) :
    Keeps n (Answering n id)
      (fun arrived m => m.time = now ∧ Searching n id deadline inbox heard [] arrived m)
      (collectBatch n ⟨isAnswer id, timeout, 1, none⟩) (Found n id deadline inbox heard) := by
  rw [collectBatch_eq]
  refine .act (fun t arrived m => t = now ∧ Searching n id deadline inbox heard [] arrived m)
    ?_ ?_ ?_
  · rintro arrived m deeds w ⟨time, searching⟩ done
    exact ⟨time, searching_stable heard [] searching done⟩
  · rintro arrived m ⟨time, none, midway, early⟩
    exact ⟨time, none, midway.change rfl, early⟩
  · intro t
    refine .assuming fun same => ?_
    subst same
    subst span
    refine .loop _ _ [] (searching_stable heard) (keeps_batchRound heard timeout)
      (fun _ => batchLoop_halts ..) ?_
    intro batch
    exact .done batch (found_stable heard batch)

def conveneRound (n deadline : Nat) (c : Convening) : Activity World (Convening ⊕ Convening) :=
  .act (fun t w => (t, w)) fun now =>
    if c.pending.isEmpty || deadline ≤ now then .done (.inr c)
    else (collectBatch n ⟨isAnswer c.meeting, deadline - now, 1, none⟩).bind fun batch =>
      .act (fun _ w => World.assembled (c.hearAll · batch) w) fun c => .done (.inl c)

def arranging (owner : Signature) (n timeout : Nat) (r : MeetingRequest) (c : Convening) :
    Activity World (Except MeetingError MeetingId) :=
  .act (fun t w => (t, w)) fun t => .loop c (conveneRound n (t + timeout)) fun c =>
    .act (fun _ w => World.assembled (c.settle owner r) w) .done

theorem convene_eq (owner : Signature) (n timeout : Nat) (r : MeetingRequest) :
    convene owner n timeout r =
      .act (fun _ w => World.assembled (Convening.start owner r) w) (arranging owner n timeout r) :=
  rfl

theorem arranging_hears (owner : Signature) (n timeout : Nat) (r : MeetingRequest) (c : Convening) :
    Schedule.Hears (· = n) (arranging owner n timeout r c) := by
  refine .act fun t => .loop (fun c => .act fun now => ?_) fun c => .act .done
  split
  · exact .done _
  · exact (hears_collectBatch (· = n) rfl _).bind fun batch => .act fun c => .done _

variable {c₀ : Convening}

def Heard (c₀ : Convening) (heard : List (Nat × Message)) (c : Convening) : Prop :=
  c = (heard.map (·.2)).foldl noting c₀

theorem Heard.meeting {heard : List (Nat × Message)} {c : Convening} (noted : Heard c₀ heard c) :
    c.meeting = c₀.meeting := by
  subst noted
  exact meeting_foldl_noting ..

def Arranged (n deadline : Nat) (inbox : Inbox) (c₀ c : Convening) : Assertion Message World :=
  fun arrived m => ∃ heard, Heard c₀ heard c ∧ Midway n c₀.meeting deadline inbox heard arrived m

def Settled (n deadline : Nat) (inbox : Inbox) (c₀ c : Convening) : Assertion Message World :=
  fun arrived m => ∃ heard, Heard c₀ heard c ∧
    Midway n c₀.meeting deadline inbox heard arrived m ∧ (c.pending = [] ∨ deadline ≤ m.time)

def Further (n deadline : Nat) (inbox : Inbox) (c₀ : Convening) (heard : List (Nat × Message)) :
    Convening ⊕ Convening → Assertion Message World :=
  afterwards
    (fun c arrived m => ∃ more, Heard c₀ (heard ++ more) c ∧
      Midway n c₀.meeting deadline inbox (heard ++ more) arrived m ∧
      (more = [] → deadline ≤ m.time))
    (Settled n deadline inbox c₀)

theorem arranged_stable (c : Convening) :
    Stable n (Answering n c₀.meeting) (Arranged n deadline inbox c₀ c) := by
  rintro arrived m deeds w ⟨heard, noted, midway⟩ done
  exact ⟨heard, noted, Midway.stable heard midway done⟩

theorem settled_stable (c : Convening) :
    Stable n (Answering n c₀.meeting) (Settled n deadline inbox c₀ c) := by
  rintro arrived m deeds w ⟨heard, noted, midway, ended⟩ done
  exact ⟨heard, noted, Midway.stable heard midway done, ended⟩

theorem further_stable (heard : List (Nat × Message)) (outcome : Convening ⊕ Convening) :
    Stable n (Answering n c₀.meeting) (Further n deadline inbox c₀ heard outcome) := by
  cases outcome with
  | inl c =>
    rintro arrived m deeds w ⟨more, noted, midway, late⟩ done
    exact ⟨more, noted, Midway.stable _ midway done, late⟩
  | inr c => exact settled_stable c

theorem keeps_conveneRound {heard : List (Nat × Message)} {c : Convening} (noted : Heard c₀ heard c) :
    Keeps n (Answering n c₀.meeting) (Midway n c₀.meeting deadline inbox heard)
      (conveneRound n deadline c) (Further n deadline inbox c₀ heard) := by
  refine .act (fun now arrived m => m.time = now ∧
    Midway n c₀.meeting deadline inbox heard arrived m) (Midway.stable heard) ?_ ?_
  · intro arrived m midway
    exact ⟨rfl, midway.change rfl⟩
  intro now
  have still : Stable n (Answering n c₀.meeting)
      fun arrived m => m.time = now ∧ Midway n c₀.meeting deadline inbox heard arrived m := by
    rintro arrived m deeds w ⟨time, midway⟩ done
    exact ⟨time, Midway.stable heard midway done⟩
  split
  · rename_i ended
    have ended : c.pending = [] ∨ deadline ≤ now := by simpa using ended
    refine .weaken (P := Further n deadline inbox c₀ heard (.inr c)) still ?_
      (.done _ (further_stable heard _))
    rintro arrived m ⟨time, midway⟩
    exact ⟨heard, noted, midway, by rw [time]; exact ended⟩
  · rename_i going
    have early : now < deadline := by
      simp only [Bool.or_eq_true, decide_eq_true_eq, not_or] at going
      omega
    rw [noted.meeting]
    have left : now + (deadline - now) = deadline := Nat.add_sub_cancel' (Nat.le_of_lt early)
    have searched : Keeps n (Answering n c₀.meeting) _ _ (Found n c₀.meeting deadline inbox heard) :=
      keeps_collectBatch heard left
    refine Keeps.bind (Q := Found n c₀.meeting deadline inbox heard)
      (.weaken still ?_ searched) ?_
    · rintro arrived m ⟨time, midway⟩
      exact ⟨time, rfl, midway, by rw [time]; exact early⟩
    · intro batch
      refine .act (fun c => Further n deadline inbox c₀ heard (.inl c)) (found_stable heard batch)
        ?_ fun c => .done (Sum.inl c) (further_stable heard (.inl c))
      rintro arrived m ⟨more, rfl, midway, late⟩
      obtain ⟨hears, post⟩ := c.hearAll_noting m.world.toAssembly (more.map (·.2))
      refine ⟨more, ?_, midway.change ?_, late⟩
      · have noted' : c = (heard.map (·.2)).foldl noting c₀ := noted
        show (c.hearAll m.world.toAssembly (more.map (·.2))).1 = _
        rw [hears, List.map_append, List.foldl_append, ← noted']
      · show (c.hearAll m.world.toAssembly (more.map (·.2))).2.post.boxes[n]? = _
        rw [post]

theorem conveneLoop_over (c : Convening) {m : Moment World} (ended : deadline ≤ m.time) :
    Halts n ⟨.loop c (conveneRound n deadline) .done, m⟩ := by
  refine Halts.after ?_ (.more (.round ..) (.one (.act ..)))
  simp only [ended, decide_true, Bool.or_true, if_true]
  exact ⟨c, _, .none _⟩

/-- Every round brings answers that have not been heard, of which there are only so many when
    nobody else acts, or it is the last but one. -/
theorem conveneLoop_halts (k : Nat) {heard : List (Nat × Message)} {c : Convening}
    (noted : Heard c₀ heard c) (midway : Midway n c₀.meeting deadline inbox heard arrived m)
    (few : (arrived.filter (isAnswer c₀.meeting ·.2)).length < k + heard.length) :
    Halts n ⟨.loop c (conveneRound n deadline) .done, m⟩ := by
  induction k generalizing heard c m with
  | zero =>
    obtain ⟨rest, left, _, parted, _⟩ := midway.parted
    rw [parted.answers, List.length_append] at few
    omega
  | succ k ih =>
    have rounds : Keeps n _ (Midway n c₀.meeting deadline inbox heard) _ _ :=
      keeps_conveneRound noted
    refine Halts.after (Halts.bind (rounds.halts midway) ?_) (.one (.round ..))
    intro outcome m' ran
    have holds := rounds.alone midway ran
    cases outcome with
    | inr c' => exact ⟨c', m', .none _⟩
    | inl c' =>
      obtain ⟨more, noted', midway', late⟩ := holds
      show Halts n ⟨.loop c' (conveneRound n deadline) .done, m'⟩
      cases more with
      | nil => exact conveneLoop_over c' (late rfl)
      | cons e more =>
        refine ih noted' midway' ?_
        simp only [List.length_append, List.length_cons]
        omega

def Concluded (n deadline : Nat) (inbox : Inbox) (c₀ : Convening)
    (result : Except MeetingError MeetingId) : Assertion Message World :=
  fun arrived m => ∃ c, result = c.outcome ∧ Settled n deadline inbox c₀ c arrived m

theorem concluded_stable (result : Except MeetingError MeetingId) :
    Stable n (Answering n c₀.meeting) (Concluded n deadline inbox c₀ result) := by
  rintro arrived m deeds w ⟨c, same, settled⟩ done
  exact ⟨c, same, settled_stable c settled done⟩

theorem keeps_conveneLoop (n deadline : Nat) (inbox : Inbox) (c₀ : Convening) :
    Keeps n (Answering n c₀.meeting) (Arranged n deadline inbox c₀ c₀)
      (.loop c₀ (conveneRound n deadline) .done) (Settled n deadline inbox c₀) := by
  refine .loop (Arranged n deadline inbox c₀) (Settled n deadline inbox c₀) c₀ arranged_stable ?_ ?_
    fun c => .done c (settled_stable c)
  · intro c
    refine .any fun heard => .assuming fun noted => ?_
    refine (keeps_conveneRound noted).relax (further_stable heard) ?_ ?_
    · intro outcome
      cases outcome with
      | inl c => exact arranged_stable c
      | inr c => exact settled_stable c
    · intro outcome arrived m further
      cases outcome with
      | inl c =>
        obtain ⟨more, noted, midway, _⟩ := further
        exact ⟨_, noted, midway⟩
      | inr c => exact further
  · rintro c arrived m ⟨heard, noted, midway⟩
    exact conveneLoop_halts _ noted midway (Nat.lt_add_right _ (Nat.lt_succ_self _))

theorem keeps_arranging (owner : Signature) (timeout now : Nat) (r : MeetingRequest) :
    Keeps n (Answering n c₀.meeting)
      (fun arrived m => m.time = now ∧ Midway n c₀.meeting (now + timeout) inbox [] arrived m)
      (arranging owner n timeout r c₀) (Concluded n (now + timeout) inbox c₀) := by
  refine .act (fun t arrived m => t = now ∧ Midway n c₀.meeting (now + timeout) inbox [] arrived m)
    ?_ ?_ ?_
  · rintro arrived m deeds w ⟨time, midway⟩ done
    exact ⟨time, Midway.stable [] midway done⟩
  · rintro arrived m ⟨time, midway⟩
    exact ⟨time, midway.change rfl⟩
  intro t
  refine .assuming fun same => ?_
  subst same
  refine .weaken (Midway.stable []) (fun midway => ⟨[], rfl, midway⟩)
    ((keeps_conveneLoop n (t + timeout) inbox c₀).bind fun c => ?_)
  refine .act (Concluded n (t + timeout) inbox c₀) (settled_stable c) ?_
    fun result => .done result (concluded_stable result)
  rintro arrived m ⟨heard, noted, midway, ended⟩
  refine ⟨c, c.settle_outcome owner r m.world.toAssembly, heard, noted, midway.change ?_, ended⟩
  show (c.settle owner r m.world.toAssembly).2.post.boxes[n]? = _
  rw [(Assembly.settle_house c owner r m.world.toAssembly).1]

/-- The answers about a meeting that have come before the deadline. -/
def answersInTime (id : MeetingId) (deadline : Nat) (arrived : List (Nat × Message)) : List Message :=
  ((arrived.filter (·.1 < deadline)).map (·.2)).filter (isAnswer id)

theorem Midway.answersInTime {heard : List (Nat × Message)}
    (midway : Midway n id deadline inbox heard arrived m) : ∃ more,
    Playbook.answersInTime id deadline arrived = heard.map (·.2) ++ more ∧
      (deadline ≤ m.time → more = []) := by
  obtain ⟨rest, left, _, parted, timely⟩ := midway.parted
  refine ⟨(rest.filter (·.1 < deadline)).map (·.2), ?_, ?_⟩
  · have swapped : (arrived.filter (·.1 < deadline)).filter (isAnswer id ·.2) =
        (arrived.filter (isAnswer id ·.2)).filter (·.1 < deadline) := by
      rw [List.filter_filter, List.filter_filter]
      congr 1
      funext e
      exact Bool.and_comm _ _
    have whole : heard.filter (·.1 < deadline) = heard := by
      rw [List.filter_eq_self]
      intro e mem
      exact decide_eq_true (midway.early e mem)
    rw [Playbook.answersInTime, List.filter_map]
    show ((arrived.filter (·.1 < deadline)).filter (isAnswer id ·.2)).map (·.2) = _
    rw [swapped, parted.answers, List.filter_append, whole, List.map_append]
  · intro late
    rw [List.map_eq_nil_iff, List.filter_eq_nil_iff]
    intro e mem
    have after := timely late e mem
    simp only [decide_eq_true_eq]
    omega

theorem Settled.decided {p : PostOffice} {owner : AgentId} {r : MeetingRequest} {c : Convening}
    (settled : Settled n deadline inbox c₀ c arrived m)
    (nodup : (c₀.pending ++ c₀.rejected).Nodup)
    (pending : ∀ x, x ∈ c₀.pending ↔ x ∈ asked owner r ∧ (p.boxOf? x).isSome = true)
    (rejected : ∀ x, x ∈ c₀.rejected ↔ x ∈ asked owner r ∧ (p.boxOf? x).isSome = false) :
    Decided c₀.meeting (asked owner r)
      (verdict p (answersInTime c₀.meeting deadline arrived)) c.outcome := by
  obtain ⟨heard, noted, midway, ended⟩ := settled
  obtain ⟨rest, left, _, parted, _⟩ := midway.parted
  have own : ∀ x ∈ heard.map (·.2), OwnAnswer c₀.meeting x := by
    intro x mem
    obtain ⟨e, among, rfl⟩ := List.mem_map.1 mem
    have answer : e ∈ arrived.filter (isAnswer c₀.meeting ·.2) := by
      rw [parted.answers]
      exact List.mem_append_left _ among
    obtain ⟨came, about⟩ := List.mem_filter.1 answer
    exact midway.own e came about
  have all := noted_foldl nodup own
  have noted : c = (heard.map (·.2)).foldl noting c₀ := noted
  rw [← noted] at all
  apply decided_of_noted all pending rejected
  intro x mem
  obtain ⟨more, same, none⟩ := midway.answersInTime
  rw [same]
  rcases ended with nobody | late
  · cases answered : firstAnswer (heard.map (·.2)) x with
    | none =>
      have waited := (all.pending x).2 ⟨mem, answered⟩
      rw [nobody] at waited
      cases waited
    | some accepted => exact firstAnswer_append answered more
  · rw [none late, List.append_nil]

end

/-- An owner arranges a meeting in an inbox that is its own, while others write into it whatever
    they like, answering in their own names when they answer. It comes to its end if it is left
    alone, at the deadline at the latest. The meeting takes place just when every required attendee
    has an inbox and the first answer that it has sent before the deadline is an acceptance.
    Otherwise those named are just the ones that have no inbox or have declined, or, if there are
    none, those that have not answered. Whatever else has come into the inbox is left there in its
    order. -/
theorem required_attendees_decide (owner : Signature) {n timeout t : Nat} {r : MeetingRequest}
    {inbox : Inbox} {w : World} {called : Bool} {deeds : List (Nat × Message)}
    {a b : Doing World (Except MeetingError MeetingId)} (distinct : r.required.Nodup)
    (box : w.post.boxes[n]? = some inbox) (alone : ∀ x, w.post.boxOf? x = some n → x = owner.id)
    (fresh : ∀ m ∈ inbox, isAnswer (Uuid.ofBits w.post.nextId) m = false)
    (begins : Move n ⟨convene owner n timeout r, ⟨t, w, called⟩⟩ b)
    (ran : Steps n (Answering n (Uuid.ofBits w.post.nextId)) b deeds a) :
    Halts n a ∧ ∀ result, a.left = .done result →
      a.now.time ≤ t + timeout ∧
      Decided (Uuid.ofBits w.post.nextId) (asked owner.id r)
        (verdict w.post (answersInTime (Uuid.ofBits w.post.nextId) (t + timeout) deeds)) result ∧
      ∃ left, a.now.world.post.boxes[n]? = some left ∧
        left.filter (!isAnswer (Uuid.ofBits w.post.nextId) ·) =
          (inbox ++ deeds.map (·.2)).filter (!isAnswer (Uuid.ofBits w.post.nextId) ·) := by
  rw [convene_eq] at begins
  cases begins
  obtain ⟨meeting, nodup, pending, rejected, boxes⟩ := start_asks owner distinct w.toAssembly
  have box₁ : (Convening.start owner r w.toAssembly).2.post.boxes[n]? = some inbox :=
    (boxes n alone).trans box
  change Steps n _ ⟨arranging owner n timeout r (Convening.start owner r w.toAssembly).1,
    Moment.change n ⟨t, w, called⟩ (World.assembled (Convening.start owner r) w).2⟩ _ _ at ran
  have time : (Moment.change n ⟨t, w, called⟩
      (World.assembled (Convening.start owner r) w).2).time = t := rfl
  have box₂ : (Moment.change n ⟨t, w, called⟩
      (World.assembled (Convening.start owner r) w).2).world.post.boxes[n]? = some inbox := box₁
  generalize Moment.change n ⟨t, w, called⟩ (World.assembled (Convening.start owner r) w).2 = m₁
    at ran time box₂
  generalize (Convening.start owner r w.toAssembly).1 = c₀ at meeting nodup pending rejected ran
  rw [← meeting] at ran fresh ⊢
  have none : inbox.filter (isAnswer c₀.meeting) = [] := by
    rw [List.filter_eq_nil_iff]
    intro m mem
    rw [fresh m mem]
    decide
  have keeps : Keeps n _ (fun arrived m => m.time = t ∧
      Midway n c₀.meeting (t + timeout) inbox [] arrived m) _ _ := keeps_arranging owner timeout t r
  have here : Midway n c₀.meeting (t + timeout) inbox [] [] m₁ :=
    midway_start none box₂ (by omega)
  obtain ⟨P, keeps', here'⟩ := keeps.steps (d := ⟨_, m₁⟩) ⟨time, here⟩ ran
  refine ⟨keeps'.halts here', ?_⟩
  intro result done
  rw [done] at keeps'
  obtain ⟨c, rfl, settled⟩ := keeps'.result here'
  rw [List.nil_append] at settled
  have decided := settled.decided nodup pending rejected
  obtain ⟨heard, _, midway, _⟩ := settled
  obtain ⟨rest, left, box', parted, _⟩ := midway.parted
  exact ⟨midway.bound, decided, left, box', parted.others⟩

/- A host that already has a letter, and two guests: Ann knows the playbook and Bob does not. -/
namespace Appointment

def host : Signature := ⟨"host", "Host"⟩

def request : MeetingRequest := ⟨"Planning", "plans", ["ann", "bob"], []⟩

def meeting : MeetingId := Uuid.ofBits 0

def world : World :=
  { World.start 0 "now" .empty with
    post := ⟨[[letter "ada" "1"], [], []], [("ann", 1), ("bob", 2), ("host", 0)], [], 0, "now"⟩ }

def guests : Schedule World (Except MeetingError MeetingId) :=
  { Schedule.start world with
    ready := [⟨1, attending ⟨"ann", "Guest"⟩ 1 5 fun _ => true⟩,
      ⟨2, attending ⟨"bob", "Guest"⟩ 2 5 fun _ => false⟩] }

def underway : Schedule World (Except MeetingError MeetingId) :=
  guests.turn 0 (convene host 0 10 request)

instance decidableEqResult : DecidableEq (Except MeetingError MeetingId)
  | .ok id, .ok id' => decidable_of_iff (id = id') (by simp)
  | .error e, .error e' => decidable_of_iff (e = e') (by simp)
  | .ok _, .error _ => isFalse (by simp)
  | .error _, .ok _ => isFalse (by simp)

theorem result : (underway.runUntil 0 60).result? 0 = some (.error (.rejected meeting ["bob"])) := by
  decide +kernel

theorem deaf : guests.Deaf 0 0 := by
  constructor
  · intro r among _
    simp only [guests, List.mem_cons, List.not_mem_nil, or_false] at among
    rcases among with rfl | rfl
    all_goals exact attending_hears (by decide) ..
  · intro v among
    cases among

theorem company : guests.Company (Schedule.Doings (Answering 0 meeting)) 0 := by
  constructor
  · intro r among _
    simp only [guests, List.mem_cons, List.not_mem_nil, or_false] at among
    rcases among with rfl | rfl
    all_goals exact attending_within (by decide) (Uuid.valid_ofBits 0) (by decide) ..
  · intro v among
    cases among

theorem alone (x : AgentId) (own : world.post.boxOf? x = some 0) : x = host.id := by
  simp only [world, PostOffice.boxOf?, Dict.get?] at own
  grind [host]

end Appointment

open Appointment in
theorem required_attendees_decide_when_one_declines :
    request.required.Nodup ∧ world.post.boxes[0]? = some [letter "ada" "1"] ∧
      (∀ x, world.post.boxOf? x = some 0 → x = host.id) ∧
      (∀ m ∈ [letter "ada" "1"], isAnswer meeting m = false) ∧
      ∃ b deeds a, Move 0 ⟨convene host 0 10 request, ⟨0, world, false⟩⟩ b ∧
        Steps 0 (Answering 0 meeting) b deeds a ∧
        a.left = .done (.error (.rejected meeting ["bob"])) ∧ a.now.time ≤ 0 + 10 ∧
        Decided meeting (asked "host" request)
          (verdict world.post (answersInTime meeting (0 + 10) deeds))
          (.error (.rejected meeting ["bob"])) ∧
        ∃ left, a.now.world.post.boxes[0]? = some left ∧ left.filter (!isAnswer meeting ·) =
          ([letter "ada" "1"] ++ deeds.map (·.2)).filter (!isAnswer meeting ·) := by
  obtain ⟨begins, sole⟩ : Move 0 ⟨convene host 0 10 request, guests.moment 0⟩
        ⟨_, underway.moment 0⟩ ∧ underway.Sole (Answering 0 meeting) 0 0 _ :=
    Schedule.Absent.act ⟨rfl, rfl, rfl⟩ deaf company fun c => arranging_hears host 0 10 request c
  obtain ⟨deeds, ran⟩ := sole.steps_of_result result
  have fresh : ∀ m ∈ [letter "ada" "1"], isAnswer meeting m = false := by decide +kernel
  obtain ⟨_, decided⟩ := required_attendees_decide host (by decide) rfl alone fresh begins ran
  exact ⟨by decide, rfl, alone, fresh, _, deeds, _, begins, ran, rfl, decided _ rfl⟩

end Playbook
