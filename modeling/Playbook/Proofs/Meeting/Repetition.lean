import Playbook.Proofs.Meeting.Verdicts

/- Attendees that are asked more than once. Whoever arranges a meeting waits for an attendee as
   often as it is named among the required, while one answer that accepts is all that it will
   give. -/
namespace Playbook

namespace Convening
variable {willing : AgentId → Bool} {heard : List Message} {c : Convening}

def Candid (willing : AgentId → Bool) (m : Message) : Prop :=
  ∃ id reason, m.response = .ok ⟨id, m.sender, willing m.sender, reason⟩

theorem noting_candid {m : Message} (candid : Candid willing m) (c : Convening) :
    (c.noting m).pending = c.pending.erase m.sender ∧
      ∀ x, x ∈ (c.noting m).rejected ↔
        x ∈ c.rejected ∨ x ∈ c.pending ∧ willing x = false ∧ m.sender = x := by
  obtain ⟨id, reason, read⟩ := candid
  simp only [noting, read]
  split
  case isFalse absent =>
    have absent : m.sender ∉ c.pending := by simpa using absent
    refine ⟨(List.erase_of_not_mem absent).symm, fun x => ⟨.inl, ?_⟩⟩
    rintro (old | ⟨mem, _, rfl⟩)
    · exact old
    · exact absurd mem absent
  case isTrue present =>
    have present : m.sender ∈ c.pending := by simpa using present
    cases mind : willing m.sender with
    | true =>
      refine ⟨rfl, fun x => ⟨.inl, ?_⟩⟩
      rintro (old | ⟨_, unwilling, rfl⟩)
      · exact old
      · rw [mind] at unwilling
        cases unwilling
    | false =>
      refine ⟨rfl, fun x => ?_⟩
      simp only [Bool.false_eq_true, if_false, List.mem_append, List.mem_singleton]
      constructor
      · rintro (old | rfl)
        · exact .inl old
        · exact .inr ⟨present, mind, rfl⟩
      · rintro (old | ⟨_, _, rfl⟩)
        · exact .inl old
        · exact .inr rfl

/-- What candid answers make of a meeting: each name is struck off as often as its bearer has
    answered, and those who decline are noted. -/
theorem foldl_noting_candid (candid : ∀ m ∈ heard, Candid willing m) (c : Convening) :
    (∀ x, (heard.foldl noting c).pending.count x =
      c.pending.count x - heard.countP (·.sender = x)) ∧
      ∀ x, x ∈ (heard.foldl noting c).rejected ↔
        x ∈ c.rejected ∨ x ∈ c.pending ∧ willing x = false ∧ ∃ m ∈ heard, m.sender = x := by
  induction heard generalizing c with
  | nil => simp
  | cons m rest ih =>
    obtain ⟨pending, rejected⟩ := noting_candid (candid m List.mem_cons_self) c
    obtain ⟨counts, refused⟩ :=
      ih (fun m' mem => candid m' (List.mem_cons_of_mem _ mem)) (c.noting m)
    constructor
    · intro x
      rw [List.foldl_cons, counts, pending, List.count_erase, List.countP_cons]
      by_cases same : m.sender = x
      · simp [same]
        omega
      · simp [same]
    · intro x
      rw [List.foldl_cons, refused, rejected, pending]
      by_cases same : m.sender = x
      · subst same
        constructor
        · rintro ((old | ⟨mem, unwilling, _⟩) | ⟨mem, unwilling, _⟩)
          · exact .inl old
          · exact .inr ⟨mem, unwilling, m, List.mem_cons_self, rfl⟩
          · exact .inr ⟨List.mem_of_mem_erase mem, unwilling, m, List.mem_cons_self, rfl⟩
        · rintro (old | ⟨mem, unwilling, _⟩)
          · exact .inl (.inl old)
          · exact .inl (.inr ⟨mem, unwilling, rfl⟩)
      · rw [List.mem_erase_of_ne (Ne.symm same)]
        simp [same]

/-- What comes of a meeting when of those asked, with their repetitions, some come and some do not.
    Whoever is asked twice does not answer twice. -/
inductive Ruled (id : MeetingId) (asked : List AgentId) (comes : AgentId → Bool) :
    Except MeetingError MeetingId → Prop where
  | takesPlace (all : ∀ x ∈ asked, comes x = true) (once : ∀ x, asked.count x ≤ 1) :
    Ruled id asked comes (.ok id)
  | rejected (names : List AgentId) (some_name : names ≠ [])
    (exactly : ∀ x, x ∈ names ↔ x ∈ asked ∧ comes x = false) :
    Ruled id asked comes (.error (.rejected id names))
  | timedOut (names : List AgentId) (some_name : names ≠ []) (all : ∀ x ∈ asked, comes x = true)
    (exactly : ∀ x, x ∈ names ↔ 2 ≤ asked.count x) :
    Ruled id asked comes (.error (.timedOut id names))

/-- The same outcome, whatever the order of the names and however often each is among them. -/
inductive Agree : Except MeetingError MeetingId → Except MeetingError MeetingId → Prop where
  | ok (id : MeetingId) : Agree (.ok id) (.ok id)
  | rejected (id : MeetingId) {names names' : List AgentId} (same : ∀ x, x ∈ names ↔ x ∈ names') :
    Agree (.error (.rejected id names)) (.error (.rejected id names'))
  | timedOut (id : MeetingId) {names names' : List AgentId} (same : ∀ x, x ∈ names ↔ x ∈ names') :
    Agree (.error (.timedOut id names)) (.error (.timedOut id names'))

theorem Agree.ok_iff {result result' : Except MeetingError MeetingId}
    (agree : Agree result result') :
    (∃ id, result = .ok id) ↔ ∃ id, result' = .ok id := by
  cases agree <;> simp

/-- Everybody comes who is asked, and somebody is asked more than once. -/
structure Overasked (asked : List AgentId) (comes : AgentId → Bool) : Prop where
  all : ∀ x ∈ asked, comes x = true
  twice : ∃ x, 2 ≤ asked.count x

theorem Ruled.compare {id : MeetingId} {asked asked' : List AgentId} {comes : AgentId → Bool}
    {result result' : Except MeetingError MeetingId} (ruled : Ruled id asked comes result)
    (ruled' : Ruled id asked' comes result') (nodup : asked'.Nodup)
    (same : ∀ x, x ∈ asked' ↔ x ∈ asked) :
    (¬ Overasked asked comes → Agree result result') ∧
      (Overasked asked comes → result' = .ok id ∧ ∃ names, result = .error (.timedOut id names) ∧
        ∀ x, x ∈ names ↔ 2 ≤ asked.count x) := by
  cases ruled' with
  | timedOut names some_name _ exactly =>
    obtain ⟨x, mem⟩ := List.exists_mem_of_ne_nil names some_name
    have once : asked'.count x ≤ 1 := List.nodup_iff_count.1 nodup x
    exact absurd ((exactly x).1 mem) (Nat.not_le.2 (Nat.lt_succ_of_le once))
  | takesPlace all' once' =>
    have all : ∀ x ∈ asked, comes x = true := fun x among => all' x ((same x).2 among)
    cases ruled with
    | takesPlace _ once =>
      refine ⟨fun _ => .ok id, ?_⟩
      rintro ⟨_, x, twice⟩
      exact absurd twice (Nat.not_le.2 (Nat.lt_succ_of_le (once x)))
    | rejected names some_name exactly =>
      obtain ⟨x, mem⟩ := List.exists_mem_of_ne_nil names some_name
      obtain ⟨among, stays⟩ := (exactly x).1 mem
      rw [all x among] at stays
      cases stays
    | timedOut names some_name _ exactly =>
      obtain ⟨x, mem⟩ := List.exists_mem_of_ne_nil names some_name
      exact ⟨fun fine => absurd ⟨all, x, (exactly x).1 mem⟩ fine,
        fun _ => ⟨rfl, names, rfl, exactly⟩⟩
  | rejected names' some_name exactly' =>
    obtain ⟨x, mem⟩ := List.exists_mem_of_ne_nil names' some_name
    obtain ⟨among, stays⟩ := (exactly' x).1 mem
    have missed : ¬ ∀ x ∈ asked, comes x = true := by
      intro all
      rw [all x ((same x).1 among)] at stays
      cases stays
    refine ⟨fun _ => ?_, fun finished => absurd finished.all missed⟩
    cases ruled with
    | takesPlace all => exact absurd all missed
    | timedOut _ _ all => exact absurd all missed
    | rejected names _ exactly =>
      refine .rejected id fun x => ?_
      rw [exactly, exactly', same]

structure Inviting (reached : AgentId → Bool) (asked : List AgentId) (c : Convening) : Prop where
  pending : c.pending = asked.filter reached
  rejected : c.rejected = asked.filter (!reached ·)

variable {asked : List AgentId} {reached : AgentId → Bool}

theorem count_filter_eq_ite (p : AgentId → Bool) (names : List AgentId) (x : AgentId) :
    (names.filter p).count x = if p x then names.count x else 0 := by
  split
  · rename_i fits
    exact List.count_filter fits
  · rename_i misfit
    exact List.count_eq_zero.2 fun mem => misfit (List.mem_filter.1 mem).2

theorem Inviting.answered (inviting : Inviting reached asked c)
    (candid : ∀ m ∈ heard, Candid willing m) (finished : (heard.foldl noting c).pending = []) :
    ∀ x ∈ asked, reached x = true → 0 < heard.countP (·.sender = x) := by
  intro x among here
  have count := (foldl_noting_candid candid c).1 x
  rw [finished, inviting.pending, count_filter_eq_ite, if_pos here] at count
  have named : 0 < asked.count x := List.count_pos_iff.2 among
  simp only [List.count_nil] at count
  omega

/-- When everybody has answered whom an invitation has reached, and nobody has accepted twice, the
    names decide. -/
theorem Inviting.ruled (inviting : Inviting reached asked c)
    (candid : ∀ m ∈ heard, Candid willing m)
    (once : ∀ x, willing x = true → heard.countP (·.sender = x) ≤ 1)
    (answered : ∀ x ∈ asked, reached x = true → 0 < heard.countP (·.sender = x)) :
    Ruled c.meeting asked (fun x => reached x && willing x) (heard.foldl noting c).outcome := by
  obtain ⟨counts, refused⟩ := foldl_noting_candid candid c
  have rejected : ∀ x, x ∈ (heard.foldl noting c).rejected ↔
      x ∈ asked ∧ (reached x && willing x) = false := by
    intro x
    rw [refused, inviting.rejected, inviting.pending, List.mem_filter, List.mem_filter]
    constructor
    · rintro (⟨among, away⟩ | ⟨⟨among, _⟩, unwilling, _⟩)
      · have away : reached x = false := by simpa using away
        exact ⟨among, by rw [away, Bool.false_and]⟩
      · exact ⟨among, by simp [unwilling]⟩
    · rintro ⟨among, stays⟩
      cases here : reached x with
      | false => exact .inl ⟨among, rfl⟩
      | true =>
        obtain ⟨m, mem, same⟩ := List.countP_pos_iff.1 (answered x among here)
        refine .inr ⟨⟨among, rfl⟩, by simpa [here] using stays, m, mem, by simpa using same⟩
  have pending : ∀ x, (heard.foldl noting c).pending.count x =
      (if reached x then asked.count x else 0) - heard.countP (·.sender = x) := by
    intro x
    rw [counts, inviting.pending, count_filter_eq_ite]
  unfold outcome fault?
  rw [meeting_foldl_noting]
  by_cases none : (heard.foldl noting c).rejected = []
  case neg =>
    simp only [List.isEmpty_eq_false_iff.2 none, Bool.not_false, if_true]
    exact .rejected _ none rejected
  have all : ∀ x ∈ asked, (reached x && willing x) = true := by
    intro x among
    cases comes : reached x && willing x with
    | true => rfl
    | false =>
      have mem := (rejected x).2 ⟨among, comes⟩
      rw [none] at mem
      cases mem
  -- Everybody asked has accepted once, so that one invitation less is open than there were.
  have left : ∀ x, (heard.foldl noting c).pending.count x = asked.count x - 1 := by
    intro x
    rw [pending]
    by_cases among : x ∈ asked
    · obtain ⟨here, mind⟩ : reached x = true ∧ willing x = true := by simpa using all x among
      have some_answer := answered x among here
      have one := once x mind
      rw [if_pos here]
      omega
    · have unnamed : asked.count x = 0 := List.count_eq_zero.2 among
      rw [unnamed]
      split <;> omega
  simp only [none, List.isEmpty_nil, Bool.not_true, Bool.false_eq_true, if_false]
  by_cases finished : (heard.foldl noting c).pending = []
  · simp only [finished, List.isEmpty_nil, Bool.not_true, Bool.false_eq_true, if_false]
    refine .takesPlace all fun x => ?_
    have count := left x
    simp only [finished, List.count_nil] at count
    omega
  · simp only [List.isEmpty_eq_false_iff.2 finished, Bool.not_false, if_true]
    refine .timedOut _ finished all fun x => ?_
    rw [← List.count_pos_iff, left]
    omega

end Convening

end Playbook
