import Playbook.Proofs.Segment.Flow

/- The course of the splitter through the tokens of a statement, and how it ends with it. -/
namespace Playbook.Script

/-- How tokens lead from some open brackets and a last token to others, without a separator that
    would end a segment. -/
inductive Flows (isIf : Bool) :
    Nest → Option Token → List Token → Nest → Option Token → Prop where
  | nil (d : Nest) (prev : Option Token) : Flows isIf d prev [] d prev
  | token {d e f : Nest} {prev last : Option Token} {t : Token} {ts : List Token}
    (visible : t ≠ .newline) (nest : t.nest? d = some e) (more : Flows isIf e (some t) ts f last) :
    Flows isIf d prev (t :: ts) f last
  | inside {d f : Nest} {prev last : Option Token} {ts : List Token}
    (nest : Token.newline.nest? d = some d) (more : Flows isIf d prev ts f last) :
    Flows isIf d prev (.newline :: ts) f last
  | branch {f : Nest} {last : Option Token} {ts : List Token} (starts : isIf = true)
    (further : goesOn ts = true) (more : Flows isIf (0, 0) (some .rbrace) ts f last) :
    Flows isIf (0, 0) (some .rbrace) (.newline :: ts) f last

/-- The last token that does not separate. -/
def lastOf (prev : Option Token) : List Token → Option Token
  | [] => prev
  | .newline :: ts => lastOf prev ts
  | t :: ts => lastOf (some t) ts

theorem lastOf_cons {t : Token} (visible : t ≠ .newline) (prev : Option Token)
    (ts : List Token) : lastOf prev (t :: ts) = lastOf (some t) ts := by
  rw [lastOf]
  exact visible

theorem lastOf_getLast? {t : Token} (visible : t ≠ .newline) {ts : List Token}
    (ends : ts.getLast? = some t) (prev : Option Token) : lastOf prev ts = some t := by
  induction ts generalizing prev with
  | nil => cases ends
  | cons u ts ih =>
    cases ts with
    | nil =>
      cases ends
      exact lastOf_cons visible prev []
    | cons v ts =>
      rw [List.getLast?_cons_cons] at ends
      by_cases separator : u = .newline
      · subst separator
        exact ih ends prev
      · rw [lastOf_cons separator]
        exact ih ends _

theorem lastOf_isSome {prev : Option Token} (some : prev.isSome = true) (ts : List Token) :
    (lastOf prev ts).isSome = true := by
  induction ts generalizing prev with
  | nil => exact some
  | cons t ts ih =>
    by_cases separator : t = .newline
    · subst separator
      exact ih some
    · rw [lastOf_cons separator]
      exact ih rfl

theorem Flows.walked {isIf : Bool} {d e f : Nest} {prev last : Option Token} {ts us : List Token}
    (walks : walk? d ts = some e) (more : Flows isIf e (lastOf prev ts) us f last) :
    Flows isIf d prev (ts ++ us) f last := by
  induction ts generalizing d prev with
  | nil =>
    cases walks
    exact more
  | cons t ts ih =>
    rw [walk?_cons] at walks
    obtain ⟨d', nest, walks'⟩ := Option.bind_eq_some_iff.1 walks
    by_cases separator : t = .newline
    · subst separator
      have same : d' = d := by
        obtain ⟨p, b⟩ := d
        cases p <;> cases b <;> cases nest <;> rfl
      subst same
      exact .inside nest (ih walks' more)
    · rw [lastOf_cons separator] at more
      exact .token separator nest (ih walks' more)

theorem goesOn_true_append {ts : List Token} (more : goesOn ts = true) (us : List Token) :
    goesOn (ts ++ us) = true := by
  induction ts with
  | nil => cases more
  | cons t ts ih =>
    by_cases separator : t = .newline
    · subst separator
      exact ih more
    · rw [List.cons_append, goesOn_cons separator]
      rw [goesOn_cons separator] at more
      exact more

theorem nesting_of_nest? {d e : Nest} {t : Token} (nest : t.nest? d = some e) :
    t.nesting d.1 = e.1 := by
  obtain ⟨p, b⟩ := d
  cases t with
  | rparen | rbracket =>
    cases p <;> cases nest
    rfl
  | rbrace =>
    cases b <;> cases nest
    rfl
  | newline =>
    cases p <;> cases b <;> cases nest <;> rfl
  | eof => cases nest
  | _ =>
    cases nest
    rfl

theorem inside_of_nest? {d : Nest} (nest : Token.newline.nest? d = some d) : 0 < d.1 + d.2 := by
  obtain ⟨p, b⟩ := d
  cases p with
  | succ => simp only; omega
  | zero =>
    cases b with
    | succ => simp only; omega
    | zero => cases nest

theorem separator_of_lexStep? {p q : Nat} {c : Char} {rest after : List Char}
    (step : lexStep? p c rest = some ([.newline], q, after)) :
    (c = '\n' ∨ c = ';') ∧ q = p ∧ after = rest := by
  generalize emits : [Token.newline] = emitted at step
  cases stepAt_of_lexStep? step with
  | blank | inside | comment => cases emits
  | outside broken closed => exact ⟨.inl broken, rfl, rfl⟩
  | separator separates => exact ⟨.inr separates, rfl, rfl⟩
  | token found =>
    obtain ⟨rfl, -⟩ := List.cons.inj emits
    exact absurd rfl (tokenAt_of_nextToken found).visible.2.1

variable {d e : Nest} {prev last : Option Token} {st : SplitState} {cs : List Char}
  {ts us : List Token}

theorem Flows.run {isIf : Bool} (flows : Flows isIf d prev ts e last)
    (scans : Scans d.1 cs (ts ++ us)) (ready : Ready d prev st cs) :
    ∃ mid st', Lexes d.1 cs ts e.1 mid ∧ Scans e.1 mid us ∧ Passes isIf st cs st' mid ∧
      Ready e last st' mid := by
  induction flows generalizing cs st with
  | nil d prev => exact ⟨cs, st, .refl _ _, scans, .refl _ _ _, ready⟩
  | @token d e f prev last t ts visible nest _ ih =>
    obtain ⟨mid, st₁, lexes, passes, ready₁, found⟩ := ready.gap isIf scans
    rcases found with ⟨-, rfl, -⟩ | ⟨c, rest, q, after, rfl, step, scans₁⟩
    · cases nest
    cases stepAt_of_lexStep? step with
    | outside | separator => exact absurd rfl visible
    | token found =>
      obtain ⟨st₂, passes₂, ready₂⟩ := ready₁.token isIf (tokenAt_of_nextToken found) nest
      rw [nesting_of_nest? nest] at scans₁ step
      obtain ⟨mid, st₃, lexes₃, scans₃, passes₃, ready₃⟩ := ih scans₁ ready₂
      refine ⟨mid, st₃, ?_, scans₃, passes.trans (passes₂.trans passes₃), ready₃⟩
      exact lexes.append (.step step lexes₃)
  | inside nest _ ih =>
    obtain ⟨mid, st₁, lexes, passes, ready₁, found⟩ := ready.gap isIf scans
    rcases found with ⟨-, same, -⟩ | ⟨c, rest, q, after, rfl, step, scans₁⟩
    · cases same
    obtain ⟨ends, rfl, rfl⟩ := separator_of_lexStep? step
    have separator : isSeparator c = true := by rcases ends with rfl | rfl <;> rfl
    obtain ⟨passes₂, ready₂⟩ := ready₁.separator isIf separator
      fun _ => inside_of_nest? nest
    obtain ⟨mid, st₃, lexes₃, scans₃, passes₃, ready₃⟩ := ih scans₁ ready₂
    refine ⟨mid, st₃, ?_, scans₃, passes.trans (passes₂.trans passes₃), ready₃⟩
    exact lexes.append (.step step lexes₃)
  | branch starts further _ ih =>
    -- Nothing is open here, so that the segment goes on only because another branch follows.
    subst starts
    obtain ⟨mid, st₁, lexes, passes, ready₁, found⟩ := ready.gap true scans
    rcases found with ⟨-, same, -⟩ | ⟨c, rest, q, after, rfl, step, scans₁⟩
    · cases same
    obtain ⟨ends, rfl, rfl⟩ := separator_of_lexStep? step
    obtain ⟨passes₂, ready₂⟩ := ready₁.branch ends scans₁ (goesOn_true_append further us)
    obtain ⟨mid, st₃, lexes₃, scans₃, passes₃, ready₃⟩ := ih scans₁ ready₂
    refine ⟨mid, st₃, ?_, scans₃, passes.trans (passes₂.trans passes₃), ready₃⟩
    exact lexes.append (.step step lexes₃)

theorem Ready.stops (ready : Ready (0, 0) prev st cs) (isIf : Bool)
    (scans : Scans 0 cs (.newline :: us)) (last : prev.isSome = true → goesOn us = false) :
    ∃ x rest, cs = x ++ rest ∧ x ≠ [] ∧ Lexes 0 cs [.newline] 0 rest ∧ Scans 0 rest us ∧
      ∀ n, segmentEnd? true isIf st n cs = some (n + x.length, prev.isSome) := by
  obtain ⟨mid, st₁, lexes, ⟨x, rfl, same⟩, ready₁, found⟩ := ready.gap isIf scans
  rcases found with ⟨-, same, -⟩ | ⟨c, rest, q, after, rfl, step, scans₁⟩
  · cases same
  obtain ⟨ends, rfl, rfl⟩ := separator_of_lexStep? step
  refine ⟨x ++ [c], after, by simp, by simp, ?_, scans₁, fun n => ?_⟩
  · exact lexes.append (.step step (.refl _ _))
  · rw [same, ready₁.ends ends scans₁ last isIf, List.length_append, Nat.add_assoc]
    rfl

theorem Ready.finishes (ready : Ready (0, 0) prev st cs) (isIf : Bool)
    (scans : Scans 0 cs (.eof :: us)) : us = [] ∧
      ∀ n, segmentEnd? true isIf st n cs = some (n + cs.length, prev.isSome) := by
  obtain ⟨mid, st₁, lexes, ⟨x, rfl, same⟩, ready₁, found⟩ := ready.gap isIf scans
  rcases found with ⟨rfl, -, rfl⟩ | ⟨c, rest, q, after, rfl, step, scans₁⟩
  · refine ⟨rfl, fun n => ?_⟩
    rw [same, List.append_nil]
    simp only [segmentEnd?, if_true, ready₁.code]
  · generalize emits : [Token.eof] = emitted at step
    cases stepAt_of_lexStep? step with
    | blank | inside | comment | outside | separator => cases emits
    | token found =>
      obtain ⟨rfl, -⟩ := List.cons.inj emits
      exact absurd rfl (tokenAt_of_nextToken found).visible.2.2

theorem Branches.flows (branches : Branches ts) :
    Flows true (0, 0) (some .rbrace) ts (0, 0) (some .rbrace) := by
  induction branches with
  | nil => exact .nil _ _
  | @cons gap group more t newlines branch grouped _ ih =>
    obtain ⟨plain, -, -, visible⟩ := Token.plain_of_isBranch branch
    have grouped' := Flows.walked (grouped.closed (0, 0)) (by
      rw [lastOf_getLast? Token.noConfusion grouped.last (some t)]
      exact ih)
    have word : Flows true (0, 0) (some .rbrace) (t :: (group ++ more)) (0, 0) (some .rbrace) :=
      .token visible (plain (0, 0)) grouped'
    induction gap with
    | nil => exact word
    | cons u gap ih' =>
      obtain ⟨rfl, rest⟩ := List.forall_mem_cons.1 newlines
      have further : goesOn (gap ++ (t :: group ++ more)) = true := by
        rw [goesOn_gap rest]
        exact (goesOn_cons visible _).trans branch
      exact .branch rfl further (ih' rest)

theorem IsStatement.flows (statement : IsStatement ts) (isIf : Bool)
    (starts : ∀ us, ts = .if_ :: us → isIf = true) :
    ∃ last, Flows isIf (0, 0) none ts (0, 0) last ∧ last.isSome = true := by
  cases statement with
  | simple expr first =>
    obtain ⟨t, us, rfl, visible⟩ := expr.visible
    refine ⟨lastOf none (t :: us), ?_, ?_⟩
    · rw [← List.append_nil (t :: us)]
      apply Flows.walked (expr.closed (0, 0))
      rw [List.append_nil]
      exact .nil _ _
    · rw [lastOf_cons visible]
      exact lastOf_isSome rfl us
  | @branch group more grouped further =>
    have holds := starts _ rfl
    subst holds
    have flows := Flows.walked (grouped.closed (0, 0)) (by
      rw [lastOf_getLast? Token.noConfusion grouped.last (some .if_)]
      exact further.flows)
    exact ⟨some .rbrace, .token Token.noConfusion rfl flows, rfl⟩

end Playbook.Script
