import Playbook.Proofs.Inbox.Looks

/- Turns that are taken out of an inbox one by one. A batch ends with the marker of its turn, but a
   turn that is as long as the batch may be ends it before that: the marker stays behind and is a
   batch of its own, without any message. -/
namespace Playbook
open Activity Prompt

/-- What somebody says before giving the turn to others, and the marker that closes it. -/
structure Speech where
  messages : List Message
  marker : Message
  nonempty : messages ≠ []
  plain : ∀ m ∈ messages, m.isMarker = false
  marks : marker.isMarker = true

def Speech.parts (s : Speech) : List Message := s.messages ++ [s.marker]

/-- A batch, and what the inbox loses by it. -/
structure Portion where
  batch : List Message
  used : List Message

def Speech.portions (most : Option Nat) (s : Speech) : List Portion :=
  if most = some s.messages.length then [⟨s.messages, s.messages⟩, ⟨[], [s.marker]⟩]
  else [⟨s.messages, s.parts⟩]

def BatchRequest.Serves (r : BatchRequest) (p : Portion) : Prop :=
  ∀ rest, r.collect [] (p.used ++ rest) = (p.batch, rest, true)

section Scanning
variable {accepts : Message → Bool} {most : Option Nat}

theorem Inbox.scan_full (accepts : Message → Bool) (inbox : Inbox) :
    inbox.scan accepts (some 0) = ⟨[], inbox, true⟩ := by
  cases inbox <;> simp [Inbox.scan]

theorem Inbox.scan_marker {marker : Message} (accepted : accepts marker = true)
    (marks : marker.isMarker = true) (space : most ≠ some 0) (rest : Inbox) :
    Inbox.scan accepts most (marker :: rest) = ⟨[], rest, true⟩ := by
  simp [Inbox.scan, space, accepted, marks]

theorem Inbox.scan_plain {messages : List Message} (accepted : ∀ m ∈ messages, accepts m = true)
    (plain : ∀ m ∈ messages, m.isMarker = false)
    (room : ∀ k, most = some k → messages.length ≤ k) (rest : Inbox) :
    Inbox.scan accepts most (messages ++ rest) =
      { rest.scan accepts (most.map (· - messages.length)) with
        taken := messages ++ (rest.scan accepts (most.map (· - messages.length))).taken } := by
  induction messages generalizing most with
  | nil => cases most <;> rfl
  | cons m messages ih =>
    have space : most ≠ some 0 := fun full => nomatch room 0 full
    have later : ∀ k, most.map (· - 1) = some k → messages.length ≤ k := by
      intro k bound
      cases most with
      | none => cases bound
      | some most =>
        have := room most rfl
        simp only [Option.map_some, Option.some.injEq, List.length_cons] at bound this
        omega
    have onward := ih (fun m' mem => accepted m' (.tail _ mem))
      (fun m' mem => plain m' (.tail _ mem)) later
    have less : (most.map (· - 1)).map (· - messages.length) =
        most.map (· - (m :: messages).length) := by
      simp [Function.comp_def, Nat.sub_sub, Nat.add_comm]
    rw [List.cons_append, Inbox.scan, if_neg space, accepted m (.head _), plain m (.head _), onward,
      less]
    rfl

end Scanning

variable {n : Nat} {r : BatchRequest} {s : Speech} {speeches : List Speech}

/-- A speech fits into a batch. -/
def Speech.Fits (most : Option Nat) (s : Speech) : Prop :=
  ∀ k, most = some k → s.messages.length ≤ k

theorem Speech.served (accepts : ∀ m, r.accepts m = true) (fits : s.Fits r.most) :
    ∀ p ∈ s.portions r.most, r.Serves p := by
  have taken := fun rest => Inbox.scan_plain (fun m _ => accepts m) s.plain fits rest
  intro p mem rest
  unfold Speech.portions at mem
  split at mem
  · rename_i full
    rw [full] at taken
    simp only [Option.map_some, Nat.sub_self] at taken
    simp only [List.mem_cons, List.not_mem_nil, or_false] at mem
    obtain rfl | rfl := mem
    · simp [BatchRequest.collect, full, taken, Inbox.scan_full]
    · have space : r.most ≠ some 0 := by
        rw [full]
        simp [s.nonempty]
      simp [BatchRequest.collect, Inbox.scan_marker (accepts _) s.marks, space]
  · rename_i unfilled
    simp only [List.mem_singleton] at mem
    subst mem
    have space : r.most.map (· - s.messages.length) ≠ some 0 := by
      cases most : r.most with
      | none => simp
      | some k =>
        have := fits k most
        rw [most] at unfilled
        simp only [Option.map_some, ne_eq, Option.some.injEq] at unfilled ⊢
        omega
    simp [BatchRequest.collect, Speech.parts, taken, Inbox.scan_marker (accepts _) s.marks space]

theorem Speech.used_portions (most : Option Nat) (s : Speech) :
    (s.portions most).flatMap (·.used) = s.parts := by
  unfold Speech.portions
  split <;> simp [Speech.parts]

theorem Speech.batches_portions (most : Option Nat) (s : Speech) :
    ((s.portions most).map (·.batch)).filter (!·.isEmpty) = [s.messages] := by
  unfold Speech.portions
  split <;> simp [s.nonempty]

def collectBatches (n : Nat) (r : BatchRequest) : Nat → Activity World (List (List Message))
  | 0 => .done []
  | k + 1 => do
    let batch ← collectBatch n r
    let batches ← collectBatches n r k
    return batch :: batches

def Holding (n t : Nat) (inbox : Inbox) : Assertion Message World :=
  fun arrived m => m.time = t ∧ m.world.post.box n = inbox ++ arrived.map (·.2)

theorem Holding.stable {t : Nat} {inbox : Inbox} : Stable n (Delivers n) (Holding n t inbox) := by
  rintro arrived m deeds w ⟨time, box⟩ done
  refine ⟨time, ?_⟩
  show w.post.box n = _
  rw [done.box, box]
  simp [Function.comp_def]

def FoundIn {α : Type} (wanted : α) (n t : Nat) (inbox : Inbox) (found : α) :
    Assertion Message World :=
  fun arrived m => found = wanted ∧ Holding n t inbox arrived m

theorem FoundIn.stable {α : Type} {wanted : α} {t : Nat} {inbox : Inbox} (found : α) :
    Stable n (Delivers n) (FoundIn wanted n t inbox found) := by
  rintro arrived m deeds w ⟨found, holding⟩ done
  exact ⟨found, Holding.stable holding done⟩

theorem keeps_collectPortion {p : Portion} (serves : r.Serves p) (t : Nat) (rest : Inbox) :
    Keeps n (Delivers n) (Holding n t (p.used ++ rest)) (collectBatch n r)
      (FoundIn p.batch n t rest) := by
  rw [collectBatch_eq]
  refine .act (fun _ => FoundIn ([] : List Message) n t (p.used ++ rest) []) Holding.stable
    (fun holding => ⟨rfl, holding⟩) fun began => ?_
  refine .loop (FoundIn [] n t (p.used ++ rest)) (FoundIn p.batch n t rest) [] FoundIn.stable
    (fun batch => ?_) (fun _ => batchLoop_halts ..) fun batch => .done batch (FoundIn.stable batch)
  rw [batchRound_eq]
  refine .act (fun found => FoundIn (p.batch, true) n t rest found) (FoundIn.stable batch) ?_ ?_
  · rintro arrived m ⟨rfl, time, box⟩
    have looked := serves (rest ++ arrived.map (·.2))
    rw [← List.append_assoc, ← box] at looked
    simp only [World.collect, looked]
    exact ⟨rfl, time, box_of_look looked⟩
  · rintro ⟨batch, complete⟩
    cases complete with
    | true =>
      refine .weaken (FoundIn.stable _) ?_ (.done (Sum.inr batch) (FoundIn.stable batch))
      exact fun found => ⟨congrArg Prod.fst found.1, found.2⟩
    | false =>
      exact .assuming fun same => absurd (congrArg Prod.snd same) Bool.false_ne_true

theorem keeps_collectBatches {portions : List Portion} (served : ∀ p ∈ portions, r.Serves p)
    (t : Nat) (rest : Inbox) :
    Keeps n (Delivers n) (Holding n t (portions.flatMap (·.used) ++ rest))
      (collectBatches n r portions.length) (FoundIn (portions.map (·.batch)) n t rest) := by
  induction portions with
  | nil =>
    exact .weaken Holding.stable (fun holding => ⟨rfl, holding⟩) (.done [] (FoundIn.stable []))
  | cons p portions ih =>
    have later := ih fun p' mem => served p' (.tail _ mem)
    have first := keeps_collectPortion (n := n) (served p (.head _)) t
      (portions.flatMap (·.used) ++ rest)
    rw [← List.append_assoc] at first
    refine first.bind fun batch => .assuming fun same => later.bind fun batches => ?_
    refine .assuming fun others => ?_
    rw [same, others]
    exact .weaken Holding.stable (fun holding => ⟨rfl, holding⟩) (.done _ (FoundIn.stable _))

/-- Puts what is said into an inbox, message by message. -/
def PostOffice.say (p : PostOffice) (n : Nat) (speeches : List Speech) : PostOffice :=
  (speeches.flatMap Speech.parts).foldl (fun p m => p.put n m) p

theorem PostOffice.box_puts {p : PostOffice} (inside : n < p.boxes.length)
    (messages : List Message) :
    (messages.foldl (fun p m => p.put n m) p).box n = p.box n ++ messages := by
  induction messages generalizing p with
  | nil => exact (List.append_nil _).symm
  | cons m messages ih =>
    have still : n < (p.put n m).boxes.length := by
      simpa [PostOffice.put, PostOffice.setBox] using inside
    have put := box_of_get (put_get (List.getElem?_eq_getElem inside) n m)
    rw [List.foldl_cons, ih still, put, if_pos rfl, List.append_assoc, List.singleton_append,
      box_of_get (List.getElem?_eq_getElem inside)]

/-- So many batches come to their end, and however they do, this is found in them and left in the
    inbox, before anything that has arrived meanwhile. -/
structure Gets (n : Nat) (r : BatchRequest) (m : Moment World) (k : Nat)
    (found : List (List Message)) (left : Inbox) : Prop where
  halts : Halts n ⟨collectBatches n r k, m⟩
  brings : ∀ {deeds batches m'},
    Steps n (Delivers n) ⟨collectBatches n r k, m⟩ deeds ⟨.done batches, m'⟩ →
      batches = found ∧ m'.time = m.time ∧ m'.world.post.box n = left ++ deeds.map (·.2)

theorem gets_portions (front back : List Portion) (served : ∀ p ∈ front, r.Serves p)
    {m : Moment World} (box : m.world.post.box n = (front ++ back).flatMap (·.used)) :
    Gets n r m front.length (front.map (·.batch)) (back.flatMap (·.used)) := by
  have keeps := keeps_collectBatches (n := n) served m.time (back.flatMap (·.used))
  have here : Holding n m.time (front.flatMap (·.used) ++ back.flatMap (·.used)) [] m := by
    refine ⟨rfl, ?_⟩
    rw [box, List.flatMap_append, List.map_nil, List.append_nil]
  refine ⟨keeps.halts here, fun ran => ?_⟩
  obtain ⟨found, time, left⟩ := keeps.sound here ran
  exact ⟨found, time, left⟩

theorem Gets.left_unique {m : Moment World} {k : Nat} {found found' : List (List Message)}
    {left left' : Inbox} (gets : Gets n r m k found left) (gets' : Gets n r m k found' left') :
    left = left' := by
  obtain ⟨batches, m', alone⟩ := gets.halts
  have one := (gets.brings alone.steps).2.2
  have other := (gets'.brings alone.steps).2.2
  simpa using one.symm.trans other

section
variable {most : Option Nat}

theorem used_portionsOf (speeches : List Speech) :
    (speeches.flatMap (Speech.portions most)).flatMap (·.used) = speeches.flatMap Speech.parts := by
  induction speeches with
  | nil => rfl
  | cons s speeches ih => simp [Speech.used_portions, ih]

theorem batches_portionsOf (speeches : List Speech) :
    ((speeches.flatMap (Speech.portions most)).map (·.batch)).filter (!·.isEmpty) =
      speeches.map (·.messages) := by
  induction speeches with
  | nil => rfl
  | cons s speeches ih =>
    rw [List.flatMap_cons, List.map_append, List.filter_append, ih, s.batches_portions]
    rfl

theorem portionsOf_unfilled (unfilled : ∀ s ∈ speeches, most ≠ some s.messages.length) :
    speeches.flatMap (Speech.portions most) = speeches.map fun s => ⟨s.messages, s.parts⟩ := by
  induction speeches with
  | nil => rfl
  | cons s speeches ih =>
    rw [List.flatMap_cons, ih fun s said => unfilled s (.tail _ said), Speech.portions,
      if_neg (unfilled s (.head _))]
    rfl

theorem length_portions (most : Option Nat) (s : Speech) :
    (s.portions most).length = if most = some s.messages.length then 2 else 1 := by
  unfold Speech.portions
  split <;> rfl

theorem le_length_portionsOf (most : Option Nat) (speeches : List Speech) :
    speeches.length ≤ (speeches.flatMap (Speech.portions most)).length := by
  induction speeches with
  | nil => exact Nat.le_refl _
  | cons s speeches ih =>
    rw [List.flatMap_cons, List.length_append, length_portions, List.length_cons]
    split <;> omega

/-- A turn that fills the batch takes one batch more. -/
theorem lt_length_portionsOf (said : s ∈ speeches) (full : most = some s.messages.length) :
    speeches.length < (speeches.flatMap (Speech.portions most)).length := by
  obtain ⟨before, after, rfl⟩ := List.append_of_mem said
  have := le_length_portionsOf most before
  have := le_length_portionsOf most after
  rw [List.flatMap_append, List.flatMap_cons, List.length_append, List.length_append,
    List.length_append, length_portions, if_pos full, List.length_cons]
  omega

theorem used_ne_nil {p : Portion} (part : p ∈ speeches.flatMap (Speech.portions most)) :
    p.used ≠ [] := by
  obtain ⟨s, -, part⟩ := List.mem_flatMap.1 part
  unfold Speech.portions at part
  split at part
  · simp only [List.mem_cons, List.not_mem_nil, or_false] at part
    obtain rfl | rfl := part
    · exact s.nonempty
    · exact List.cons_ne_nil _ _
  · simp only [List.mem_singleton] at part
    subst part
    simp [Speech.parts]

end

/-- Turns that fit into a batch are found one by one and in order, each in a batch of its own; but
    one that fills the batch leaves its marker behind, and that gives an empty batch after it. So
    there is just one batch for each turn, and nothing left over, where no turn fills the batch. -/
theorem batches_are_turns_unless_filled (n : Nat) (r : BatchRequest)
    (accepts : ∀ m, r.accepts m = true) (speeches : List Speech)
    (fits : ∀ s ∈ speeches, s.Fits r.most) (m : Moment World)
    (there : n < m.world.post.boxes.length) (empty : m.world.post.box n = []) :
    let m := { m with world := { m.world with post := m.world.post.say n speeches } }
    let portions := speeches.flatMap (Speech.portions r.most)
    (∀ k ≤ portions.length,
      Gets n r m k ((portions.take k).map (·.batch)) ((portions.drop k).flatMap (·.used))) ∧
      (portions.map (·.batch)).filter (!·.isEmpty) = speeches.map (·.messages) ∧
      (Gets n r m speeches.length (speeches.map (·.messages)) [] ↔
        ∀ s ∈ speeches, r.most ≠ some s.messages.length) := by
  intro m portions
  have served : ∀ p ∈ portions, r.Serves p := by
    intro p mem
    obtain ⟨s, said, mem⟩ := List.mem_flatMap.1 mem
    exact s.served accepts (fits s said) p mem
  have box : m.world.post.box n = portions.flatMap (·.used) := by
    refine (PostOffice.box_puts there _).trans ?_
    rw [empty, List.nil_append, used_portionsOf]
  have gets : ∀ k ≤ portions.length,
      Gets n r m k ((portions.take k).map (·.batch)) ((portions.drop k).flatMap (·.used)) := by
    intro k short
    have split : m.world.post.box n = (portions.take k ++ portions.drop k).flatMap (·.used) := by
      rw [box, List.take_append_drop]
    have gets := gets_portions (portions.take k) (portions.drop k)
      (fun p mem => served p (List.mem_of_mem_take mem)) split
    rwa [List.length_take, Nat.min_eq_left short] at gets
  refine ⟨gets, ?_, fun exact_turns s said full => ?_, fun unfilled => ?_⟩
  · exact batches_portionsOf speeches
  · have more : speeches.length < portions.length := lt_length_portionsOf said full
    have left := (gets speeches.length (Nat.le_of_lt more)).left_unique exact_turns
    have next : portions[speeches.length] ∈ portions.drop speeches.length := by
      rw [List.drop_eq_getElem_cons more]
      exact .head _
    exact used_ne_nil (List.mem_of_mem_drop next) (List.flatMap_eq_nil_iff.1 left _ next)
  · have plain : portions = speeches.map fun s => ⟨s.messages, s.parts⟩ :=
      portionsOf_unfilled unfilled
    have all := gets portions.length (Nat.le_refl _)
    rw [List.take_length, List.drop_length, plain] at all
    simpa [Function.comp_def] using all

def adaSays (content : String) (plain : content ≠ endOfTurn) : Speech where
  messages := [letter "ada" content]
  marker := letter "ada" endOfTurn
  nonempty := List.cons_ne_nil _ _
  plain m mem := by
    have content' : (letter "ada" content).content = content := rfl
    rw [List.mem_singleton.1 mem, Message.isMarker, content', decide_eq_false plain, Bool.false_and]
  marks := rfl

def twoTurns : List Speech := [adaSays "1" (by decide), adaSays "2" (by decide)]

def emptyInbox : World :=
  { World.start 0 "" .empty with post := { PostOffice.start 0 "" with boxes := [[]] } }

/-- Taken one message at a time, both turns fill their batches. -/
theorem batches_are_turns_unless_filled_by_one_message :
    let m : Moment World := ⟨0, { emptyInbox with post := emptyInbox.post.say 0 twoTurns }, false⟩
    Gets 0 (.upTo 1 (fun _ => true) 50) m 2 [[letter "ada" "1"], []]
      [letter "ada" "2", letter "ada" endOfTurn] ∧
    ¬ Gets 0 (.upTo 1 (fun _ => true) 50) m 2 [[letter "ada" "1"], [letter "ada" "2"]] [] ∧
    Gets 0 (.upTo 2 (fun _ => true) 50) m 2 [[letter "ada" "1"], [letter "ada" "2"]] [] := by
  have law := fun most fits => batches_are_turns_unless_filled 0 (.upTo most (fun _ => true) 50)
    (fun _ => rfl) twoTurns fits ⟨0, emptyInbox, false⟩ (by decide) rfl
  have fits : ∀ most, 1 ≤ most → ∀ s ∈ twoTurns, s.Fits (some most) := by
    intro most room s said k same
    cases same
    simp only [twoTurns, List.mem_cons, List.not_mem_nil, or_false] at said
    obtain rfl | rfl := said <;> exact room
  refine ⟨(law 1 (fits 1 (by decide))).1 2 (by decide), ?_, ?_⟩
  · intro gets
    have unfilled := (law 1 (fits 1 (by decide))).2.2.1 gets
    exact unfilled _ (.head _) rfl
  · refine (law 2 (fits 2 (by decide))).2.2.2 fun s said full => ?_
    simp only [twoTurns, List.mem_cons, List.not_mem_nil, or_false] at said
    obtain rfl | rfl := said <;> cases full

end Playbook
