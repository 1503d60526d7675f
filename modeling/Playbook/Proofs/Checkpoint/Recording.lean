import Playbook.Checkpoint.Manager
import Playbook.Proofs.Checkpoint.Reading

/- What a program hands over to be saved makes up a document that can be read, as far as the doubles
   in it can: the entries of its maps rise by name, and its whole numbers have 64 bits. -/
namespace Playbook

namespace Json

def ReadsBack (x : Float) : Prop := (Json.float x).Legible

mutual
def floats : Json → List Float
  | .float x => [x]
  | .arr items => floatsOfItems items
  | .obj members => floatsOfMembers members
  | .null | .bool _ | .int _ | .str _ => []

def floatsOfItems : List Json → List Float
  | [] => []
  | j :: rest => floats j ++ floatsOfItems rest

def floatsOfMembers : List (String × Json) → List Float
  | [] => []
  | (_, j) :: rest => floats j ++ floatsOfMembers rest
end

mutual
/-- All whole numbers have 64 bits, and all doubles are finite. -/
def Whole : Json → Prop
  | .int i => -2 ^ 63 ≤ i ∧ i < 2 ^ 64
  | .float x => x.isFinite
  | .arr items => WholeItems items
  | .obj members => WholeMembers members
  | .null | .bool _ | .str _ => True

def WholeItems : List Json → Prop
  | [] => True
  | j :: rest => Whole j ∧ WholeItems rest

def WholeMembers : List (String × Json) → Prop
  | [] => True
  | (_, j) :: rest => Whole j ∧ WholeMembers rest
end

mutual
theorem legible_of_whole : ∀ j : Json, j.Whole → (∀ x ∈ j.floats, ReadsBack x) → j.Legible
  | .null, _, _ | .bool _, _, _ | .str _, _, _ => trivial
  | .int _, whole, _ => whole
  | .float x, _, known => known x List.mem_cons_self
  | .arr items, whole, known => legibleItems_of_whole items whole known
  | .obj members, whole, known => legibleMembers_of_whole members whole known

theorem legibleItems_of_whole : ∀ items : List Json, WholeItems items →
    (∀ x ∈ floatsOfItems items, ReadsBack x) → LegibleItems items
  | [], _, _ => trivial
  | j :: rest, whole, known => by
    rw [floatsOfItems, List.forall_mem_append] at known
    exact ⟨legible_of_whole j whole.1 known.1, legibleItems_of_whole rest whole.2 known.2⟩

theorem legibleMembers_of_whole : ∀ members : List (String × Json), WholeMembers members →
    (∀ x ∈ floatsOfMembers members, ReadsBack x) → LegibleMembers members
  | [], _, _ => trivial
  | (_, j) :: rest, whole, known => by
    rw [floatsOfMembers, List.forall_mem_append] at known
    exact ⟨legible_of_whole j whole.1 known.1, legibleMembers_of_whole rest whole.2 known.2⟩
end

mutual
theorem finite_of_whole {x : Float} : ∀ j : Json, j.Whole → x ∈ j.floats → x.isFinite
  | .null, _, mem | .bool _, _, mem | .str _, _, mem | .int _, _, mem => nomatch mem
  | .float _, whole, mem => List.mem_singleton.1 mem ▸ whole
  | .arr items, whole, mem => finite_of_wholeItems items whole mem
  | .obj members, whole, mem => finite_of_wholeMembers members whole mem

theorem finite_of_wholeItems {x : Float} : ∀ items : List Json, WholeItems items →
    x ∈ floatsOfItems items → x.isFinite
  | j :: rest, whole, mem =>
    (List.mem_append.1 mem).elim (finite_of_whole j whole.1) (finite_of_wholeItems rest whole.2)

theorem finite_of_wholeMembers {x : Float} : ∀ members : List (String × Json),
    WholeMembers members → x ∈ floatsOfMembers members → x.isFinite
  | (_, j) :: rest, whole, mem =>
    (List.mem_append.1 mem).elim (finite_of_whole j whole.1) (finite_of_wholeMembers rest whole.2)
end

theorem wholeItems_iff {items : List Json} : WholeItems items ↔ ∀ j ∈ items, j.Whole := by
  induction items with
  | nil => simp [WholeItems]
  | cons j rest ih => rw [WholeItems, ih, List.forall_mem_cons]

theorem whole_strings (texts : List String) : (Json.strings texts).Whole := by
  apply wholeItems_iff.2
  intro j mem
  obtain ⟨text, -, rfl⟩ := List.mem_map.1 mem
  trivial

end Json

namespace Value
open Json (ReadsBack)

mutual
def Ordered : Value → Prop
  | .list items => OrderedItems items
  | .map entries => Dict.Sorted entries ∧ OrderedEntries entries
  | .null | .bool _ | .int _ | .float _ | .str _ | .builtin _ | .module _ | .handle _ => True

def OrderedItems : List Value → Prop
  | [] => True
  | v :: rest => Ordered v ∧ OrderedItems rest

def OrderedEntries : List (String × Value) → Prop
  | [] => True
  | (_, v) :: rest => Ordered v ∧ OrderedEntries rest
end

theorem itemsToJson?_cons {v : Value} {rest : List Value} {js : List Json} :
    itemsToJson? (v :: rest) = some js ↔
      ∃ j, v.toJson? = some j ∧ ∃ more, itemsToJson? rest = some more ∧ js = j :: more := by
  rw [itemsToJson?]
  cases v.toJson? with
  | none => simp
  | some j =>
    simp only [Option.map_eq_some_iff, Option.some.injEq, exists_eq_left']
    exact exists_congr fun more => and_congr_right fun _ => eq_comm

theorem entriesToJson?_cons {k : String} {v : Value} {rest : List (String × Value)}
    {members : List (String × Json)} : entriesToJson? ((k, v) :: rest) = some members ↔
      ∃ j, v.toJson? = some j ∧ ∃ more, entriesToJson? rest = some more ∧ members = (k, j) :: more := by
  rw [entriesToJson?]
  cases v.toJson? with
  | none => simp
  | some j =>
    simp only [Option.map_eq_some_iff, Option.some.injEq, exists_eq_left']
    exact exists_congr fun more => and_congr_right fun _ => eq_comm

theorem entriesToJson?_keys : ∀ (entries : List (String × Value)) {members : List (String × Json)},
    entriesToJson? entries = some members → members.map Prod.fst = entries.map Prod.fst
  | [], _, written => by
    cases written
    rfl
  | (k, v) :: rest, _, written => by
    obtain ⟨j, -, more, later, rfl⟩ := entriesToJson?_cons.1 written
    simp [entriesToJson?_keys rest later]

mutual
theorem toJson?_ordered : ∀ (v : Value) {j : Json}, v.Ordered → v.toJson? = some j → j.Ordered
  | .null, _, _, written | .bool _, _, _, written | .int _, _, _, written
  | .str _, _, _, written => by
    cases written
    trivial
  | .float _, _, _, written => by
    obtain ⟨-, same⟩ := Option.ite_none_right_eq_some.1 written
    cases same
    trivial
  | .list items, _, ordered, written => by
    obtain ⟨js, inside, rfl⟩ := Option.map_eq_some_iff.1 written
    exact itemsToJson?_ordered items ordered inside
  | .map entries, _, ordered, written => by
    obtain ⟨members, inside, rfl⟩ := Option.map_eq_some_iff.1 written
    refine ⟨?_, entriesToJson?_ordered entries ordered.2 inside⟩
    rw [Dict.Sorted, entriesToJson?_keys entries inside]
    exact ordered.1
  | .builtin _, _, _, written | .module _, _, _, written | .handle _, _, _, written => by
    cases written

theorem itemsToJson?_ordered : ∀ (items : List Value) {js : List Json}, OrderedItems items →
    itemsToJson? items = some js → Json.OrderedItems js
  | [], _, _, written => by
    cases written
    trivial
  | v :: rest, _, ordered, written => by
    obtain ⟨j, first, more, later, rfl⟩ := itemsToJson?_cons.1 written
    exact ⟨toJson?_ordered v ordered.1 first, itemsToJson?_ordered rest ordered.2 later⟩

theorem entriesToJson?_ordered : ∀ (entries : List (String × Value)) {members : List (String × Json)},
    OrderedEntries entries → entriesToJson? entries = some members → Json.OrderedMembers members
  | [], _, _, written => by
    cases written
    trivial
  | (k, v) :: rest, _, ordered, written => by
    obtain ⟨j, first, more, later, rfl⟩ := entriesToJson?_cons.1 written
    exact ⟨toJson?_ordered v ordered.1 first, entriesToJson?_ordered rest ordered.2 later⟩
end

mutual
theorem toJson?_whole : ∀ (v : Value) {j : Json}, v.toJson? = some j → j.Whole
  | .null, _, written | .bool _, _, written | .str _, _, written => by
    cases written
    trivial
  | .int i, _, written => by
    cases written
    exact ⟨i.le_toInt, Int.lt_trans i.toInt_lt (by decide)⟩
  | .float _, _, written => by
    obtain ⟨finite, same⟩ := Option.ite_none_right_eq_some.1 written
    cases same
    exact finite
  | .list items, _, written => by
    obtain ⟨js, inside, rfl⟩ := Option.map_eq_some_iff.1 written
    exact itemsToJson?_whole items inside
  | .map entries, _, written => by
    obtain ⟨members, inside, rfl⟩ := Option.map_eq_some_iff.1 written
    exact entriesToJson?_whole entries inside
  | .builtin _, _, written | .module _, _, written | .handle _, _, written => by
    cases written

theorem itemsToJson?_whole : ∀ (items : List Value) {js : List Json},
    itemsToJson? items = some js → Json.WholeItems js
  | [], _, written => by
    cases written
    trivial
  | v :: rest, _, written => by
    obtain ⟨j, first, more, later, rfl⟩ := itemsToJson?_cons.1 written
    exact ⟨toJson?_whole v first, itemsToJson?_whole rest later⟩

theorem entriesToJson?_whole : ∀ (entries : List (String × Value)) {members : List (String × Json)},
    entriesToJson? entries = some members → Json.WholeMembers members
  | [], _, written => by
    cases written
    trivial
  | (k, v) :: rest, _, written => by
    obtain ⟨j, first, more, later, rfl⟩ := entriesToJson?_cons.1 written
    exact ⟨toJson?_whole v first, entriesToJson?_whole rest later⟩
end

end Value

def Namespace.Ordered (ns : Namespace) : Prop := (Value.map ns).Ordered

section Stored
variable {ns : Namespace} {f : String → Value → Option Json}
  (stored : ∀ {name v j}, f name v = some j → v.toJson? = some j)
include stored

theorem filterMapValues_ordered (ordered : ns.Ordered) :
    (Json.obj (Dict.filterMapValues f ns)).Ordered := by
  obtain ⟨sorted, values⟩ := ordered
  constructor
  · exact List.Pairwise.sublist (Dict.keys_filterMapValues f ns) sorted
  · clear sorted
    induction ns with
    | nil => trivial
    | cons e rest ih =>
      obtain ⟨name, v⟩ := e
      rw [Dict.filterMapValues, List.filterMap_cons]
      cases here : f name v with
      | none => exact ih values.2
      | some j => exact ⟨Value.toJson?_ordered v values.1 (stored here), ih values.2⟩

theorem filterMapValues_whole : (Json.obj (Dict.filterMapValues f ns)).Whole := by
  induction ns with
  | nil => trivial
  | cons e rest ih =>
    obtain ⟨name, v⟩ := e
    rw [Dict.filterMapValues, List.filterMap_cons]
    cases here : f name v with
    | none => exact ih
    | some j => exact ⟨Value.toJson?_whole v (stored here), ih⟩

end Stored

section Kept
variable {ns : Namespace}

theorem Namespace.toJson_ordered (ordered : ns.Ordered) : (Json.obj (Namespace.toJson ns)).Ordered :=
  filterMapValues_ordered (f := fun _ v => v.toJson?) (fun stored => stored) ordered

theorem Namespace.toJson_whole : (Json.obj (Namespace.toJson ns)).Whole :=
  filterMapValues_whole (f := fun _ v => v.toJson?) fun stored => stored

theorem toJson?_of_stored {name : String} {v : Value} {j : Json}
    (stored : (if name.startsWith "_" || isReserved name then none else v.toJson?) = some j) :
    v.toJson? = some j := by
  split at stored
  · cases stored
  · exact stored

theorem storedNames_ordered (ordered : ns.Ordered) : (Json.obj (storedNames ns)).Ordered :=
  filterMapValues_ordered toJson?_of_stored ordered

theorem storedNames_whole : (Json.obj (storedNames ns)).Whole :=
  filterMapValues_whole toJson?_of_stored

end Kept

structure Frame.Orderly (f : Frame) : Prop where
  locals : f.locals.Ordered
  meeting : ∀ m, f.meeting = some m → ValidId .meeting m

structure AgentState.Orderly (a : AgentState) : Prop where
  stack : ∀ f ∈ a.stack, f.Orderly
  vars : a.vars.Ordered

structure SaveRequest.Orderly (r : SaveRequest) : Prop where
  names : r.names.Ordered
  agent : r.agent.Orderly

theorem Pointer.toJson_whole (p : Pointer) : p.toJson.Whole := by
  obtain ⟨playbook, step, session⟩ := p
  cases session <;> simp [toJson, Json.Whole, Json.WholeMembers]

theorem Frame.snapshot_whole (f : Frame) : f.snapshot.toJson.Whole := by
  obtain ⟨pointer, locals, meeting, execution⟩ := f
  have kept : Json.WholeMembers (Namespace.toJson locals) := Namespace.toJson_whole
  cases meeting <;>
    simp [FrameSnapshot.toJson, Frame.snapshot, Json.Whole, Json.WholeMembers,
      pointer.toJson_whole, kept]

namespace CheckpointManager
variable {r : SaveRequest} {now : String} {number : Nat}

theorem dataFor_orderly (orderly : r.Orderly) (stamped : Timestamp.valid now = true) :
    (dataFor r now number).Orderly := by
  refine ⟨⟨?_, Namespace.toJson_ordered orderly.agent.vars⟩, storedNames_ordered orderly.names, stamped⟩
  intro f mem
  obtain ⟨frame, among, rfl⟩ := List.mem_map.1 mem
  obtain ⟨locals, meeting⟩ := orderly.agent.stack frame among
  exact ⟨Namespace.toJson_ordered locals, meeting⟩

theorem dataFor_whole (fits : number < UInt64.size) : (dataFor r now number).toJson.Whole := by
  have frames : Json.WholeItems (r.agent.stack.snapshot.map FrameSnapshot.toJson) := by
    apply Json.wholeItems_iff.2
    intro j mem
    obtain ⟨snapshot, among, rfl⟩ := List.mem_map.1 mem
    obtain ⟨f, -, rfl⟩ := List.mem_map.1 among
    exact f.snapshot_whole
  have count : -2 ^ 63 ≤ (number : Int) ∧ (number : Int) < 2 ^ 64 := by
    unfold UInt64.size at fits
    omega
  exact ⟨⟨frames, Namespace.toJson_whole, Json.whole_strings _, trivial⟩, storedNames_whole,
    ⟨trivial, trivial, trivial, trivial, count, trivial⟩, trivial⟩

theorem dataFor_legible (fits : number < UInt64.size)
    (known : ∀ x ∈ (dataFor r now number).toJson.floats, Json.ReadsBack x) :
    (dataFor r now number).toJson.Legible :=
  Json.legible_of_whole _ (dataFor_whole fits) known

end CheckpointManager
end Playbook
