import Mathlib.Algebra.Group.Int.Defs
import Playbook.Checkpoint.Manager
import Playbook.Proofs.Dict

/- Values that can be stored come back as they were, and with them names, variables and frames: a
   snapshot carries over from one agent to another what can be stored, and nothing else. -/
namespace Playbook

theorem Word.ofInt?_toInt (i : Int64) : Word.ofInt? i.toInt = some i := by
  have bounds : Int64.minValue.toInt ≤ i.toInt ∧ i.toInt ≤ Int64.maxValue.toInt :=
    ⟨i.minValue_le_toInt, i.toInt_le⟩
  rw [Word.ofInt?, if_pos bounds, Int64.ofInt_toInt]

namespace Value

mutual
theorem ofJson_of_serializable : ∀ v : Value, v.serializable = true →
    ∃ j, v.toJson? = some j ∧ ofJson j = v
  | .null, _ => ⟨_, rfl, rfl⟩
  | .bool b, _ => ⟨_, rfl, rfl⟩
  | .int i, _ => ⟨_, rfl, by simp only [ofJson, ofWhole, Word.ofInt?_toInt]⟩
  | .float x, finite => ⟨.float x, by simpa [toJson?, serializable] using finite, rfl⟩
  | .str s, _ => ⟨_, rfl, rfl⟩
  | .list items, all => by
    obtain ⟨js, written, read⟩ := itemsOfJson_of_serializable items all
    exact ⟨.arr js, by rw [toJson?, written]; rfl, by rw [ofJson, read]⟩
  | .map entries, all => by
    obtain ⟨js, written, read⟩ := membersOfJson_of_serializable entries all
    exact ⟨.obj js, by rw [toJson?, written]; rfl, by rw [ofJson, read]⟩
  | .builtin _, impossible => nomatch impossible
  | .module _, impossible => nomatch impossible
  | .handle _, impossible => nomatch impossible

theorem itemsOfJson_of_serializable : ∀ items : List Value, itemsSerializable items = true →
    ∃ js, itemsToJson? items = some js ∧ itemsOfJson js = items
  | [], _ => ⟨[], rfl, rfl⟩
  | v :: rest, all => by
    simp only [itemsSerializable, Bool.and_eq_true] at all
    obtain ⟨j, written, read⟩ := ofJson_of_serializable v all.1
    obtain ⟨js, written', read'⟩ := itemsOfJson_of_serializable rest all.2
    exact ⟨j :: js, by simp only [itemsToJson?, written, written', Option.map_some],
      by rw [itemsOfJson, read, read']⟩

theorem membersOfJson_of_serializable : ∀ entries : List (String × Value),
    entriesSerializable entries = true →
    ∃ js, entriesToJson? entries = some js ∧ membersOfJson js = entries
  | [], _ => ⟨[], rfl, rfl⟩
  | (k, v) :: rest, all => by
    simp only [entriesSerializable, Bool.and_eq_true] at all
    obtain ⟨j, written, read⟩ := ofJson_of_serializable v all.1
    obtain ⟨js, written', read'⟩ := membersOfJson_of_serializable rest all.2
    exact ⟨(k, j) :: js, by simp only [entriesToJson?, written, written', Option.map_some],
      by rw [membersOfJson, read, read']⟩
end

mutual
theorem toJson?_isSome : ∀ v : Value, v.toJson?.isSome = v.serializable
  | .null | .bool _ | .int _ | .str _ => rfl
  | .float x => by
    rw [toJson?, serializable]
    cases x.isFinite <;> rfl
  | .list items => by rw [toJson?, Option.isSome_map, itemsToJson?_isSome items, serializable]
  | .map entries => by
    rw [toJson?, Option.isSome_map, entriesToJson?_isSome entries, serializable]
  | .builtin _ | .module _ | .handle _ => rfl

theorem itemsToJson?_isSome : ∀ items : List Value,
    (itemsToJson? items).isSome = itemsSerializable items
  | [] => rfl
  | v :: rest => by
    rw [itemsToJson?, itemsSerializable, ← toJson?_isSome v, ← itemsToJson?_isSome rest]
    cases v.toJson? with
    | none => rfl
    | some j => rw [Option.isSome_map, Option.isSome_some, Bool.true_and]

theorem entriesToJson?_isSome : ∀ entries : List (String × Value),
    (entriesToJson? entries).isSome = entriesSerializable entries
  | [] => rfl
  | (k, v) :: rest => by
    rw [entriesToJson?, entriesSerializable, ← toJson?_isSome v, ← entriesToJson?_isSome rest]
    cases v.toJson? with
    | none => rfl
    | some j => rw [Option.isSome_map, Option.isSome_some, Bool.true_and]
end

theorem ofJson_toJson? {v : Value} {j : Json} (written : v.toJson? = some j) : ofJson j = v := by
  have storable : v.serializable = true := by rw [← toJson?_isSome, written, Option.isSome_some]
  obtain ⟨j', written', read⟩ := ofJson_of_serializable v storable
  cases written.symm.trans written'
  exact read

theorem ofWhole_of_signed {i : Int} (signed : -2 ^ 63 ≤ i ∧ i < 2 ^ 63) :
    ofWhole i = .int (Int64.ofInt i) := by
  have fits : Int64.minValue.toInt ≤ i ∧ i ≤ Int64.maxValue.toInt :=
    ⟨signed.1, Int.le_of_lt_add_one signed.2⟩
  rw [ofWhole, Word.ofInt?, if_pos fits]

end Value

namespace Json

mutual
/-- A document whose whole numbers all have 64 signed bits. Its doubles are finite, as they are in
    every document. -/
def Signed : Json → Prop
  | .int i => -2 ^ 63 ≤ i ∧ i < 2 ^ 63
  | .float x => x.isFinite
  | .arr items => SignedItems items
  | .obj members => SignedMembers members
  | .null | .bool _ | .str _ => True

def SignedItems : List Json → Prop
  | [] => True
  | j :: rest => Signed j ∧ SignedItems rest

def SignedMembers : List (String × Json) → Prop
  | [] => True
  | (_, j) :: rest => Signed j ∧ SignedMembers rest
end

end Json

namespace Value

mutual
theorem toJson?_ofJson : ∀ j : Json, j.Signed → (ofJson j).toJson? = some j
  | .null, _ | .bool _, _ | .str _, _ => rfl
  | .int i, signed => by
    rw [ofJson, ofWhole_of_signed signed, toJson?, Int64.toInt_ofInt_of_le signed.1 signed.2]
  | .float x, finite => if_pos finite
  | .arr items, signed => by rw [ofJson, toJson?, itemsToJson?_ofJson items signed, Option.map_some]
  | .obj members, signed => by
    rw [ofJson, toJson?, entriesToJson?_ofJson members signed, Option.map_some]

theorem itemsToJson?_ofJson : ∀ items : List Json, Json.SignedItems items →
    itemsToJson? (itemsOfJson items) = some items
  | [], _ => rfl
  | j :: rest, signed => by
    simp only [itemsOfJson, itemsToJson?, toJson?_ofJson j signed.1,
      itemsToJson?_ofJson rest signed.2, Option.map_some]

theorem entriesToJson?_ofJson : ∀ members : List (String × Json), Json.SignedMembers members →
    entriesToJson? (membersOfJson members) = some members
  | [], _ => rfl
  | (k, j) :: rest, signed => by
    simp only [membersOfJson, entriesToJson?, toJson?_ofJson j signed.1,
      entriesToJson?_ofJson rest signed.2, Option.map_some]
end

/-- The values that have a document are those that can be stored, and each of them is read from its
    document; and a document whose whole numbers have 64 signed bits is that of the value read from
    it. -/
theorem values_survive_documents :
    (∀ v : Value, (v.toJson?.isSome = true ↔ v.serializable = true) ∧
      ∀ j, v.toJson? = some j → ofJson j = v) ∧
    ∀ j : Json, j.Signed → (ofJson j).toJson? = some j := by
  refine ⟨fun v => ⟨?_, fun j written => ofJson_toJson? written⟩, toJson?_ofJson⟩
  rw [toJson?_isSome]

def edges : Json :=
  .obj [("least", .int (-2 ^ 63)), ("most", .arr [.int (2 ^ 63 - 1), .float 1.0]),
    ("zeros", .obj [("float", .float (-0.0)), ("int", .int 0)])]

theorem values_survive_documents_at_the_edges :
    edges.Signed ∧ (ofJson edges).toJson? = some edges := by
  have float : Float.isFinite 1.0 = true := by decide
  have zero : Float.isFinite (-0.0) = true := by decide
  have signed : edges.Signed := by
    refine ⟨⟨?_, ?_⟩, ⟨⟨?_, ?_⟩, float, trivial⟩, ⟨zero, ⟨?_, ?_⟩, trivial⟩, trivial⟩ <;> decide
  exact ⟨signed, values_survive_documents.2 edges signed⟩

end Value

/-- All values of a namespace can be stored. -/
def Namespace.Storable (ns : Namespace) : Prop := ∀ e ∈ ns, e.2.serializable = true

/-- No entry of a namespace is left out of a checkpoint. -/
def Namespace.Public (ns : Namespace) : Prop :=
  ∀ e ∈ ns, e.1.startsWith "_" = false ∧ isReserved e.1 = false

def Namespace.kept (ns : Namespace) : Namespace := ns.filter (·.2.serializable)

theorem Namespace.ofJson_filterMapValues (ns : Namespace) (shown : String → Bool)
    {f : String → Value → Option Json}
    (taken : ∀ name v, f name v = if shown name then v.toJson? else none) :
    Namespace.ofJson (Dict.filterMapValues f ns) =
      ns.filter fun e => shown e.1 && e.2.serializable := by
  induction ns with
  | nil => rfl
  | cons e rest ih =>
    obtain ⟨name, v⟩ := e
    simp only [Namespace.ofJson, Dict.filterMapValues, Dict.mapValues] at ih ⊢
    rw [List.filterMap_cons, List.filter_cons, taken]
    cases shown name with
    | false => exact ih
    | true =>
      rw [if_pos rfl, ← Value.toJson?_isSome]
      cases written : v.toJson? with
      | none => exact ih
      | some j =>
        simp only [Option.map_some, List.map_cons, Value.ofJson_toJson? written, ih,
          Option.isSome_some, Bool.true_and, if_true]

theorem Namespace.ofJson_toJson_kept (ns : Namespace) :
    Namespace.ofJson (Namespace.toJson ns) = ns.kept :=
  ns.ofJson_filterMapValues (fun _ => true) fun _ _ => rfl

theorem ofJson_storedNames_eq (ns : Namespace) : Namespace.ofJson (storedNames ns) =
    ns.filter fun e => !(e.1.startsWith "_" || isReserved e.1) && e.2.serializable := by
  refine ns.ofJson_filterMapValues (fun name => !(name.startsWith "_" || isReserved name))
    fun name v => ?_
  cases name.startsWith "_" || isReserved name <;> rfl

theorem Namespace.toJson_sorted {ns : Namespace} (sorted : ns.Sorted) :
    (Namespace.toJson ns).Sorted :=
  List.Pairwise.sublist (Dict.keys_filterMapValues (fun _ v => v.toJson?) ns) sorted

theorem Namespace.ofJson_toJson {ns : Namespace} (storable : ns.Storable) :
    Namespace.ofJson (Namespace.toJson ns) = ns := by
  rw [ofJson_toJson_kept, kept, List.filter_eq_self]
  exact storable

theorem ofJson_storedNames {ns : Namespace} (storable : ns.Storable) (shown : ns.Public) :
    Namespace.ofJson (storedNames ns) = ns := by
  rw [ofJson_storedNames_eq, List.filter_eq_self]
  intro e mem
  rw [(shown e mem).1, (shown e mem).2, storable e mem]
  rfl

/-- What a snapshot has of a frame. -/
def Frame.kept (f : Frame) : Frame := { f with locals := f.locals.kept, execution := none }

theorem CallStack.ofSnapshot_snapshot (stack : CallStack) :
    ofSnapshot stack.snapshot = stack.map Frame.kept := by
  rw [ofSnapshot, snapshot, List.map_map]
  refine List.map_congr_left fun f _ => ?_
  show FrameSnapshot.toFrame f.snapshot = f.kept
  rw [FrameSnapshot.toFrame, Frame.snapshot, Namespace.ofJson_toJson_kept, Frame.kept]

namespace AgentState

/-- An agent `t` after a snapshot of `s` has been put on it. -/
structure Restored (s t r : AgentState) : Prop where
  id : r.id = t.id
  klass : r.klass = t.klass
  stored (name : String) (v : Value) : s.vars.get? name = some v → v.serializable = true →
    r.vars.get? name = some v
  others (name : String) : (∀ v, s.vars.get? name = some v → v.serializable = false) →
    r.vars.get? name = t.vars.get? name
  frames : t.stack = [] → r.stack = s.stack.map Frame.kept
  live : t.stack ≠ [] → r.stack = t.stack
  created : s.agents ≠ [] → r.agents = s.agents
  childless : s.agents = [] → r.agents = t.agents

variable {s t : AgentState}

theorem get?_restore_snapshot (sorted : s.vars.Sorted) (name : String) :
    (t.restore s.snapshot).vars.get? name =
      ((s.vars.get? name).filter Value.serializable).or (t.vars.get? name) := by
  have rising : s.vars.kept.Sorted := Dict.sorted_filter sorted _
  rw [restore, snapshot, Namespace.ofJson_toJson_kept, Dict.get?_union rising, Namespace.kept,
    Dict.get?_filter_of_sorted sorted]

theorem restored_snapshot (sorted : s.vars.Sorted) : Restored s t (t.restore s.snapshot) where
  id := rfl
  klass := rfl
  stored name v found storable := by
    rw [get?_restore_snapshot sorted, found, Option.filter_some_pos storable, Option.some_or]
  others name lost := by
    rw [get?_restore_snapshot sorted, Option.filter_eq_none_iff.2 fun v found => ?_, Option.none_or]
    rw [lost v found]
    exact Bool.false_ne_true
  frames outside := by
    rw [restore, outside, snapshot, ← CallStack.ofSnapshot_snapshot]
    rfl
  live inside := by
    rw [restore]
    exact if_neg (mt List.isEmpty_iff.1 inside)
  created some := by
    rw [restore]
    exact if_neg (mt List.isEmpty_iff.1 some)
  childless none := by
    rw [restore, snapshot, none]
    rfl

theorem restore_restore (snapshot : Snapshot) (rising : snapshot.vars.Sorted)
    (sorted : t.vars.Sorted) : (t.restore snapshot).restore snapshot = t.restore snapshot := by
  have rising' : (Namespace.ofJson snapshot.vars).Sorted :=
    Dict.sorted_mapValues rising Value.ofJson
  have vars : (t.restore snapshot).vars.union (Namespace.ofJson snapshot.vars) =
      (t.restore snapshot).vars := by
    refine Dict.union_of_present (Dict.sorted_union sorted _) fun e mem => ?_
    rw [restore, Dict.get?_union rising', Dict.get?_of_mem rising' mem, Option.some_or]
  have agents : (if snapshot.agents.isEmpty then (t.restore snapshot).agents else snapshot.agents) =
      (t.restore snapshot).agents := by
    rw [restore]
    split <;> rfl
  have stack : (if (t.restore snapshot).stack.isEmpty then CallStack.ofSnapshot snapshot.stack
      else (t.restore snapshot).stack) = (t.restore snapshot).stack := by
    rw [restore]
    cases outside : t.stack.isEmpty with
    | true => exact ite_self _
    | false => exact if_neg (Bool.eq_false_iff.1 outside)
  rw [restore, vars, agents, stack]

/-- Put on another agent, a snapshot gives it the variables that can be stored, the frames if it is
    in none of its own, and the sub-agents if there are any; put on it once more, it changes
    nothing. The names that a checkpoint keeps are those that are neither private nor reserved and
    have a value that can be stored. -/
theorem snapshot_carries_what_can_be_stored (s t : AgentState) (sorted : s.vars.Sorted)
    (sorted' : t.vars.Sorted) :
    Restored s t (t.restore s.snapshot) ∧
      (t.restore s.snapshot).restore s.snapshot = t.restore s.snapshot ∧
      ∀ (r : SaveRequest) (now : String) (number : Nat),
        (CheckpointManager.dataFor r now number).namespace_ =
          r.names.filter fun e => !(e.1.startsWith "_" || isReserved e.1) && e.2.serializable := by
  have rising : s.snapshot.vars.Sorted := Namespace.toJson_sorted sorted
  exact ⟨restored_snapshot sorted, restore_restore _ rising sorted',
    fun r _ _ => ofJson_storedNames_eq r.names⟩

def writer : AgentState where
  id := "writer"
  klass := "Writer"
  stack := [⟨⟨"Plan", "02", some "chat"⟩, [("n", .int 1), ("room", .handle "m")], some "m",
    some "writer"⟩]
  vars := [("draft", .list [.str "new", .handle "m"]), ("pages", .int 3)]
  agents := []

def stranger : AgentState where
  id := "stranger"
  klass := "Reader"
  stack := []
  vars := [("draft", .str "old"), ("title", .null)]
  agents := ["helper"]

theorem snapshot_carries_what_can_be_stored_of_a_writer :
    writer.vars.Sorted ∧ stranger.vars.Sorted ∧
    (stranger.restore writer.snapshot).vars.get? "pages" = some (.int 3) ∧
    (stranger.restore writer.snapshot).vars.get? "draft" = some (.str "old") ∧
    (stranger.restore writer.snapshot).stack =
      [⟨⟨"Plan", "02", some "chat"⟩, [("n", .int 1)], some "m", none⟩] ∧
    (stranger.restore writer.snapshot).agents = ["helper"] := by
  have sorted : writer.vars.Sorted := by
    unfold Dict.Sorted
    decide
  have sorted' : stranger.vars.Sorted := by
    unfold Dict.Sorted
    decide
  obtain ⟨restored, -, -⟩ := snapshot_carries_what_can_be_stored writer stranger sorted sorted'
  refine ⟨sorted, sorted', restored.stored "pages" _ rfl rfl, ?_, restored.frames rfl,
    restored.childless rfl⟩
  refine restored.others "draft" fun v found => ?_
  cases found
  rfl

end AgentState
end Playbook
