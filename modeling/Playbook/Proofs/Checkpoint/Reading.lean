import Mathlib.Logic.Basic
import Playbook.Checkpoint.Data
import Playbook.Proofs.Dict
import Playbook.Proofs.Json.RoundTrip

/- What is read of the document of a checkpoint: all of it, or nothing if it nests too deep. Every
   part of the document is read, so there is no place where something too deep could be passed
   over. -/
namespace Playbook

namespace Json

mutual
def Ordered : Json → Prop
  | .arr items => OrderedItems items
  | .obj members => Dict.Sorted members ∧ OrderedMembers members
  | .null | .bool _ | .int _ | .float _ | .str _ => True

def OrderedItems : List Json → Prop
  | [] => True
  | j :: rest => Ordered j ∧ OrderedItems rest

def OrderedMembers : List (String × Json) → Prop
  | [] => True
  | (_, j) :: rest => Ordered j ∧ OrderedMembers rest
end

theorem ofList_of_sorted {members : List (String × Json)} (sorted : Dict.Sorted members) :
    Dict.ofList members = members := by
  have joined := Dict.union_of_sorted (d := []) (e := members) sorted
  exact joined

open RawJson

mutual
theorem toJson?_cut : ∀ (j : Json) (room : Nat), Ordered j →
    toJson? (cut room j) = if depth j ≤ room then some j else none
  | .null, _, _ | .bool _, _, _ | .int _, _, _ | .float _, _, _ | .str _, _, _ => by
    simp [cut, toJson?, depth]
  | .arr items, room, ordered => by
    cases room with
    | zero => simp [cut, within, toJson?, depth]
    | succ room =>
      have read := itemsToJson?_cut items room ordered
      simp only [cut, within, Nat.add_one_ne_zero, if_false, toJson?, Nat.add_sub_cancel, read,
        depth, Nat.add_le_add_iff_right]
      split <;> rfl
  | .obj members, room, ordered => by
    cases room with
    | zero => simp [cut, within, toJson?, depth]
    | succ room =>
      have read := membersToJson?_cut members room ordered.2
      simp only [cut, within, Nat.add_one_ne_zero, if_false, toJson?, Nat.add_sub_cancel, read,
        depth, Nat.add_le_add_iff_right]
      split
      · rw [Option.map_some, ofList_of_sorted ordered.1]
      · rfl

theorem itemsToJson?_cut : ∀ (items : List Json) (room : Nat), OrderedItems items →
    itemsToJson? (cutItems room items) = if listDepth items ≤ room then some items else none
  | [], room, _ => by simp [cutItems, itemsToJson?, listDepth]
  | j :: rest, room, ordered => by
    have first := toJson?_cut j room ordered.1
    have more := itemsToJson?_cut rest room ordered.2
    simp only [cutItems, itemsToJson?, first, more, listDepth, Nat.max_le]
    by_cases here : depth j ≤ room <;> by_cases later : listDepth rest ≤ room <;> simp [here, later]

theorem membersToJson?_cut : ∀ (members : List (String × Json)) (room : Nat),
    OrderedMembers members →
    membersToJson? (cutMembers room members) =
      if memberDepth members ≤ room then some members else none
  | [], room, _ => by simp [cutMembers, membersToJson?, memberDepth]
  | (name, j) :: rest, room, ordered => by
    have first := toJson?_cut j room ordered.1
    have more := membersToJson?_cut rest room ordered.2
    simp only [cutMembers, membersToJson?, first, more, memberDepth, Nat.max_le]
    by_cases here : depth j ≤ room <;> by_cases later : memberDepth rest ≤ room <;>
      simp [here, later]
end

theorem map?_cut {members : List (String × Json)} (room : Nat) (ordered : (Json.obj members).Ordered) :
    (RawJson.obj (cutMembers room members)).map? =
      if memberDepth members ≤ room then some members else none := by
  rw [map?, membersToJson?_cut members room ordered.2]
  split
  · rw [Option.map_some, ofList_of_sorted ordered.1]
  · rfl

end Json

section Records
variable (room : Nat)
open Json hiding strings? string? items?
open RawJson

theorem ite_bind {α β : Type} {p : Prop} [Decidable p] (a : α) (f : α → Option β) :
    (if p then some a else none).bind f = if p then f a else none := by
  split <;> rfl

theorem cut_arr (room : Nat) (items : List Json) :
    cut (room + 1) (.arr items) = .arr (cutItems room items) := by
  simp [cut, within]

theorem cut_obj (room : Nat) (members : List (String × Json)) :
    cut (room + 1) (.obj members) = .obj (cutMembers room members) := by
  simp [cut, within]

theorem cut_str (room : Nat) (s : String) : cut room (.str s) = .scalar (.str s) := by
  simp [cut]

theorem Pointer.ofRaw?_cut (p : Pointer) : ofRaw? (cut (room + 1) p.toJson) = some p := by
  obtain ⟨playbook, step, session⟩ := p
  cases session <;>
    simp [ofRaw?, toJson, cut_obj, cut_str, cutMembers, fields?, string?, optionalString?,
      RawJson.null]

structure FrameSnapshot.Orderly (f : FrameSnapshot) : Prop where
  locals : (Json.obj f.locals).Ordered
  meeting : ∀ m, f.meeting = some m → ValidId .meeting m

theorem FrameSnapshot.ofRaw?_cut {f : FrameSnapshot} (orderly : f.Orderly) :
    ofRaw? (cut (room + 2) f.toJson) =
      if memberDepth f.locals ≤ room then some f else none := by
  obtain ⟨pointer, meeting, locals⟩ := f
  have pointed := Pointer.ofRaw?_cut room pointer
  have kept := map?_cut room orderly.locals
  simp only at kept
  cases meeting with
  | none =>
    simp [ofRaw?, toJson, cut_obj, cutMembers, fields?, optionalString?, RawJson.null, pointed, kept]
    split <;> rfl
  | some m =>
    have valid : idFault? .meeting m = none := orderly.meeting m rfl
    simp [ofRaw?, toJson, cut_obj, cut_str, cutMembers, fields?, optionalString?, pointed, kept, valid]
    split <;> rfl

theorem FrameSnapshot.listOfRaw?_cut {frames : List FrameSnapshot} (orderly : ∀ f ∈ frames, f.Orderly) :
    listOfRaw? (cut (room + 3) (.arr (frames.map toJson))) =
      if ∀ f ∈ frames, memberDepth f.locals ≤ room then some frames else none := by
  have read : ∀ frames : List FrameSnapshot, (∀ f ∈ frames, f.Orderly) →
      (cutItems (room + 2) (frames.map toJson)).mapM ofRaw? =
        if ∀ f ∈ frames, memberDepth f.locals ≤ room then some frames else none := by
    intro frames orderly
    induction frames with
    | nil => simp [cutItems]
    | cons f rest ih =>
      have first := ofRaw?_cut room (orderly f List.mem_cons_self)
      have more := ih fun later among => orderly later (.tail f among)
      simp only [List.map_cons, cutItems, List.mapM_cons, first, more, List.forall_mem_cons]
      simp only [bind, ite_bind, ite_and]
      rfl
  rw [cut_arr, listOfRaw?]
  simp only [items?, bind, Option.bind_some, read frames orderly]

theorem strings?_cut (texts : List String) :
    (cut (room + 1) (Json.strings texts)).strings? = some texts := by
  rw [Json.strings, cut_arr, strings?]
  simp only [items?, bind, Option.bind_some]
  induction texts with
  | nil => rfl
  | cons text rest ih => simp [cutItems, cut_str, string?, ih]

structure Snapshot.Orderly (s : Snapshot) : Prop where
  stack : ∀ f ∈ s.stack, f.Orderly
  vars : (Json.obj s.vars).Ordered

/-- The variables and the locals of a state are not too deep. -/
def Snapshot.Fits (s : Snapshot) (room : Nat) : Prop :=
  (∀ f ∈ s.stack, memberDepth f.locals + 2 ≤ room) ∧ memberDepth s.vars ≤ room

instance (s : Snapshot) (room : Nat) : Decidable (s.Fits room) := inferInstanceAs (Decidable (_ ∧ _))

theorem Snapshot.ofRaw?_cut {s : Snapshot} (orderly : s.Orderly) :
    ofRaw? (cut (room + 4) s.toJson) = if s.Fits (room + 2) then some s else none := by
  obtain ⟨stack, vars, agents⟩ := s
  have frames := FrameSnapshot.listOfRaw?_cut room orderly.stack
  have kept := map?_cut (room + 2) orderly.vars
  have known := strings?_cut (room + 2) agents
  simp only at frames kept
  simp [ofRaw?, toJson, cut_obj, cutMembers, fields?, frames, kept, known, ite_bind, Fits, ite_and]

structure CheckpointData.Orderly (d : CheckpointData) : Prop where
  state : d.state.Orderly
  names : (Json.obj d.names).Ordered
  timestamp : Timestamp.valid d.timestamp = true

theorem CheckpointData.ofRaw?_cut {d : CheckpointData} (orderly : d.Orderly) :
    ofRaw? (cut (room + 5) d.toJson) =
      if d.state.Fits (room + 2) ∧ memberDepth d.names ≤ room + 3 then some d else none := by
  obtain ⟨state, names, statement, executed, response, timestamp, number⟩ := d
  have stated := Snapshot.ofRaw?_cut room orderly.state
  have kept := map?_cut (room + 3) orderly.names
  have stamped := orderly.timestamp
  have counted : (cut (room + 3) (.int number)).count? = some number := by simp [cut, count?]
  simp only at stated kept stamped
  simp [ofRaw?, toJson, metadataToJson, cut_obj, cutMembers, fields?, stated, kept, ite_bind, ite_and,
    cut_str, string?, stamped, counted]

end Records

section Depths
open Json

theorem listDepth_le {items : List Json} {n : Nat} :
    listDepth items ≤ n ↔ ∀ j ∈ items, depth j ≤ n := by
  induction items with
  | nil => simp [listDepth]
  | cons j rest ih => rw [listDepth, Nat.max_le, ih, List.forall_mem_cons]

theorem depth_strings (texts : List String) : (Json.strings texts).depth = 1 := by
  have flat : listDepth (texts.map .str) ≤ 0 := by
    rw [listDepth_le]
    intro j mem
    obtain ⟨text, -, rfl⟩ := List.mem_map.1 mem
    exact Nat.le_refl 0
  rw [Json.strings, depth]
  omega

theorem FrameSnapshot.depth_toJson (f : FrameSnapshot) :
    f.toJson.depth = memberDepth f.locals + 2 := by
  obtain ⟨⟨playbook, step, session⟩, meeting, locals⟩ := f
  cases session <;> cases meeting <;> simp [toJson, Pointer.toJson, depth, memberDepth]

theorem Snapshot.depth_toJson (s : Snapshot) (room : Nat) :
    s.toJson.depth ≤ room + 4 ↔ s.Fits (room + 2) := by
  have frames : listDepth (s.stack.map FrameSnapshot.toJson) ≤ room + 2 ↔
      ∀ f ∈ s.stack, memberDepth f.locals ≤ room := by
    rw [listDepth_le, List.forall_mem_map]
    simp only [FrameSnapshot.depth_toJson, Nat.add_le_add_iff_right]
  simp only [toJson, depth, memberDepth, depth_strings, Nat.max_le, Nat.add_le_add_iff_right, Fits,
    frames, Nat.le_add_left, and_true]

theorem CheckpointData.depth_toJson (d : CheckpointData) (room : Nat) :
    d.toJson.depth ≤ room + 5 ↔ d.state.Fits (room + 2) ∧ memberDepth d.names ≤ room + 3 := by
  have state := d.state.depth_toJson room
  simp only [toJson, metadataToJson, depth, memberDepth, Nat.max_le, Nat.add_le_add_iff_right,
    state, Nat.zero_le, and_true]

end Depths

/-- A checkpoint is read as it was written, or not at all. -/
theorem CheckpointData.parse?_pretty {d : CheckpointData} (orderly : d.Orderly)
    (legible : d.toJson.Legible) : parse? (d.toJson.pretty 0) =
      if d.toJson.depth ≤ RawJson.deepest then some d else none := by
  have read := ofRaw?_cut 122 orderly
  have depth := d.depth_toJson 122
  rw [parse?, Json.parse?_pretty_cut legible, Option.bind_some, RawJson.deepest, read]
  simp only [depth]

end Playbook
