import Playbook.Proofs.Checkpoint.Files

/- Checkpoints and the paths of their files are told apart by what is written, since no valid
   execution id cuts a path or names the directory it stands in or the one above. -/
namespace Playbook
open Text

/-- A name that leads down from wherever it stands in a path. -/
structure PlainName (name : String) : Prop where
  down : Step.ofName name = .down name
  uncut : '/' ∉ name.toList

theorem ofName_eq_down {name : String} {first : Char} (head : name.toList.head? = some first)
    (alphanumeric : isAsciiAlphanumeric first = true) : Step.ofName name = .down name := by
  have plain : first ≠ '.' := by
    rintro rfl
    exact absurd alphanumeric (by decide)
  have some : name ≠ "" := by
    rintro rfl
    cases head
  have here : name ≠ "." := by
    rintro rfl
    exact plain (Option.some.inj head).symm
  have above : name ≠ ".." := by
    rintro rfl
    exact plain (Option.some.inj head).symm
  simp [Step.ofName, some, here, above]

theorem plainName_of_valid {kind : IdKind} {id : String} (valid : ValidId kind id) :
    PlainName id := by
  have spelled := spelled_of_valid valid
  obtain ⟨first, head, alphanumeric⟩ := spelled.starts
  refine ⟨ofName_eq_down head alphanumeric, fun slash => ?_⟩
  exact absurd (spelled.characters '/' slash) (by decide)

namespace CheckpointId

/-- What the name of a checkpoint begins with and is made of does not depend on its ending. -/
theorem plainName_display {id : CheckpointId} (valid : id.Valid) {ending : String}
    (uncut : '/' ∉ ending.toList) : PlainName (id.display ++ ending) := by
  obtain ⟨first, head, alphanumeric⟩ := (spelled_of_valid valid.1).starts
  have spelled : (id.display ++ ending).toList = id.execution.toList ++
      (checkpointSeparator.toList ++ (Nat.toDigits 10 id.number ++ ending.toList)) := by
    rw [String.toList_append, toList_display, List.append_assoc, List.append_assoc]
  constructor
  · have begins : (id.display ++ ending).toList.head? = some first := by
      rw [spelled, List.head?_append, head]
      rfl
    exact ofName_eq_down begins alphanumeric
  · have execution : '/' ∉ id.execution.toList := (plainName_of_valid valid.1).uncut
    have separator : '/' ∉ checkpointSeparator.toList := by decide
    have digits : '/' ∉ Nat.toDigits 10 id.number :=
      fun slash => absurd (isAsciiDigit_of_mem_toDigits slash) (by decide)
    rw [spelled]
    simp only [List.mem_append, not_or]
    exact ⟨execution, separator, digits, uncut⟩

theorem sort_perm (ids : List CheckpointId) : (sort ids).Perm ids := List.mergeSort_perm ids before

theorem sort_pairwise (ids : List CheckpointId) : (sort ids).Pairwise (before · ·) :=
  List.pairwise_mergeSort before_trans before_total ids

theorem sort_execution_pairwise (ids : List CheckpointId) (e : ExecutionId) :
    ((sort ids).filter (·.execution = e)).Pairwise (·.number ≤ ·.number) := by
  have ordered := (sort_pairwise ids).filter (·.execution = e)
  refine ordered.imp_of_mem fun {a b} mem mem' first => ?_
  have here : a.execution = e := by simpa using (List.mem_filter.1 mem).2
  have here' : b.execution = e := by simpa using (List.mem_filter.1 mem').2
  simpa [before, here, here'] using first

end CheckpointId

namespace FilePath

/-- A file or directory is written and reached as the entry of a directory with this name. -/
structure PlainChild (dir : FilePath) (name : String) (p : FilePath) : Prop where
  named : PlainName name
  text : p.text = joinText dir.text name
  led : ∀ place, p.steps.foldl Step.walk place = dir.steps.foldl Step.walk place ++ [name]

theorem plainChild_child (dir : FilePath) {name : String} (named : PlainName name) :
    PlainChild dir name (dir.child name) where
  named := named
  text := rfl
  led place := by
    simp only [child, List.foldl_append, List.foldl_cons, List.foldl_nil, Step.walk]

theorem joinText_joinText (dir : String) {name : String} (named : PlainName name) (entry : String) :
    joinText (joinText dir name) entry = joinText dir name ++ "/" ++ entry := by
  have some : name ≠ "" := by
    rintro rfl
    exact absurd named.down (by decide)
  have written : joinText dir name ≠ "" := by
    unfold joinText
    split
    · exact some
    · split <;> simp [some]
  have ends : ∀ front, (front ++ name).endsWith "/" = false := by
    intro front
    apply Bool.eq_false_iff.2
    intro slashed
    have last := String.Slice.endsWith_string_iff.1 slashed
    obtain ⟨rest, shape⟩ := last
    rw [String.copy_toSlice, String.toList_append] at shape
    have final : (front.toList ++ name.toList).getLast? = Option.some '/' := by
      rw [← shape]
      simp
    have filled : name.toList ≠ [] := fun empty => some (String.toList_eq_nil_iff.1 empty)
    rw [List.getLast?_append_of_ne_nil _ filled] at final
    exact named.uncut (List.mem_of_getLast? final)
  have unslashed : (joinText dir name).endsWith "/" = false := by
    unfold joinText
    split
    · simpa using ends ""
    · split
      · exact ends dir
      · exact ends (dir ++ "/")
  rw [joinText.eq_1 (joinText dir name), if_neg written, unslashed]
  rfl

theorem name_unique {front front' name name' : String} (uncut : '/' ∉ name.toList)
    (uncut' : '/' ∉ name'.toList) (same : front ++ "/" ++ name = front' ++ "/" ++ name') :
    name = name' := by
  have split (front : String) {name : String} (uncut : '/' ∉ name.toList) :
      splitLast? ['/'] (front ++ "/" ++ name).toList = some (front.toList, name.toList) := by
    have first : splitLast? ['/'] ('/' :: name.toList) = some ([], name.toList) := by
      simp [splitLast?, splitLast?_of_notMem uncut, dropStart?]
    have shape : (front ++ "/" ++ name).toList = front.toList ++ '/' :: name.toList := by simp
    rw [shape, splitLast?_append first, List.append_nil]
  have equal := split front uncut
  rw [same, split front' uncut'] at equal
  exact (String.toList_injective (congrArg Prod.snd (Option.some.inj equal))).symm

end FilePath

namespace FileStore
open FilePath

theorem plainName_documentName {id : CheckpointId} (valid : id.Valid) :
    PlainName (documentName id) :=
  CheckpointId.plainName_display valid (by decide)

theorem plainName_draftName {id : CheckpointId} (valid : id.Valid) : PlainName (draftName id) :=
  CheckpointId.plainName_display valid (by decide)

theorem draftName_injective {id id' : CheckpointId} (valid : id.Valid) (valid' : id'.Valid)
    (same : draftName id = draftName id') : id = id' := by
  apply CheckpointId.display_injective valid valid'
  exact (String.append_left_inj ".json.tmp").1 same

def fileNames (id : CheckpointId) : List String := [documentName id, draftName id]

theorem plainName_of_mem_fileNames {id : CheckpointId} (valid : id.Valid) {name : String}
    (mem : name ∈ fileNames id) : PlainName name := by
  simp only [fileNames, List.mem_cons, List.not_mem_nil, or_false] at mem
  rcases mem with rfl | rfl
  · exact plainName_documentName valid
  · exact plainName_draftName valid

theorem fileNames_disjoint {id id' : CheckpointId} (valid : id.Valid) (valid' : id'.Valid)
    {name : String} (mem : name ∈ fileNames id) (mem' : name ∈ fileNames id') : id = id' := by
  simp only [fileNames, List.mem_cons, List.not_mem_nil, or_false] at mem mem'
  rcases mem with rfl | rfl <;> rcases mem' with same | same
  · exact documentName_injective valid valid' same
  · exact absurd same (documentName_ne_draftName id id')
  · exact absurd same.symm (documentName_ne_draftName id' id)
  · exact draftName_injective valid valid' same

theorem text_child_directory (root : FilePath) {e : ExecutionId} (valid : ValidId .execution e)
    (name : String) :
    ((directory root e).child name).text = (directory root e).text ++ "/" ++ name :=
  joinText_joinText root.text (plainName_of_valid valid) name

theorem paths_differ (root : FilePath) {id id' : CheckpointId} (valid : id.Valid)
    (valid' : id'.Valid) (different : id ≠ id') {name name' : String} (mem : name ∈ fileNames id)
    (mem' : name' ∈ fileNames id') :
    ((directory root id.execution).child name).text ≠
        ((directory root id'.execution).child name').text ∧
      ∀ place, ((directory root id.execution).child name).steps.foldl Step.walk place ≠
        ((directory root id'.execution).child name').steps.foldl Step.walk place := by
  have names : name ≠ name' := by
    rintro rfl
    exact different (fileNames_disjoint valid valid' mem mem')
  have named := plainName_of_mem_fileNames valid mem
  have named' := plainName_of_mem_fileNames valid' mem'
  constructor
  · intro same
    rw [text_child_directory root valid.1, text_child_directory root valid'.1] at same
    exact names (name_unique named.uncut named'.uncut same)
  · intro place same
    rw [(plainChild_child _ named).led, (plainChild_child _ named').led] at same
    exact names (List.cons.inj (List.append_inj_right' same rfl)).1

theorem locate_file {root : FilePath} (roomy : Roomy root) {id : CheckpointId} (valid : id.Valid)
    {fs : FileSystem} {place : FileTree.Path} {docs : Dict FileTree}
    (opens : fs.Opens (directory root id.execution) place docs) {name : String}
    (mem : name ∈ fileNames id) :
    fs.locate ((directory root id.execution).child name) = .ok (place ++ [name]) := by
  simp only [fileNames, List.mem_cons, List.not_mem_nil, or_false] at mem
  rcases mem with rfl | rfl
  · exact opens.locate_child (names_document roomy valid)
  · exact opens.locate_child (names_draft roomy valid)

def files (root : FilePath) (id : CheckpointId) : List FilePath := [document root id, draft root id]

theorem mem_files {root p : FilePath} {id : CheckpointId} (mem : p ∈ files root id) :
    ∃ name ∈ fileNames id, p = (directory root id.execution).child name := by
  simp only [files, List.mem_cons, List.not_mem_nil, or_false] at mem
  rcases mem with rfl | rfl
  · exact ⟨documentName id, List.mem_cons_self, rfl⟩
  · exact ⟨draftName id, .tail _ List.mem_cons_self, rfl⟩

/-- A printed checkpoint id is read as that id, so that no two are printed alike or have a file in
    common; each file is a plain one in the directory of its execution, which is a plain one below
    the root; and sorting puts the checkpoints of one execution in the order of their numbers. -/
theorem checkpoint_ids_are_unambiguous (root : FilePath) :
    (∀ id : CheckpointId, id.Valid → CheckpointId.parse id.display = .ok id) ∧
    (∀ id id' : CheckpointId, id.Valid → id'.Valid → id ≠ id' →
      id.display ≠ id'.display ∧
      ∀ p ∈ files root id, ∀ p' ∈ files root id', p.text ≠ p'.text ∧
        ∀ place, p.steps.foldl Step.walk place ≠ p'.steps.foldl Step.walk place) ∧
    (∀ id : CheckpointId, id.Valid →
      PlainChild root id.execution (directory root id.execution) ∧
      PlainChild (directory root id.execution) (id.display ++ ".json") (document root id) ∧
      PlainChild (directory root id.execution) (id.display ++ ".json.tmp") (draft root id) ∧
      (Roomy root → ∀ fs place docs,
        FileSystem.Opens fs (directory root id.execution) place docs →
        fs.locate (document root id) = .ok (place ++ [id.display ++ ".json"]) ∧
        fs.locate (draft root id) = .ok (place ++ [id.display ++ ".json.tmp"]))) ∧
    ∀ ids, (CheckpointId.sort ids).Perm ids ∧
      ∀ e, ((CheckpointId.sort ids).filter (·.execution = e)).Pairwise (·.number ≤ ·.number) := by
  refine ⟨fun id valid => CheckpointId.parse_display valid, ?different, ?plain, ?sorted⟩
  case different =>
    intro id id' valid valid' different
    constructor
    · exact fun same => different (CheckpointId.display_injective valid valid' same)
    · intro p mem p' mem'
      obtain ⟨name, named, rfl⟩ := mem_files mem
      obtain ⟨name', named', rfl⟩ := mem_files mem'
      exact paths_differ root valid valid' different named named'
  case plain =>
    intro id valid
    refine ⟨plainChild_child root (plainName_of_valid valid.1),
      plainChild_child _ (plainName_documentName valid),
      plainChild_child _ (plainName_draftName valid), fun roomy fs place docs opens => ?_⟩
    exact ⟨locate_file roomy valid opens List.mem_cons_self,
      locate_file roomy valid opens (.tail _ List.mem_cons_self)⟩
  case sorted =>
    exact fun ids => ⟨CheckpointId.sort_perm ids, CheckpointId.sort_execution_pairwise ids⟩

/-- An execution id that ends like the separator begins, with the highest number. -/
theorem checkpoint_ids_are_unambiguous_after_half_a_separator :
    let root : FilePath := ⟨"store", false, [.down "store"]⟩
    let id : CheckpointId := ⟨"a_ckpt", UInt64.size - 1⟩
    let id' : CheckpointId := ⟨"a_ckp", 9⟩
    let fs : FileSystem := ⟨.dir [("store", .dir [("a_ckpt", .dir [])])], []⟩
    CheckpointId.parse "a_ckpt_ckpt_18446744073709551615" = .ok id ∧
      (document root id).text ≠ (document root id').text ∧
      fs.locate (document root id) =
        .ok ["store", "a_ckpt", "a_ckpt_ckpt_18446744073709551615.json"] := by
  intro root id id' fs
  obtain ⟨read, different, plain, _⟩ := checkpoint_ids_are_unambiguous root
  have written : id.display = "a_ckpt_ckpt_18446744073709551615" := by decide
  have valid : id.Valid := by constructor <;> decide
  have valid' : id'.Valid := by constructor <;> decide
  have roomy : Roomy root := by
    unfold Roomy
    decide
  have opens : fs.Opens (directory root id.execution) ["store", "a_ckpt"] [] :=
    ⟨(names_execution roomy valid.1).written, rfl, rfl⟩
  have apart := different id id' valid valid' (by decide)
  have located := ((plain id valid).2.2.2 roomy fs _ _ opens).1
  rw [written] at located
  exact ⟨written ▸ read id valid, (apart.2 _ List.mem_cons_self _ List.mem_cons_self).1, located⟩

end FileStore
end Playbook
