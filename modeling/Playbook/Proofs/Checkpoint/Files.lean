import Playbook.Proofs.Checkpoint.Ledger
import Playbook.Proofs.Storage.FileSystem

/- The store of files keeps a finite map: a directory for each execution, a document in it for each
   checkpoint and nothing else. The root may still have to be made. -/
namespace Playbook
namespace FileStore
open FileTree hiding entries
open FileSystem hiding entries

def documentName (id : CheckpointId) : String := id.display ++ ".json"

def draftName (id : CheckpointId) : String := id.display ++ ".json.tmp"

def written (data : CheckpointData) : FileTree := .file (data.toJson.pretty 0)

theorem document_eq (root : FilePath) (id : CheckpointId) :
    document root id = (directory root id.execution).child (documentName id) := rfl

/-- What the names of an execution and of a draft in it add to a path, with the slashes. -/
def longestName : Nat := 1 + 96 + 1 + 131

/-- A path below which the file system can store what is written. -/
def Roomy (root : FilePath) : Prop := root.text.utf8ByteSize + longestName ≤ maxPathBytes

section Naming
variable {root : FilePath} {id id' : CheckpointId} {e : ExecutionId}

theorem joinText_bytes (dir name : String) :
    (FilePath.joinText dir name).utf8ByteSize ≤ dir.utf8ByteSize + 1 + name.utf8ByteSize := by
  have slash : "/".utf8ByteSize = 1 := by decide
  unfold FilePath.joinText
  split
  · omega
  · split
    · rw [String.utf8ByteSize_append]
      omega
    · rw [String.utf8ByteSize_append, String.utf8ByteSize_append, slash]

theorem joinText_ne_empty (dir : String) {name : String} (some : name ≠ "") :
    FilePath.joinText dir name ≠ "" := by
  unfold FilePath.joinText
  split
  · exact some
  · split <;> simp [some]

theorem textFault?_child {name : String} (some : name ≠ "")
    (fits : root.text.utf8ByteSize + 1 + name.utf8ByteSize ≤ maxPathBytes) :
    textFault? (root.child name) = none := by
  have size := joinText_bytes root.text name
  have some' : (root.child name).text ≠ "" := joinText_ne_empty root.text some
  have short : ¬ maxPathBytes < (root.child name).text.utf8ByteSize :=
    Nat.not_lt.2 (Nat.le_trans size fits)
  rw [textFault?, if_neg some', if_neg short]

theorem names_execution (roomy : Roomy root) (valid : ValidId .execution e) : Names root e := by
  have short : e.utf8ByteSize ≤ 96 := (spelled_of_valid valid).bytes
  unfold Roomy longestName at roomy
  constructor
  · apply textFault?_child (valid_ne_empty valid)
    omega
  · unfold maxNameBytes
    omega

theorem names_inside (roomy : Roomy root) (valid : ValidId .execution e) {name : String}
    (some : name ≠ "") (fits : name.utf8ByteSize ≤ 131) : Names (root.child e) name := by
  have short : e.utf8ByteSize ≤ 96 := (spelled_of_valid valid).bytes
  have size : (root.child e).text.utf8ByteSize ≤ _ := joinText_bytes root.text e
  unfold Roomy longestName at roomy
  constructor
  · apply textFault?_child some
    omega
  · unfold maxNameBytes
    omega

theorem names_document (roomy : Roomy root) (valid : id.Valid) :
    Names (directory root id.execution) (documentName id) := by
  have size := CheckpointId.display_bytes valid
  have ending : ".json".utf8ByteSize = 5 := by decide
  apply names_inside roomy valid.1
  · simp [documentName]
  · rw [documentName, String.utf8ByteSize_append]
    omega

theorem names_draft (roomy : Roomy root) (valid : id.Valid) :
    Names (directory root id.execution) (draftName id) := by
  have size := CheckpointId.display_bytes valid
  have ending : ".json.tmp".utf8ByteSize = 9 := by decide
  apply names_inside roomy valid.1
  · simp [draftName]
  · rw [draftName, String.utf8ByteSize_append]
    omega

theorem documentName_ne_draftName (id id' : CheckpointId) : documentName id ≠ draftName id' := by
  intro same
  have last : (documentName id).toList.getLast? = (draftName id').toList.getLast? := by rw [same]
  simp [documentName, draftName, String.toList_append] at last

theorem documentName_injective (valid : id.Valid) (valid' : id'.Valid)
    (same : documentName id = documentName id') : id = id' := by
  apply CheckpointId.display_injective valid valid'
  exact (String.append_left_inj ".json").1 same

theorem stem?_append (stem : String) : stem? (stem ++ ".json") = some stem := by
  have ends : (stem ++ ".json").endsWith ".json" = true := by
    apply String.Slice.endsWith_string_iff.2
    rw [String.copy_toSlice, String.toList_append]
    exact List.suffix_append ..
  have front : (stem ++ ".json").length - 5 = stem.toList.length := by
    have ending : ".json".length = 5 := by decide
    rw [String.length_append, ending, Nat.add_sub_cancel, String.length_toList]
  rw [stem?, if_pos ends, front, String.toList_append, List.take_left, String.ofList_toList]

theorem stem?_documentName (id : CheckpointId) : stem? (documentName id) = some id.display :=
  stem?_append id.display

end Naming
variable {root : FilePath} {m m' : Ledger} {id : CheckpointId} {e : ExecutionId}
  {data : CheckpointData} {docs entries : Dict FileTree} {fs : FileSystem} {limit : Nat}

/-- The directory of an execution has a document for each of its checkpoints. -/
structure Filed (docs : Dict FileTree) (e : ExecutionId) (m : Ledger) : Prop where
  sorted : Dict.Sorted docs
  file : ∀ {id}, id.execution = e → id.Valid →
    Dict.get? docs (documentName id) = (m.lookup id).map written
  named : ∀ {name}, name ∈ Dict.keys docs → ∃ id, id.Valid ∧ id.execution = e ∧ name = documentName id

structure Holds (entries : Dict FileTree) (m : Ledger) : Prop where
  valid : ∀ {id}, id ∈ m → id.Valid
  readable : ∀ {id data}, m.lookup id = some data → data.Readable
  sorted : Dict.Sorted entries
  filed : ∀ {e node}, Dict.get? entries e = some node →
    ValidId .execution e ∧ ∃ docs, node = .dir docs ∧ Filed docs e m
  known : ∀ {e}, Dict.get? entries e = none → ∀ id, id.execution = e → m.lookup id = none

theorem Filed.congr (filed : Filed docs e m)
    (same : ∀ id, id.execution = e → m'.lookup id = m.lookup id) : Filed docs e m' where
  sorted := filed.sorted
  file here valid := by rw [filed.file here valid, same _ here]
  named := filed.named

theorem Filed.free (filed : Filed docs e m) (id : CheckpointId) :
    Dict.get? docs (draftName id) = none := by
  cases found : Dict.get? docs (draftName id) with
  | none => rfl
  | some node =>
    obtain ⟨id', _, _, same⟩ := filed.named (Dict.mem_keys_iff.2 ⟨node, found⟩)
    exact absurd same.symm (documentName_ne_draftName id' id)

theorem Filed.erase (filed : Filed docs e m) (valid : id.Valid) :
    Filed (Dict.erase docs (documentName id)) e (m.erase id) where
  sorted := Dict.sorted_erase filed.sorted _
  file {id'} here' valid' := by
    by_cases same : id' = id
    · rw [same, Dict.get?_erase_self, Finmap.lookup_erase]
      rfl
    · have different : documentName id ≠ documentName id' :=
        fun equal => same (documentName_injective valid valid' equal).symm
      rw [Dict.get?_erase_of_ne docs different, Finmap.lookup_erase_ne same, filed.file here' valid']
  named mem := by
    have old : (Dict.keys (Dict.erase docs (documentName id))).Sublist (Dict.keys docs) :=
      List.filter_sublist.map Prod.fst
    exact filed.named (old.subset mem)

def replaced (docs : Dict FileTree) (id : CheckpointId) (node : FileTree) : Dict FileTree :=
  Dict.erase (Dict.insert (Dict.insert docs (draftName id) node) (documentName id) node)
    (draftName id)

theorem get?_replaced (docs : Dict FileTree) (id : CheckpointId) (node : FileTree) {name : String}
    (other : name ≠ draftName id) : Dict.get? (replaced docs id node) name =
      if name = documentName id then some node else Dict.get? docs name := by
  rw [replaced, Dict.get?_erase_of_ne _ (Ne.symm other)]
  split
  · rename_i same
    rw [same, Dict.get?_insert_self]
  · rename_i different
    rw [Dict.get?_insert_of_ne _ _ (Ne.symm different), Dict.get?_insert_of_ne _ _ (Ne.symm other)]

theorem Filed.insert (filed : Filed docs e m) (valid : id.Valid) (here : id.execution = e) :
    Filed (replaced docs id (written data)) e (m.insert id data) where
  sorted := Dict.sorted_erase (Dict.sorted_insert (Dict.sorted_insert filed.sorted _ _) _ _) _
  file {id'} here' valid' := by
    rw [get?_replaced docs id _ (documentName_ne_draftName id' id)]
    by_cases same : id' = id
    · rw [same, if_pos rfl, Finmap.lookup_insert]
      rfl
    · have different : documentName id' ≠ documentName id :=
        fun equal => same (documentName_injective valid' valid equal)
      rw [if_neg different, Finmap.lookup_insert_of_ne m same, filed.file here' valid']
  named {name} mem := by
    obtain ⟨node, found⟩ := Dict.mem_keys_iff.1 mem
    by_cases draft : name = draftName id
    · rw [draft, replaced, Dict.get?_erase_self] at found
      cases found
    · rw [get?_replaced docs id _ draft] at found
      split at found
      · exact ⟨id, valid, here, by assumption⟩
      · exact filed.named (Dict.mem_keys_iff.2 ⟨node, found⟩)

theorem Holds.empty : Holds [] ∅ where
  valid mem := absurd mem Finmap.notMem_empty
  readable found := nomatch found
  sorted := List.Pairwise.nil
  filed found := nomatch found
  known _ _ _ := Finmap.lookup_empty _

theorem Holds.names (holds : Holds entries m) {text : String} :
    Dict.get? entries e ≠ some (.file text) := by
  intro found
  obtain ⟨_, docs, impossible, _⟩ := holds.filed found
  cases impossible

theorem Holds.insert (holds : Holds entries m) (valid : ValidId .execution e)
    (filed : Filed docs e m') (valid' : ∀ {id}, id ∈ m' → id.Valid)
    (readable : ∀ {id data}, m'.lookup id = some data → data.Readable)
    (other : ∀ id, id.execution ≠ e → m'.lookup id = m.lookup id) :
    Holds (Dict.insert entries e (.dir docs)) m' where
  valid := valid'
  readable := readable
  sorted := Dict.sorted_insert holds.sorted e _
  filed {e' node} found := by
    by_cases same : e = e'
    · subst same
      rw [Dict.get?_insert_self] at found
      cases found
      exact ⟨valid, docs, rfl, filed⟩
    · rw [Dict.get?_insert_of_ne entries _ same] at found
      obtain ⟨valid, docs', rfl, filed'⟩ := holds.filed found
      exact ⟨valid, docs', rfl, filed'.congr fun id here => other id (here ▸ Ne.symm same)⟩
  known {e'} absent id here := by
    by_cases same : e = e'
    · subst same
      rw [Dict.get?_insert_self] at absent
      cases absent
    · rw [Dict.get?_insert_of_ne entries _ same] at absent
      rw [other id (here ▸ Ne.symm same)]
      exact holds.known absent id here

theorem Holds.erase (holds : Holds entries m) (valid : id.Valid)
    (filed : Filed docs id.execution m) :
    Holds (Dict.insert entries id.execution (.dir (Dict.erase docs (documentName id))))
      (m.erase id) := by
  apply holds.insert valid.1 (filed.erase valid)
  · intro id' mem
    exact holds.valid (Finmap.mem_erase.1 mem).2
  · intro id' data found
    by_cases same : id' = id
    · rw [same, Finmap.lookup_erase] at found
      cases found
    · rw [Finmap.lookup_erase_ne same] at found
      exact holds.readable found
  · intro id' different
    exact Finmap.lookup_erase_ne fun same => different (congrArg CheckpointId.execution same)

theorem Holds.save (holds : Holds entries m) (valid : id.Valid) (readable : data.Readable)
    (filed : Filed docs id.execution m) :
    Holds (Dict.insert entries id.execution (.dir (replaced docs id (written data))))
      (m.insert id data) := by
  apply holds.insert valid.1 (filed.insert valid rfl)
  · intro id' mem
    rcases Finmap.mem_insert.1 mem with rfl | old
    · exact valid
    · exact holds.valid old
  · intro id' data' found
    by_cases same : id' = id
    · rw [same, Finmap.lookup_insert] at found
      cases found
      exact readable
    · rw [Finmap.lookup_insert_of_ne m same] at found
      exact holds.readable found
  · intro id' different
    exact Finmap.lookup_insert_of_ne m fun same => different (congrArg CheckpointId.execution same)

theorem Holds.makeDir (holds : Holds entries m) (valid : ValidId .execution e)
    (absent : Dict.get? entries e = none) :
    Holds (Dict.insert entries e .empty) m ∧ Filed [] e m := by
  have filed : Filed [] e m := by
    constructor
    · exact List.Pairwise.nil
    · intro id here _
      rw [holds.known absent id here]
      rfl
    · intro name mem
      cases mem
  exact ⟨holds.insert valid filed holds.valid holds.readable fun _ _ => rfl, filed⟩

def readName (e : ExecutionId) (name : String) : Option CheckpointId :=
  match (stem? name).map CheckpointId.parse with
  | some (.ok id) => if id.execution = e then some id else none
  | _ => none

theorem readName_documentName (valid : id.Valid) :
    readName id.execution (documentName id) = some id := by
  rw [readName, stem?_documentName, Option.map_some, CheckpointId.parse_display valid]
  exact if_pos rfl

theorem sort_rising {ids : List CheckpointId} (one : ∀ id ∈ ids, id.execution = e)
    (distinct : ids.Nodup) : (CheckpointId.sort ids).Pairwise (·.number < ·.number) := by
  have perm : (CheckpointId.sort ids).Perm ids := List.mergeSort_perm ids _
  have sorted : (CheckpointId.sort ids).Pairwise (CheckpointId.before · ·) := by
    apply List.pairwise_mergeSort
    · exact CheckpointId.before_trans
    · exact CheckpointId.before_total
  refine List.Pairwise.imp_of_mem ?_ (sorted.and (perm.nodup_iff.2 distinct))
  rintro a b mem mem' ⟨before, different⟩
  have same : a.execution = b.execution :=
    (one a (perm.mem_iff.1 mem)).trans (one b (perm.mem_iff.1 mem')).symm
  have numbers : a.number ≠ b.number := by
    intro equal
    cases a
    cases b
    simp_all
  simp only [CheckpointId.before, if_pos same, decide_eq_true_eq] at before
  omega

theorem Filed.mem_keys (filed : Filed docs e m) (valid : id.Valid) (here : id.execution = e) :
    documentName id ∈ Dict.keys docs ↔ id ∈ m := by
  rw [Dict.mem_keys_iff, filed.file here valid, ← Finmap.lookup_isSome]
  cases m.lookup id <;> simp

theorem Filed.listed (filed : Filed docs e m) (valid : ∀ {id}, id ∈ m → id.Valid) :
    listed e (Dict.keys docs) = m.list e := by
  have found : ∀ id, id ∈ (Dict.keys docs).filterMap (readName e) ↔ id ∈ m ∧ id.execution = e := by
    intro id
    rw [List.mem_filterMap]
    constructor
    · rintro ⟨name, mem, read⟩
      obtain ⟨id', valid', rfl, rfl⟩ := filed.named mem
      rw [readName_documentName valid'] at read
      cases read
      exact ⟨(filed.mem_keys valid' rfl).1 mem, rfl⟩
    · rintro ⟨mem, rfl⟩
      exact ⟨documentName id, (filed.mem_keys (valid mem) rfl).2 mem,
        readName_documentName (valid mem)⟩
  have distinct : ((Dict.keys docs).filterMap (readName e)).Nodup := by
    apply List.pairwise_filterMap.2
    refine List.Pairwise.imp_of_mem ?_ filed.sorted
    rintro name name' mem mem' before id read _ read' rfl
    obtain ⟨id₁, valid₁, rfl, rfl⟩ := filed.named mem
    obtain ⟨id₂, valid₂, same, rfl⟩ := filed.named mem'
    rw [readName_documentName valid₁] at read
    rw [← same, readName_documentName valid₂] at read'
    cases read
    cases read'
    exact String.lt_irrefl _ before
  apply Ledger.eq_list
  · exact sort_rising (fun id mem => ((found id).1 mem).2) distinct
  · intro id
    rw [← found]
    exact (List.mergeSort_perm _ _).mem_iff

/-- What a store of files stands for; nothing as long as its root has to be made. -/
inductive Stands (root : FilePath) : FileSystem → Ledger → Prop where
  | made {fs place entries m} : fs.Opens root place entries → Holds entries m → Stands root fs m
  | unmade {fs fs' place} : fs.makeDirs root = (.ok (), fs') → fs'.Opens root place [] →
      fs.Missing root → Stands root fs ∅

/-- The root can be made, and then there is nothing in it. -/
def Fresh (root : FilePath) (fs : FileSystem) : Prop :=
  ∃ fs', fs.makeDirs root = (.ok (), fs') ∧ fs'.entries root = .ok []

theorem Fresh.stands (fresh : Fresh root fs) : Stands root fs ∅ := by
  obtain ⟨fs', made, nothing⟩ := fresh
  obtain ⟨place, opens⟩ := opens_iff.2 nothing
  rcases same_or_missing made opens with rfl | missing
  · exact .made opens .empty
  · exact .unmade made opens missing

theorem Stands.valid (stands : Stands root fs m) (mem : id ∈ m) : id.Valid := by
  cases stands with
  | made _ holds => exact holds.valid mem
  | unmade => exact absurd mem Finmap.notMem_empty

theorem Stands.readable (stands : Stands root fs m) (found : m.lookup id = some data) :
    data.Readable := by
  cases stands with
  | made _ holds => exact holds.readable found
  | unmade => cases found

theorem filterMapM_list (candidates : Dict FileTree)
    (listed : ∀ e ∈ candidates, list root e.1 fs = .ok (m.list e.1)) :
    (candidates.filterMapM fun e => do
      let ids ← list root e.1 fs
      return if ids.isEmpty then none else some e.1 : Except StoreError (List ExecutionId)) =
      .ok ((candidates.keys).filter fun e => !(m.list e).isEmpty) := by
  induction candidates with
  | nil => rfl
  | cons e rest ih =>
    have rest' := ih fun later among => listed later (.tail e among)
    rw [List.filterMapM_cons, listed e List.mem_cons_self]
    simp only [bind, Except.bind, pure, Except.pure] at rest' ⊢
    rw [rest']
    cases here : m.list e.1 with
    | nil => simp [Dict.keys, here]
    | cons id ids => simp [Dict.keys, here]

variable (roomy : Roomy root)
include roomy

theorem Holds.opened (holds : Holds entries m) {place : FileTree.Path}
    (opens : fs.Opens root place entries) (valid : ValidId .execution e) :
    (fs.Missing (directory root e) ∧ Filed [] e m) ∨
      ∃ docs, Dict.get? entries e = some (.dir docs) ∧ Filed docs e m ∧
        fs.Opens (directory root e) (place ++ [e]) docs := by
  have names := names_execution roomy valid
  cases found : Dict.get? entries e with
  | none => exact .inl ⟨opens.missing_child names found, (holds.makeDir valid found).2⟩
  | some node =>
    obtain ⟨_, docs, rfl, filed⟩ := holds.filed found
    exact .inr ⟨docs, rfl, filed, opens.child names found⟩

theorem Stands.opened (stands : Stands root fs m) (valid : ValidId .execution e) :
    (fs.Missing (directory root e) ∧ Filed [] e m) ∨
      ∃ docs place, Filed docs e m ∧ fs.Opens (directory root e) place docs := by
  cases stands with
  | unmade _ _ missing =>
    exact .inl ⟨missing.child (names_execution roomy valid), (Holds.empty.makeDir valid rfl).2⟩
  | made opens holds =>
    rcases holds.opened roomy opens valid with missing | ⟨docs, _, filed, opens⟩
    · exact .inl missing
    · exact .inr ⟨docs, _, filed, opens⟩

theorem read_document (stands : Stands root fs m) (valid : id.Valid) :
    fs.read (document root id) = match m.lookup id with
      | none => .error .notFound
      | some data => .ok (data.toJson.pretty 0) := by
  have names := names_document roomy valid
  rcases stands.opened roomy valid.1 with ⟨missing, filed⟩ | ⟨docs, place, filed, opens⟩
  · have absent := filed.file rfl valid
    rw [document_eq, missing.read_child names]
    cases found : m.lookup id with
    | none => rfl
    | some data =>
      rw [found] at absent
      cases absent
  · rw [document_eq, opens.read_child names, filed.file rfl valid]
    cases m.lookup id <;> rfl

theorem loaded (stands : Stands root fs m) (valid : id.Valid) :
    load root id fs = .ok (m.lookup id) := by
  simp only [load, read_document roomy stands valid]
  cases found : m.lookup id with
  | none => rfl
  | some data =>
    have readable : CheckpointData.parse? (data.toJson.pretty 0) = some data :=
      stands.readable found
    simp only [readable]

theorem listed_eq (stands : Stands root fs m) (valid : ValidId .execution e) :
    list root e fs = .ok (m.list e) := by
  rcases stands.opened roomy valid with ⟨missing, filed⟩ | ⟨docs, place, filed, opens⟩
  · simp only [list, missing.entries_eq]
    rw [← filed.listed stands.valid]
    simp [listed, CheckpointId.sort, Dict.keys]
  · simp only [list, opens_iff.1 ⟨place, opens⟩]
    rw [filed.listed stands.valid]

theorem deleted (stands : Stands root fs m) (valid : id.Valid) :
    ∃ fs', delete root id fs = (.ok (m.lookup id).isSome, fs') ∧ Stands root fs' (m.erase id) := by
  have names := names_document roomy valid
  have lost : m.lookup id = none → fs.remove (document root id) = .error .notFound →
      ∃ fs', delete root id fs = (.ok (m.lookup id).isSome, fs') ∧
        Stands root fs' (m.erase id) := by
    intro absent removed
    refine ⟨fs, by simp only [delete, removed, absent, Option.isSome_none], ?_⟩
    rwa [Ledger.erase_of_notMem (Finmap.lookup_eq_none.1 absent)]
  cases stands with
  | unmade made opens missing =>
    have missing' : fs.Missing (directory root id.execution) :=
      missing.child (names_execution roomy valid.1)
    exact lost (Finmap.lookup_empty id) (missing'.remove_child names)
  | made opens holds =>
    rcases holds.opened roomy opens valid.1 with ⟨missing, filed⟩ | ⟨docs, found, filed, opens'⟩
    · have absent := filed.file rfl valid
      refine lost ?_ (missing.remove_child names)
      cases here : m.lookup id with
      | none => rfl
      | some data =>
        rw [here] at absent
        cases absent
    · have file := filed.file rfl valid
      have removed := opens'.remove_child names
      rw [file, ← document_eq] at removed
      cases here : m.lookup id with
      | none =>
        rw [here] at lost removed
        exact lost rfl removed
      | some data =>
        rw [here] at file removed
        refine ⟨_, by simp only [delete, removed, Option.isSome_some]; rfl, ?_⟩
        exact .made (opens.put_child found (grows_erase_file file)) (holds.erase valid filed)

theorem saved_inside {place : FileTree.Path} (opens : fs.Opens root place entries)
    (holds : Holds entries m) (valid : id.Valid) (readable : data.Readable)
    (found : Dict.get? entries id.execution = some (.dir docs))
    (filed : Filed docs id.execution m) :
    ∃ fs₁ fs', fs.write (draft root id) (data.toJson.pretty 0) = .ok fs₁ ∧
      fs₁.rename (draft root id) (document root id) = .ok fs' ∧
      Stands root fs' (m.insert id data) := by
  let text := data.toJson.pretty 0
  let drafted := Dict.insert docs (draftName id) (.file text)
  let both := Dict.insert drafted (documentName id) (.file text)
  have inside : fs.Opens (directory root id.execution) (place ++ [id.execution]) docs :=
    opens.child (names_execution roomy valid.1) found
  have file : ∀ below, Dict.get? docs (documentName id) ≠ some (.dir below) := by
    intro below here
    rw [filed.file rfl valid] at here
    obtain ⟨data, _, same⟩ := Option.map_eq_some_iff.1 here
    cases same
  -- the draft
  have free₁ : ∀ below, Dict.get? docs (draftName id) ≠ some (.dir below) := by
    rw [filed.free]
    nofun
  have written := inside.write_child (names_draft roomy valid) free₁ text
  have grows₁ : (dir docs).Grows (.dir drafted) := grows_insert_of_free free₁
  have opens₁ := opens.put_child found grows₁
  have inside₁ := inside.put grows₁
  -- its name
  have free : ∀ below, Dict.get? drafted (documentName id) ≠ some (.dir below) := by
    intro below
    rw [Dict.get?_insert_of_ne docs _ (Ne.symm (documentName_ne_draftName id id))]
    exact file below
  have renamed := inside₁.rename_child (names_draft roomy valid) (names_document roomy valid)
    (Dict.get?_insert_self docs _ _) free (documentName_ne_draftName id id)
  have grows₂ : (dir drafted).Grows (.dir both) := grows_insert_of_free free
  have opens₂ := opens₁.put_child (Dict.get?_insert_self ..) grows₂
  have there : Dict.get? both (draftName id) = some (.file text) := by
    rw [Dict.get?_insert_of_ne _ _ (documentName_ne_draftName id id), Dict.get?_insert_self]
  have opens₃ := opens₂.put_child (Dict.get?_insert_self ..) (grows_erase_file there)
  rw [Dict.insert_insert, Dict.insert_insert] at opens₃
  exact ⟨_, _, written, renamed, .made opens₃ (holds.save valid readable filed)⟩

theorem saved_made {place : FileTree.Path} (opens : fs.Opens root place entries)
    (holds : Holds entries m) (valid : id.Valid) (readable : data.Readable)
    (fits : data.size ≤ limit) :
    ∃ fs', save root limit id data fs = (.ok (), fs') ∧ Stands root fs' (m.insert id data) := by
  have made := opens.makeDirs_child (names_execution roomy valid.1) fun _ => holds.names
  have after : ∃ fs₀ entries₀ docs, fs.makeDirs (directory root id.execution) = (.ok (), fs₀) ∧
      fs₀.Opens root place entries₀ ∧ Holds entries₀ m ∧
      Dict.get? entries₀ id.execution = some (.dir docs) ∧ Filed docs id.execution m := by
    cases here : Dict.get? entries id.execution with
    | none =>
      rw [here] at made
      obtain ⟨holds', filed⟩ := holds.makeDir valid.1 here
      have grows : (dir entries).Grows (.dir (Dict.insert entries id.execution .empty)) := by
        apply grows_insert
        intro node found
        rw [here] at found
        cases found
      exact ⟨_, _, [], made, opens.put grows, holds', Dict.get?_insert_self .., filed⟩
    | some node =>
      rw [here] at made
      obtain ⟨_, docs, rfl, filed⟩ := holds.filed here
      exact ⟨fs, entries, docs, made, opens, holds, here, filed⟩
  obtain ⟨fs₀, entries₀, docs, made, opens, holds, found, filed⟩ := after
  obtain ⟨fs₁, fs', written, renamed, stands⟩ := saved_inside roomy opens holds valid readable found filed
  refine ⟨fs', ?_, stands⟩
  simp only [save, checkSize, if_neg (Nat.not_lt.2 fits), made, written, renamed]

theorem saved (stands : Stands root fs m) (valid : id.Valid) (readable : data.Readable)
    (fits : data.size ≤ limit) :
    ∃ fs', save root limit id data fs = (.ok (), fs') ∧ Stands root fs' (m.insert id data) := by
  cases stands with
  | made opens holds => exact saved_made roomy opens holds valid readable fits
  | unmade made opens _ =>
    obtain ⟨fs', saved, stands⟩ := saved_made roomy opens .empty valid readable fits
    have inside := makeDirs_inside made opens (names_execution roomy valid.1) fun _ => Holds.empty.names
    refine ⟨fs', ?_, stands⟩
    rw [← saved]
    simp only [save, checkSize, if_neg (Nat.not_lt.2 fits), directory, inside]

theorem executions_eq (stands : Stands root fs m) :
    executions root fs = .ok m.executions := by
  have stands' := stands
  cases stands with
  | unmade _ _ missing =>
    simp only [executions, missing.entries_eq]
    simp [Ledger.executions]
  | made opens holds =>
    rename_i place entries
    have known : ∀ p ∈ entries, ValidId .execution p.1 ∧ p.2.isDir = true := by
      intro p mem
      obtain ⟨valid, docs, same, _⟩ := holds.filed (Dict.get?_of_mem holds.sorted mem)
      exact ⟨valid, by rw [same]; rfl⟩
    have all : entries.filter (fun p => p.2.isDir && (idFault? .execution p.1).isNone) = entries := by
      apply List.filter_eq_self.2
      intro p mem
      obtain ⟨valid, directory⟩ := known p mem
      simp only [directory, Bool.true_and]
      exact Option.isNone_iff_eq_none.2 valid
    have looked := filterMapM_list entries fun p mem =>
      listed_eq roomy stands' (known p mem).1
    have same : (Dict.keys entries).filter (fun e => !(m.list e).isEmpty) = m.executions := by
      apply Ledger.eq_executions
      · exact holds.sorted.filter _
      · intro e
        simp only [List.mem_filter, Bool.not_eq_true', List.isEmpty_eq_false_iff, ne_eq,
          and_iff_right_iff_imp]
        intro some
        cases found : Dict.get? entries e with
        | some node => exact Dict.mem_keys_iff.2 ⟨node, found⟩
        | none =>
          exfalso
          apply some
          apply List.eq_nil_iff_forall_not_mem.2
          intro id mem
          obtain ⟨here, same⟩ := Ledger.mem_list.1 mem
          exact Finmap.lookup_eq_none.1 (holds.known found id same) here
    rw [same] at looked
    simp only [executions, opens_iff.1 ⟨place, opens⟩]
    rw [all, looked]

theorem realizes (limit : Nat) : (store root limit).Realizes limit (Stands root) where
  valid := Stands.valid
  refused stands large := by simp only [store, save, checkSize, if_pos large]
  saved := saved roomy
  loaded := loaded roomy
  listed := listed_eq roomy
  deleted := deleted roomy
  executions := executions_eq roomy

end FileStore
end Playbook
