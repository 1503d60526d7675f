import Playbook.Checkpoint.Manager
import Playbook.Proofs.Checkpoint.Spelling

/- What the store of files lists for an execution, whatever files there are in its directory. A listed
   checkpoint is there unless its document is misspelled. -/
namespace Playbook
open CheckpointManager
namespace FileStore
open FileTree hiding entries
open FileSystem hiding entries

section Names
variable {e : ExecutionId} {id : CheckpointId} {name : String} {names : List String}

/-- The name of a document whose number is spelled in another way. -/
def spelledName (id : CheckpointId) (plus : Bool) (zeros : Nat) : String :=
  id.spelling plus zeros ++ ".json"

theorem spelledName_eq_documentName {plus : Bool} {zeros : Nat} :
    spelledName id plus zeros = documentName id ↔ plus = false ∧ zeros = 0 := by
  constructor
  · intro same
    have length := congrArg (fun name => name.toList.length) same
    simp only [spelledName, documentName, String.toList_append, List.length_append,
      CheckpointId.toList_spelling, CheckpointId.toList_display, Config.numeral,
      List.length_replicate] at length
    cases plus with
    | false => exact ⟨rfl, by simp at length; omega⟩
    | true => simp at length; omega
  · rintro ⟨rfl, rfl⟩
    apply String.toList_inj.1
    simp [spelledName, documentName, String.toList_append, CheckpointId.toList_spelling,
      CheckpointId.toList_display, Config.numeral]

theorem stem?_eq_some {stem : String} : stem? name = some stem ↔ name = stem ++ ".json" := by
  constructor
  · intro found
    have ends : name.endsWith ".json" = true := by
      by_contra other
      rw [stem?, if_neg other] at found
      cases found
    obtain ⟨front, same⟩ := String.Slice.endsWith_string_iff.1 ends
    rw [String.copy_toSlice, ← String.toList_ofList (l := front), ← String.toList_append] at same
    obtain rfl := String.toList_inj.1 same
    rw [stem?_append] at found
    cases found
    rfl
  · rintro rfl
    exact stem?_append stem

/-- All spellings of its checkpoints, and nothing else, are read for an execution. -/
theorem readName_eq_some : readName e name = some id ↔
    id.execution = e ∧ id.Valid ∧ ∃ plus zeros, name = spelledName id plus zeros := by
  constructor
  · intro read
    unfold readName at read
    split at read
    · rename_i id' found
      split at read
      · rename_i here
        cases read
        obtain ⟨stem, named, parsed⟩ := Option.map_eq_some_iff.1 found
        obtain ⟨valid, plus, zeros, rfl⟩ := CheckpointId.parse_eq_ok.1 parsed
        exact ⟨here, valid, plus, zeros, stem?_eq_some.1 named⟩
      · cases read
    · cases read
  · rintro ⟨rfl, valid, plus, zeros, rfl⟩
    have parsed := CheckpointId.parse_eq_ok.2 ⟨valid, plus, zeros, rfl⟩
    rw [readName, spelledName, stem?_append, Option.map_some, parsed]
    exact if_pos rfl

theorem mem_listed : id ∈ listed e names ↔ ∃ name ∈ names, readName e name = some id := by
  rw [← List.mem_filterMap]
  exact (List.mergeSort_perm _ _).mem_iff

theorem listed_valid (among : id ∈ listed e names) : id.execution = e ∧ id.Valid := by
  obtain ⟨name, -, read⟩ := mem_listed.1 among
  obtain ⟨here, valid, -⟩ := readName_eq_some.1 read
  exact ⟨here, valid⟩

theorem listed_rises : (listed e names).Pairwise (·.number ≤ ·.number) := by
  have sorted : (listed e names).Pairwise (CheckpointId.before · ·) :=
    List.pairwise_mergeSort CheckpointId.before_trans CheckpointId.before_total _
  refine List.Pairwise.imp_of_mem ?_ sorted
  intro a b mem mem' before
  have same : a.execution = b.execution := (listed_valid mem).1.trans (listed_valid mem').1.symm
  simpa only [CheckpointId.before, if_pos same, decide_eq_true_eq] using before

theorem newest_listed (among : id ∈ listed e names)
    (newest : ∀ other ∈ listed e names, other.number ≤ id.number) :
    (listed e names).getLast? = some id := by
  have rises : (listed e names).Pairwise (·.number ≤ ·.number) := listed_rises
  rcases List.eq_nil_or_concat' (listed e names) with none | ⟨front, last, split⟩
  · rw [none] at among
    cases among
  have there : last ∈ listed e names := split ▸ List.mem_concat_self
  have same : id.execution = last.execution :=
    (listed_valid among).1.trans (listed_valid there).1.symm
  have upper : last.number ≤ id.number := newest last there
  have lower : id.number ≤ last.number := by
    rw [split] at among rises
    rcases List.mem_append.1 among with before | here
    · exact (List.pairwise_append.1 rises).2.2 id before last List.mem_cons_self
    · rw [List.mem_singleton.1 here]
  have equal : id = last := congrArg₂ CheckpointId.mk same (Nat.le_antisymm lower upper)
  rw [split, List.getLast?_concat, equal]

end Names

/-- No number in the name of a document is spelled in another way. -/
def Proper (e : ExecutionId) (docs : Dict FileTree) : Prop :=
  ∀ id plus zeros, id.execution = e → id.Valid → spelledName id plus zeros ∈ Dict.keys docs →
    plus = false ∧ zeros = 0

section Directory
variable {root : FilePath} {fs : FileSystem} {place : FileTree.Path} {docs : Dict FileTree}
  {e : ExecutionId} {id : CheckpointId} {m : CheckpointManager} {agent : AgentState}

theorem keys_nodup (sorted : Dict.Sorted docs) : (Dict.keys docs).Nodup :=
  sorted.imp fun less => String.ne_of_lt less

theorem Proper.named (proper : Proper e docs) {name : String} (read : readName e name = some id)
    (mem : name ∈ Dict.keys docs) : name = documentName id := by
  obtain ⟨here, valid, plus, zeros, rfl⟩ := readName_eq_some.1 read
  exact spelledName_eq_documentName.2 (proper id plus zeros here valid mem)

theorem Proper.eraseAll (proper : Proper e docs) (names : List String) :
    Proper e (docs.eraseAll names) :=
  fun id plus zeros here valid mem =>
    proper id plus zeros here valid (Dict.mem_keys_eraseAll.1 mem).1

theorem Proper.mem_listed (proper : Proper e docs) : id ∈ listed e (Dict.keys docs) ↔
    id.execution = e ∧ id.Valid ∧ documentName id ∈ Dict.keys docs := by
  rw [FileStore.mem_listed]
  constructor
  · rintro ⟨name, mem, read⟩
    obtain ⟨here, valid, -⟩ := readName_eq_some.1 read
    exact ⟨here, valid, proper.named read mem ▸ mem⟩
  · rintro ⟨rfl, valid, mem⟩
    exact ⟨documentName id, mem, readName_documentName valid⟩

/-- The list has neither gaps nor repetitions just if the names are proper. -/
theorem proper_iff (sorted : Dict.Sorted docs) : Proper e docs ↔
    (listed e (Dict.keys docs)).Pairwise (·.number < ·.number) ∧
      ∀ id ∈ listed e (Dict.keys docs), documentName id ∈ Dict.keys docs := by
  have perm : (listed e (Dict.keys docs)).Perm ((Dict.keys docs).filterMap (readName e)) :=
    List.mergeSort_perm _ _
  constructor
  · intro proper
    constructor
    · apply sort_rising fun id among => (listed_valid (perm.mem_iff.2 among)).1
      apply List.pairwise_filterMap.2
      refine List.Pairwise.imp_of_mem ?_ (keys_nodup sorted)
      rintro name name' mem mem' different id read _ read' rfl
      exact different ((proper.named read mem).trans (proper.named read' mem').symm)
    · exact fun id among => (proper.mem_listed.1 among).2.2
  · rintro ⟨rising, there⟩ id plus zeros rfl valid mem
    have read : readName id.execution (spelledName id plus zeros) = some id :=
      readName_eq_some.2 ⟨rfl, valid, plus, zeros, rfl⟩
    apply spelledName_eq_documentName.1
    have once := List.pairwise_filterMap.1 (perm.nodup_iff.1 (CheckpointId.distinct_of_rising rising))
    have symm : Std.Symm fun name name' => ∀ id', readName id.execution name = some id' →
        ∀ id'', readName id.execution name' = some id'' → id' ≠ id'' :=
      ⟨fun _ _ apart id' read id'' read' same => apart id'' read' id' read same.symm⟩
    by_contra different
    have twice := once.forall mem (there id (mem_listed.2 ⟨_, mem, read⟩)) different
    exact twice id read id (readName_documentName valid) rfl

theorem load_fault {fault : StoreError} (failed : load root id fs = .error fault)
    (agent : AgentId) : fault ≠ .noCheckpoint agent := by
  simp only [load] at failed
  split at failed
  · cases failed
  · cases failed
    rintro ⟨⟩
  · split at failed
    · cases failed
    · cases failed
      rintro ⟨⟩

variable (roomy : Roomy root) (opens : fs.Opens (directory root e) place docs)
include opens

theorem list_opened : list root e fs = .ok (listed e (Dict.keys docs)) := by
  simp only [list, opens_iff.1 ⟨place, opens⟩]

include roomy

theorem load_opened (among : id ∈ listed e (Dict.keys docs)) :
    load root id fs = .ok none ↔ documentName id ∉ Dict.keys docs := by
  obtain ⟨rfl, valid⟩ := listed_valid among
  rw [load, document_eq, opens.read_child (names_document roomy valid), Dict.mem_keys_iff]
  cases Dict.get? docs (documentName id) with
  | none => simp
  | some node =>
    cases node with
    | dir => simp
    | file text => cases parsed : CheckpointData.parse? text <;> simp [parsed]

theorem delete_opened (here : id.execution = e) (valid : id.Valid) {text : String}
    (file : Dict.get? docs (documentName id) = some (.file text)) :
    ∃ fs', delete root id fs = (.ok true, fs') ∧
      fs'.Opens (directory root e) place (Dict.erase docs (documentName id)) := by
  subst here
  have removed := opens.remove_child (names_document roomy valid)
  rw [file, ← document_eq] at removed
  exact ⟨_, by simp only [delete, removed], opens.put (grows_erase_file file)⟩

theorem deleteAll_opened (limit count : Nat) {old : List CheckpointId} (distinct : old.Nodup)
    (valid : ∀ id ∈ old, id.execution = e ∧ id.Valid)
    (files : ∀ id ∈ old, ∃ text, Dict.get? docs (documentName id) = some (.file text)) :
    ∃ fs', (store root limit).deleteAll count fs old = (.ok (count + old.length), fs') ∧
      fs'.Opens (directory root e) place (docs.eraseAll (old.map documentName)) := by
  induction old generalizing fs docs count with
  | nil => exact ⟨fs, rfl, opens⟩
  | cons id rest ih =>
    obtain ⟨other, distinct'⟩ := List.nodup_cons.1 distinct
    obtain ⟨here, valid'⟩ := valid id List.mem_cons_self
    obtain ⟨text, file⟩ := files id List.mem_cons_self
    obtain ⟨fs₁, gone, opens₁⟩ := delete_opened roomy opens here valid' file
    have files' : ∀ later ∈ rest,
        ∃ text, Dict.get? (docs.erase (documentName id)) (documentName later) = some (.file text) := by
      intro later among
      have different : documentName id ≠ documentName later := by
        intro same
        obtain rfl := documentName_injective valid' (valid later (.tail id among)).2 same
        exact other among
      rw [Dict.get?_erase_of_ne docs different]
      exact files later (.tail id among)
    obtain ⟨fs', all, opens'⟩ :=
      ih opens₁ (count + 1) distinct' (fun later among => valid later (.tail id among)) files'
    refine ⟨fs', ?_, opens'⟩
    have gone' : (store root limit).delete id fs = (.ok true, fs₁) := gone
    simp only [CheckpointStore.deleteAll, gone', all, List.length_cons]
    congr 2
    omega

theorem cleanup_opened (limit keep : Nat) (sorted : Dict.Sorted docs) (proper : Proper e docs)
    (files : ∀ id ∈ listed e (Dict.keys docs),
      ∃ text, Dict.get? docs (documentName id) = some (.file text)) :
    ∃ fs', (store root limit).cleanup e keep fs =
        (.ok ((listed e (Dict.keys docs)).length - keep), fs') ∧
      list root e fs' =
        .ok ((listed e (Dict.keys docs)).drop ((listed e (Dict.keys docs)).length - keep)) := by
  have rising := ((proper_iff sorted).1 proper).1
  have distinct := CheckpointId.distinct_of_rising rising
  have asked : (store root limit).list e fs = .ok (listed e (Dict.keys docs)) := list_opened opens
  generalize all : listed e (Dict.keys docs) = ids at *
  have front : (ids.take (ids.length - keep)).Sublist ids := List.take_sublist ..
  obtain ⟨fs', gone, opens'⟩ := deleteAll_opened roomy opens limit 0 (front.nodup distinct)
    (fun id old => listed_valid (all ▸ front.subset old)) (fun id old => files id (front.subset old))
  refine ⟨fs', ?_, ?_⟩
  · simp only [CheckpointStore.cleanup, asked, gone, Nat.zero_add, List.length_take]
    congr 2
    omega
  · have proper' := proper.eraseAll ((ids.take (ids.length - keep)).map documentName)
    have sorted' := Dict.sorted_eraseAll sorted ((ids.take (ids.length - keep)).map documentName)
    rw [list_opened opens']
    congr 1
    apply CheckpointId.eq_of_rising ((proper_iff sorted').1 proper').1 rising.drop
    intro id
    rw [mem_drop_iff distinct, proper'.mem_listed, ← all, proper.mem_listed, all,
      Dict.mem_keys_eraseAll]
    have known : id.Valid → (documentName id ∈ (ids.take (ids.length - keep)).map documentName ↔
        id ∈ ids.take (ids.length - keep)) := by
      intro valid
      constructor
      · intro mem
        obtain ⟨other, old, same⟩ := List.mem_map.1 mem
        obtain rfl :=
          documentName_injective (listed_valid (all ▸ front.subset old)).2 valid same
        exact old
      · exact List.mem_map_of_mem
    constructor
    · rintro ⟨here, valid, mem, left⟩
      exact ⟨⟨here, valid, mem⟩, fun old => left ((known valid).2 old)⟩
    · rintro ⟨⟨here, valid, mem⟩, left⟩
      exact ⟨here, valid, mem, fun old => left ((known valid).1 old)⟩

theorem recover_opened (limit : Nat) (runs : m.execution = e)
    (listing : canRecover (store root limit) (some m) fs = true) :
    recover (store root limit) (some m) agent fs = .error (.noCheckpoint agent.id) ↔
      ∃ id, (listed e (Dict.keys docs)).getLast? = some id ∧ documentName id ∉ Dict.keys docs := by
  have asked : (store root limit).list m.execution fs = .ok (listed e (Dict.keys docs)) := by
    rw [runs]
    exact list_opened opens
  simp only [canRecover, CheckpointManager.list, asked] at listing
  cases last : (listed e (Dict.keys docs)).getLast? with
  | none =>
    rw [List.getLast?_eq_none_iff.1 last] at listing
    cases listing
  | some id =>
    have missing := load_opened roomy opens (List.mem_of_getLast? last)
    have opened : (store root limit).load id fs = load root id fs := rfl
    simp only [recover, latest, asked, last, CheckpointManager.load, opened, Option.some.injEq,
      exists_eq_left', ← missing]
    cases loaded : load root id fs with
    | error fault =>
      have other := load_fault loaded agent.id
      simpa [Except.map] using other
    | ok found => cases found <;> simp [Except.map]

end Directory

variable {root : FilePath} {fs : FileSystem} {docs : Dict FileTree} {e : ExecutionId}

/-- Whatever files are in the directory of an execution: a checkpoint is listed just if a document
    has one of its spellings for a name. So the list is strictly rising and without gaps just if all
    names are proper, and then cleanups leave what they should. -/
theorem listed_checkpoints_are_there_if_spelled_properly (roomy : Roomy root)
    (opened : fs.entries (directory root e) = .ok docs) (sorted : Dict.Sorted docs) (limit : Nat) :
    ∃ ids, list root e fs = .ok ids ∧ ids.Pairwise (·.number ≤ ·.number) ∧
      (∀ id, id ∈ ids ↔ id.execution = e ∧ id.Valid ∧
        ∃ plus zeros, spelledName id plus zeros ∈ Dict.keys docs) ∧
      (∀ id ∈ ids, load root id fs = .ok none ↔ documentName id ∉ Dict.keys docs) ∧
      ((ids.Pairwise (·.number < ·.number) ∧ ∀ id ∈ ids, load root id fs ≠ .ok none) ↔
        Proper e docs) ∧
      (∀ (m : CheckpointManager) agent, m.execution = e →
        canRecover (store root limit) (some m) fs = true →
        (recover (store root limit) (some m) agent fs = .error (.noCheckpoint agent.id) ↔
          ∃ id, ids.getLast? = some id ∧ documentName id ∉ Dict.keys docs)) ∧
      (Proper e docs →
        (∀ id ∈ ids, ∃ text, Dict.get? docs (documentName id) = some (.file text)) → ∀ keep,
          ∃ fs', (store root limit).cleanup e keep fs = (.ok (ids.length - keep), fs') ∧
            list root e fs' = .ok (ids.drop (ids.length - keep))) := by
  obtain ⟨place, opens⟩ := opens_iff.2 opened
  refine ⟨_, list_opened opens, listed_rises, ?_, fun id => load_opened roomy opens, ?_,
    fun m agent => recover_opened roomy opens limit, ?_⟩
  · intro id
    rw [mem_listed]
    constructor
    · rintro ⟨name, mem, read⟩
      obtain ⟨here, valid, plus, zeros, rfl⟩ := readName_eq_some.1 read
      exact ⟨here, valid, plus, zeros, mem⟩
    · rintro ⟨here, valid, plus, zeros, mem⟩
      exact ⟨_, mem, readName_eq_some.2 ⟨here, valid, plus, zeros, rfl⟩⟩
  · rw [proper_iff sorted]
    refine and_congr_right fun _ => forall₂_congr fun id among => ?_
    rw [ne_eq, load_opened roomy opens among, not_not]
  · exact fun proper files keep => cleanup_opened roomy opens limit keep sorted proper files

def zeroSpelled : Dict FileTree := [("run_ckpt_07.json", .file "\x7b\x7d")]

def zeroSpelledRun : FileSystem := ⟨.dir [("run", .dir zeroSpelled)], []⟩

theorem misspelled_checkpoint_is_listed_and_missing :
    ∃ ids, list ⟨".", false, [.stay]⟩ "run" zeroSpelledRun = .ok ids ∧ ⟨"run", 7⟩ ∈ ids ∧
      load ⟨".", false, [.stay]⟩ ⟨"run", 7⟩ zeroSpelledRun = .ok none := by
  have roomy : Roomy ⟨".", false, [.stay]⟩ := by
    unfold Roomy
    decide
  have above : zeroSpelledRun.Opens ⟨".", false, [.stay]⟩ [] [("run", .dir zeroSpelled)] :=
    ⟨by decide, rfl, rfl⟩
  have opened : zeroSpelledRun.entries (directory ⟨".", false, [.stay]⟩ "run") = .ok zeroSpelled :=
    opens_iff.1 ⟨_, above.child (names_execution roomy (by decide)) rfl⟩
  have spelled : spelledName ⟨"run", 7⟩ false 1 ∈ Dict.keys zeroSpelled := by decide +kernel
  have missing : documentName ⟨"run", 7⟩ ∉ Dict.keys zeroSpelled := by decide +kernel
  have valid : CheckpointId.Valid ⟨"run", 7⟩ := ⟨by decide, by decide⟩
  obtain ⟨ids, listed, -, known, found, -⟩ :=
    listed_checkpoints_are_there_if_spelled_properly roomy opened (List.pairwise_singleton ..) 100
  have among := (known ⟨"run", 7⟩).2 ⟨rfl, valid, false, 1, spelled⟩
  exact ⟨ids, listed, among, (found _ among).2 missing⟩

end FileStore
end Playbook
