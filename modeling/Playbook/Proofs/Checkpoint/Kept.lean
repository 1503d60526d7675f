import Playbook.Proofs.Checkpoint.Listing
import Playbook.Proofs.Checkpoint.Recording

/- What a save that succeeds leaves behind: the document, wherever the root is and whatever else is
   below it. Writing has no limit to the depth of a document and reading has one, so what can be
   saved can be recovered if it is not too deep, and never otherwise. -/
namespace Playbook
namespace FileStore
open FileTree hiding entries
open FileSystem hiding entries
open CheckpointManager (dataFor latest recover)

section Saved
variable {root : FilePath} {limit : Nat} {id : CheckpointId} {data : CheckpointData}
  {fs fs' : FileSystem}

theorem steps_of_save (saved : save root limit id data fs = (.ok (), fs')) :
    ∃ fs₁ fs₂, fs.makeDirs (directory root id.execution) = (.ok (), fs₁) ∧
      fs₁.write (draft root id) (data.toJson.pretty 0) = .ok fs₂ ∧
      fs₂.rename (draft root id) (document root id) = .ok fs' := by
  simp only [save] at saved
  split at saved
  · cases saved
  split at saved
  · cases saved
  rename_i fs₁ made
  split at saved
  · cases saved
  rename_i fs₂ written
  split at saved
  · cases saved
  rename_i renamed
  cases saved
  exact ⟨fs₁, fs₂, made, written, renamed⟩

theorem textFault?_of_makeDirs {p : FilePath} {name : String} (some : name ≠ "")
    (made : fs.makeDirs (p.child name) = (.ok (), fs')) : textFault? (p.child name) = none := by
  have some' : (p.child name).text ≠ "" := joinText_ne_empty p.text some
  rw [textFault?, if_neg some', if_neg]
  intro long
  rw [FileSystem.makeDirs, if_pos long] at made
  cases made

theorem document_of_save (valid : ValidId .execution id.execution)
    (saved : save root limit id data fs = (.ok (), fs')) :
    ∃ place docs, fs'.Opens (directory root id.execution) place docs ∧
      Names (directory root id.execution) (documentName id) ∧
      Dict.get? docs (documentName id) = some (written data) := by
  obtain ⟨fs₁, fs₂, made, wrote, renamed⟩ := steps_of_save saved
  have named : textFault? (directory root id.execution) = none :=
    textFault?_of_makeDirs (valid_ne_empty valid) made
  -- the draft
  obtain ⟨_, located⟩ := locate_of_write wrote
  obtain ⟨draftNamed, place, docs, opens⟩ := opens_of_locate named located
  have free := opens.free_of_write draftNamed wrote
  obtain rfl := Except.ok.inj ((opens.write_child draftNamed free _).symm.trans wrote)
  let drafted := Dict.insert docs (draftName id) (written data)
  have there : Dict.get? drafted (draftName id) = some (written data) := Dict.get?_insert_self ..
  have opens₁ : (fs₁.put place (.dir drafted)).Opens (directory root id.execution) place drafted :=
    opens.put (grows_insert_of_free free)
  -- its name
  obtain ⟨_, located'⟩ := locate_of_rename renamed
  obtain ⟨documentNamed, -⟩ := opens_of_locate named located'
  have free' := opens₁.free_of_rename draftNamed documentNamed renamed
  have renamed' := opens₁.rename_child draftNamed documentNamed there free'
    (documentName_ne_draftName id id)
  obtain rfl := Except.ok.inj (renamed'.symm.trans renamed)
  have kept : Dict.get? (Dict.insert drafted (documentName id) (written data)) (draftName id) =
      some (written data) := by
    rw [Dict.get?_insert_of_ne _ _ (documentName_ne_draftName id id)]
    exact there
  have opens₂ := (opens₁.put (grows_insert_of_free free')).put (grows_erase_file kept)
  refine ⟨place, replaced docs id (written data), opens₂, documentNamed, ?_⟩
  rw [get?_replaced docs id _ (documentName_ne_draftName id id), if_pos rfl]

/-- What comes back of what has been saved: all of it, or nothing if it nests too deep. -/
def readBack (id : CheckpointId) (data : CheckpointData) : Except StoreError CheckpointData :=
  if data.toJson.depth ≤ RawJson.deepest then .ok data else .error (.corrupted id)

theorem load_of_save (valid : ValidId .execution id.execution) (orderly : data.Orderly)
    (legible : data.toJson.Legible) (saved : save root limit id data fs = (.ok (), fs')) :
    load root id fs' = (readBack id data).map some := by
  obtain ⟨place, docs, opens, named, file⟩ := document_of_save valid saved
  have read : fs'.read (document root id) = .ok (data.toJson.pretty 0) := by
    rw [document_eq, opens.read_child named, file]
    rfl
  simp only [load, read, CheckpointData.parse?_pretty orderly legible, readBack]
  by_cases shallow : data.toJson.depth ≤ RawJson.deepest
  · simp only [if_pos shallow, Except.map]
  · simp only [if_neg shallow, Except.map]

theorem list_of_save (valid : id.Valid) (saved : save root limit id data fs = (.ok (), fs')) :
    ∃ ids, list root id.execution fs' = .ok ids ∧ id ∈ ids ∧
      ((∀ other ∈ ids, other.number ≤ id.number) → ids.getLast? = some id) := by
  obtain ⟨place, docs, opens, -, file⟩ := document_of_save valid.1 saved
  have among : id ∈ listed id.execution (Dict.keys docs) :=
    mem_listed.2 ⟨_, Dict.mem_keys_iff.2 ⟨_, file⟩, readName_documentName valid⟩
  exact ⟨_, list_opened opens, among, newest_listed among⟩

theorem recover_of_newest {m : CheckpointManager} {ids : List CheckpointId}
    {found : Except StoreError CheckpointData} (runs : m.execution = id.execution)
    (asked : list root id.execution fs = .ok ids) (last : ids.getLast? = some id)
    (loaded : load root id fs = found.map some) (agent : AgentState) :
    latest (store root limit) m fs = found.map (fun d => some ⟨id, d⟩) ∧
      recover (store root limit) (some m) agent fs =
        found.map fun d => (⟨id, d⟩, agent.restore d.state) := by
  have asked' : (store root limit).list m.execution fs = .ok ids := by rwa [runs]
  have loaded' : (store root limit).load id fs = found.map some := loaded
  have newest : latest (store root limit) m fs = found.map fun d => some ⟨id, d⟩ := by
    simp only [latest, asked', last, CheckpointManager.load, loaded']
    cases found <;> rfl
  refine ⟨newest, ?_⟩
  simp only [recover, newest]
  cases found <;> rfl

/-- Whatever a program has for names and variables: a checkpoint that has been saved is loaded as it
    was, and found by recovery as the newest one, if its document nests no deeper than the reader
    goes; otherwise it is taken for corrupted, and there is no recovery. -/
theorem saved_checkpoint_comes_back_unless_too_deep {r : SaveRequest} {now : String}
    (orderly : r.Orderly) (valid : id.Valid) (stamped : Timestamp.valid now = true)
    (floats : ∀ x ∈ (dataFor r now id.number).toJson.floats, Json.ReadsBack x)
    (saved : save root limit id (dataFor r now id.number) fs = (.ok (), fs')) :
    load root id fs' = (readBack id (dataFor r now id.number)).map some ∧
      ∃ ids, list root id.execution fs' = .ok ids ∧ id ∈ ids ∧
        ∀ (m : CheckpointManager) (agent : AgentState), m.execution = id.execution →
          (∀ other ∈ ids, other.number ≤ id.number) →
          latest (store root limit) m fs' =
              (readBack id (dataFor r now id.number)).map (fun d => some ⟨id, d⟩) ∧
            recover (store root limit) (some m) agent fs' =
              (readBack id (dataFor r now id.number)).map
                fun d => (⟨id, d⟩, agent.restore d.state) := by
  have loaded := load_of_save valid.1 (CheckpointManager.dataFor_orderly orderly stamped)
    (CheckpointManager.dataFor_legible valid.2 floats) saved
  obtain ⟨ids, asked, among, last⟩ := list_of_save valid saved
  refine ⟨loaded, ids, asked, among, fun m agent runs newest => ?_⟩
  exact recover_of_newest runs asked (last newest) loaded agent

end Saved

section Edge

def nestedList : Nat → Value
  | 0 => .null
  | levels + 1 => .list [nestedList levels]

theorem nestedList_ordered (levels : Nat) : (nestedList levels).Ordered := by
  induction levels with
  | zero => trivial
  | succ levels ih => exact ⟨ih, trivial⟩

def nestedRequest (levels : Nat) : SaveRequest :=
  ⟨"x", [("x", nestedList levels)], .fresh "writer" "Writer", "x", "x"⟩

theorem nestedRequest_orderly (levels : Nat) : (nestedRequest levels).Orderly where
  names := ⟨List.pairwise_singleton .., nestedList_ordered levels, trivial⟩
  agent := ⟨nofun, List.Pairwise.nil, trivial⟩

def nestedData (levels : Nat) : CheckpointData :=
  dataFor (nestedRequest levels) "2024-01-01T00:00:00Z" 1

def nestedSave (levels : Nat) : Except StoreError Unit × FileSystem :=
  save ⟨".", false, [.stay]⟩ 1000 ⟨"run", 1⟩ (nestedData levels) .empty

/-- Around a value there are two levels of the document. -/
theorem list_of_125_levels_comes_back_and_of_126_does_not :
    nestedSave 125 = (.ok (), (nestedSave 125).2) ∧ nestedSave 126 = (.ok (), (nestedSave 126).2) ∧
      load ⟨".", false, [.stay]⟩ ⟨"run", 1⟩ (nestedSave 125).2 = .ok (some (nestedData 125)) ∧
      load ⟨".", false, [.stay]⟩ ⟨"run", 1⟩ (nestedSave 126).2 = .error (.corrupted ⟨"run", 1⟩) := by
  have valid : CheckpointId.Valid ⟨"run", 1⟩ := ⟨by decide, by decide⟩
  have stamped : Timestamp.valid "2024-01-01T00:00:00Z" = true := by decide +kernel
  have comes : ∀ levels, (nestedData levels).toJson.floats = [] →
      nestedSave levels = (.ok (), (nestedSave levels).2) →
      load ⟨".", false, [.stay]⟩ ⟨"run", 1⟩ (nestedSave levels).2 =
        (readBack ⟨"run", 1⟩ (nestedData levels)).map some := by
    intro levels none saved
    refine (saved_checkpoint_comes_back_unless_too_deep (nestedRequest_orderly levels) valid
      stamped (fun x mem => ?_) saved).1
    have empty : (dataFor (nestedRequest levels) "2024-01-01T00:00:00Z" 1).toJson.floats = [] := none
    rw [empty] at mem
    cases mem
  have saved₁ : nestedSave 125 = (.ok (), (nestedSave 125).2) := Prod.ext (by decide +kernel) rfl
  have saved₂ : nestedSave 126 = (.ok (), (nestedSave 126).2) := Prod.ext (by decide +kernel) rfl
  have none₁ : (nestedData 125).toJson.floats = [] := List.isEmpty_iff.1 (by decide +kernel)
  have none₂ : (nestedData 126).toJson.floats = [] := List.isEmpty_iff.1 (by decide +kernel)
  have shallow : (nestedData 125).toJson.depth ≤ RawJson.deepest := by decide +kernel
  have deep : ¬(nestedData 126).toJson.depth ≤ RawJson.deepest := by decide +kernel
  refine ⟨saved₁, saved₂, ?_, ?_⟩
  · rw [comes 125 none₁ saved₁, readBack, if_pos shallow]
    rfl
  · rw [comes 126 none₂ saved₂, readBack, if_neg deep]
    rfl

end Edge
end FileStore
end Playbook
