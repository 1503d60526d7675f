import Playbook.Proofs.Checkpoint.Files
import Playbook.Proofs.Checkpoint.Memory
import Playbook.Proofs.Checkpoint.Recording
import Playbook.Proofs.Json.RoundTrip
import Playbook.Proofs.Storage.Texts

/- The store of files and the store in memory. What holds of all checkpoints that are put into one of
   them holds of all that come out of it, and they are one store to whoever asks them. -/
namespace Playbook
variable {P : CheckpointData → Prop} {id : CheckpointId} {data : CheckpointData}

namespace MemoryStore
variable {s : MemoryStore} (limit : Nat)

def Every (P : CheckpointData → Prop) (s : MemoryStore) : Prop :=
  ∀ e n d, numbered (s.of e) n = some d → P d

theorem Every.loaded (every : Every P s) (found : (store limit).load id s = .ok (some data)) :
    P data :=
  every _ _ _ (Except.ok.inj found)

theorem Every.saved (every : Every P s) (holds : P data) :
    Every P ((store limit).save id data s).2 := by
  simp only [store]
  cases checkSize limit data with
  | error fault => exact every
  | ok =>
    intro e n d found
    dsimp only at found
    rw [of_insert] at found
    split at found
    · rw [numbered_insertNumber] at found
      split at found
      · cases found
        exact holds
      · exact every _ _ _ found
    · exact every _ _ _ found

theorem Every.deleted (every : Every P s) : Every P ((store limit).delete id s).2 := by
  simp only [store]
  split
  · exact every
  split
  · intro e n d found
    rw [of_erase] at found
    split at found
    · cases found
    · exact every _ _ _ found
  · intro e n d found
    rw [of_insert] at found
    split at found
    · rw [numbered_filter] at found
      split at found
      · cases found
      · exact every _ _ _ found
    · exact every _ _ _ found

end MemoryStore

namespace FileStore
variable {root : FilePath} {limit : Nat} {fs : FileSystem}

/-- Whatever file there is: the checkpoint in it, if it is one. -/
def Every (P : CheckpointData → Prop) (fs : FileSystem) : Prop :=
  fs.tree.Texts fun text => ∀ d, CheckpointData.parse? text = some d → P d

theorem Every.loaded (every : Every P fs) (found : load root id fs = .ok (some data)) : P data := by
  simp only [load] at found
  split at found
  · cases found
  · cases found
  rename_i text read
  split at found
  · rename_i parsed
    cases found
    exact FileSystem.texts_read every read _ parsed
  · cases found

theorem Every.saved (every : Every P fs)
    (survives : ∀ d, CheckpointData.parse? (data.toJson.pretty 0) = some d → P d) :
    Every P (save root limit id data fs).2 := by
  simp only [save]
  split
  · exact every
  have made := FileSystem.texts_makeDirs every (directory root id.execution)
  split
  · rename_i done
    rwa [done] at made
  rename_i done
  rw [done] at made
  split
  · exact made
  rename_i wrote
  have written := FileSystem.texts_write made survives wrote
  split
  · exact written
  · rename_i renamed
    exact FileSystem.texts_rename written renamed

theorem Every.deleted (every : Every P fs) : Every P (delete root id fs).2 := by
  simp only [delete]
  split
  · rename_i removed
    exact FileSystem.texts_remove every removed
  · exact every
  · exact every

end FileStore

namespace Ledger
variable {root : FilePath} {fs : FileSystem} {calls : List StoreCall}

/-- Whatever the stores are asked, both give the answers of the same finite map. -/
theorem stores_answer_alike (limit : Nat) (roomy : FileStore.Roomy root)
    (fresh : FileStore.Fresh root fs) (sound : ∀ call ∈ calls, call.Sound) :
    (FileStore.store root limit).answers calls fs = answers limit calls ∅ ∧
      (MemoryStore.store limit).answers calls [] = answers limit calls ∅ := by
  constructor
  · exact (FileStore.realizes roomy limit).answers fresh.stands sound
  · exact (MemoryStore.realizes limit).answers MemoryStore.Stands.empty sound

def recorded (value : String) (number : Nat) : CheckpointData where
  state := ⟨[], [], []⟩
  names := [("x", .str value)]
  statement := "x = f()"
  executed := "x = f()\n"
  response := "x = f()\n"
  timestamp := "2024-01-01T00:00:00Z"
  number

theorem recorded_readable (value : String) {number : Nat} (fits : number < 2 ^ 64) :
    (recorded value number).Readable := by
  have legible : (recorded value number).toJson.Legible := by
    have count : -2 ^ 63 ≤ (number : Int) ∧ (number : Int) < 2 ^ 64 := by omega
    exact ⟨⟨trivial, trivial, trivial, trivial⟩, ⟨trivial, trivial⟩,
      ⟨trivial, trivial, trivial, trivial, count, trivial⟩, trivial⟩
  have shallow : (recorded value number).toJson.depth ≤ RawJson.deepest := by
    show 3 ≤ RawJson.deepest
    decide
  have stamped : Timestamp.valid "2024-01-01T00:00:00Z" = true := by decide +kernel
  rw [CheckpointData.Readable, CheckpointData.parse?, Json.parse?_pretty legible shallow,
    Option.bind_some]
  simp [CheckpointData.ofRaw?, CheckpointData.toJson, CheckpointData.metadataToJson, recorded,
    Snapshot.toJson, Snapshot.ofRaw?, RawJson.ofJson, RawJson.membersOfJson, RawJson.itemsOfJson,
    RawJson.fields?, Json.strings, FrameSnapshot.listOfRaw?, RawJson.items?, RawJson.map?,
    RawJson.membersToJson?, RawJson.toJson?, RawJson.strings?, RawJson.string?, RawJson.count?,
    Dict.ofList, Dict.insert, stamped]

def here : FilePath := ⟨".", false, [.stay]⟩

theorem names_store : FileSystem.Names here "store" where
  written := FileStore.textFault?_child (by decide) (by decide)
  fits := by decide

theorem store_fresh : FileStore.Fresh (here.child "store") .empty := by
  have opens : FileSystem.empty.Opens here [] [] := ⟨by decide, rfl, rfl⟩
  have made := opens.makeDirs_child names_store fun _ none => nomatch none
  have inside := (opens.put (FileTree.grows_insert fun _ none => nomatch none)).child names_store
    (Dict.get?_insert_self [] "store" FileTree.empty)
  exact ⟨_, made, FileSystem.opens_iff.1 ⟨_, inside⟩⟩

theorem store_roomy : FileStore.Roomy (here.child "store") := by
  have size := FileStore.joinText_bytes here.text "store"
  have short : here.text.utf8ByteSize + 1 + "store".utf8ByteSize = 7 := by decide
  show (FilePath.joinText here.text "store").utf8ByteSize + _ ≤ _
  unfold FileStore.longestName FileSystem.maxPathBytes
  omega

def history : List StoreCall :=
  [.executions, .save ⟨"a_ckpt", 2⟩ (recorded "first" 2), .save ⟨"a_ckpt", 10⟩ (recorded "later" 10),
    .save ⟨"other", 1⟩ (recorded "a value that is too long" 1),
    .save ⟨"a_ckpt", 2⟩ (recorded "again" 2), .load ⟨"a_ckpt", 2⟩, .list "a_ckpt",
    .save ⟨"other", 3⟩ (recorded "short" 3), .executions, .cleanup "a_ckpt" 1, .list "a_ckpt",
    .delete ⟨"a_ckpt", 10⟩, .delete ⟨"a_ckpt", 10⟩, .executions]

theorem history_sound : ∀ call ∈ history, call.Sound := by
  have one : ValidId .execution "a_ckpt" := by decide
  have other : ValidId .execution "other" := by decide
  simp [history, StoreCall.Sound, CheckpointId.Valid, one, other, recorded_readable, UInt64.size]

theorem stores_answer_alike_about_two_executions :
    (FileStore.store (here.child "store") 24).answers history .empty = answers 24 history ∅ ∧
      (MemoryStore.store 24).answers history [] = answers 24 history ∅ :=
  stores_answer_alike 24 store_roomy store_fresh history_sound

end Ledger
end Playbook
