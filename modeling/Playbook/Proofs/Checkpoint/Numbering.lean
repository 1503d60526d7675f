import Playbook.Checkpoint.Manager
import Playbook.Proofs.Checkpoint.Files
import Playbook.Proofs.Checkpoint.Memory

/- Which numbers the checkpoints of an execution get. A manager counts on from the newest checkpoint
   it finds, and neither cleanups nor retention take that one away: so through restarts, refused saves
   and cleanups the numbers only rise, and nothing that is stored is replaced. -/
namespace Playbook
open CheckpointManager

def largest (ids : List CheckpointId) : Nat := (ids.map (·.number)).foldr max 0

/-- What retention leaves of checkpoints in rising order: the newest ones. -/
def retained (keep : Option Nat) (ids : List CheckpointId) : List CheckpointId :=
  match keep with
  | none => ids
  | some k => ids.drop (ids.length - k)

section Numbers
variable {ids : List CheckpointId} {id : CheckpointId} {keep : Option Nat} {k : Nat}

theorem le_largest (mem : id ∈ ids) : id.number ≤ largest ids := by
  induction ids with
  | nil => cases mem
  | cons first rest ih =>
    have grows : largest (first :: rest) = max first.number (largest rest) := rfl
    rcases List.mem_cons.1 mem with rfl | later
    · omega
    · have := ih later
      omega

theorem largest_le {n : Nat} (bound : ∀ id ∈ ids, id.number ≤ n) : largest ids ≤ n := by
  induction ids with
  | nil => exact Nat.zero_le n
  | cons first rest ih =>
    exact Nat.max_le.2 ⟨bound first List.mem_cons_self, ih fun id later => bound id (.tail first later)⟩

theorem largest_eq_last (rising : ids.Pairwise (·.number < ·.number)) :
    largest ids = (ids.getLast?.map (·.number)).getD 0 := by
  rcases List.eq_nil_or_concat ids with rfl | ⟨front, last, rfl⟩
  · rfl
  rw [List.concat_eq_append] at rising ⊢
  rw [List.getLast?_concat]
  apply Nat.le_antisymm
  · apply largest_le
    intro id mem
    rcases List.mem_append.1 mem with before | here
    · exact Nat.le_of_lt ((List.pairwise_append.1 rising).2.2 id before last List.mem_cons_self)
    · rw [List.mem_singleton.1 here]
      exact Nat.le_refl _
  · exact le_largest (List.mem_append_right front List.mem_cons_self)

theorem getLast?_retained (some : ∀ k ∈ keep, 1 ≤ k) :
    (retained keep ids).getLast? = ids.getLast? := by
  cases keep with
  | none => rfl
  | some k =>
    have := some k rfl
    rw [retained, List.getLast?_drop]
    split
    · have empty : ids = [] := List.length_eq_zero_iff.1 (by omega)
      rw [empty]
      rfl
    · rfl

theorem retained_sublist (keep : Option Nat) (ids : List CheckpointId) :
    (retained keep ids).Sublist ids := by
  cases keep with
  | none => exact .refl ids
  | some k => exact List.drop_sublist ..

theorem largest_retained (rising : ids.Pairwise (·.number < ·.number)) (some : ∀ k ∈ keep, 1 ≤ k) :
    largest (retained keep ids) = largest ids := by
  rw [largest_eq_last rising, largest_eq_last (rising.sublist (retained_sublist keep ids)),
    getLast?_retained some]

end Numbers

namespace Ledger
variable {m : Ledger} {execution : ExecutionId} {id : CheckpointId}

/-- What is left of a map after a cleanup, if there is one. -/
def trimmed (m : Ledger) (execution : ExecutionId) : Option Nat → Ledger
  | none => m
  | some keep => m.without (m.oldest execution keep)

theorem list_trimmed (m : Ledger) (execution : ExecutionId) (keep : Option Nat) :
    (m.trimmed execution keep).list execution = retained keep (m.list execution) := by
  cases keep with
  | none => rfl
  | some keep => exact m.list_without_oldest execution keep

theorem lookup_trimmed {keep : Option Nat} (left : id ∈ m.trimmed execution keep) :
    (m.trimmed execution keep).lookup id = m.lookup id := by
  cases keep with
  | none => rfl
  | some keep =>
    rw [trimmed, ← Finmap.lookup_isSome, lookup_without] at left
    rw [trimmed, lookup_without]
    split
    · rename_i gone
      rw [if_pos gone] at left
      cases left
    · rfl

theorem list_insert_above (data : CheckpointData) {n : Nat}
    (above : largest (m.list execution) < n) :
    Ledger.list (m.insert ⟨execution, n⟩ data) execution = m.list execution ++ [⟨execution, n⟩] := by
  symm
  apply eq_list
  · apply List.pairwise_append.2
    refine ⟨m.list_pairwise execution, List.pairwise_singleton .., ?_⟩
    intro old mem new here
    rw [List.mem_singleton.1 here]
    exact Nat.lt_of_le_of_lt (le_largest mem) above
  · intro id
    rw [List.mem_append, List.mem_singleton, mem_list, Finmap.mem_insert]
    constructor
    · rintro (⟨mem, same⟩ | rfl)
      · exact ⟨.inr mem, same⟩
      · exact ⟨.inl rfl, rfl⟩
    · rintro ⟨rfl | mem, same⟩
      · exact .inr rfl
      · exact .inl ⟨mem, same⟩

theorem list_saved {data : CheckpointData} {n : Nat} {keep : Option Nat}
    (above : largest (m.list execution) < n) :
    (Ledger.trimmed (m.insert ⟨execution, n⟩ data) execution keep).list execution =
      retained keep (m.list execution ++ [⟨execution, n⟩]) := by
  rw [list_trimmed, list_insert_above data above]

theorem lookup_saved {data : CheckpointData} {n : Nat} {keep : Option Nat}
    (above : largest (m.list execution) < n)
    (left : id ∈ retained keep (m.list execution ++ [⟨execution, n⟩])) :
    (Ledger.trimmed (m.insert ⟨execution, n⟩ data) execution keep).lookup id =
      Finmap.lookup id (m.insert ⟨execution, n⟩ data) := by
  have listed : id ∈ (Ledger.trimmed (m.insert ⟨execution, n⟩ data) execution keep).list execution := by
    rwa [list_saved above]
  exact lookup_trimmed (mem_list.1 listed).1

theorem lookup_above {n : Nat} (above : largest (m.list execution) < n) :
    m.lookup ⟨execution, n⟩ = none := by
  apply Finmap.lookup_eq_none.2
  intro mem
  exact Nat.not_lt.2 (le_largest (mem_list.2 ⟨mem, rfl⟩)) above

end Ledger

/-- A store that stores what it is given, as far as one execution can tell. What it saves is put into
    a map, what it refuses for its size changes nothing there; what it says about the execution and
    deletes for it is said of the map and deleted there. A save may also fail in other ways. -/
structure CheckpointStore.Keeps {σ : Type} (store : CheckpointStore σ) (execution : ExecutionId)
    (sound : CheckpointData → Prop) (stands : σ → Ledger → Prop) : Prop where
  saved : ∀ {s s' m n data}, stands s m → n < UInt64.size → sound data →
    store.save ⟨execution, n⟩ data s = (.ok (), s') → stands s' (m.insert ⟨execution, n⟩ data)
  refused : ∀ {s s' m n data size limit}, stands s m → n < UInt64.size → sound data →
    store.save ⟨execution, n⟩ data s = (.error (.sizeLimit size limit), s') → stands s' m
  loaded : ∀ {s m n}, stands s m → n < UInt64.size →
    store.load ⟨execution, n⟩ s = .ok (m.lookup ⟨execution, n⟩)
  listed : ∀ {s m}, stands s m → store.list execution s = .ok (m.list execution)
  deleted : ∀ {s m id}, stands s m → id ∈ m.list execution →
    ∃ s', store.delete id s = (.ok true, s') ∧ stands s' (m.erase id)

section
variable {σ : Type} {store : CheckpointStore σ} {limit : Nat} {stands : σ → Ledger → Prop}
  {sound : CheckpointData → Prop} {execution : ExecutionId}

theorem CheckpointStore.Realizes.keeps (realizes : store.Realizes limit stands)
    (valid : ValidId .execution execution)
    (saved : ∀ {s m id data}, stands s m → id.Valid → sound data → data.size ≤ limit →
      ∃ s', store.save id data s = (.ok (), s') ∧ stands s' (m.insert id data)) :
    store.Keeps execution sound stands where
  saved {s s' m n data} here fits good done := by
    by_cases large : limit < data.size
    · rw [realizes.refused here large] at done
      cases done
    · have named : CheckpointId.Valid ⟨execution, n⟩ := ⟨valid, fits⟩
      obtain ⟨s'', saved, there⟩ := saved here named good (Nat.le_of_not_lt large)
      rw [saved] at done
      cases done
      exact there
  refused {s s' m n data size limit'} here fits good done := by
    by_cases large : limit < data.size
    · rw [realizes.refused here large] at done
      cases done
      exact here
    · have named : CheckpointId.Valid ⟨execution, n⟩ := ⟨valid, fits⟩
      obtain ⟨s'', saved, -⟩ := saved here named good (Nat.le_of_not_lt large)
      rw [saved] at done
      cases done
  loaded here fits := realizes.loaded here ⟨valid, fits⟩
  listed here := realizes.listed here valid
  deleted here among := by
    have mem := (Ledger.mem_list.1 among).1
    obtain ⟨s', gone, there⟩ := realizes.deleted here (realizes.valid here mem)
    exact ⟨s', by rw [gone, Finmap.lookup_isSome.2 mem], there⟩

theorem MemoryStore.keeps (limit : Nat) (valid : ValidId .execution execution) :
    (MemoryStore.store limit).Keeps execution (fun _ => True) MemoryStore.Stands :=
  (realizes limit).keeps valid fun here named _ fits => saved limit here named fits

/-- The store of files keeps the data whose written form can be read. -/
theorem FileStore.keeps {root : FilePath} (roomy : Roomy root) (limit : Nat)
    (valid : ValidId .execution execution) :
    (FileStore.store root limit).Keeps execution CheckpointData.Readable (Stands root) :=
  (realizes roomy limit).keeps valid (realizes roomy limit).saved

end

/-- The largest number that a store lists. -/
def CheckpointStore.largestListed {σ : Type} (store : CheckpointStore σ) (execution : ExecutionId)
    (s : σ) : Nat :=
  match store.list execution s with
  | .ok ids => largest ids
  | .error _ => 0

/-- A save that has succeeded, or has been refused for its size. -/
def SavedOrTooLarge : Except StoreError CheckpointId → Prop
  | .ok _ | .error (.sizeLimit ..) => True
  | .error _ => False

instance : ∀ result, Decidable (SavedOrTooLarge result)
  | .ok _ | .error (.sizeLimit ..) => isTrue trivial
  | .error (.invalidId ..) | .error (.io ..) | .error (.corrupted _) | .error (.noCheckpoint _) =>
    isFalse id

/-- The manager and the store after some upkeep of the checkpoints of an execution, and the largest
    number that has been listed at the start or at any time since. One manager takes over from
    another; retention and cleanups keep something. -/
inductive Upkept {σ : Type} (store : CheckpointStore σ) (execution : ExecutionId)
    (sound : CheckpointData → Prop) (begun : σ) : CheckpointManager → σ → Nat → Prop where
  | start {m : CheckpointManager} {keep : Option Nat}
    (started : CheckpointManager.start store execution begun = .ok m) (some : ∀ k ∈ keep, 1 ≤ k) :
    Upkept store execution sound begun { m with keep } begun (store.largestListed execution begun)
  | restart {m m' : CheckpointManager} {s : σ} {peak : Nat} {keep : Option Nat}
    (before : Upkept store execution sound begun m s peak)
    (started : CheckpointManager.start store execution s = .ok m') (some : ∀ k ∈ keep, 1 ≤ k) :
    Upkept store execution sound begun { m' with keep } s peak
  | save {m m' : CheckpointManager} {s s' : σ} {peak : Nat} {now : String} {r : SaveRequest}
    {result : Except StoreError CheckpointId} (before : Upkept store execution sound begun m s peak)
    (room : peak + 1 < UInt64.size) (fits : sound (dataFor r now (peak + 1)))
    (done : m.save store now r s = (result, m', s')) (outcome : SavedOrTooLarge result) :
    Upkept store execution sound begun m' s' (max peak (store.largestListed execution s'))
  | cleanup {m : CheckpointManager} {s s' : σ} {peak keep : Nat} {result : Except StoreError Nat}
    (before : Upkept store execution sound begun m s peak) (some : 1 ≤ keep)
    (done : store.cleanup execution keep s = (result, s')) :
    Upkept store execution sound begun m s' (max peak (store.largestListed execution s'))

section Upkeep
variable {σ : Type} {store : CheckpointStore σ} {execution : ExecutionId}
  {sound : CheckpointData → Prop} {stands : σ → Ledger → Prop} {begun s s' : σ} {L : Ledger}
  {m m' : CheckpointManager} {peak : Nat} {now : String} {r : SaveRequest}
  {result : Except StoreError CheckpointId}

theorem CheckpointStore.Keeps.largestListed (keeps : store.Keeps execution sound stands)
    (here : stands s L) : store.largestListed execution s = largest (L.list execution) := by
  simp only [CheckpointStore.largestListed, keeps.listed here]

/-- The number given out last is the largest in the store, and the largest there has ever been. -/
structure Counting (stands : σ → Ledger → Prop) (execution : ExecutionId) (m : CheckpointManager)
    (s : σ) (peak : Nat) (L : Ledger) : Prop where
  there : stands s L
  runs : m.execution = execution
  last : m.last = peak
  some : ∀ k ∈ m.keep, 1 ≤ k
  top : largest (L.list execution) = peak

theorem CheckpointStore.Keeps.started (keeps : store.Keeps execution sound stands)
    (here : stands s L) (started : CheckpointManager.start store execution s = .ok m) :
    m.execution = execution ∧ m.last = largest (L.list execution) := by
  simp only [CheckpointManager.start, keeps.listed here, Except.ok.injEq] at started
  subst started
  exact ⟨rfl, (largest_eq_last (L.list_pairwise execution)).symm⟩

namespace Counting

theorem restart (counting : Counting stands execution m s peak L)
    (keeps : store.Keeps execution sound stands) {keep : Option Nat} (some : ∀ k ∈ keep, 1 ≤ k)
    (started : CheckpointManager.start store execution s = .ok m') :
    Counting stands execution { m' with keep } s peak L := by
  obtain ⟨same, last⟩ := keeps.started counting.there started
  exact ⟨counting.there, same, last.trans counting.top, some, counting.top⟩

theorem save (counting : Counting stands execution m s peak L)
    (keeps : store.Keeps execution sound stands) (room : peak + 1 < UInt64.size)
    (fits : sound (dataFor r now (peak + 1))) (done : m.save store now r s = (result, m', s'))
    (outcome : SavedOrTooLarge result) :
    (result = .ok ⟨execution, peak + 1⟩ ∧ m' = { m with last := peak + 1 } ∧
        stands s' (Ledger.trimmed (L.insert ⟨execution, peak + 1⟩ (dataFor r now (peak + 1)))
          execution m.keep)) ∨
      (∃ size limit, result = .error (.sizeLimit size limit) ∧ m' = m ∧ stands s' L) := by
  have number : (m.last + 1) % UInt64.size = peak + 1 := by
    rw [counting.last, Nat.mod_eq_of_lt room]
  obtain rfl := counting.runs
  simp only [CheckpointManager.save, number] at done
  rcases first : store.save ⟨m.execution, peak + 1⟩ (dataFor r now (peak + 1)) s with ⟨saved, s₁⟩
  rw [first] at done
  cases saved with
  | error e =>
    cases done
    cases e with
    | sizeLimit size limit =>
      exact .inr ⟨size, limit, rfl, rfl, keeps.refused counting.there room fits first⟩
    | _ => exact outcome.elim
  | ok u =>
    have there := keeps.saved counting.there room fits first
    left
    cases retention : m.keep with
    | none =>
      simp only [retention] at done
      cases done
      exact ⟨rfl, rfl, there⟩
    | some keep =>
      obtain ⟨s₂, cleaned, left⟩ :=
        store.cleaned_of_deleted keeps.deleted there (keeps.listed there) keep
      simp only [retention, cleaned] at done
      cases done
      exact ⟨rfl, rfl, left⟩

theorem largest_saved (counting : Counting stands execution m s peak L) (data : CheckpointData) :
    largest ((Ledger.trimmed (L.insert ⟨execution, peak + 1⟩ data) execution m.keep).list execution) =
      peak + 1 := by
  have above : largest (L.list execution) < peak + 1 := counting.top ▸ Nat.lt_succ_self _
  rw [Ledger.list_trimmed, largest_retained (Ledger.list_pairwise _ _) counting.some,
    largest_eq_last (Ledger.list_pairwise _ _), Ledger.list_insert_above data above,
    List.getLast?_concat]
  rfl

end Counting

theorem Upkept.counting (upkept : Upkept store execution sound begun m s peak)
    (keeps : store.Keeps execution sound stands) {L₀ : Ledger} (here : stands begun L₀) :
    ∃ L, Counting stands execution m s peak L := by
  induction upkept with
  | start started some =>
    obtain ⟨same, last⟩ := keeps.started here started
    have peak := keeps.largestListed here
    exact ⟨L₀, here, same, last.trans peak.symm, some, peak.symm⟩
  | restart _ started some ih =>
    obtain ⟨L, counting⟩ := ih
    exact ⟨L, counting.restart keeps some started⟩
  | @save m _ _ _ peak now r _ _ room fits done outcome ih =>
    obtain ⟨L, counting⟩ := ih
    rcases counting.save keeps room fits done outcome with ⟨-, rfl, there⟩ | ⟨_, _, -, rfl, there⟩
    · have peak := counting.largest_saved (dataFor r now (peak + 1))
      refine ⟨_, there, counting.runs, ?_, counting.some, ?_⟩
      · rw [keeps.largestListed there, peak]
        exact (Nat.max_eq_right (Nat.le_succ _)).symm
      · rw [keeps.largestListed there, peak]
        exact (Nat.max_eq_right (Nat.le_succ _)).symm
    · rw [keeps.largestListed there, counting.top, Nat.max_self]
      exact ⟨L, there, counting.runs, counting.last, counting.some, counting.top⟩
  | cleanup _ some done ih =>
    obtain ⟨L, counting⟩ := ih
    rename_i keep _ _
    obtain ⟨s', cleaned, there⟩ := store.cleaned_of_deleted keeps.deleted counting.there
      (keeps.listed counting.there) keep
    rw [cleaned] at done
    cases done
    have newest : largest (Ledger.list (L.without (L.oldest execution keep)) execution) =
        largest (L.list execution) := by
      have some' : ∀ k ∈ Option.some keep, 1 ≤ k := by
        rintro k ⟨⟩
        exact some
      rw [L.list_without_oldest]
      exact largest_retained (L.list_pairwise execution) some'
    rw [keeps.largestListed there, newest, counting.top, Nat.max_self]
    exact ⟨_, there, counting.runs, counting.last, counting.some, newest.trans counting.top⟩

/-- A save takes the number after the largest there has been and replaces nothing; the newest
    checkpoint is then what has been saved, and of the others those that retention leaves are as they
    were. A save that is refused changes nothing, not even the next number. -/
theorem numbers_only_rise (keeps : store.Keeps execution sound stands) {L₀ : Ledger}
    (here : stands begun L₀) (upkept : Upkept store execution sound begun m s peak)
    (room : peak + 1 < UInt64.size) (fits : sound (dataFor r now (peak + 1)))
    (done : m.save store now r s = (result, m', s')) (outcome : SavedOrTooLarge result) :
    ∃ ids, store.list execution s = .ok ids ∧ largest ids = peak ∧
      ((result = .ok ⟨execution, peak + 1⟩ ∧
          store.load ⟨execution, peak + 1⟩ s = .ok none ∧
          m'.latest store s' =
            .ok (some ⟨⟨execution, peak + 1⟩, dataFor r now (peak + 1)⟩) ∧
          store.list execution s' = .ok (retained m.keep (ids ++ [⟨execution, peak + 1⟩])) ∧
          ∀ old ∈ retained m.keep (ids ++ [⟨execution, peak + 1⟩]), old ∈ ids →
            store.load old s' = store.load old s) ∨
        ((∃ size limit, result = .error (.sizeLimit size limit)) ∧ m' = m ∧
          store.list execution s' = .ok ids ∧
          ∀ n, n < UInt64.size → store.load ⟨execution, n⟩ s' = store.load ⟨execution, n⟩ s)) := by
  obtain ⟨L, counting⟩ := upkept.counting keeps here
  refine ⟨L.list execution, keeps.listed counting.there, counting.top, ?_⟩
  have above : largest (L.list execution) < peak + 1 := counting.top ▸ Nat.lt_succ_self _
  rcases counting.save keeps room fits done outcome with
    ⟨rfl, rfl, there⟩ | ⟨size, limit, rfl, rfl, there⟩
  · left
    have listed := keeps.listed there
    rw [Ledger.list_saved above] at listed
    have newest : (retained m.keep (L.list execution ++ [⟨execution, peak + 1⟩])).getLast? =
        some ⟨execution, peak + 1⟩ := by
      rw [getLast?_retained counting.some, List.getLast?_concat]
    refine ⟨rfl, ?_, ?_, listed, ?_⟩
    · rw [keeps.loaded counting.there room, Ledger.lookup_above above]
    · have loaded := keeps.loaded there room
      rw [Ledger.lookup_saved above (List.mem_of_getLast? newest), Finmap.lookup_insert] at loaded
      simp only [CheckpointManager.latest, counting.runs, listed]
      rw [newest]
      simp only [CheckpointManager.load, loaded]
      rfl
    · intro old among before
      have smaller : old.number ≤ peak := counting.top ▸ le_largest before
      obtain ⟨e, n⟩ := old
      obtain ⟨-, rfl⟩ := Ledger.mem_list.1 before
      have different : (⟨e, n⟩ : CheckpointId) ≠ ⟨e, peak + 1⟩ := by
        rintro ⟨⟩
        exact Nat.not_succ_le_self peak smaller
      have within : n < UInt64.size := Nat.lt_of_le_of_lt smaller (Nat.lt_of_succ_lt room)
      rw [keeps.loaded there within, Ledger.lookup_saved above among,
        Finmap.lookup_insert_of_ne _ different, keeps.loaded counting.there within]
  · right
    refine ⟨⟨size, limit, rfl⟩, rfl, keeps.listed there, ?_⟩
    intro n fits
    rw [keeps.loaded there fits, keeps.loaded counting.there fits]

end Upkeep

namespace MemoryStore

def assigned (value : String) : SaveRequest where
  statement := "x = f()"
  names := [("_hidden", .null), ("x", .str value)]
  agent := ⟨"a", "A", [⟨⟨"Main", "01", none⟩, [], none, none⟩], [("n", .int 1)], ["helper"]⟩
  response := "x = f()\ny = "
  executed := "x = f()\n"

def stored (value : String) (number : Nat) : CheckpointData where
  state :=
    { stack := [⟨⟨"Main", "01", none⟩, none, []⟩]
      vars := [("n", .int 1)]
      agents := ["helper"] }
  names := [("x", .str value)]
  statement := "x = f()"
  executed := "x = f()\n"
  response := "x = f()\ny = "
  timestamp := "now"
  number := number

def saving (value : String) (pair : CheckpointManager × MemoryStore) :
    Except StoreError CheckpointId × CheckpointManager × MemoryStore :=
  pair.1.save (store 20) "now" (assigned value) pair.2

abbrev UpkeptFrom (pair : CheckpointManager × MemoryStore) (peak : Nat) : Prop :=
  Upkept (store 20) "run" (fun _ => True) [] pair.1 pair.2 peak

theorem UpkeptFrom.saving {pair : CheckpointManager × MemoryStore} {peak peak' : Nat}
    (before : UpkeptFrom pair peak) (value : String) (room : peak + 1 < UInt64.size)
    (outcome : SavedOrTooLarge (saving value pair).1)
    (top : max peak ((store 20).largestListed "run" (MemoryStore.saving value pair).2.2) = peak') :
    UpkeptFrom (MemoryStore.saving value pair).2 peak' :=
  top ▸ before.save room trivial rfl outcome

def begun : CheckpointManager × MemoryStore := (⟨"run", 0, none⟩, [])

def worked : CheckpointManager × MemoryStore :=
  (saving "more than is stored" (saving "b" (saving "a" begun).2).2).2

def tended : CheckpointManager × MemoryStore :=
  (⟨"run", 2, some 2⟩, ((store 20).cleanup "run" 1 worked.2).2)

theorem worked_upkept : UpkeptFrom worked 2 := by
  have first : UpkeptFrom begun 0 := .start (m := ⟨"run", 0, none⟩) rfl nofun
  have second : UpkeptFrom (saving "a" begun).2 1 :=
    first.saving "a" (by decide) (by decide +kernel) (by decide +kernel)
  have third : UpkeptFrom (saving "b" (saving "a" begun).2).2 2 :=
    second.saving "b" (by decide) (by decide +kernel) (by decide +kernel)
  exact third.saving _ (by decide) (by decide +kernel) (by decide +kernel)

theorem tended_upkept : UpkeptFrom tended 2 := by
  have cleaned : UpkeptFrom (worked.1, tended.2)
      (max 2 ((store 20).largestListed "run" tended.2)) := worked_upkept.cleanup (Nat.le_refl 1) rfl
  have top : max 2 ((store 20).largestListed "run" tended.2) = 2 := by decide +kernel
  rw [top] at cleaned
  have started : CheckpointManager.start (store 20) "run" tended.2 = .ok ⟨"run", 2, none⟩ := by
    decide +kernel
  have two : ∀ k ∈ some 2, 1 ≤ k := by
    rintro k ⟨⟩
    decide
  exact cleaned.restart started two

theorem dataFor_assigned (value : String) (number : Nat) :
    dataFor (assigned value) "now" number = stored value number := by
  have names : storedNames (assigned value).names = (stored value number).names := by
    have hidden : "_hidden".startsWith "_" = true := by decide +kernel
    have plain : "x".startsWith "_" = false := by decide +kernel
    have free : isReserved "x" = false := by decide
    simp only [storedNames, assigned, Dict.filterMapValues, List.filterMap, hidden, plain, free]
    rfl
  rw [dataFor, names]
  rfl

theorem numbers_only_rise_after_a_cleanup :
    (saving "c" tended).1 = .ok ⟨"run", 3⟩ ∧
      (saving "c" tended).2.1.latest (store 20) (saving "c" tended).2.2 =
        .ok (some ⟨⟨"run", 3⟩, stored "c" 3⟩) ∧
      (store 20).list "run" (saving "c" tended).2.2 = .ok [⟨"run", 2⟩, ⟨"run", 3⟩] := by
  have before : (store 20).list "run" tended.2 = .ok [⟨"run", 2⟩] := by decide +kernel
  have goes : (saving "c" tended).1.isOk = true := by decide +kernel
  have done : tended.1.save (store 20) "now" (assigned "c") tended.2 =
      ((saving "c" tended).1, (saving "c" tended).2.1, (saving "c" tended).2.2) := rfl
  obtain ⟨ids, listed, -, ⟨saved, -, latest, left, -⟩ | ⟨⟨size, limit, refused⟩, -⟩⟩ :=
    numbers_only_rise (keeps 20 (by decide)) Stands.empty tended_upkept (by decide) trivial done
      (by decide +kernel)
  · rw [before] at listed
    cases listed
    rw [dataFor_assigned] at latest
    exact ⟨saved, latest, left⟩
  · rw [refused] at goes
    cases goes

end MemoryStore
end Playbook
