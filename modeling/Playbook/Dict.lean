/- Finite maps from names to anything, kept in rising order of the names. -/
namespace Playbook

/-- Entries in rising order; at most one for each name. -/
abbrev Dict (α : Type) := List (String × α)

namespace Dict
variable {α β : Type}

def Sorted (d : Dict α) : Prop := (d.map Prod.fst).Pairwise (· < ·)

def get? (d : Dict α) (key : String) : Option α :=
  match d with
  | [] => none
  | (k, v) :: rest => if k = key then some v else get? rest key

def insert (d : Dict α) (key : String) (value : α) : Dict α :=
  match d with
  | [] => [(key, value)]
  | (k, v) :: rest =>
    if k = key then (key, value) :: rest
    else if key < k then (key, value) :: (k, v) :: rest
    else (k, v) :: insert rest key value

def replace (d : Dict α) (key : String) (value : α) : Dict α :=
  match d with
  | [] => []
  | (k, v) :: rest => if k = key then (key, value) :: rest else (k, v) :: replace rest key value

def erase (d : Dict α) (key : String) : Dict α := d.filter (·.1 ≠ key)

def contains (d : Dict α) (key : String) : Bool := (d.get? key).isSome

def keys (d : Dict α) : List String := d.map Prod.fst

/-- Of entries with one name the last counts. -/
def ofList (entries : List (String × α)) : Dict α :=
  entries.foldl (fun d e => d.insert e.1 e.2) []

def union (d e : Dict α) : Dict α := e.foldl (fun d p => d.insert p.1 p.2) d

def filterMapValues (f : String → α → Option β) (d : Dict α) : Dict β :=
  d.filterMap fun e => (f e.1 e.2).map (e.1, ·)

def mapValues (f : α → β) (d : Dict α) : Dict β := d.map fun e => (e.1, f e.2)

theorem get?_insert_self (d : Dict α) (key : String) (value : α) :
    (d.insert key value).get? key = some value := by
  induction d with
  | nil => simp [insert, get?]
  | cons e rest ih =>
    obtain ⟨k, v⟩ := e
    unfold insert
    split
    · simp [get?]
    · split
      · simp [get?]
      · rename_i different _
        simp [get?, different, ih]

theorem get?_insert_of_ne (d : Dict α) {key other : String} (value : α) (h : key ≠ other) :
    (d.insert key value).get? other = d.get? other := by
  induction d with
  | nil => simp [insert, get?, h]
  | cons e rest ih =>
    obtain ⟨k, v⟩ := e
    unfold insert
    split
    · rename_i same
      subst same
      simp [get?, h]
    · split
      · simp [get?, h]
      · simp [get?, ih]

theorem get?_replace_self {d : Dict α} {key : String} {old : α} (value : α)
    (here : d.get? key = some old) : (d.replace key value).get? key = some value := by
  induction d with
  | nil => cases here
  | cons e rest ih =>
    obtain ⟨k, v⟩ := e
    unfold replace
    split
    · simp [get?]
    · rename_i different
      simp only [get?, if_neg different] at here ⊢
      exact ih here

theorem get?_replace_of_ne (d : Dict α) {key other : String} (value : α) (h : key ≠ other) :
    (d.replace key value).get? other = d.get? other := by
  induction d with
  | nil => rfl
  | cons e rest ih =>
    obtain ⟨k, v⟩ := e
    unfold replace
    split
    · rename_i same
      subst same
      simp [get?, h]
    · simp [get?, ih]

theorem replace_of_get? {d : Dict α} {key : String} {value : α}
    (here : d.get? key = some value) : d.replace key value = d := by
  induction d with
  | nil => rfl
  | cons e rest ih =>
    obtain ⟨k, v⟩ := e
    unfold replace
    split
    · rename_i same
      simp only [get?, if_pos same, Option.some.injEq] at here
      rw [same, here]
    · rename_i different
      simp only [get?, if_neg different] at here
      rw [ih here]

end Dict
end Playbook
