import Playbook.Proofs.Dict
import Playbook.Storage.FileTree

/- A change below a node of a tree is a change of that node. Nothing but a directory can be made
   where something stands, and no directory is lost. -/
namespace Playbook.FileTree

variable {t t' node node' : FileTree} {entries : Dict FileTree} {place rest : Path} {name : String}
  {change : Option FileTree → Except FileFault (Option FileTree)}

theorem of_bind_ok {α β : Type} {x : Except FileFault α} {f : α → Except FileFault β} {b : β}
    (done : x >>= f = .ok b) : ∃ a, x = .ok a ∧ f a = .ok b := by
  cases x with
  | error e => cases done
  | ok a => exact ⟨a, rfl, done⟩

theorem of_map_ok {α β : Type} {x : Except FileFault α} {f : α → β} {b : β}
    (done : x.map f = .ok b) : ∃ a, x = .ok a ∧ b = f a := by
  cases x with
  | error e => cases done
  | ok a => exact ⟨a, rfl, (Except.ok.inj done).symm⟩

theorem find_append (t : FileTree) (place rest : Path) :
    t.find (place ++ rest) = (t.find place).bind (·.find rest) := by
  induction place generalizing t with
  | nil => rfl
  | cons name above ih =>
    cases t with
    | file text => rfl
    | dir entries =>
      simp only [List.cons_append, find]
      cases Dict.get? entries name with
      | none => rfl
      | some child => exact ih child

theorem find_cons_ok (found : t.find (name :: rest) = .ok node) : ∃ entries child,
    t = .dir entries ∧ Dict.get? entries name = some child ∧ child.find rest = .ok node := by
  cases t with
  | file text => cases found
  | dir entries =>
    cases here : Dict.get? entries name with
    | none => simp only [find, here, reduceCtorEq] at found
    | some child =>
      simp only [find, here] at found
      exact ⟨entries, child, rfl, here, found⟩

theorem graft_cons (here : Dict.get? entries name = some node) (rest : Path) (node' : FileTree) :
    (dir entries).graft (name :: rest) node' =
      .dir (Dict.insert entries name (node.graft rest node')) := by
  rw [graft, here, Option.getD_some]

theorem find_graft (found : t.find place = .ok node) (node' : FileTree) :
    (t.graft place node').find place = .ok node' := by
  induction place generalizing t with
  | nil => rfl
  | cons name rest ih =>
    obtain ⟨entries, child, rfl, here, found⟩ := find_cons_ok found
    rw [graft_cons here, find, Dict.get?_insert_self]
    exact ih found

theorem graft_append (found : t.find place = .ok node) (rest : Path) (node' : FileTree) :
    t.graft (place ++ rest) node' = t.graft place (node.graft rest node') := by
  induction place generalizing t with
  | nil =>
    cases found
    rfl
  | cons name above ih =>
    obtain ⟨entries, child, rfl, here, found⟩ := find_cons_ok found
    rw [List.cons_append, graft_cons here, graft_cons here, ih found]

theorem update_cons (entries : Dict FileTree) (name : String) (deeper : rest ≠ []) :
    (dir entries).update (name :: rest) change =
      match Dict.get? entries name with
      | none => .error .notFound
      | some child =>
        (child.update rest change).map fun child => .dir (Dict.insert entries name child) := by
  rw [update]
  · cases Dict.get? entries name with
    | none => rfl
    | some child =>
      dsimp only
      cases child.update rest change <;> rfl
  · exact fun none => deeper none

theorem update_append (found : t.find place = .ok node) (deeper : rest ≠ []) :
    t.update (place ++ rest) change = (node.update rest change).map (t.graft place) := by
  induction place generalizing t with
  | nil =>
    cases found
    rw [List.nil_append]
    cases node.update rest change <;> rfl
  | cons name above ih =>
    obtain ⟨entries, child, rfl, here, found⟩ := find_cons_ok found
    have more : above ++ rest ≠ [] := fun none => deeper (List.append_eq_nil_iff.1 none).2
    rw [List.cons_append, update_cons entries name more, here]
    simp only [ih found]
    cases node.update rest change with
    | error e => rfl
    | ok node' => simp only [Except.map, graft_cons here]

section Directory
variable (found : t.find place = .ok (.dir entries))
include found

theorem find_in (name : String) : t.find (place ++ [name]) =
    match Dict.get? entries name with
    | none => .error .notFound
    | some node => .ok node := by
  rw [find_append, found]
  show (dir entries).find [name] = _
  rw [find]
  cases Dict.get? entries name <;> rfl

theorem read_in (name : String) : t.read (place ++ [name]) =
    match Dict.get? entries name with
    | none => .error .notFound
    | some (.dir _) => .error .isDirectory
    | some (.file text) => .ok text := by
  rw [read, find_in found]
  cases Dict.get? entries name with
  | none => rfl
  | some node => cases node <;> rfl

theorem entries_in (name : String) : t.entries (place ++ [name]) =
    match Dict.get? entries name with
    | none => .error .notFound
    | some (.file _) => .error .notDirectory
    | some (.dir entries) => .ok entries := by
  rw [FileTree.entries, find_in found]
  cases Dict.get? entries name with
  | none => rfl
  | some node => cases node <;> rfl

theorem write_in (free : ∀ docs, Dict.get? entries name ≠ some (.dir docs)) (text : String) :
    t.write (place ++ [name]) text =
      .ok (t.graft place (.dir (Dict.insert entries name (.file text)))) := by
  rw [write, update_append found (List.cons_ne_nil _ _), update]
  cases here : Dict.get? entries name with
  | none => rfl
  | some node =>
    cases node with
    | file text => rfl
    | dir docs => exact absurd here (free docs)

theorem free_of_write {text : String} (written : t.write (place ++ [name]) text = .ok t')
    (docs : Dict FileTree) : Dict.get? entries name ≠ some (.dir docs) := by
  intro here
  rw [write, update_append found (List.cons_ne_nil _ _), update, here] at written
  cases written

theorem remove_in (name : String) : t.remove (place ++ [name]) =
    match Dict.get? entries name with
    | none => .error .notFound
    | some (.dir _) => .error .isDirectory
    | some (.file _) => .ok (t.graft place (.dir (Dict.erase entries name))) := by
  rw [remove, update_append found (List.cons_ne_nil _ _), update]
  cases Dict.get? entries name with
  | none => rfl
  | some node => cases node <;> rfl

theorem makeDir_in (name : String) : t.makeDir (place ++ [name]) =
    match Dict.get? entries name with
    | some _ => .error .exists_
    | none => .ok (t.graft place (.dir (Dict.insert entries name empty))) := by
  rw [makeDir, update_append found (List.cons_ne_nil _ _), update]
  · cases Dict.get? entries name <;> rfl
  · simp

end Directory

theorem entries_of_find (found : t.find place = .ok (.dir entries)) :
    t.entries place = .ok entries := by
  rw [FileTree.entries, found]

theorem entries_eq_ok : t.entries place = .ok entries ↔ t.find place = .ok (.dir entries) := by
  constructor
  · intro opened
    rw [FileTree.entries] at opened
    split at opened
    · cases opened
    · cases opened
    · cases opened
      assumption
  · exact entries_of_find

theorem isDirAt_iff : t.isDirAt place = true ↔ ∃ entries, t.entries place = .ok entries := by
  rw [isDirAt, FileTree.entries]
  cases t.find place with
  | error e => simp
  | ok node => cases node <;> simp [isDir]

def Grows (t t' : FileTree) : Prop := ∀ place, t.isDirAt place = true → t'.isDirAt place = true

theorem isDirAt_cons (entries : Dict FileTree) (name : String) (rest : Path) :
    (dir entries).isDirAt (name :: rest) =
      ((Dict.get? entries name).map (·.isDirAt rest)).getD false := by
  rw [isDirAt, find]
  cases Dict.get? entries name <;> rfl

theorem grows_insert (below : ∀ node, Dict.get? entries name = some node → node.Grows node') :
    (dir entries).Grows (dir (Dict.insert entries name node')) := by
  intro place here
  cases place with
  | nil => rfl
  | cons first rest =>
    rw [isDirAt_cons] at here ⊢
    by_cases same : name = first
    · subst same
      rw [Dict.get?_insert_self]
      cases found : Dict.get? entries name with
      | none => simp [found] at here
      | some node =>
        rw [found] at here
        exact below node found rest here
    · rwa [Dict.get?_insert_of_ne entries _ same]

theorem grows_erase (file : ∀ node, Dict.get? entries name = some node → node.isDir = false) :
    (dir entries).Grows (dir (Dict.erase entries name)) := by
  intro place here
  cases place with
  | nil => rfl
  | cons first rest =>
    rw [isDirAt_cons] at here ⊢
    by_cases same : name = first
    · subst same
      cases found : Dict.get? entries name with
      | none => simp [found] at here
      | some node =>
        cases node with
        | dir entries => cases file _ found
        | file text => cases rest <;> simp [found, isDirAt, find, isDir] at here
    · rwa [Dict.get?_erase_of_ne entries same]

theorem grows_of_file (file : node.isDir = false) : node.Grows node' := by
  intro place here
  cases node with
  | dir entries => cases file
  | file text => cases place <;> cases here

theorem grows_insert_of_free (free : ∀ docs, Dict.get? entries name ≠ some (.dir docs)) :
    (dir entries).Grows (dir (Dict.insert entries name node')) := by
  apply grows_insert
  intro node here
  cases node with
  | file text => exact grows_of_file rfl
  | dir docs => exact absurd here (free docs)

theorem grows_erase_file {text : String} (here : Dict.get? entries name = some (.file text)) :
    (dir entries).Grows (dir (Dict.erase entries name)) := by
  apply grows_erase
  intro node found
  rw [here] at found
  cases found
  rfl

theorem grows_graft (found : t.find place = .ok node) (grows : node.Grows node') :
    t.Grows (t.graft place node') := by
  induction place generalizing t with
  | nil =>
    cases found
    exact grows
  | cons name rest ih =>
    obtain ⟨entries, child, rfl, here, found⟩ := find_cons_ok found
    rw [graft_cons here]
    apply grows_insert
    intro node' found'
    rw [here] at found'
    cases found'
    exact ih found

end Playbook.FileTree
