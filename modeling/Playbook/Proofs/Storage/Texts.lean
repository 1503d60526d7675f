import Playbook.Proofs.Storage.FileSystem

/- The texts of all files. No operation but a write brings a new text into the tree. -/
namespace Playbook

namespace FileTree
variable {t t' : FileTree} {entries : Dict FileTree} {name text : String} {path place : Path}
  {change : Option FileTree → Except FileFault (Option FileTree)} {P : String → Prop}

theorem file_of_child (found : (dir entries).find place = .ok (.file text)) :
    ∃ name rest child, place = name :: rest ∧ Dict.get? entries name = some child ∧
      child.find rest = .ok (.file text) := by
  cases place with
  | nil => cases found
  | cons name rest =>
    obtain ⟨_, child, same, here, below⟩ := find_cons_ok found
    cases same
    exact ⟨name, rest, child, rfl, here, below⟩

theorem find_of_child {child : FileTree} {rest : Path} (here : Dict.get? entries name = some child)
    (below : child.find rest = .ok (.file text)) :
    (dir entries).find (name :: rest) = .ok (.file text) := by
  rw [find, here]
  exact below

theorem file_of_erase
    (found : (dir (Dict.erase entries name)).find place = .ok (.file text)) :
    (dir entries).find place = .ok (.file text) := by
  obtain ⟨first, rest, child, rfl, here, below⟩ := file_of_child found
  have other : name ≠ first := by
    rintro rfl
    rw [Dict.get?_erase_self] at here
    cases here
  rw [Dict.get?_erase_of_ne entries other] at here
  exact find_of_child here below

theorem file_of_insert {node : FileTree}
    (found : (dir (Dict.insert entries name node)).find place = .ok (.file text)) :
    (dir entries).find place = .ok (.file text) ∨
      ∃ rest, place = name :: rest ∧ node.find rest = .ok (.file text) := by
  obtain ⟨first, rest, child, rfl, here, below⟩ := file_of_child found
  by_cases same : name = first
  · subst same
    rw [Dict.get?_insert_self] at here
    cases here
    exact .inr ⟨rest, rfl, below⟩
  · rw [Dict.get?_insert_of_ne entries _ same] at here
    exact .inl (find_of_child here below)

theorem file_of_update (updated : t.update path change = .ok t')
    (found : t'.find place = .ok (.file text)) :
    t.find place = .ok (.file text) ∨
      ∃ old node rest, change old = .ok (some node) ∧ node.find rest = .ok (.file text) := by
  induction path generalizing t t' place with
  | nil => cases updated
  | cons name above ih =>
    cases t with
    | file text => cases above <;> cases updated
    | dir entries =>
      cases above with
      | nil =>
        rw [update] at updated
        split at updated
        · cases updated
        · cases updated
          exact .inl (file_of_erase found)
        · rename_i node put
          cases updated
          refine (file_of_insert found).imp_right ?_
          rintro ⟨rest, -, below⟩
          exact ⟨_, node, rest, put, below⟩
      | cons next more =>
        rw [update_cons entries name (List.cons_ne_nil next more)] at updated
        split at updated
        · cases updated
        rename_i child old
        obtain ⟨child', changed, same⟩ := of_map_ok updated
        subst same
        rcases file_of_insert found with before | ⟨rest, rfl, below⟩
        · exact .inl before
        · exact (ih changed below).imp_left (find_of_child old)

def Texts (P : String → Prop) (t : FileTree) : Prop :=
  ∀ place text, t.find place = .ok (.file text) → P text

namespace Texts
variable (texts : t.Texts P)
include texts

theorem read (done : t.read path = .ok text) : P text := by
  rw [FileTree.read] at done
  split at done
  · cases done
  · cases done
  · rename_i found
    cases done
    exact texts _ _ found

theorem update (updated : t.update path change = .ok t')
    (puts : ∀ old node, change old = .ok (some node) → node.Texts P) : t'.Texts P := by
  intro place text found
  rcases file_of_update updated found with old | ⟨old, node, rest, changed, below⟩
  · exact texts _ _ old
  · exact puts old node changed _ _ below

theorem write (holds : P text) (written : t.write path text = .ok t') : t'.Texts P := by
  refine texts.update written fun old node put => ?_
  split at put
  · cases put
  · cases put
    intro place text' found
    cases place with
    | nil =>
      cases found
      exact holds
    | cons name rest => cases found

theorem remove (removed : t.remove path = .ok t') : t'.Texts P := by
  refine texts.update removed fun old node put => ?_
  split at put <;> cases put

theorem makeDir (made : t.makeDir path = .ok t') : t'.Texts P := by
  cases path with
  | nil => cases made
  | cons first rest =>
    refine texts.update made fun old node put => ?_
    split at put
    · cases put
    · cases put
      intro place text found
      obtain ⟨name, rest, child, -, here, -⟩ := file_of_child found
      cases here

theorem rename {new : Path} (renamed : t.rename path new = .ok t') : t'.Texts P := by
  obtain ⟨text, done, more⟩ := of_bind_ok renamed
  obtain ⟨drafted, written, removed⟩ := of_bind_ok more
  exact (texts.write (texts.read done) written).remove removed

end Texts
end FileTree

namespace FileSystem
open FileTree (of_bind_ok)
variable {fs fs' : FileSystem} {p : FilePath} {text : String} {P : String → Prop}
  (texts : fs.tree.Texts P)
include texts

theorem texts_read (done : fs.read p = .ok text) : P text := by
  obtain ⟨place, -, read⟩ := of_bind_ok done
  exact texts.read read

theorem texts_write (holds : P text) (written : fs.write p text = .ok fs') :
    fs'.tree.Texts P := by
  obtain ⟨place, -, more⟩ := of_bind_ok written
  obtain ⟨tree, done, same⟩ := of_bind_ok more
  cases same
  exact texts.write holds done

theorem texts_remove (removed : fs.remove p = .ok fs') : fs'.tree.Texts P := by
  obtain ⟨place, -, more⟩ := of_bind_ok removed
  obtain ⟨tree, done, same⟩ := of_bind_ok more
  cases same
  exact texts.remove done

theorem texts_rename {q : FilePath} (renamed : fs.rename p q = .ok fs') : fs'.tree.Texts P := by
  obtain ⟨old, -, further⟩ := of_bind_ok renamed
  obtain ⟨new, -, more⟩ := of_bind_ok further
  obtain ⟨tree, done, same⟩ := of_bind_ok more
  cases same
  exact texts.rename done

omit texts in
theorem texts_makeDir {t t' : FileTree} {origin : FileTree.Path} {steps : List Step}
    (texts : t.Texts P) (made : makeDir t origin steps = .ok t') : t'.Texts P := by
  obtain ⟨place, -, more⟩ := of_bind_ok made
  split at more
  · cases more
    exact texts
  split at more
  · exact texts.makeDir more
  · cases more

omit texts in
theorem texts_makeDirsUp {t : FileTree} {origin : FileTree.Path} (steps : List Step)
    (texts : t.Texts P) : (makeDirsUp t origin steps).2.Texts P := by
  induction steps generalizing t with
  | nil => exact texts
  | cons step above ih =>
    rw [makeDirsUp]
    cases made : makeDir t origin (step :: above).reverse with
    | ok t' => exact texts_makeDir texts made
    | error e =>
      by_cases missing : e = .notFound
      · subst missing
        have higher := ih texts
        rcases parents : makeDirsUp t origin above with ⟨_ | _, t'⟩ <;> rw [parents] at higher
        · exact higher
        · cases again : makeDir t' origin (step :: above).reverse with
          | error e => simpa only [parents, again] using higher
          | ok t'' => simpa only [parents, again] using texts_makeDir higher again
      · cases e with
        | notFound => exact absurd rfl missing
        | exists_ | notDirectory | isDirectory | nameTooLong => exact texts

theorem texts_makeDirs (p : FilePath) : (fs.makeDirs p).2.tree.Texts P := by
  rw [makeDirs]
  split
  · exact texts
  · exact texts_makeDirsUp _ texts

end FileSystem
end Playbook
