import Playbook.Proofs.Storage.FileTree
import Playbook.Storage.FileSystem

/- Where written paths lead, and what there is to see at the end of one before and after its
   directories are made. -/
namespace Playbook.FileSystem
open FileTree

variable {t t' : FileTree} {origin place : FileTree.Path} {steps above : List Step}

def reach (t : FileTree) (origin : FileTree.Path) (steps : List Step) :
    Except FileFault FileTree.Path :=
  (follow t origin steps).bind fun place => (t.entries place).map fun _ => place

theorem reach_eq_ok : reach t origin steps = .ok place ↔
    follow t origin steps = .ok place ∧ t.isDirAt place = true := by
  rw [reach, isDirAt_iff]
  cases follow t origin steps with
  | error e => simp [Except.bind]
  | ok there =>
    cases opened : t.entries there with
    | error e =>
      simp only [Except.bind, Except.map, opened, reduceCtorEq, Except.ok.injEq, false_iff, not_and]
      rintro rfl
      simp [opened]
    | ok entries =>
      simp only [Except.bind, Except.map, opened, Except.ok.injEq]
      constructor
      · rintro rfl
        exact ⟨rfl, entries, opened⟩
      · exact And.left

theorem follow_cons (t : FileTree) (origin : FileTree.Path) (step : Step) (rest : List Step) :
    follow t origin (step :: rest) = (t.entries origin).bind fun _ =>
      match stepFault? step with
      | some e => .error e
      | none => follow t (step.walk origin) rest := by
  rw [follow]
  cases t.entries origin <;> cases stepFault? step <;> rfl

theorem follow_concat (t : FileTree) (origin : FileTree.Path) (above : List Step) (step : Step) :
    follow t origin (above ++ [step]) = (reach t origin above).bind fun place =>
      match stepFault? step with
      | some e => .error e
      | none => .ok (step.walk place) := by
  induction above generalizing origin with
  | nil =>
    rw [List.nil_append, follow_cons, reach, follow]
    simp only [Except.bind, follow]
    cases t.entries origin <;> rfl
  | cons first rest ih =>
    rw [List.cons_append, follow_cons, reach, follow_cons]
    cases t.entries origin with
    | error e => rfl
    | ok entries =>
      simp only [Except.bind]
      cases stepFault? first with
      | some e => rfl
      | none => exact ih (first.walk origin)

theorem follow_grows (grows : t.Grows t') (led : follow t origin steps = .ok place) :
    follow t' origin steps = .ok place := by
  induction steps generalizing origin with
  | nil => exact led
  | cons step rest ih =>
    rw [follow_cons] at led ⊢
    cases opened : t.entries origin with
    | error e =>
      rw [opened] at led
      cases led
    | ok entries =>
      obtain ⟨entries', opened'⟩ := isDirAt_iff.1 (grows origin (isDirAt_iff.2 ⟨entries, opened⟩))
      rw [opened] at led
      rw [opened']
      simp only [Except.bind] at led ⊢
      split at led
      · cases led
      · exact ih led

theorem reach_stay (t : FileTree) (origin : FileTree.Path) (above : List Step) :
    reach t origin (above ++ [.stay]) = reach t origin above := by
  cases reached : reach t origin above with
  | error e => rw [reach, follow_concat, reached]; rfl
  | ok place =>
    apply reach_eq_ok.2
    rw [follow_concat, reached]
    exact ⟨rfl, (reach_eq_ok.1 reached).2⟩

theorem makeDir_of_follow (led : follow t origin steps = .ok place) :
    makeDir t origin steps =
      if t.isDirAt place then .ok t
      else match steps.getLast? with
        | some (.down _) => t.makeDir place
        | _ => .error .exists_ := by
  rw [makeDir, led]
  rfl

theorem makeDir_of_reach (reached : reach t origin steps = .ok place) :
    makeDir t origin steps = .ok t := by
  obtain ⟨led, here⟩ := reach_eq_ok.1 reached
  rw [makeDir_of_follow led, if_pos here]

theorem makeDir_notFound (step : Step) (missing : reach t origin above = .error .notFound) :
    makeDir t origin (above ++ [step]) = .error .notFound := by
  rw [makeDir, follow_concat, missing]
  rfl

theorem parent_of_follow {name : String}
    (led : follow t origin (above ++ [.down name]) = .ok place) :
    ∃ parent entries, t.find parent = .ok (.dir entries) ∧ place = parent ++ [name] := by
  rw [follow_concat] at led
  cases reached : reach t origin above with
  | error e =>
    rw [reached] at led
    cases led
  | ok parent =>
    obtain ⟨entries, opened⟩ := isDirAt_iff.1 (reach_eq_ok.1 reached).2
    refine ⟨parent, entries, entries_eq_ok.1 opened, ?_⟩
    rw [reached] at led
    simp only [Except.bind] at led
    split at led
    · cases led
    · exact (Except.ok.inj led).symm

theorem makeDir_cases (t : FileTree) (origin : FileTree.Path) (above : List Step) (step : Step) :
    (∃ place, reach t origin (above ++ [step]) = .ok place) ∨
      reach t origin (above ++ [step]) = .error .notFound ∨
      ∃ e, e ≠ .notFound ∧ makeDir t origin (above ++ [step]) = .error e := by
  cases led : follow t origin (above ++ [step]) with
  | error e =>
    by_cases missing : e = .notFound
    · subst missing
      right; left
      rw [reach, led]
      rfl
    · right; right
      refine ⟨e, missing, ?_⟩
      rw [makeDir, led]
      rfl
  | ok place =>
    by_cases here : t.isDirAt place = true
    · exact .inl ⟨place, reach_eq_ok.2 ⟨led, here⟩⟩
    right
    rw [makeDir_of_follow led, if_neg here, List.getLast?_concat]
    cases step with
    | stay => exact .inr ⟨.exists_, by decide, rfl⟩
    | up => exact .inr ⟨.exists_, by decide, rfl⟩
    | down name =>
      obtain ⟨parent, entries, found, rfl⟩ := parent_of_follow led
      cases child : Dict.get? entries name with
      | none =>
        left
        rw [reach, led]
        simp only [Except.bind, entries_in found, child, Except.map]
      | some node =>
        right
        refine ⟨.exists_, by decide, ?_⟩
        rw [makeDir_in found, child]

variable {name : String}

theorem makeDirsUp_of_ok {step : Step} (made : makeDir t origin (above.reverse ++ [step]) = .ok t') :
    makeDirsUp t origin (step :: above) = (.ok (), t') := by
  rw [makeDirsUp, List.reverse_cons, made]

theorem makeDirsUp_of_error {step : Step} {e : FileFault} (other : e ≠ .notFound)
    (failed : makeDir t origin (above.reverse ++ [step]) = .error e) :
    makeDirsUp t origin (step :: above) = (.error e, t) := by
  rw [makeDirsUp, List.reverse_cons, failed]
  cases e with
  | notFound => exact absurd rfl other
  | _ => rfl

theorem makeDirsUp_of_notFound {step : Step}
    (missing : makeDir t origin (above.reverse ++ [step]) = .error .notFound)
    (made : makeDirsUp t origin above = (.ok (), t')) :
    makeDirsUp t origin (step :: above) =
      match makeDir t' origin (above.reverse ++ [step]) with
      | .ok t => (.ok (), t)
      | .error e => (.error e, t') := by
  rw [makeDirsUp, List.reverse_cons, missing]
  cases again : makeDir t' origin (above.reverse ++ [step]) <;> simp only [made, again]

theorem reach_of_makeDirsUp (made : makeDirsUp t origin steps = (.ok (), t')) :
    t' = t ∨ reach t origin steps.reverse = .error .notFound := by
  cases steps with
  | nil =>
    cases made
    exact .inl rfl
  | cons step above =>
    rw [List.reverse_cons]
    rcases makeDir_cases t origin above.reverse step with ⟨place, there⟩ | missing | ⟨e, other, failed⟩
    · rw [makeDirsUp_of_ok (makeDir_of_reach there)] at made
      cases made
      exact .inl rfl
    · exact .inr missing
    · rw [makeDirsUp_of_error other failed] at made
      cases made

theorem makeDirsUp_stay (made : makeDirsUp t origin above = (.ok (), t'))
    (reached : reach t' origin above.reverse = .ok place) :
    makeDirsUp t origin (.stay :: above) = (.ok (), t') := by
  have there : makeDir t' origin (above.reverse ++ [.stay]) = .ok t' :=
    makeDir_of_reach ((reach_stay t' origin _).trans reached)
  rcases reach_of_makeDirsUp made with rfl | missing
  · exact makeDirsUp_of_ok there
  · rw [makeDirsUp_of_notFound (makeDir_notFound .stay missing) made, there]

variable {fs fs' : FileSystem} {p : FilePath} {entries entries' docs docs' : Dict FileTree}
  {name old new text : String}

/-- A written path leads to a place where a directory with these entries is. -/
structure Opens (fs : FileSystem) (p : FilePath) (place : FileTree.Path)
    (entries : Dict FileTree) : Prop where
  written : textFault? p = none
  led : follow fs.tree (fs.origin p) p.steps = .ok place
  found : fs.tree.find place = .ok (.dir entries)

structure Names (p : FilePath) (name : String) : Prop where
  written : textFault? (p.child name) = none
  fits : name.utf8ByteSize ≤ maxNameBytes

def put (fs : FileSystem) (place : FileTree.Path) (node : FileTree) : FileSystem :=
  { fs with tree := fs.tree.graft place node }

theorem opens_iff : (∃ place, fs.Opens p place entries) ↔ fs.entries p = .ok entries := by
  rw [FileSystem.entries, locate]
  constructor
  · rintro ⟨place, opens⟩
    rw [opens.written]
    simp only [opens.led]
    exact entries_of_find opens.found
  · intro opened
    cases written : textFault? p with
    | some e =>
      rw [written] at opened
      cases opened
    | none =>
      rw [written] at opened
      cases led : follow fs.tree (fs.origin p) p.steps with
      | error e =>
        simp only [led] at opened
        cases opened
      | ok place =>
        simp only [led] at opened
        exact ⟨place, written, led, entries_eq_ok.1 opened⟩

theorem opens_of_locate (written : textFault? p = none)
    (located : fs.locate (p.child name) = .ok place) :
    Names p name ∧ ∃ above entries, fs.Opens p above entries := by
  rw [locate] at located
  cases fault : textFault? (p.child name) with
  | some e =>
    rw [fault] at located
    cases located
  | none =>
    rw [fault] at located
    have led : follow fs.tree (fs.origin p) (p.steps ++ [.down name]) = .ok place := located
    rw [follow_concat] at led
    cases reached : reach fs.tree (fs.origin p) p.steps with
    | error e =>
      rw [reached] at led
      cases led
    | ok above =>
      obtain ⟨there, here⟩ := reach_eq_ok.1 reached
      obtain ⟨entries, opened⟩ := isDirAt_iff.1 here
      refine ⟨⟨fault, Nat.le_of_not_lt fun long => ?_⟩, above, entries, written, there,
        entries_eq_ok.1 opened⟩
      rw [reached] at led
      simp only [Except.bind, stepFault?, if_pos long] at led
      cases led

theorem locate_of_write (written : fs.write p text = .ok fs') : ∃ place, fs.locate p = .ok place := by
  obtain ⟨place, located, -⟩ := of_bind_ok written
  exact ⟨place, located⟩

theorem locate_of_rename {q : FilePath} (renamed : fs.rename p q = .ok fs') :
    ∃ place, fs.locate q = .ok place := by
  obtain ⟨_, -, more⟩ := of_bind_ok renamed
  obtain ⟨place, located, -⟩ := of_bind_ok more
  exact ⟨place, located⟩

theorem makeDirs_of_names (names : Names p name) : fs.makeDirs (p.child name) =
    ((makeDirsUp fs.tree (fs.origin p) (.down name :: p.steps.reverse)).1,
      { fs with tree := (makeDirsUp fs.tree (fs.origin p) (.down name :: p.steps.reverse)).2 }) := by
  have short : ¬ maxPathBytes < (p.child name).text.utf8ByteSize := by
    have written := names.written
    unfold textFault? at written
    split at written
    · cases written
    · split at written
      · cases written
      · assumption
  have steps : (p.child name).steps.reverse.dropWhile (· = .stay) =
      .down name :: p.steps.reverse := by simp [FilePath.child]
  rw [makeDirs, if_neg short, steps]
  rfl

namespace Opens

theorem reached (opens : fs.Opens p place entries) :
    reach fs.tree (fs.origin p) p.steps = .ok place :=
  reach_eq_ok.2 ⟨opens.led, isDirAt_iff.2 ⟨entries, entries_of_find opens.found⟩⟩

theorem follow_child (opens : fs.Opens p place entries) (names : Names p name) :
    follow fs.tree (fs.origin p) (p.steps ++ [.down name]) = .ok (place ++ [name]) := by
  rw [follow_concat, opens.reached]
  simp only [Except.bind, stepFault?, if_neg (Nat.not_lt.2 names.fits), Step.walk]

theorem locate_child (opens : fs.Opens p place entries) (names : Names p name) :
    fs.locate (p.child name) = .ok (place ++ [name]) := by
  rw [locate, names.written]
  exact opens.follow_child names

theorem child (opens : fs.Opens p place entries) (names : Names p name)
    (here : Dict.get? entries name = some (.dir docs)) :
    fs.Opens (p.child name) (place ++ [name]) docs where
  written := names.written
  led := opens.follow_child names
  found := by rw [find_in opens.found, here]

theorem read_child (opens : fs.Opens p place entries) (names : Names p name) :
    fs.read (p.child name) = match Dict.get? entries name with
      | none => .error .notFound
      | some (.dir _) => .error .isDirectory
      | some (.file text) => .ok text := by
  rw [FileSystem.read, opens.locate_child names]
  exact read_in opens.found name

theorem write_child (opens : fs.Opens p place entries) (names : Names p name)
    (free : ∀ docs, Dict.get? entries name ≠ some (.dir docs)) (text : String) :
    fs.write (p.child name) text =
      .ok (fs.put place (.dir (Dict.insert entries name (.file text)))) := by
  have written := write_in opens.found free text
  rw [FileSystem.write, opens.locate_child names]
  simp only [bind, Except.bind, written]
  rfl

theorem free_of_write (opens : fs.Opens p place entries) (names : Names p name)
    (written : fs.write (p.child name) text = .ok fs') (docs : Dict FileTree) :
    Dict.get? entries name ≠ some (.dir docs) := by
  rw [FileSystem.write, opens.locate_child names] at written
  simp only [bind, Except.bind] at written
  split at written
  · cases written
  · rename_i tree inside
    exact FileTree.free_of_write opens.found inside docs

theorem free_of_rename (opens : fs.Opens p place entries) (names : Names p old)
    (names' : Names p new) (renamed : fs.rename (p.child old) (p.child new) = .ok fs')
    (docs : Dict FileTree) : Dict.get? entries new ≠ some (.dir docs) := by
  rw [FileSystem.rename, opens.locate_child names, opens.locate_child names'] at renamed
  simp only [bind, Except.bind, FileTree.rename] at renamed
  cases read : fs.tree.read (place ++ [old]) with
  | error e =>
    rw [read] at renamed
    cases renamed
  | ok text =>
    cases inside : fs.tree.write (place ++ [new]) text with
    | error e =>
      simp only [read, inside] at renamed
      cases renamed
    | ok tree => exact FileTree.free_of_write opens.found inside docs

theorem remove_child (opens : fs.Opens p place entries) (names : Names p name) :
    fs.remove (p.child name) = match Dict.get? entries name with
      | none => .error .notFound
      | some (.dir _) => .error .isDirectory
      | some (.file _) => .ok (fs.put place (.dir (Dict.erase entries name))) := by
  have removed := remove_in opens.found name
  rw [FileSystem.remove, opens.locate_child names]
  simp only [bind, Except.bind, removed]
  cases Dict.get? entries name with
  | none => rfl
  | some node => cases node <;> rfl

theorem rename_child (opens : fs.Opens p place entries) (names : Names p old)
    (names' : Names p new) (there : Dict.get? entries old = some (.file text))
    (free : ∀ docs, Dict.get? entries new ≠ some (.dir docs)) (different : new ≠ old) :
    fs.rename (p.child old) (p.child new) =
      .ok ((fs.put place (.dir (Dict.insert entries new (.file text)))).put place
        (.dir (Dict.erase (Dict.insert entries new (.file text)) old))) := by
  have text_read := read_in opens.found old
  rw [there] at text_read
  have written := write_in opens.found free text
  have removed := remove_in (find_graft opens.found (dir (Dict.insert entries new (.file text)))) old
  rw [Dict.get?_insert_of_ne entries _ different, there] at removed
  rw [FileSystem.rename, opens.locate_child names, opens.locate_child names']
  simp only [bind, Except.bind, FileTree.rename, text_read, written, removed]
  rfl

theorem makeDir_child (opens : fs.Opens p place entries) (names : Names p name)
    (free : ∀ text, Dict.get? entries name ≠ some (.file text)) :
    makeDir fs.tree (fs.origin p) (p.steps ++ [.down name]) =
      .ok (match Dict.get? entries name with
        | none => fs.tree.graft place (.dir (Dict.insert entries name .empty))
        | some _ => fs.tree) := by
  cases here : Dict.get? entries name with
  | none =>
    have absent : fs.tree.isDirAt (place ++ [name]) = false := by
      rw [isDirAt, find_in opens.found, here]
    rw [makeDir_of_follow (opens.follow_child names), absent, List.getLast?_concat]
    simp only [Bool.false_eq_true, if_false, makeDir_in opens.found, here]
  | some node =>
    cases node with
    | file text => exact absurd here (free text)
    | dir docs => exact makeDir_of_reach (opens.child names here).reached

theorem makeDirs_child (opens : fs.Opens p place entries) (names : Names p name)
    (free : ∀ text, Dict.get? entries name ≠ some (.file text)) :
    fs.makeDirs (p.child name) = match Dict.get? entries name with
      | none => (.ok (), fs.put place (.dir (Dict.insert entries name .empty)))
      | some _ => (.ok (), fs) := by
  have made := opens.makeDir_child names free
  rw [← p.steps.reverse_reverse] at made
  rw [makeDirs_of_names names, makeDirsUp_of_ok made]
  cases Dict.get? entries name <;> rfl

theorem put (opens : fs.Opens p place entries) (grows : (dir entries).Grows (.dir entries')) :
    (fs.put place (.dir entries')).Opens p place entries' where
  written := opens.written
  led := follow_grows (grows_graft opens.found grows) opens.led
  found := find_graft opens.found _

theorem put_child (opens : fs.Opens p place entries)
    (here : Dict.get? entries name = some (.dir docs)) (grows : (dir docs).Grows (.dir docs')) :
    (fs.put (place ++ [name]) (.dir docs')).Opens p place
      (Dict.insert entries name (.dir docs')) := by
  have deeper : fs.put (place ++ [name]) (.dir docs') =
      fs.put place (.dir (Dict.insert entries name (.dir docs'))) := by
    rw [FileSystem.put, FileSystem.put, graft_append opens.found, graft_cons here]
    rfl
  rw [deeper]
  apply opens.put
  apply grows_insert
  intro node found
  rw [here] at found
  cases found
  exact grows

end Opens
structure Missing (fs : FileSystem) (p : FilePath) : Prop where
  written : textFault? p = none
  lost : reach fs.tree (fs.origin p) p.steps = .error .notFound

theorem Missing.follow_child (missing : fs.Missing p) (name : String) :
    follow fs.tree (fs.origin p) (p.steps ++ [.down name]) = .error .notFound := by
  rw [follow_concat, missing.lost]
  rfl

theorem Missing.locate_child (missing : fs.Missing p) (names : Names p name) :
    fs.locate (p.child name) = .error .notFound := by
  rw [locate, names.written]
  exact missing.follow_child name

theorem Missing.child (missing : fs.Missing p) (names : Names p name) :
    fs.Missing (p.child name) where
  written := names.written
  lost := by
    have lost := missing.follow_child name
    rw [reach, FilePath.child]
    exact congrArg (Except.bind · _) lost

theorem Missing.read_child (missing : fs.Missing p) (names : Names p name) :
    fs.read (p.child name) = .error .notFound := by
  rw [FileSystem.read, missing.locate_child names]
  rfl

theorem Missing.remove_child (missing : fs.Missing p) (names : Names p name) :
    fs.remove (p.child name) = .error .notFound := by
  rw [FileSystem.remove, missing.locate_child names]
  rfl

theorem Missing.entries_eq (missing : fs.Missing p) : fs.entries p = .error .notFound := by
  have lost := missing.lost
  rw [reach] at lost
  rw [FileSystem.entries, locate, missing.written]
  cases led : follow fs.tree (fs.origin p) p.steps with
  | error e =>
    rw [led] at lost
    cases lost
    rfl
  | ok place =>
    rw [led] at lost
    simp only [Except.bind] at lost ⊢
    cases opened : fs.tree.entries place with
    | error e =>
      rw [opened] at lost
      cases lost
      rfl
    | ok entries =>
      rw [opened] at lost
      cases lost

theorem Opens.missing_child (opens : fs.Opens p place entries) (names : Names p name)
    (absent : Dict.get? entries name = none) : fs.Missing (p.child name) where
  written := names.written
  lost := by
    have led : follow fs.tree (fs.origin (p.child name)) (p.child name).steps = _ :=
      opens.follow_child names
    rw [reach, led]
    simp only [Except.bind, entries_in opens.found, absent, Except.map]

theorem makeDirsUp_of_dropWhile {origin : FileTree.Path}
    (made : makeDirsUp t origin (steps.dropWhile (· = .stay)) = (.ok (), t'))
    (reached : reach t' origin steps.reverse = .ok place) :
    makeDirsUp t origin steps = (.ok (), t') := by
  induction steps with
  | nil => exact made
  | cons step above ih =>
    by_cases stays : step = .stay
    · subst stays
      rw [List.reverse_cons, reach_stay] at reached
      exact makeDirsUp_stay (ih (by simpa using made) reached) reached
    · simpa [stays] using made

section Made
variable (made : fs.makeDirs p = (.ok (), fs')) (opens : fs'.Opens p place entries)
include made opens

theorem makeDirsUp_of_makeDirs : ∃ tree, fs' = { fs with tree } ∧
    makeDirsUp fs.tree (fs.origin p) p.steps.reverse = (.ok (), tree) := by
  rw [makeDirs] at made
  split at made
  · cases made
  · cases up : makeDirsUp fs.tree (fs.origin p) (p.steps.reverse.dropWhile (· = .stay)) with
    | mk r tree =>
      rw [up] at made
      cases made
      have reached := opens.reached
      rw [← List.reverse_reverse p.steps] at reached
      exact ⟨tree, rfl, makeDirsUp_of_dropWhile up reached⟩

theorem same_or_missing : fs' = fs ∨ fs.Missing p := by
  obtain ⟨tree, rfl, up⟩ := makeDirsUp_of_makeDirs made opens
  rcases reach_of_makeDirsUp up with rfl | lost
  · exact .inl rfl
  · rw [List.reverse_reverse] at lost
    exact .inr ⟨opens.written, lost⟩

theorem makeDirs_inside (names : Names p name)
    (free : ∀ text, Dict.get? entries name ≠ some (.file text)) :
    fs.makeDirs (p.child name) = fs'.makeDirs (p.child name) := by
  rcases same_or_missing made opens with rfl | missing
  · rfl
  obtain ⟨tree, rfl, up⟩ := makeDirsUp_of_makeDirs made opens
  have first := makeDir_notFound (.down name) missing.lost
  rw [← p.steps.reverse_reverse] at first
  obtain ⟨tree', second⟩ : ∃ tree',
      makeDir tree (fs.origin p) (p.steps ++ [Step.down name]) = .ok tree' :=
    ⟨_, opens.makeDir_child names free⟩
  rw [← p.steps.reverse_reverse] at second
  have both := makeDirsUp_of_notFound first up
  rw [second] at both
  have alone : makeDirsUp tree (origin ⟨tree, fs.here⟩ p) (.down name :: p.steps.reverse) =
      (.ok (), tree') := makeDirsUp_of_ok second
  rw [makeDirs_of_names names, both, makeDirs_of_names names, alone]

end Made
end Playbook.FileSystem
