import Playbook.Script.Path

/- Writing one place inside nested data. What a path leads to is written and nothing beside it, and
   a write that fails leaves everything as it was. Steps that are spelled differently may lead to the
   same place: positions count from either end, and scalars name entries by their text. -/
namespace Playbook.Script

/-- A place right inside a value. -/
inductive Place where
  | entry (name : String)
  | item (position : Nat)
deriving DecidableEq

/-- Where a step leads. A map has a place for every name, even if it has no such entry yet. -/
def place? : Value → Key → Option Place
  | .map _, key => key.entry.toOption.map .entry
  | .list items, .index (.int i) => (position i items.length).toOption.map .item
  | _, _ => none

def standing? : Value → Place → Option Value
  | .map entries, .entry name => Dict.get? entries name
  | .list items, .item p => items[p]?
  | _, _ => none

def listLength? : Value → Option Nat
  | .list items => some items.length
  | _ => none

/-- A value can be written where a path leads: all of it is there but for a last entry. -/
inductive Leads : Value → List Key → Prop
  | last {v : Value} {key : Key} (place : (place? v key).isSome = true) : Leads v [key]
  | next {v child : Value} {key : Key} {keys : List Key} (place : (place? v key).isSome = true)
    (there : getKey v key = .ok child) (leads : Leads child keys) : Leads v (key :: keys)

/-- At some level the second path leads elsewhere than the first one, or nowhere. -/
inductive Parts : Value → List Key → List Key → Prop
  | here {v : Value} {key other : Key} {keys others : List Key}
    (apart : place? v other ≠ place? v key) : Parts v (key :: keys) (other :: others)
  | deeper {v child : Value} {key other : Key} {keys others : List Key}
    (together : place? v other = place? v key) (there : getKey v key = .ok child)
    (parts : Parts child keys others) : Parts v (key :: keys) (other :: others)

inductive Reaches : Value → List Key → List Key → Prop
  | there {v : Value} {others : List Key} : Reaches v [] others
  | last {v : Value} {key other : Key} {others : List Key}
    (together : place? v other = place? v key) : Reaches v [key] (other :: others)
  | next {v child : Value} {key other : Key} {keys others : List Key}
    (together : place? v other = place? v key) (there : getKey v key = .ok child)
    (reaches : Reaches child keys others) : Reaches v (key :: keys) (other :: others)

variable {v v' child new : Value} {key other : Key} {keys others rest : List Key}

theorem getKey_map (entries : List (String × Value)) (key : Key) :
    getKey (.map entries) key = key.entry.bind fun name =>
      match Dict.get? entries name with
      | some v => .ok v
      | none => .error (key.missing name) := by
  cases key <;> rfl

theorem getPath_cons (v : Value) (key : Key) (rest : List Key) :
    getPath v (key :: rest) = (getKey v key).bind (getPath · rest) := rfl

theorem position_lt {i : Int64} {size p : Nat} (found : position i size = .ok p) : p < size := by
  simp only [position] at found
  generalize (if i.toInt < 0 then i.toInt + size else i.toInt) = resolved at found
  split at found
  · rename_i fits
    have := Except.ok.inj found
    omega
  · cases found

/-- A value with one place written: what a step reads that leads there, and what any other reads. -/
structure Rewritten (v : Value) (key : Key) (child v' : Value) : Prop where
  there : ∀ other, place? v other = place? v key → getKey v' other = .ok child
  elsewhere : ∀ other, place? v other ≠ place? v key → getKey v' other = getKey v other
  length : listLength? v' = listLength? v

theorem rewritten_map {entries entries' : List (String × Value)} {name : String}
    (named : key.entry = .ok name) (there : Dict.get? entries' name = some child)
    (elsewhere : ∀ other, name ≠ other → Dict.get? entries' other = Dict.get? entries other) :
    Rewritten (.map entries) key child (.map entries') where
  there other together := by
    simp only [place?, named] at together
    cases found : other.entry with
    | error fault => simp [found, Except.toOption] at together
    | ok other =>
      simp only [found, Except.toOption, Option.map_some, Option.some.injEq, Place.entry.injEq]
        at together
      rw [getKey_map, found, together]
      simp only [Except.bind, there]
  elsewhere other apart := by
    rw [getKey_map, getKey_map]
    cases found : other.entry with
    | error fault => rfl
    | ok other =>
      simp only [Except.bind]
      rw [elsewhere other]
      rintro rfl
      exact apart (by simp only [place?, named, found])
  length := rfl

theorem rewritten_list {items : List Value} {i : Int64} {p : Nat}
    (found : position i items.length = .ok p) (child : Value) :
    Rewritten (.list items) (.index (.int i)) child (.list (items.set p child)) where
  there other together := by
    simp only [place?, found, Except.toOption, Option.map_some] at together
    cases other with
    | field => cases together
    | index w =>
      cases w with
      | int j =>
        cases also : position j items.length with
        | error => simp [also] at together
        | ok q =>
          simp only [also, Option.map_some, Option.some.injEq, Place.item.injEq] at together
          have inside := position_lt found
          simp [getKey, getIndex, also, together, bind, Except.bind, pure, Except.pure, inside]
      | _ => cases together
  elsewhere other apart := by
    cases other with
    | field => rfl
    | index w =>
      cases w with
      | int j =>
        cases also : position j items.length with
        | error => simp [getKey, getIndex, also, bind, Except.bind]
        | ok q =>
          have different : p ≠ q := by
            rintro rfl
            exact apart (by simp only [place?, found, also])
          simp [getKey, getIndex, also, bind, Except.bind, pure, Except.pure, different]
      | _ => rfl
  length := by simp [listLength?]

theorem place?_cases {p : Place} (leads : place? v key = some p) :
    (∃ entries name, v = .map entries ∧ key.entry = .ok name ∧ p = .entry name) ∨
      ∃ items i q, v = .list items ∧ key = .index (.int i) ∧ position i items.length = .ok q ∧
        p = .item q := by
  cases v with
  | map entries =>
    cases named : key.entry with
    | error => simp [place?, named, Except.toOption] at leads
    | ok name =>
      simp only [place?, named, Except.toOption, Option.map_some, Option.some.injEq] at leads
      exact .inl ⟨entries, name, rfl, rfl, leads.symm⟩
  | list items =>
    cases key with
    | field => cases leads
    | index w =>
      cases w with
      | int i =>
        cases found : position i items.length with
        | error => simp [place?, found, Except.toOption] at leads
        | ok q =>
          simp only [place?, found, Except.toOption, Option.map_some, Option.some.injEq] at leads
          exact .inr ⟨items, i, q, rfl, rfl, found, leads.symm⟩
      | _ => cases leads
  | _ => cases leads

theorem getKey_of_place? {p : Place} (leads : place? v key = some p) (child : Value) :
    getKey v key = .ok child ↔ standing? v p = some child := by
  obtain ⟨entries, name, rfl, named, rfl⟩ | ⟨items, i, q, rfl, rfl, found, rfl⟩ := place?_cases leads
  · rw [getKey_map, named]
    cases there : Dict.get? entries name <;> simp [standing?, Except.bind, there]
  · have inside := position_lt found
    simp [getKey, getIndex, found, bind, Except.bind, pure, Except.pure, standing?, inside]

theorem getKey_of_place?_eq (together : place? v other = place? v key)
    (place : (place? v key).isSome = true) (there : getKey v key = .ok child) :
    getKey v other = .ok child := by
  obtain ⟨p, leads⟩ := Option.isSome_iff_exists.1 place
  rw [getKey_of_place? leads] at there
  rwa [getKey_of_place? (together.trans leads)]

theorem writePath_map {entries : List (String × Value)} {name : String}
    (named : key.entry = .ok name) :
    writePath (.map entries) (key :: rest) new =
      if rest.isEmpty then (.ok (), .map (Dict.insert entries name new))
      else match Dict.get? entries name with
        | none => (.error (key.missing name), .map entries)
        | some old =>
          ((writePath old rest new).1,
            .map (Dict.replace entries name (writePath old rest new).2)) := by
  rewrite [writePath, named]
  rfl

theorem writePath_list {items : List Value} {i : Int64} {p : Nat}
    (found : position i items.length = .ok p) :
    writePath (.list items) (.index (.int i) :: rest) new =
      ((writePath (items.getD p .null) rest new).1,
        .list (items.set p (writePath (items.getD p .null) rest new).2)) := by
  simp only [writePath, found]

theorem writePath_of_place?_none (nowhere : place? v key = none) (rest : List Key) (new : Value) :
    ∃ fault, writePath v (key :: rest) new = (.error fault, v) := by
  cases v with
  | map entries =>
    cases named : key.entry with
    | ok => simp [place?, named, Except.toOption] at nowhere
    | error fault => exact ⟨fault, by simp only [writePath, named]⟩
  | list items =>
    cases key with
    | field => exact ⟨_, rfl⟩
    | index w =>
      cases w with
      | int i =>
        cases found : position i items.length with
        | ok => simp [place?, found, Except.toOption] at nowhere
        | error fault => exact ⟨fault, by simp only [writePath, found]⟩
      | _ => exact ⟨_, rfl⟩
  | _ => exact ⟨_, rfl⟩

/-- The first step of a write that succeeds: it leads to a place, and there stands the new value or
    what the rest of the write has made of the old one. -/
theorem first_step (wrote : writePath v (key :: rest) new = (.ok (), v')) :
    (place? v key).isSome = true ∧ ∃ child, Rewritten v key child v' ∧
      (rest = [] ∧ child = new ∨
        rest ≠ [] ∧ ∃ old, getKey v key = .ok old ∧ writePath old rest new = (.ok (), child)) := by
  cases leads : place? v key with
  | none =>
    obtain ⟨fault, failed⟩ := writePath_of_place?_none leads rest new
    simp [failed] at wrote
  | some p =>
    refine ⟨rfl, ?_⟩
    have reads := getKey_of_place? leads
    obtain ⟨entries, name, rfl, named, rfl⟩ | ⟨items, i, q, rfl, rfl, found, rfl⟩ :=
      place?_cases leads
    · rw [writePath_map named] at wrote
      cases rest with
      | nil =>
        cases wrote
        exact ⟨new, rewritten_map named (Dict.get?_insert_self ..)
          fun _ different => Dict.get?_insert_of_ne _ _ different, .inl ⟨rfl, rfl⟩⟩
      | cons key' rest =>
        cases there : Dict.get? entries name with
        | none => simp [there] at wrote
        | some old =>
          simp only [there, List.isEmpty_cons, Bool.false_eq_true, if_false, Prod.mk.injEq] at wrote
          obtain ⟨went, rfl⟩ := wrote
          exact ⟨_, rewritten_map named (Dict.get?_replace_self _ there)
            fun _ different => Dict.get?_replace_of_ne _ _ different,
            .inr ⟨nofun, old, (reads old).2 there, Prod.ext went rfl⟩⟩
    · rw [writePath_list found, Prod.mk.injEq] at wrote
      obtain ⟨went, rfl⟩ := wrote
      refine ⟨_, rewritten_list found _, ?_⟩
      cases rest with
      | nil => exact .inl ⟨rfl, rfl⟩
      | cons key' rest =>
        have inside := position_lt found
        exact .inr ⟨nofun, items.getD q .null, (reads _).2 (by simp [standing?, inside]),
          Prod.ext went rfl⟩

theorem getPath_written (wrote : writePath v keys new = (.ok (), v')) :
    getPath v' keys = .ok new := by
  induction keys generalizing v v' with
  | nil =>
    cases wrote
    rfl
  | cons key rest ih =>
    obtain ⟨-, child, step, below⟩ := first_step wrote
    rw [getPath_cons, step.there key rfl]
    obtain ⟨rfl, rfl⟩ | ⟨-, old, -, wrote⟩ := below
    · rfl
    · exact ih wrote

theorem getPath_of_parts (wrote : writePath v keys new = (.ok (), v'))
    (parts : Parts v keys others) : getPath v' others = getPath v others := by
  induction parts generalizing v' with
  | here apart =>
    obtain ⟨-, child, step, -⟩ := first_step wrote
    rw [getPath_cons, getPath_cons, step.elsewhere _ apart]
  | deeper together there parts ih =>
    obtain ⟨place, child, step, ⟨rfl, -⟩ | ⟨-, old, old_there, wrote⟩⟩ := first_step wrote
    · cases parts
    · cases there.symm.trans old_there
      rw [getPath_cons, getPath_cons, step.there _ together,
        getKey_of_place?_eq together place there]
      exact ih wrote

/-- Short of the written place every list keeps its length, and so does a list beside it. -/
theorem length_of_not_reaches (wrote : writePath v keys new = (.ok (), v'))
    (short : ¬ Reaches v keys others) :
    (getPath v' others).map listLength? = (getPath v others).map listLength? := by
  induction keys generalizing v v' others with
  | nil => exact absurd .there short
  | cons key rest ih =>
    obtain ⟨place, child, step, below⟩ := first_step wrote
    cases others with
    | nil => exact congrArg Except.ok step.length
    | cons other others =>
      rw [getPath_cons, getPath_cons]
      by_cases together : place? v other = place? v key
      · obtain ⟨rfl, -⟩ | ⟨-, old, there, wrote⟩ := below
        · exact absurd (.last together) short
        · rw [step.there other together, getKey_of_place?_eq together place there]
          exact ih wrote fun reaches => short (.next together there reaches)
      · rw [step.elsewhere other together]

theorem leads_of_writePath (wrote : writePath v keys new = (.ok (), v')) (nonempty : keys ≠ []) :
    Leads v keys := by
  induction keys generalizing v v' with
  | nil => exact absurd rfl nonempty
  | cons key rest ih =>
    obtain ⟨place, child, -, ⟨rfl, -⟩ | ⟨more, old, there, wrote⟩⟩ := first_step wrote
    · exact .last place
    · exact .next place there (ih wrote more)

theorem first_step_of_place (place : (place? v key).isSome = true)
    (onward : rest = [] ∨ ∃ old, getKey v key = .ok old ∧ (writePath old rest new).1 = .ok ()) :
    (writePath v (key :: rest) new).1 = .ok () := by
  obtain ⟨p, leads⟩ := Option.isSome_iff_exists.1 place
  have reads := getKey_of_place? leads
  obtain ⟨entries, name, rfl, named, rfl⟩ | ⟨items, i, q, rfl, rfl, found, rfl⟩ := place?_cases leads
  · rw [writePath_map named]
    split
    · rfl
    · obtain rfl | ⟨old, there, wrote⟩ := onward
      · contradiction
      · have there := (reads old).1 there
        simp only [standing?] at there
        simp only [there]
        exact wrote
  · rw [writePath_list found]
    obtain rfl | ⟨old, there, wrote⟩ := onward
    · rfl
    · have there := (reads old).1 there
      simp only [standing?] at there
      rwa [List.getD_eq_getElem?_getD, there]

theorem writePath_of_leads (leads : Leads v keys) (new : Value) :
    (writePath v keys new).1 = .ok () := by
  induction leads with
  | last place => exact first_step_of_place place (.inl rfl)
  | next place there _ ih => exact first_step_of_place place (.inr ⟨_, there, ih⟩)

theorem writePath_fault {fault : Fault} (failed : (writePath v keys new).1 = .error fault) :
    (writePath v keys new).2 = v := by
  induction keys generalizing v with
  | nil => cases failed
  | cons key rest ih =>
    cases leads : place? v key with
    | none =>
      obtain ⟨fault, stays⟩ := writePath_of_place?_none leads rest new
      rw [stays]
    | some p =>
      obtain ⟨entries, name, rfl, named, rfl⟩ | ⟨items, i, q, rfl, rfl, found, rfl⟩ :=
        place?_cases leads
      · rw [writePath_map named] at failed ⊢
        split at failed
        · cases failed
        · rename_i more
          rw [if_neg more]
          cases there : Dict.get? entries name with
          | none => rfl
          | some old =>
            simp only [there] at failed ⊢
            rw [ih failed, Dict.replace_of_get? there]
      · rw [writePath_list found] at failed ⊢
        have inside := position_lt found
        simp only [ih failed]
        simp [inside]

/-- A write goes through exactly where its path leads, and then the path reads what was written,
    every path that parts from it reads what it read before, and no list on the way or beside it has
    changed its length. A write that fails leaves everything as it was. -/
theorem writePath_writes_one_place (v : Value) (keys : List Key) (nonempty : keys ≠ [])
    (new : Value) :
    ((writePath v keys new).1 = .ok () ↔ Leads v keys) ∧
      (∀ v', writePath v keys new = (.ok (), v') →
        getPath v' keys = .ok new ∧
          (∀ others, Parts v keys others → getPath v' others = getPath v others) ∧
          ∀ others, ¬ Reaches v keys others →
            (getPath v' others).map listLength? = (getPath v others).map listLength?) ∧
      ∀ fault v', writePath v keys new = (.error fault, v') → v' = v := by
  refine ⟨⟨fun went => leads_of_writePath (Prod.ext went rfl) nonempty, fun leads =>
    writePath_of_leads leads new⟩, fun v' wrote => ⟨getPath_written wrote, fun others parts =>
    getPath_of_parts wrote parts, fun others short => length_of_not_reaches wrote short⟩, ?_⟩
  intro fault v' failed
  have stays := writePath_fault (congrArg Prod.fst failed)
  rwa [failed] at stays

def Table.rows : Value :=
  .map [("rows", .list [.map [("1", .str "a"), ("2", .str "b")], .map [("1", .str "c")]])]

def Table.way : List Key := [.field "rows", .index (.int (-2)), .index (.int 1)]

theorem writePath_first_row :
    (writePath Table.rows Table.way .null).1 = .ok () ∧
      getPath (writePath Table.rows Table.way .null).2 Table.way = .ok .null ∧
      getPath (writePath Table.rows Table.way .null).2 [.field "rows", .index (.int 1)] =
        .ok (.map [("1", .str "c")]) ∧
      (getPath (writePath Table.rows Table.way .null).2 [.field "rows"]).map listLength? =
        .ok (some 2) := by
  have law := writePath_writes_one_place Table.rows Table.way nofun .null
  have leads : Leads Table.rows Table.way :=
    .next rfl rfl (.next rfl rfl (.last rfl))
  have went := law.1.2 leads
  obtain ⟨back, frame, lengths⟩ :=
    law.2.1 (writePath Table.rows Table.way .null).2 (Prod.ext went rfl)
  refine ⟨went, back, ?_, ?_⟩
  · rw [frame [.field "rows", .index (.int 1)] (.deeper rfl rfl (.here (by decide)))]
    rfl
  · rw [lengths [.field "rows"] fun reaches => ?_]
    · rfl
    · cases reaches with
      | next _ _ reaches => cases reaches

end Playbook.Script
