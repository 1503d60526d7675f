import Playbook.Json

/- What tools are shown of the system, as documents. -/
namespace Playbook

class Report (α : Type) where
  report : α → Json

export Report (report)

instance : Report Json := ⟨id⟩
instance : Report String := ⟨.str⟩
instance : Report Bool := ⟨.bool⟩
instance : Report Nat := ⟨fun n => .int n⟩

instance : Report Unit := ⟨fun () => .str "ok"⟩

instance [Report α] : Report (List α) := ⟨fun l => .arr (l.map report)⟩

instance [Report α] : Report (Option α) :=
  ⟨fun
    | none => .null
    | some a => report a⟩

instance [Report α] : Report (Dict α) := ⟨fun d => .obj (d.map fun e => (e.1, report e.2))⟩

instance [Report ε] [Report α] : Report (Except ε α) :=
  ⟨fun
    | .ok a => report a
    | .error e => report e⟩

def errorReport (kind message : String) : Json :=
  .obj [("error", .str kind), ("message", .str message)]

end Playbook
