import Playbook.Assembly

/- What the operations on inboxes add to them. -/
namespace Playbook

namespace PostOffice
variable {p p' p'' : PostOffice} {m x : Message} {n : Nat} {new new' : Message → Prop}

def Holds (p : PostOffice) (m : Message) : Prop := ∃ inbox ∈ p.boxes, m ∈ inbox

/-- Only new messages of some kind are added, and no id is given out twice. -/
structure Adds (p : PostOffice) (new : Message → Prop) (p' : PostOffice) : Prop where
  ids : p.nextId ≤ p'.nextId
  only : ∀ m, p'.Holds m → p.Holds m ∨ new m

theorem Adds.refl (p : PostOffice) (new : Message → Prop) : p.Adds new p :=
  ⟨Nat.le_refl _, fun _ => .inl⟩

theorem Adds.trans (first : p.Adds new p') (second : p'.Adds new p'') : p.Adds new p'' where
  ids := Nat.le_trans first.ids second.ids
  only m held := (second.only m held).elim (first.only m) .inr

theorem Adds.mono (adds : p.Adds new p') (wider : ∀ m, new m → new' m) : p.Adds new' p' where
  ids := adds.ids
  only m held := (adds.only m held).imp id (wider m)

theorem adds_put (p : PostOffice) (n : Nat) (m : Message) : p.Adds (· = m) (p.put n m) where
  ids := Nat.le_refl _
  only x := by
    rintro ⟨inbox, among, mem⟩
    rcases List.mem_or_eq_of_mem_set among with old | rfl
    · exact .inl ⟨inbox, old, mem⟩
    rcases List.mem_append.1 mem with old | same
    · left
      unfold box at old
      rw [List.getD_eq_getElem?_getD] at old
      cases here : p.boxes[n]? with
      | none =>
        rw [here] at old
        cases old
      | some inbox =>
        rw [here] at old
        exact ⟨inbox, List.mem_of_getElem? here, old⟩
    · exact .inr (List.mem_singleton.1 same)

theorem adds_deliver (delivered : p.deliver m = .ok p') : p.Adds (· = m) p' := by
  unfold deliver at delivered
  split at delivered
  · cases delivered
  · split at delivered
    · cases delivered
    · cases delivered
      exact adds_put p _ m

theorem adds_mint (p : PostOffice) (new : Message → Prop) : p.Adds new p.mint.2 :=
  ⟨Nat.le_succ _, fun _ => .inl⟩

theorem adds_closeTurn (p : PostOffice) (sender : AgentId) (klass : String) (addressee : AgentId)
    (n : Nat) : p.Adds (·.kind.isControl = false) (p.closeTurn sender klass addressee n) := by
  have minted := adds_mint p (·.kind.isControl = false)
  refine minted.trans ((adds_put p.mint.2 n _).mono ?_)
  rintro _ rfl
  rfl

theorem ids_deliverTurn (delivered : p.deliverTurn m = .ok p') : p.nextId ≤ p'.nextId := by
  unfold deliverTurn at delivered
  split at delivered
  · cases delivered
  · rename_i addressee _
    split at delivered
    · cases delivered
    · rename_i n _
      cases delivered
      exact (adds_closeTurn (p.put n m) m.sender m.senderKlass addressee n).ids

theorem adds_fanOut (plain : m.kind.isControl = false) (count : Nat) (p : PostOffice)
    (members : List AgentId) : p.Adds (·.kind.isControl = false) (fanOut m count p members).2 := by
  induction members generalizing count p with
  | nil => exact .refl p _
  | cons member rest ih =>
    unfold fanOut
    split
    · exact ih count p
    · split
      · exact ih count p
      · rename_i n _
        have put : p.Adds (·.kind.isControl = false) (p.put n (m.addressedTo member)) :=
          (adds_put p n _).mono (by rintro _ rfl; exact plain)
        exact (put.trans (adds_closeTurn ..)).trans (ih _ _)

theorem adds_broadcast {members : List AgentId} {count : Nat}
    (said : p.broadcast members m = .ok (count, p')) : p.Adds (·.kind.isControl = false) p' := by
  unfold broadcast at said
  split at said
  · cases said
  · rename_i fits
    have plain : m.kind.isControl = false := by
      cases kind : m.kind with
      | broadcast => rfl
      | _ => exact absurd (.inl (by rw [kind]; decide)) fits
    have fanned := adds_fanOut plain 0 p members
    rw [Except.ok.inj said] at fanned
    exact fanned

end PostOffice
end Playbook
