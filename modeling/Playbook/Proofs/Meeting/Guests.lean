import Playbook.Proofs.Activity.Sole
import Playbook.Proofs.Inbox.Batches
import Playbook.Proofs.Meeting.Verdicts

/- What guests do while an owner waits for their answers, each at its own inbox: they take what has
   come, and answer invitations. All that reaches the inbox of the owner is messages, and the
   answers among them are in the guests' own names. -/
namespace Playbook
open Activity Schedule

/-- What others do while an owner waits for answers. -/
structure Answering (n : Nat) (id : MeetingId) (deeds : List Message) (w w' : World) : Prop where
  feeds : Feeds n deeds w w'
  calls : deeds ≠ [] → n ∈ w'.post.arrivals
  own : ∀ m ∈ deeds, Convening.isAnswer id m = true → OwnAnswer id m

section
variable {n k : Nat} {id : MeetingId} {w w' : World} {who : Signature}

theorem answering_of_same (same : w'.post.boxes[n]? = w.post.boxes[n]?) :
    Doings (Answering n id) w w' := by
  refine ⟨[], ?_, fun some_deed => absurd rfl some_deed, by simp⟩
  intro inbox box
  rw [List.append_nil, same, box]

theorem answering_of_put {p : PostOffice} {m : Message} (boxes : p.boxes = w.post.boxes)
    (put : w'.post = p.put k m) (own : Convening.isAnswer id m = true → OwnAnswer id m) :
    Doings (Answering n id) w w' := by
  by_cases here : k = n
  · subst here
    refine ⟨[m], ?_, ?_, by simpa using own⟩
    · intro inbox box
      rw [← boxes] at box
      rw [put, PostOffice.put, box_of_get box]
      exact setBox_get box _
    · rw [put]
      simp [PostOffice.put]
  · apply answering_of_same
    rw [put, ← boxes]
    exact List.getElem?_set_ne here

theorem answering_posted {a : Assembly} {d : Draft} (boxes : a.post.boxes = w.post.boxes)
    (posted : w'.toAssembly = ((a.write d).2.deliver (a.write d).1).2)
    (own : ∀ m, (∃ id date, m = d.toMessage id date) → Convening.isAnswer id m = true →
      OwnAnswer id m) : Doings (Answering n id) w w' := by
  have boxes : (a.write d).2.post.boxes = w.post.boxes := boxes
  have written : ∃ id date, (a.write d).1 = d.toMessage id date := ⟨_, _, rfl⟩
  unfold Assembly.deliver Assembly.withPost at posted
  cases delivered : (a.write d).2.post.deliver (a.write d).1 with
  | error e =>
    rw [delivered] at posted
    apply answering_of_same
    rw [posted, boxes]
  | ok post =>
    rw [delivered] at posted
    unfold PostOffice.deliver at delivered
    split at delivered
    · cases delivered
    · split at delivered
      · cases delivered
      · rename_i k _
        cases delivered
        exact answering_of_put (k := k) boxes (by rw [posted]) (own _ written)

theorem handleInvitation_answering (valid : ValidId .agent who.id) (meeting : ValidId .meeting id)
    (knows : String → Bool) (m : Message) (w : World) :
    Doings (Answering n id) w (w.assembled (Assembly.handleInvitation who knows m)).2 := by
  have own : ∀ {i accepted reason} (m : Message),
      (∃ id date, m = (Assembly.answerDraft who i accepted reason).toMessage id date) →
      Convening.isAnswer id m = true → OwnAnswer id m :=
    fun m written about => ownAnswer_of_written valid meeting about written
  simp only [World.assembled, Assembly.handleInvitation]
  split
  · exact answering_of_same rfl
  split
  · exact answering_of_same rfl
  rename_i i read
  split
  · exact answering_of_same rfl
  split
  · exact answering_posted (d := Assembly.answerDraft who i false _) rfl rfl own
  split
  · exact answering_of_same rfl
  · rename_i n room _
    exact answering_posted (a := ((w.toAssembly.lookup i.meeting).2.join who n room).2)
      (d := Assembly.answerDraft who i true none) rfl rfl own

theorem hears_collectBatch (fits : Nat → Prop) (fit : fits n) (r : BatchRequest) :
    Hears fits (collectBatch n r) := by
  rw [collectBatch_eq]
  refine .act fun t => .loop (fun batch => .act fun (batch, complete) => ?_) .done
  cases complete with
  | true => exact .done _
  | false =>
    refine .listen fit fun heard => ?_
    cases heard with
    | true => exact .done _
    | false => exact .act fun batch => .done _

theorem collectBatch_within (other : k ≠ n) (r : BatchRequest) :
    Within (Doings (Answering n id)) (collectBatch k r) :=
  within_collectBatch k r (fun _ => answering_of_same rfl) fun _ _ =>
    answering_of_same (List.getElem?_set_ne other)

end

def attending (who : Signature) (k timeout : Nat) (knows : String → Bool) :
    Activity World (Except MeetingError MeetingId) := do
  let batch ← collectBatch k ⟨fun _ => true, timeout, 1, some 1⟩
  match batch with
  | [] => return .error .notInMeeting
  | m :: _ =>
    let outcome ← Activity.change (World.assembled (Assembly.handleInvitation who knows m))
    return outcome.map fun _ => ""

section
variable {n k : Nat} {id : MeetingId} {who : Signature}

theorem attending_hears (other : k ≠ n) (timeout : Nat) (knows : String → Bool) :
    Hears (· ≠ n) (attending who k timeout knows) := by
  refine (hears_collectBatch (· ≠ n) other _).bind fun batch => ?_
  cases batch with
  | nil => exact .done _
  | cons m rest => exact .act fun outcome => .done _

theorem attending_within (valid : ValidId .agent who.id) (meeting : ValidId .meeting id)
    (other : k ≠ n) (timeout : Nat) (knows : String → Bool) :
    Within (Doings (Answering n id)) (attending who k timeout knows) := by
  refine (collectBatch_within other _).bind fun batch => ?_
  cases batch with
  | nil => exact .done _
  | cons m rest =>
    exact .act (fun _ w => handleInvitation_answering valid meeting knows m w) fun outcome => .done _

end

end Playbook
