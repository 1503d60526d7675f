import Playbook.Proofs.Inbox.Batches
import Playbook.Proofs.Meeting.Failure
import Playbook.Proofs.Meeting.OneRoom

/- What is said in a meeting. Agents have inboxes of their own, and in a room that the protocol has
   come to nobody is named twice; so a broadcast is one turn in the inbox of each other member, and
   nothing anywhere else. -/
namespace Playbook

namespace PostOffice

/-- The states that an office can come to, by what is done to its addresses and its inboxes. -/
inductive Reached : PostOffice → Prop
  | start (nextId : Nat) (date : String) : Reached (.start nextId date)
  | enter {p : PostOffice} (reached : Reached p) (agent : AgentId) : Reached (p.enter agent).2
  | remove {p : PostOffice} (reached : Reached p) (agent : AgentId) : Reached (p.remove agent).2
  | put {p : PostOffice} (reached : Reached p) (n : Nat) (m : Message) : Reached (p.put n m)
  /-- Messages are taken out of an inbox, or given back to it. -/
  | take {p : PostOffice} (reached : Reached p) (n : Nat) (left : Inbox) : Reached (p.setBox n left)
  | mint {p : PostOffice} (reached : Reached p) : Reached p.mint.2
  | heard {p : PostOffice} (reached : Reached p) (arrivals : List Nat) : Reached { p with arrivals }
  | later {p : PostOffice} (reached : Reached p) (date : String) : Reached { p with date }

/-- Every address is that of an inbox, and no two agents have one together. -/
structure Separate (p : PostOffice) : Prop where
  inside : ∀ {agent n}, p.boxOf? agent = some n → n < p.boxes.length
  apart : ∀ {agent other n}, p.boxOf? agent = some n → p.boxOf? other = some n → agent = other

variable {p p' : PostOffice} {agent other : AgentId} {n k : Nat} {m : Message}

theorem Separate.same (separate : p.Separate) (addresses : p'.addresses = p.addresses)
    (boxes : p'.boxes.length = p.boxes.length) : p'.Separate where
  inside found := by
    rw [boxOf?, addresses] at found
    rw [boxes]
    exact separate.inside found
  apart found found' := by
    rw [boxOf?, addresses] at found found'
    exact separate.apart found found'

theorem Separate.enter (separate : p.Separate) (agent : AgentId) : (p.enter agent).2.Separate := by
  unfold PostOffice.enter
  split
  · exact separate
  · have found : ∀ {other n}, Dict.get? (p.addresses.insert agent p.boxes.length) other = some n →
        other = agent ∧ n = p.boxes.length ∨ other ≠ agent ∧ p.boxOf? other = some n := by
      intro other n there
      by_cases same : agent = other
      · subst same
        rw [Dict.get?_insert_self] at there
        exact .inl ⟨rfl, (Option.some.inj there).symm⟩
      · rw [Dict.get?_insert_of_ne _ _ same] at there
        exact .inr ⟨Ne.symm same, there⟩
    constructor
    · intro other n there
      simp only [List.length_append, List.length_singleton]
      obtain ⟨-, rfl⟩ | ⟨-, old⟩ := found there
      · exact Nat.lt_succ_self _
      · exact Nat.lt_succ_of_lt (separate.inside old)
    · intro other another n there there'
      obtain ⟨rfl, rfl⟩ | ⟨-, old⟩ := found there <;>
        obtain ⟨rfl, new⟩ | ⟨-, old'⟩ := found there'
      · rfl
      · exact absurd (separate.inside old') (Nat.lt_irrefl _)
      · exact absurd (separate.inside old) (new ▸ Nat.lt_irrefl _)
      · exact separate.apart old old'

theorem Separate.remove (separate : p.Separate) (agent : AgentId) :
    (p.remove agent).2.Separate := by
  have found : ∀ {other n}, Dict.get? (p.addresses.erase agent) other = some n →
      p.boxOf? other = some n := by
    intro other n there
    by_cases same : agent = other
    · subst same
      rw [Dict.get?_erase_self] at there
      cases there
    · rwa [Dict.get?_erase_of_ne _ same] at there
  exact ⟨fun there => separate.inside (found there),
    fun there there' => separate.apart (found there) (found there')⟩

theorem Reached.separate (reached : p.Reached) : p.Separate := by
  induction reached with
  | start => exact ⟨nofun, nofun⟩
  | enter _ agent ih => exact ih.enter agent
  | remove _ agent ih => exact ih.remove agent
  | put _ n m ih => exact ih.same rfl (List.length_set ..)
  | take _ n left ih => exact ih.same rfl (List.length_set ..)
  | mint _ ih => exact ih.same rfl rfl
  | heard _ arrivals ih => exact ih.same rfl rfl
  | later _ date ih => exact ih.same rfl rfl

/-- The members who hear what someone says: the others, as far as they have inboxes. -/
def hearers (p : PostOffice) (members : List AgentId) (speaker : AgentId) : List AgentId :=
  members.filter fun member => member ≠ speaker && (p.boxOf? member).isSome

/-- A message has been given to some agents once each, in a turn of its own, and nothing to
    others. -/
structure Spreads (p : PostOffice) (m : Message) (hearers : List AgentId) (p' : PostOffice) :
    Prop where
  once : hearers.Nodup
  addresses : p'.addresses = p.addresses
  boxes : p'.boxes.length = p.boxes.length
  heard : ∀ {agent n}, agent ∈ hearers → p.boxOf? agent = some n →
    ∃ id, p'.box n = p.box n ++
      [m.addressedTo agent, (Draft.marker m.sender m.senderKlass agent).toMessage id p.date]
  unheard : ∀ n, (∀ agent ∈ hearers, p.boxOf? agent ≠ some n) → p'.box n = p.box n

theorem length_turn (p : PostOffice) (n : Nat) (m : Message) (addressee : AgentId) :
    ((p.put n m).closeTurn m.sender m.senderKlass addressee n).boxes.length = p.boxes.length := by
  simp [closeTurn, write, mint, PostOffice.put, setBox]

theorem box_turn (inside : n < p.boxes.length) (m : Message) (addressee : AgentId) (k : Nat) :
    ((p.put n m).closeTurn m.sender m.senderKlass addressee n).box k =
      p.box k ++ if n = k then [m, (Draft.marker m.sender m.senderKlass addressee).toMessage
        (Uuid.ofBits p.nextId) p.date] else [] :=
  box_of_gets (length_turn ..) (fun box => turn_get box ..) fun outside => if_neg (by omega)

theorem Spreads.cons {hearers : List AgentId} (separate : p.Separate)
    (found : p.boxOf? agent = some n) (absent : agent ∉ hearers)
    (rest : ((p.put n (m.addressedTo agent)).closeTurn m.sender m.senderKlass agent n).Spreads m
      hearers p') : p.Spreads m (agent :: hearers) p' := by
  have turn := box_turn (separate.inside found) (m.addressedTo agent) agent
  obtain ⟨once, addresses, boxes, heard, unheard⟩ := rest
  refine ⟨List.nodup_cons.2 ⟨absent, once⟩, addresses, boxes.trans (length_turn ..), ?_, ?_⟩
  · intro member k among there
    obtain rfl | later := List.mem_cons.1 among
    · cases found.symm.trans there
      refine ⟨Uuid.ofBits p.nextId, ?_⟩
      rw [unheard n fun other mem same => absent (separate.apart found same ▸ mem)]
      exact (turn n).trans (by rw [if_pos rfl]; rfl)
    · have apart : n ≠ k := by
        rintro rfl
        exact absent (separate.apart found there ▸ later)
      obtain ⟨id, box⟩ := heard later there
      refine ⟨id, ?_⟩
      rw [box]
      have same := turn k
      rw [if_neg apart, List.append_nil] at same
      exact congrArg (· ++ _) same
  · intro k free
    have apart : n ≠ k := by
      rintro rfl
      exact free agent (.head _) found
    have same := turn k
    rw [if_neg apart, List.append_nil] at same
    rw [unheard k fun member mem => free member (.tail _ mem)]
    exact same

end PostOffice

namespace Assembly
variable {a : Assembly} {who : Signature} {id : MeetingId} {content : String} {n : Nat}
  {room : Room}

end Assembly

namespace Gathering
variable {g : Gathering} {first n : Nat} {log : List Event} {date : String} {p : PostOffice}
  {room : Room}

namespace Visit

end Visit

end Gathering
end Playbook
