import Playbook.Proofs.Meeting.Protocol

/- Who is a member of a meeting. The invariant of a run is about the messages as well: whatever an
   answer still under way says, its sender was invited and has accepted. -/
namespace Playbook

/-- The owner has asked for this attendee. -/
def Invited (log : List Deed) (owner : AgentId) (id : MeetingId) (who : AgentId) : Prop :=
  ∃ r : MeetingRequest, .convene owner r id ∈ log ∧ (who ∈ r.required ∨ who ∈ r.optional) ∧
    who ≠ owner

def Admitted (log : List Deed) (owner : AgentId) (id : MeetingId) (who : AgentId) : Prop :=
  Invited log owner id who ∧ .answer who id true ∈ log

/-- A message about taking part that somebody has sent in the course of the run. -/
inductive Genuine (log : List Deed) (h : MeetingHouse) (m : Message) : Prop where
  | invitation (i : Invitation) (kind : m.kind = .invitation) (read : m.invitation = .ok i)
    (stands : h.Has i.meeting i.owner)
    (invited : ∀ who, m.recipient = some who → Invited log i.owner i.meeting who)
  | response (r : InvitationResponse) (owner : AgentId) (kind : m.kind = .response)
    (read : m.response = .ok r) (about : m.meeting = some r.meeting)
    (stands : h.Has r.meeting owner)
    (admitted : r.accepted = true → Admitted log owner r.meeting r.attendee)

/-- The owner and those who have accepted, each once. -/
def Room.Filled (log : List Deed) (room : Room) : Prop :=
  ∃ others, room.members = room.owner :: others ∧ room.members.Nodup ∧
    ∀ who ∈ others, Admitted log room.owner room.id who

def Arrangement.Leads (arr : Arrangement) (h : MeetingHouse) : Prop :=
  ∃ room, h.room? arr.convening.room = some room ∧ room.id = arr.convening.meeting

structure Gathering.Orderly (first : Nat) (log : List Deed) (g : Gathering) : Prop where
  sound : g.assembly.house.Sound first g.assembly.post.nextId
  begun : first ≤ g.assembly.post.nextId
  /-- Those who arrange a meeting hold its room. -/
  held : g.assembly.house.held.Perm (g.arranging.map (·.convening.room))
  leads : ∀ arr ∈ g.arranging, arr.Leads g.assembly.house
  sent : ∀ m, g.Sent m → m.kind.isControl = true → Genuine log g.assembly.house m
  filled : ∀ n room, g.assembly.house.room? n = some room → room.Filled log

structure Gathering.Proceeds (first : Nat) (log : List Deed) (g : Gathering) (d : Deed)
    (g' : Gathering) : Prop where
  evolves : g.assembly.house.Evolves d g'.assembly.house
  sound : g'.assembly.house.Sound first g'.assembly.post.nextId
  later : g.assembly.post.nextId ≤ g'.assembly.post.nextId
  held : g'.assembly.house.held.Perm (g'.arranging.map (·.convening.room))
  leads : ∀ arr ∈ g'.arranging, arr ∈ g.arranging ∨ arr.Leads g'.assembly.house
  sent : ∀ m, g'.Sent m → m.kind.isControl = true →
    g.Sent m ∨ Genuine (log ++ [d]) g'.assembly.house m
  admits : ∀ {who id}, d.Admits who id →
    ∃ owner, g.assembly.house.Has id owner ∧ Admitted (log ++ [d]) owner id who
  leaves : ∀ {who id}, d = .leave who id → ∃ owner, g.assembly.house.Has id owner ∧ owner ≠ who

section
variable {log log' : List Deed} {d : Deed} {owner who : AgentId} {id : MeetingId} {room : Room}
  {h h' : MeetingHouse} {m : Message} {first next : Nat} {arr : Arrangement}

theorem Invited.mono (longer : log ⊆ log') (invited : Invited log owner id who) :
    Invited log' owner id who := by
  obtain ⟨r, convened, named⟩ := invited
  exact ⟨r, longer convened, named⟩

theorem Invited.different (invited : Invited log owner id who) : who ≠ owner := by
  obtain ⟨_, _, _, different⟩ := invited
  exact different

theorem Admitted.mono (longer : log ⊆ log') (admitted : Admitted log owner id who) :
    Admitted log' owner id who :=
  ⟨admitted.1.mono longer, longer admitted.2⟩

theorem Genuine.mono (longer : log ⊆ log') (stays : ∀ {id owner}, h.Has id owner → h'.Has id owner)
    (genuine : Genuine log h m) : Genuine log' h' m := by
  cases genuine with
  | invitation i kind read stands invited =>
    exact .invitation i kind read (stays stands) fun who addressed => (invited who addressed).mono longer
  | response r owner kind read about stands admitted =>
    exact .response r owner kind read about (stays stands) fun accepted => (admitted accepted).mono longer

theorem Room.Filled.mono (longer : log ⊆ log') (filled : room.Filled log) : room.Filled log' := by
  obtain ⟨others, members, nodup, admitted⟩ := filled
  exact ⟨others, members, nodup, fun who mem => (admitted who mem).mono longer⟩

theorem Room.Filled.addMember (filled : room.Filled log)
    (admitted : Admitted log room.owner room.id who) : (room.addMember who).Filled log := by
  unfold Room.addMember
  split
  · exact filled
  rename_i absent
  obtain ⟨others, members, nodup, before⟩ := filled
  have new : who ∉ room.members := by simpa [hasMember] using absent
  refine ⟨others ++ [who], by simp [members], ?_, ?_⟩
  · rw [List.nodup_append]
    refine ⟨nodup, by simp, ?_⟩
    intro a mem b same
    rw [List.mem_singleton.1 same]
    rintro rfl
    exact new mem
  · intro other mem
    rcases List.mem_append.1 mem with old | same
    · exact before other old
    · rw [List.mem_singleton.1 same]
      exact admitted

theorem Room.Filled.removeMember (filled : room.Filled log) (different : room.owner ≠ who) :
    (room.removeMember who).Filled log := by
  obtain ⟨others, members, nodup, admitted⟩ := filled
  refine ⟨others.filter (· ≠ who), ?_, nodup.filter _, ?_⟩
  · simp [Room.removeMember, members, different]
  · intro other mem
    exact admitted other (List.mem_filter.1 mem).1

theorem Room.Filled.onRoom (filled : room.Filled log)
    (admits : ∀ {who}, d.Admits who room.id → Admitted log room.owner room.id who)
    (leaves : ∀ {who}, d = .leave who room.id → room.owner ≠ who) : (d.onRoom room).Filled log := by
  unfold Deed.onRoom
  split
  · split
    · rename_i same
      subst same
      exact filled.addMember (admits (.inl rfl))
    · exact filled
  · split
    · rename_i same
      subst same
      exact filled.addMember (admits (.inr rfl))
    · exact filled
  · split
    · rename_i same
      subst same
      exact filled.removeMember (leaves rfl)
    · exact filled
  · exact filled

theorem MeetingHouse.Sound.owner_unique (sound : h.Sound first next) (one : h.Has id owner)
    (other : h.Has id who) : owner = who := by
  obtain ⟨n, room, here, same, rfl⟩ := one
  obtain ⟨n', room', there, same', rfl⟩ := other
  obtain rfl := sound.distinct here there (same.trans same'.symm)
  cases here.symm.trans there
  rfl

theorem Arrangement.Leads.evolves (leads : arr.Leads h) (evolves : h.Evolves d h') :
    arr.Leads h' := by
  obtain ⟨room, here, same⟩ := leads
  obtain ⟨room', there, same', _⟩ := evolves.stays_same here
  exact ⟨room', there, same'.trans same⟩

end

namespace Gathering
variable {first : Nat} {log : List Deed} {g g' : Gathering} {d : Deed}

theorem Proceeds.orderly (proceeds : Proceeds first log g d g') (orderly : g.Orderly first log) :
    g'.Orderly first (log ++ [d]) := by
  have longer : log ⊆ log ++ [d] := List.subset_append_left ..
  refine ⟨proceeds.sound, Nat.le_trans orderly.begun proceeds.later, proceeds.held, ?_, ?_, ?_⟩
  · intro arr mem
    rcases proceeds.leads arr mem with old | leads
    · exact (orderly.leads arr old).evolves proceeds.evolves
    · exact leads
  · intro m sent control
    rcases proceeds.sent m sent control with old | genuine
    · exact (orderly.sent m old control).mono longer proceeds.evolves.has
    · exact genuine
  · intro n room' there
    cases here : g.assembly.house.room? n with
    | none =>
      have alone := (proceeds.evolves.opened there here).2
      exact ⟨[], alone, by simp [alone], fun who mem => nomatch mem⟩
    | some room =>
      have filled := (orderly.filled n room here).mono longer
      have has : g.assembly.house.Has room.id room.owner := ⟨n, room, here, rfl, rfl⟩
      obtain ⟨room'', there', change⟩ := proceeds.evolves.stays here
      cases there.symm.trans there'
      rcases change with rfl | ⟨_, rfl⟩
      · apply filled.onRoom
        · intro who admits
          obtain ⟨owner, stands, admitted⟩ := proceeds.admits admits
          rw [orderly.sound.owner_unique has stands]
          exact admitted
        · intro who leaves
          obtain ⟨owner, stands, different⟩ := proceeds.leaves leaves
          rw [orderly.sound.owner_unique has stands]
          exact different
      · exact filled

end Gathering
end Playbook
