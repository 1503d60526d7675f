import Playbook.Proofs.Lexer.Shapes
import Playbook.Proofs.Lexer.Stepping

/- The tokens of a text cost no more than its characters pay for. -/
namespace Playbook.Script

theorem escape_length (c : Char) (b : StringBody) :
    (b.escape c).text.length ≤ b.text.length + 2 ∧ (b.escape c).rest = b.rest := by
  unfold StringBody.escape
  repeat' split
  all_goals simp [StringBody.cons, StringBody.broken]

theorem singleQuoted_length (q : Char) (cs : List Char) {b : StringBody}
    (found : singleQuoted q cs = some b) : b.text.length + b.rest.length + 1 ≤ cs.length := by
  fun_induction singleQuoted q cs generalizing b with
  | case1 => simp at found
  | case2 c rest ih =>
    obtain ⟨b', found', rfl⟩ := Option.map_eq_some_iff.1 found
    have := ih found'
    obtain ⟨length, same⟩ := escape_length c b'
    simp only [same, List.length_cons]
    omega
  | case3 c rest =>
    cases found
    simp
  | case4 => simp at found
  | case5 c rest _ _ _ ih =>
    obtain ⟨b', found', rfl⟩ := Option.map_eq_some_iff.1 found
    have := ih found'
    simp only [StringBody.cons, List.length_cons]
    omega

theorem tripleQuoted_length (q : Char) (cs : List Char) {b : StringBody}
    (found : tripleQuoted q cs = some b) : b.text.length + b.rest.length + 1 ≤ cs.length := by
  fun_induction tripleQuoted q cs generalizing b with
  | case1 => simp at found
  | case2 c rest ih =>
    obtain ⟨b', found', rfl⟩ := Option.map_eq_some_iff.1 found
    have := ih found'
    obtain ⟨length, same⟩ := escape_length c b'
    simp only [same, List.length_cons]
    omega
  | case3 => simp at found
  | case4 c rest =>
    cases found
    simp only [List.length_nil, List.length_drop, List.length_cons]
    omega
  | case5 rest _ _ _ ih =>
    obtain ⟨b', found', rfl⟩ := Option.map_eq_some_iff.1 found
    have := ih found'
    simp only [StringBody.cons, StringBody.broken, List.length_cons]
    omega
  | case6 c rest _ _ _ _ ih =>
    obtain ⟨b', found', rfl⟩ := Option.map_eq_some_iff.1 found
    have := ih found'
    simp only [StringBody.cons, List.length_cons]
    omega

theorem quotedString_length (q : Char) (cs : List Char) {b : StringBody}
    (found : quotedString q cs = some b) : b.text.length + b.rest.length + 1 ≤ cs.length := by
  unfold quotedString at found
  split at found
  · have := tripleQuoted_length q _ found
    simp only [List.length_drop] at this
    omega
  · exact singleQuoted_length q _ found

theorem wordToken_cost (word : String) : (wordToken word).cost = 16 := by
  unfold wordToken
  split <;> rfl

theorem number_cost {cs after : List Char} {t : Token} (read : number cs = .ok (t, after)) :
    t.cost = 16 := by
  rcases number_elim read with ⟨n, rfl⟩ | ⟨x, rfl⟩ <;> rfl

theorem punctuation?_cost {c : Char} {rest after : List Char} {t : Token}
    (mark : punctuation? c rest = some (t, after)) : t.cost = 16 := by
  unfold punctuation? at mark
  split at mark <;> cases mark <;> rfl

theorem cost_of_nextToken {c : Char} {rest after : List Char} {t : Token} {n : Nat}
    (found : nextToken c rest = .ok (t, n, after)) :
    t.cost + 16 * after.length ≤ 16 * (rest.length + 1) := by
  have shorter := nextToken_rest_le c rest found
  have ordinary (weight : t.cost = 16) : t.cost + 16 * after.length ≤ 16 * (rest.length + 1) := by
    omega
  cases tokenAt_of_nextToken found with
  | string quote body => exact ordinary rfl
  | @template letter q more starts quote b body =>
    have := quotedString_length q more body
    subst starts
    simp only [Token.cost, String.toList_ofList, List.length_cons]
    omega
  | dollar sign named => exact ordinary rfl
  | number digit read => exact ordinary (number_cost read)
  | word letter unquoted => exact ordinary (wordToken_cost _)
  | punctuation mark => exact ordinary (punctuation?_cost mark)

theorem cost_of_lexStep? {p q : Nat} {c : Char} {rest after : List Char} {emitted : List Token}
    (step : lexStep? p c rest = some (emitted, q, after)) :
    cost emitted + 16 * after.length ≤ 16 * (rest.length + 1) := by
  have shorter := lexStep?_lt step
  cases stepAt_of_lexStep? step with
  | blank | inside | comment =>
    simp only [cost_nil] at shorter ⊢
    omega
  | outside | separator =>
    simp only [cost_cons, cost_nil, Token.cost]
    omega
  | token found => simpa using cost_of_nextToken found

/-- Sixteen calls per character are enough for all tokens of a text. -/
theorem cost_of_scans {p : Nat} {cs : List Char} {ts : List Token} (scans : Scans p cs ts) :
    cost ts ≤ 16 * cs.length := by
  induction p, cs, ts, scans using Scans.induction with
  | nil => simp [Token.cost]
  | step first later ih =>
    have shorter := lexStep?_lt first
    have paid := cost_of_lexStep? first
    rw [cost_append, List.length_cons]
    omega

theorem holeTail_length (depth : Nat) (quote : Option Char) (cs : List Char)
    {source rest : List Char} (found : holeTail depth quote cs = some (source, rest)) :
    source.length + rest.length + 1 = cs.length := by
  induction cs generalizing depth quote source with
  | nil => simp [holeTail] at found
  | cons c cs ih =>
    have step (d : Nat) (q : Option Char)
        (found : (holeTail d q cs).map (fun p => (c :: p.1, p.2)) = some (source, rest)) :
        source.length + rest.length + 1 = (c :: cs).length := by
      obtain ⟨⟨s, r⟩, inside, same⟩ := Option.map_eq_some_iff.1 found
      cases same
      have := ih d q inside
      simp only [List.length_cons] at this ⊢
      omega
    unfold holeTail at found
    split at found
    · exact step _ _ found
    · repeat' split at found
      · exact step _ _ found
      · exact step _ _ found
      · cases found
        simp
      · exact step _ _ found
      · exact step _ _ found

def Piece.cost : Piece → Nat
  | .text _ => 16
  | .hole source => 16 * (source.length + 2)

def Pieces.cost : List Piece → Nat
  | [] => 0
  | piece :: more => piece.cost + Pieces.cost more

theorem Pieces.cost_addChar (c : Char) (p : Pieces) :
    Pieces.cost (p.addChar c).pieces ≤ Pieces.cost p.pieces + 16 := by
  unfold Pieces.addChar
  split
  · rename_i same
    simp [Pieces.cost, same, Piece.cost]
  · simp only [Pieces.cost, Piece.cost]
    omega

theorem Pieces.cost_ofBody (cs : List Char) :
    Pieces.cost (Pieces.ofBody cs).pieces ≤ 16 * cs.length := by
  fun_induction Pieces.ofBody cs with
  | case1 => exact Nat.le_refl 0
  | case2 rest ih =>
    have := Pieces.cost_addChar '\x7b' (Pieces.ofBody rest)
    simp only [List.length_cons]
    omega
  | case3 rest ih =>
    have := Pieces.cost_addChar '\x7d' (Pieces.ofBody rest)
    simp only [List.length_cons]
    omega
  | case4 => exact Nat.zero_le _
  | case5 => exact Nat.zero_le _
  | case6 rest _ source after inside _ ih =>
    have := holeTail_length _ _ _ inside
    simp only [Pieces.addHole, Pieces.cost, Piece.cost, List.length_cons] at ih ⊢
    omega
  | case7 => exact Nat.zero_le _
  | case8 c rest _ _ _ _ ih =>
    have := Pieces.cost_addChar c (Pieces.ofBody rest)
    simp only [List.length_cons]
    omega

end Playbook.Script
