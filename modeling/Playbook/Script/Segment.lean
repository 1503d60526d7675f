import Playbook.Text.Trim

/- Complete statements at the front of a text that may still grow. A statement is complete once the
   line break or semicolon after it has arrived outside any string, bracket or comment. An if block
   stays open until it is known whether an else or elif follows. The scan starts afresh at every
   segment, so splitting can go on from the end of any of them. -/
namespace Playbook.Script

structure Segment where
  text : List Char
  /-- False for a stretch of blanks, separators and comments. -/
  hasCode : Bool
deriving DecidableEq, Repr

inductive SplitMode where
  | code
  | comment
  | quote (q : Char) (triple : Bool)
deriving DecidableEq, Repr

structure SplitState where
  mode : SplitMode
  /-- Characters still to be passed over unread. -/
  skip : Nat
  depth : Int
  hasCode : Bool
  last : Option Char
deriving DecidableEq, Repr

def SplitState.start : SplitState := ⟨.code, 0, 0, false, none⟩

def mayContinueWord (c : Char) : Bool :=
  Text.isAsciiAlphanumeric c || c = '_' || !Text.isAscii c

def isSeparator (c : Char) : Bool := c = ' ' || c = '\t' || c = '\r' || c = '\n' || c = ';'

def skipSeparators (inComment : Bool) : List Char → List Char
  | [] => []
  | c :: rest =>
    if inComment then skipSeparators (c ≠ '\n') rest
    else if isSeparator c then skipSeparators false rest
    else if c = '#' then skipSeparators true rest
    else c :: rest

/-- Whether the text goes on with another branch; none while that is open. -/
def continuesWithElse? (finished : Bool) (cs : List Char) : Option Bool :=
  let code := skipSeparators false cs
  let word := code.takeWhile mayContinueWord
  let isElse := word == ['e', 'l', 's', 'e'] || word == ['e', 'l', 'i', 'f']
  if word.length < code.length then some isElse
  else if finished then some isElse
  else none

def startsWithIf (cs : List Char) : Bool :=
  match Text.trimStart cs with
  | 'i' :: 'f' :: rest => !rest.head?.any mayContinueWord
  | _ => false

def SplitState.step (st : SplitState) (c : Char) (rest : List Char) : SplitState :=
  if 0 < st.skip then { st with skip := st.skip - 1 }
  else match st.mode with
    | .comment => st
    | .quote q triple =>
      if c = '\\' then { st with skip := 1 }
      else if c = q then
        if !triple then { st with mode := .code, last := some q }
        else if rest.take 2 == [q, q] then { st with mode := .code, last := some q, skip := 2 }
        else st
      else st
    | .code =>
      if c = '#' then { st with mode := .comment }
      else if c = '"' || c = '\'' then
        let triple := rest.take 2 == [c, c]
        { st with mode := .quote c triple, hasCode := true, skip := if triple then 2 else 0 }
      else if c = '(' || c = '[' || c = '{' then
        { st with depth := st.depth + 1, hasCode := true, last := some c }
      else if c = ')' || c = ']' || c = '}' then
        { st with depth := st.depth - 1, hasCode := true, last := some c }
      else if isSeparator c then st
      else { st with hasCode := true, last := some c }

def SplitState.enter (st : SplitState) (c : Char) : SplitState :=
  if st.mode = .comment ∧ c = '\n' then { st with mode := .code } else st

/-- The character ends a statement unless a branch may follow. -/
def SplitState.atEnd (st : SplitState) (c : Char) : Bool :=
  st.skip = 0 && st.mode = .code && (c = '\n' || c = ';') && decide (st.depth ≤ 0)

/-- The length of the first complete statement, counted on from `n`, and whether it has code. -/
def segmentEnd? (finished isIf : Bool) (st : SplitState) (n : Nat) :
    List Char → Option (Nat × Bool)
  | [] => if finished then some (n, st.hasCode) else none
  | c :: rest =>
    let st := st.enter c
    if st.atEnd c then
      if st.hasCode && st.last = some '}' && isIf then
        match continuesWithElse? finished rest with
        | some true => segmentEnd? finished isIf st (n + 1) rest
        | some false => some (n + 1, st.hasCode)
        | none => none
      else some (n + 1, st.hasCode)
    else segmentEnd? finished isIf (st.step c rest) (n + 1) rest

theorem le_of_segmentEnd? (finished isIf : Bool) (st : SplitState) (n : Nat) (cs : List Char)
    {k : Nat} {code : Bool} (h : segmentEnd? finished isIf st n cs = some (k, code)) :
    n + min 1 cs.length ≤ k := by
  induction cs generalizing st n with
  | nil =>
    unfold segmentEnd? at h
    split at h
    · cases h
      simp
    · cases h
  | cons c rest ih =>
    have one : n + min 1 (c :: rest).length = n + 1 := by simp
    have more (st' : SplitState) (h : segmentEnd? finished isIf st' (n + 1) rest = some (k, code)) :
        n + 1 ≤ k := Nat.le_trans (Nat.le_add_right _ _) (ih st' (n + 1) h)
    rw [one]
    unfold segmentEnd? at h
    simp only at h
    split at h
    · split at h
      · split at h
        · exact more _ h
        · cases h
          exact Nat.le_refl _
        · cases h
      · cases h
        exact Nat.le_refl _
    · exact more _ h

/-- The complete statements in order. When nothing more will come, all of the text is split. -/
def segments (finished : Bool) (cs : List Char) : List Segment :=
  if _nonempty : cs = [] then []
  else match _h : segmentEnd? finished (startsWithIf cs) .start 0 cs with
    | none => []
    | some (n, code) => ⟨cs.take n, code⟩ :: segments finished (cs.drop n)
termination_by cs.length
decreasing_by
  have := le_of_segmentEnd? _ _ _ _ _ _h
  have : 0 < cs.length := List.length_pos_iff.2 _nonempty
  simp only [List.length_drop]
  omega

def Segment.bytes (s : Segment) : Nat := (String.ofList s.text).utf8ByteSize

structure Span where
  start : Nat
  stop : Nat
  hasCode : Bool
deriving DecidableEq, Repr

def spansFrom (start : Nat) : List Segment → List Span
  | [] => []
  | s :: rest => ⟨start, start + s.bytes, s.hasCode⟩ :: spansFrom (start + s.bytes) rest

end Playbook.Script
