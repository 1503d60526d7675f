import Mathlib.Algebra.Group.Int.Defs
import Playbook.Json.Reader
import Playbook.Json.Writer
import Playbook.Proofs.Text.CharClass

/- A document in writing is read as that document, in both layouts. The proof runs over lists of
   characters, so the writers are first seen to be one writer of characters. -/
namespace Playbook.Json
open Decimal RawJson

def gap (tight : Bool) (level : Nat) : List Char :=
  if tight then [] else '\n' :: List.replicate (2 * level) ' '

def colon (tight : Bool) : List Char := if tight then [':'] else [':', ' ']

def quoted (s : String) : List Char := '"' :: (s.toList.flatMap escapeChar ++ ['"'])

mutual
def chars (tight : Bool) (level : Nat) : Json → List Char
  | .null => "null".toList
  | .bool true => "true".toList
  | .bool false => "false".toList
  | .int i => (toString i).toList
  | .float x => (exponential x).toList
  | .str s => quoted s
  | .arr [] => ['[', ']']
  | .arr items => '[' :: (charsOfItems tight (level + 1) items ++ gap tight level ++ [']'])
  | .obj [] => ['\x7b', '\x7d']
  | .obj members => '\x7b' :: (charsOfMembers tight (level + 1) members ++ gap tight level ++ ['\x7d'])

def charsOfItems (tight : Bool) (level : Nat) : List Json → List Char
  | [] => []
  | [j] => gap tight level ++ chars tight level j
  | j :: rest => gap tight level ++ chars tight level j ++ ',' :: charsOfItems tight level rest

def charsOfMembers (tight : Bool) (level : Nat) : List (String × Json) → List Char
  | [] => []
  | [(k, j)] => gap tight level ++ quoted k ++ colon tight ++ chars tight level j
  | (k, j) :: rest =>
    gap tight level ++ quoted k ++ colon tight ++ chars tight level j ++
      ',' :: charsOfMembers tight level rest
end

theorem toList_writeString (s : String) : (writeString s).toList = quoted s := by
  rw [writeString, String.toList_ofList, quoted, List.cons_append]

theorem toList_indent (level : Nat) : (indent level).toList = gap false level := by
  simp [indent, gap]

mutual
theorem toList_compress (level : Nat) : ∀ j : Json, (compress j).toList = chars true level j
  | .null => rfl
  | .bool true => rfl
  | .bool false => rfl
  | .int _ => rfl
  | .float _ => rfl
  | .str s => toList_writeString s
  | .arr [] => by simp [compress, compressItems, chars]
  | .arr (j :: rest) => by
    simp [compress, chars, toList_compressItems (level + 1) (j :: rest), gap]
  | .obj [] => by simp [compress, compressMembers, chars]
  | .obj (e :: rest) => by
    simp [compress, chars, toList_compressMembers (level + 1) (e :: rest), gap]

theorem toList_compressItems (level : Nat) : ∀ items : List Json,
    (compressItems items).toList = charsOfItems true level items
  | [] => rfl
  | [j] => by simp [compressItems, charsOfItems, toList_compress level j, gap]
  | j :: k :: rest => by
    simp [compressItems, charsOfItems, toList_compress level j,
      toList_compressItems level (k :: rest), gap]

theorem toList_compressMembers (level : Nat) : ∀ members : List (String × Json),
    (compressMembers members).toList = charsOfMembers true level members
  | [] => rfl
  | [(k, j)] => by
    simp [compressMembers, charsOfMembers, toList_compress level j, toList_writeString, gap, colon]
  | (k, j) :: e :: rest => by
    simp [compressMembers, charsOfMembers, toList_compress level j, toList_writeString,
      toList_compressMembers level (e :: rest), gap, colon]
end

mutual
theorem toList_pretty (level : Nat) : ∀ j : Json, (pretty level j).toList = chars false level j
  | .null => rfl
  | .bool true => rfl
  | .bool false => rfl
  | .int _ => rfl
  | .float _ => rfl
  | .str s => toList_writeString s
  | .arr [] => by simp [pretty, chars]
  | .arr (j :: rest) => by
    simp [pretty, chars, toList_prettyItems (level + 1) (j :: rest), toList_indent]
  | .obj [] => by simp [pretty, chars]
  | .obj (e :: rest) => by
    simp [pretty, chars, toList_prettyMembers (level + 1) (e :: rest), toList_indent]

theorem toList_prettyItems (level : Nat) : ∀ items : List Json,
    (prettyItems level items).toList = charsOfItems false level items
  | [] => rfl
  | [j] => by simp [prettyItems, charsOfItems, toList_pretty level j, toList_indent]
  | j :: k :: rest => by
    simp [prettyItems, charsOfItems, toList_pretty level j, toList_prettyItems level (k :: rest),
      toList_indent]

theorem toList_prettyMembers (level : Nat) : ∀ members : List (String × Json),
    (prettyMembers level members).toList = charsOfMembers false level members
  | [] => rfl
  | [(k, j)] => by
    simp [prettyMembers, charsOfMembers, toList_pretty level j, toList_writeString, toList_indent,
      colon]
  | (k, j) :: e :: rest => by
    simp [prettyMembers, charsOfMembers, toList_pretty level j, toList_writeString,
      toList_prettyMembers level (e :: rest), toList_indent, colon]
end

section Strings
variable {text rest : List Char}

theorem hexValue?_hexDigit : ∀ n, n < 16 → hexValue? (hexDigit n) = some n := by decide

theorem hexDigit_mod (n : Nat) : hexDigit n = hexDigit (n % 16) := by
  rw [hexDigit, hexDigit, Nat.mod_mod]

theorem escaped?_control {n : Nat} (small : n < 0x20) (rest : List Char) :
    escaped? ('0' :: '0' :: hexDigit (n / 16) :: hexDigit n :: rest) = some (Char.ofNat n, rest) := by
  have zero : hexValue? '0' = some 0 := by decide
  have high := hexValue?_hexDigit (n / 16) (by omega)
  have low := hexValue?_hexDigit (n % 16) (Nat.mod_lt n (by decide))
  have value : (0 * 16 + 0) * 256 + n / 16 * 16 + n % 16 = n := by omega
  have plain : ¬ (0xDC00 ≤ n ∧ n < 0xE000) ∧ ¬ (0xD800 ≤ n ∧ n < 0xDC00) := by omega
  rw [hexDigit_mod n, escaped?]
  simp only [unit?, zero, high, low, bind, pure, Option.bind, value, if_neg plain.1, if_neg plain.2]

theorem stringTail?_escapeChar (text : List Char) (fuel : Nat) (c : Char) (rest : List Char) :
    stringTail? (some text) (fuel + 1) (escapeChar c ++ rest) =
      stringTail? (some (c :: text)) fuel rest := by
  unfold escapeChar
  split
  · rename_i same
    subst same
    rfl
  split
  · rename_i same
    subst same
    rfl
  split
  · rename_i same
    subst same
    rfl
  split
  · rename_i same
    subst same
    rfl
  split
  · rename_i same
    subst same
    rfl
  split
  · rename_i same
    subst same
    rfl
  split
  · rename_i same
    subst same
    rfl
  split
  · rename_i small
    have read := escaped?_control small rest
    rw [Char.ofNat_toNat] at read
    simp only [List.cons_append, List.nil_append]
    rw [stringTail?]
    simp only [read, Option.map_some]
  · rename_i quote slash _ _ _ _ _ large
    simp only [List.cons_append, List.nil_append]
    rw [stringTail?]
    · rw [if_neg (by simp [slash, large]), Option.map_some]
    · exact quote
    · intro d more same
      exact absurd same slash

theorem stringTail?_quoted (cs text : List Char) {fuel : Nat} (enough : cs.length < fuel)
    (rest : List Char) :
    stringTail? (some text) fuel (cs.flatMap escapeChar ++ '"' :: rest) =
      some (some (String.ofList (text.reverse ++ cs)), rest) := by
  induction cs generalizing text fuel with
  | nil =>
    cases fuel with
    | zero => cases enough
    | succ fuel => simp [stringTail?]
  | cons c cs ih =>
    cases fuel with
    | zero => cases enough
    | succ fuel =>
      rw [List.flatMap_cons, List.append_assoc, stringTail?_escapeChar,
        ih (c :: text) (Nat.lt_of_succ_lt_succ enough)]
      simp

theorem length_le_escaped (cs : List Char) : cs.length ≤ (cs.flatMap escapeChar).length := by
  induction cs with
  | nil => exact Nat.le_refl 0
  | cons c cs ih =>
    have some : 1 ≤ (escapeChar c).length := by
      unfold escapeChar
      repeat' split
      all_goals simp
    rw [List.flatMap_cons, List.length_append, List.length_cons]
    omega

theorem stringBody?_quoted (s : String) (rest : List Char) :
    stringBody? (s.toList.flatMap escapeChar ++ '"' :: rest) = some (some s, rest) := by
  have enough := length_le_escaped s.toList
  rw [stringBody?, stringTail?_quoted]
  · rw [List.reverse_nil, List.nil_append, String.ofList_toList]
  · rw [List.length_append]
    omega

end Strings

/-- No number goes on here. -/
def Ends (rest : List Char) : Prop :=
  ∀ c more, rest = c :: more → isDigit c = false ∧ c ≠ '.' ∧ c ≠ 'e' ∧ c ≠ 'E'

theorem ends_cons {c : Char} (rest : List Char)
    (other : isDigit c = false ∧ c ≠ '.' ∧ c ≠ 'e' ∧ c ≠ 'E') : Ends (c :: rest) := by
  intro d more same
  cases same
  exact other

theorem digitValue?_of_isDigit {c : Char} (digit : isDigit c = true) :
    digitValue? c = some (c.toNat - '0'.toNat) := by
  simp only [isDigit, Bool.and_eq_true, decide_eq_true_eq] at digit
  rw [digitValue?, if_pos digit]

theorem digitValue?_of_not {c : Char} (other : isDigit c = false) : digitValue? c = none := by
  rw [digitValue?, if_neg]
  intro digit
  simp [isDigit, digit.1, digit.2] at other

theorem takeDigits_of_digits {ds : List Char} (digits : ∀ c ∈ ds, isDigit c = true) {n : Nat}
    (fits : Nat.ofDigitChars 10 ds n < UInt64.size) {rest : List Char} (ends : Ends rest) :
    takeDigits n (ds ++ rest) = (Nat.ofDigitChars 10 ds n, rest) := by
  induction ds generalizing n with
  | nil =>
    cases rest with
    | nil => rfl
    | cons c more =>
      simp only [List.nil_append, takeDigits, digitValue?_of_not (ends c more rfl).1,
        Nat.ofDigitChars_nil]
  | cons c ds ih =>
    rw [Nat.ofDigitChars_cons] at fits ⊢
    have small : 10 * n + (c.toNat - '0'.toNat) < UInt64.size :=
      Nat.lt_of_le_of_lt (Text.le_ofDigitChars _ ds) fits
    simp only [List.cons_append, takeDigits, digitValue?_of_isDigit (digits c List.mem_cons_self),
      if_pos small]
    exact ih (fun d later => digits d (.tail c later)) fits

theorem unsigned?_digits (negative : Bool) {n : Nat} (fits : n < UInt64.size) {rest : List Char}
    (ends : Ends rest) :
    unsigned? negative (Nat.toDigits 10 n ++ rest) = some (some (whole negative n), rest) := by
  have digits : ∀ c ∈ Nat.toDigits 10 n, isDigit c = true :=
    fun c mem => Text.isAsciiDigit_of_mem_toDigits mem
  have taken := takeDigits_of_digits digits (n := 0) (by rwa [Nat.ofDigitChars_ten_toDigits]) ends
  rw [Nat.ofDigitChars_ten_toDigits] at taken
  have none_left : rest.takeWhile isDigit = [] ∧ rest.dropWhile isDigit = rest := by
    cases rest with
    | nil => exact ⟨rfl, rfl⟩
    | cons c more => simp [(ends c more rfl).1]
  cases written : Nat.toDigits 10 n with
  | nil => exact absurd written Nat.toDigits_ne_nil
  | cons c ds =>
    rw [written] at digits taken
    have leading : ¬ (c = '0' ∧ (ds ++ rest).head?.map isDigit = some true) := by
      rintro ⟨rfl, next⟩
      have zero : n = 0 := by
        rcases Nat.eq_zero_or_pos n with zero | positive
        · exact zero
        · exact absurd (congrArg List.head? written) (Text.head?_toDigits_ne_zero positive)
      subst zero
      rw [Nat.toDigits_zero] at written
      cases written
      cases rest with
      | nil => cases next
      | cons c more => simp [(ends c more rfl).1] at next
    rw [List.cons_append] at taken ⊢
    simp only [unsigned?, digits c List.mem_cons_self, Bool.not_true, Bool.false_eq_true, if_false,
      if_neg leading, taken, none_left, List.isEmpty_nil, if_true]
    split
    · exact absurd rfl (ends _ _ rfl).2.1
    · exact absurd rfl (ends _ _ rfl).2.2.1
    · exact absurd rfl (ends _ _ rfl).2.2.2
    · rfl

theorem number?_int {i : Int} (low : -2 ^ 63 ≤ i) (high : i < 2 ^ 64) {rest : List Char}
    (ends : Ends rest) : number? ((toString i).toList ++ rest) = some (some (.int i), rest) := by
  cases i with
  | ofNat n =>
    have fits : n < UInt64.size := by
      simp only [Int.ofNat_eq_natCast] at high
      unfold UInt64.size
      omega
    have written : (toString (Int.ofNat n)).toList = Nat.toDigits 10 n := by
      rw [Int.toString_eq_repr, Int.repr, Nat.toList_repr]
    rw [written, number?]
    · exact unsigned?_digits false fits ends
    · intro cs same
      have mem : '-' ∈ Nat.toDigits 10 n := by
        cases digits : Nat.toDigits 10 n with
        | nil => exact absurd digits Nat.toDigits_ne_nil
        | cons c ds =>
          rw [digits, List.cons_append] at same
          cases same
          exact List.mem_cons_self
      exact absurd (Text.isAsciiDigit_of_mem_toDigits mem) (by decide)
  | negSucc n =>
    have fits : n + 1 < UInt64.size := by
      unfold UInt64.size
      omega
    have written : (toString (Int.negSucc n)).toList = '-' :: Nat.toDigits 10 (n + 1) := by
      rw [Int.toString_eq_repr, Int.repr]
      simp
    have in_range : ¬ (n + 1 = 0 ∨ Int64.minValue.toInt.natAbs < n + 1) := by
      have least : Int64.minValue.toInt.natAbs = 2 ^ 63 := by decide
      omega
    rw [written, List.cons_append, number?, unsigned?_digits true fits ends, whole, if_pos rfl,
      if_neg in_range]
    rfl

mutual
/-- The numbers of a document are read as they are written. -/
def Legible : Json → Prop
  | .int i => -2 ^ 63 ≤ i ∧ i < 2 ^ 64
  | .float x => ∀ rest, Ends rest →
    number? ((exponential x).toList ++ rest) = some (some (.float x), rest)
  | .arr items => LegibleItems items
  | .obj members => LegibleMembers members
  | .null | .bool _ | .str _ => True

def LegibleItems : List Json → Prop
  | [] => True
  | j :: rest => Legible j ∧ LegibleItems rest

def LegibleMembers : List (String × Json) → Prop
  | [] => True
  | (_, j) :: rest => Legible j ∧ LegibleMembers rest
end

section Values
variable {cs rest space : List Char} {j : Json} {room fuel : Nat}

def Blank (space : List Char) : Prop := ∀ c ∈ space, isSpace c = true

theorem blank_gap (tight : Bool) (level : Nat) : Blank (gap tight level) := by
  intro c mem
  cases tight with
  | true => cases mem
  | false =>
    rcases List.mem_cons.1 mem with rfl | later
    · rfl
    · rw [(List.mem_replicate.1 later).2]
      rfl

theorem blank_colon (tight : Bool) : Blank (colon tight).tail := by
  intro c mem
  cases tight with
  | true => cases mem
  | false =>
    rw [List.mem_singleton.1 mem]
    rfl

theorem skipSpace_blank (blank : Blank space) (cs : List Char) :
    skipSpace (space ++ cs) = skipSpace cs := by
  induction space with
  | nil => rfl
  | cons c space ih =>
    have first : isSpace c = true := blank c List.mem_cons_self
    rw [List.cons_append, skipSpace, List.dropWhile_cons_of_pos first]
    exact ih fun d later => blank d (.tail c later)

theorem skipSpace_cons {c : Char} (visible : isSpace c = false) (cs : List Char) :
    skipSpace (c :: cs) = c :: cs := by
  rw [skipSpace, List.dropWhile_cons_of_neg (by simp [visible])]

theorem skipSpace_gap (tight : Bool) (level : Nat) {c : Char} (visible : isSpace c = false)
    (cs : List Char) : skipSpace (gap tight level ++ c :: cs) = c :: cs := by
  rw [skipSpace_blank (blank_gap tight level), skipSpace_cons visible]

theorem ends_gap (tight : Bool) (level : Nat) (ends : Ends rest) : Ends (gap tight level ++ rest) := by
  cases tight with
  | true => exact ends
  | false => exact ends_cons _ (by decide)

theorem number?_head {c : Char} (read : number? (c :: cs) = some (some j, rest)) :
    c = '-' ∨ isDigit c = true := by
  by_cases minus : c = '-'
  · exact .inl minus
  · right
    cases digit : isDigit c with
    | true => rfl
    | false =>
      rw [number?] at read
      · simp [unsigned?, digit] at read
      · intro more same
        cases same
        exact minus rfl

theorem literal?_number (read : number? cs = some (some j, rest)) :
    literal? cs = some (.scalar j, rest) := by
  unfold literal?
  split
  · exact absurd (number?_head read) (by decide)
  · exact absurd (number?_head read) (by decide)
  · exact absurd (number?_head read) (by decide)
  · exact absurd (number?_head read) (by decide)
  · rw [read]
    rfl

theorem literal?_head {c : Char} {r : RawJson} (read : literal? (c :: cs) = some (r, rest)) :
    isSpace c = false ∧ c ≠ '[' ∧ c ≠ '\x7b' := by
  have none_of : ∀ d ∈ [' ', '\t', '\n', '\r', '[', '\x7b'], literal? (d :: cs) = none := by
    intro d mem
    simp only [List.mem_cons, List.not_mem_nil, or_false] at mem
    rcases mem with rfl | rfl | rfl | rfl | rfl | rfl <;> rfl
  have other : c ∉ [' ', '\t', '\n', '\r', '[', '\x7b'] := by
    intro mem
    rw [none_of c mem] at read
    cases read
  simp only [List.mem_cons, List.not_mem_nil, or_false, not_or] at other
  simp [isSpace, other]

theorem value?_literal (read : literal? cs = some (.scalar j, rest)) (blank : Blank space) :
    value? room (fuel + 1) (space ++ cs) = some (.scalar j, rest) := by
  cases cs with
  | nil => cases read
  | cons c more =>
    obtain ⟨visible, no_list, no_map⟩ := literal?_head read
    rw [value?, skipSpace_blank blank, skipSpace_cons visible]
    split
    · rename_i same
      cases same
      exact absurd rfl no_list
    · rename_i same
      cases same
      exact absurd rfl no_map
    · exact read

theorem value?_list (blank : Blank space) : value? room (fuel + 1) (space ++ '[' :: cs) =
    match skipSpace cs with
    | ']' :: rest => some (within room (.arr []), rest)
    | _ => itemsTail? room [] fuel cs := by
  rw [value?, skipSpace_blank blank, skipSpace_cons rfl]
  rfl

theorem value?_map (blank : Blank space) : value? room (fuel + 1) (space ++ '\x7b' :: cs) =
    match skipSpace cs with
    | '\x7d' :: rest => some (within room (.obj []), rest)
    | _ => membersTail? room [] fuel cs := by
  rw [value?, skipSpace_blank blank, skipSpace_cons rfl]
  rfl

theorem itemsTail?_head {before : List RawJson} {p : RawJson × List Char}
    (read : itemsTail? room before fuel cs = some p) (more : List Char) :
    skipSpace cs ≠ ']' :: more := by
  intro closed
  cases fuel with
  | zero => cases read
  | succ fuel =>
    have nothing : value? (room - 1) fuel cs = none := by
      cases fuel with
      | zero => rfl
      | succ fuel =>
        rw [value?, closed]
        rfl
    rw [itemsTail?, nothing] at read
    cases read

theorem membersTail?_head {before : List (Option String × RawJson)} {p : RawJson × List Char}
    (read : membersTail? room before fuel cs = some p) (more : List Char) :
    skipSpace cs ≠ '\x7d' :: more := by
  intro closed
  cases fuel with
  | zero => cases read
  | succ fuel =>
    rw [membersTail?, closed] at read
    cases read

end Values

mutual
/-- What is left of a document where so many containers may open: those beyond are unreadable. -/
def cut (room : Nat) : Json → RawJson
  | .arr items => within room (.arr (cutItems (room - 1) items))
  | .obj members => within room (.obj (cutMembers (room - 1) members))
  | j => .scalar j

def cutItems (room : Nat) : List Json → List RawJson
  | [] => []
  | j :: rest => cut room j :: cutItems room rest

def cutMembers (room : Nat) : List (String × Json) → List (Option String × RawJson)
  | [] => []
  | (name, j) :: rest => (some name, cut room j) :: cutMembers room rest
end

mutual
theorem cut_of_depth : ∀ (j : Json) {room : Nat}, depth j ≤ room → cut room j = ofJson j
  | .null, _, _ | .bool _, _, _ | .int _, _, _ | .float _, _, _ | .str _, _, _ => rfl
  | .arr items, room, shallow => by
    rw [depth] at shallow
    have deep : room ≠ 0 := by omega
    rw [cut, cutItems_of_depth items (by omega), within, if_neg deep, ofJson]
  | .obj members, room, shallow => by
    rw [depth] at shallow
    have deep : room ≠ 0 := by omega
    rw [cut, cutMembers_of_depth members (by omega), within, if_neg deep, ofJson]

theorem cutItems_of_depth : ∀ (items : List Json) {room : Nat}, listDepth items ≤ room →
    cutItems room items = itemsOfJson items
  | [], _, _ => rfl
  | j :: rest, room, shallow => by
    rw [listDepth] at shallow
    rw [cutItems, cut_of_depth j (by omega), cutItems_of_depth rest (by omega), itemsOfJson]

theorem cutMembers_of_depth : ∀ (members : List (String × Json)) {room : Nat},
    memberDepth members ≤ room → cutMembers room members = membersOfJson members
  | [], _, _ => rfl
  | (name, j) :: rest, room, shallow => by
    rw [memberDepth] at shallow
    rw [cutMembers, cut_of_depth j (by omega), cutMembers_of_depth rest (by omega), membersOfJson]
end

mutual
theorem value?_chars (tight : Bool) (level : Nat) : ∀ j : Json, Legible j →
    ∀ (room fuel : Nat) (space rest : List Char),
    2 * (chars tight level j).length < fuel → Blank space → Ends rest →
    value? room fuel (space ++ (chars tight level j ++ rest)) = some (cut room j, rest)
  | .null, _, room, fuel + 1, space, rest, _, blank, _ => value?_literal (j := .null) rfl blank
  | .bool true, _, room, fuel + 1, space, rest, _, blank, _ =>
    value?_literal (j := .bool true) rfl blank
  | .bool false, _, room, fuel + 1, space, rest, _, blank, _ =>
    value?_literal (j := .bool false) rfl blank
  | .int i, range, room, fuel + 1, space, rest, _, blank, ends =>
    value?_literal (literal?_number (number?_int range.1 range.2 ends)) blank
  | .float x, legible, room, fuel + 1, space, rest, _, blank, ends =>
    value?_literal (literal?_number (legible rest ends)) blank
  | .str s, _, room, fuel + 1, space, rest, _, blank, _ => by
    have read : literal? (chars tight level (.str s) ++ rest) = some (.scalar (.str s), rest) := by
      have body := stringBody?_quoted s rest
      simp only [chars, quoted, List.cons_append, List.append_assoc, List.nil_append, literal?,
        body, Option.map_some, ofScalar?]
    exact value?_literal read blank
  | .arr [], _, room, fuel + 1, space, rest, _, blank, _ => by
    rw [chars, List.cons_append, value?_list blank, List.singleton_append, skipSpace_cons rfl]
    simp only [cut, cutItems]
  | .arr (j :: items), legible, room, fuel + 1, space, rest, enough, blank, _ => by
    simp only [chars, List.length_cons, List.length_append] at enough
    have read := itemsTail?_chars tight (level + 1) (j :: items) (List.cons_ne_nil j items) legible
      room fuel [] rest (by omega)
    have written : chars tight level (.arr (j :: items)) ++ rest =
        '[' :: (charsOfItems tight (level + 1) (j :: items) ++ (gap tight level ++ ']' :: rest)) := by
      simp [chars]
    rw [written, value?_list blank]
    split
    · rename_i closed
      exact absurd closed (itemsTail?_head read _)
    · exact read
  | .obj [], _, room, fuel + 1, space, rest, _, blank, _ => by
    rw [chars, List.cons_append, value?_map blank, List.singleton_append, skipSpace_cons rfl]
    simp only [cut, cutMembers]
  | .obj (e :: members), legible, room, fuel + 1, space, rest, enough, blank, _ => by
    simp only [chars, List.length_cons, List.length_append] at enough
    have read := membersTail?_chars tight (level + 1) (e :: members) (List.cons_ne_nil e members)
      legible room fuel [] rest (by omega)
    have written : chars tight level (.obj (e :: members)) ++ rest =
        '\x7b' :: (charsOfMembers tight (level + 1) (e :: members) ++
          (gap tight level ++ '\x7d' :: rest)) := by
      simp [chars]
    rw [written, value?_map blank]
    split
    · rename_i closed
      exact absurd closed (membersTail?_head read _)
    · exact read

theorem itemsTail?_chars (tight : Bool) (level : Nat) : ∀ items : List Json, items ≠ [] →
    LegibleItems items → ∀ (room fuel : Nat) (before : List RawJson) (rest : List Char),
    2 * (charsOfItems tight level items).length + 1 < fuel →
    itemsTail? room before fuel
        (charsOfItems tight level items ++ (gap tight (level - 1) ++ ']' :: rest)) =
      some (within room (.arr (before.reverse ++ cutItems (room - 1) items)), rest)
  | [], nonempty, _, _, _, _, _, _ => absurd rfl nonempty
  | [j], _, legible, room, fuel + 1, before, rest, enough => by
    simp only [charsOfItems, List.length_append] at enough
    have read := value?_chars tight level j legible.1 (room - 1) fuel _
      (gap tight (level - 1) ++ ']' :: rest) (by omega) (blank_gap tight level)
      (ends_gap tight _ (ends_cons _ (by decide)))
    rw [itemsTail?, charsOfItems, List.append_assoc, read]
    simp only [skipSpace_gap tight (level - 1) (c := ']') rfl, List.reverse_cons, cutItems]
  | j :: k :: items, _, legible, room, fuel + 1, before, rest, enough => by
    simp only [charsOfItems, List.length_append, List.length_cons] at enough
    have read := value?_chars tight level j legible.1 (room - 1) fuel _
      (',' :: (charsOfItems tight level (k :: items) ++ (gap tight (level - 1) ++ ']' :: rest)))
      (by omega) (blank_gap tight level) (ends_cons _ (by decide))
    have more := itemsTail?_chars tight level (k :: items) (List.cons_ne_nil k items) legible.2
      room fuel (cut (room - 1) j :: before) rest (by omega)
    rw [itemsTail?, charsOfItems, List.append_assoc, List.append_assoc, List.cons_append, read]
    · simp only [skipSpace_cons (c := ',') rfl, more, List.reverse_cons, List.append_assoc,
        List.singleton_append, cutItems]
    · exact List.cons_ne_nil k items

theorem membersTail?_chars (tight : Bool) (level : Nat) : ∀ members : List (String × Json),
    members ≠ [] → LegibleMembers members →
    ∀ (room fuel : Nat) (before : List (Option String × RawJson)) (rest : List Char),
    2 * (charsOfMembers tight level members).length + 1 < fuel →
    membersTail? room before fuel
        (charsOfMembers tight level members ++ (gap tight (level - 1) ++ '\x7d' :: rest)) =
      some (within room (.obj (before.reverse ++ cutMembers (room - 1) members)), rest)
  | [], nonempty, _, _, _, _, _, _ => absurd rfl nonempty
  | [(k, j)], _, legible, room, fuel + 1, before, rest, enough => by
    simp only [charsOfMembers, List.length_append] at enough
    have read := value?_chars tight level j legible.1 (room - 1) fuel _
      (gap tight (level - 1) ++ '\x7d' :: rest) (by omega)
      (blank_colon tight) (ends_gap tight _ (ends_cons _ (by decide)))
    have written : charsOfMembers tight level [(k, j)] ++ (gap tight (level - 1) ++ '\x7d' :: rest) =
        gap tight level ++ '"' :: (k.toList.flatMap escapeChar ++ '"' :: (':' ::
          ((colon tight).tail ++ (chars tight level j ++ (gap tight (level - 1) ++ '\x7d' :: rest))))) := by
      cases tight <;> simp [charsOfMembers, quoted, colon]
    rw [written, membersTail?, skipSpace_gap tight level rfl]
    simp only [stringBody?_quoted, skipSpace_cons (c := ':') rfl, read,
      skipSpace_gap tight (level - 1) (c := '\x7d') rfl, List.reverse_cons,
      cutMembers]
  | (k, j) :: e :: members, _, legible, room, fuel + 1, before, rest, enough => by
    simp only [charsOfMembers, List.length_append, List.length_cons] at enough
    have read := value?_chars tight level j legible.1 (room - 1) fuel _
      (',' :: (charsOfMembers tight level (e :: members) ++
        (gap tight (level - 1) ++ '\x7d' :: rest)))
      (by omega) (blank_colon tight) (ends_cons _ (by decide))
    have more := membersTail?_chars tight level (e :: members) (List.cons_ne_nil e members) legible.2
      room fuel ((some k, cut (room - 1) j) :: before) rest (by omega)
    have written : charsOfMembers tight level ((k, j) :: e :: members) ++
        (gap tight (level - 1) ++ '\x7d' :: rest) =
        gap tight level ++ '"' :: (k.toList.flatMap escapeChar ++ '"' :: (':' ::
          ((colon tight).tail ++ (chars tight level j ++ (',' ::
            (charsOfMembers tight level (e :: members) ++
              (gap tight (level - 1) ++ '\x7d' :: rest))))))) := by
      cases tight <;> simp [charsOfMembers, quoted, colon]
    rw [written, membersTail?, skipSpace_gap tight level rfl]
    simp only [stringBody?_quoted, skipSpace_cons (c := ':') rfl, read,
      skipSpace_cons (c := ',') rfl, more, List.reverse_cons, List.append_assoc,
      List.singleton_append, cutMembers]
end

theorem parse?_of_chars (tight : Bool) (level : Nat) {text : String} {j : Json} (legible : j.Legible)
    (written : text.toList = chars tight level j) :
    RawJson.parse? text = some (cut deepest j) := by
  have read := value?_chars tight level j legible deepest _ [] []
    (Nat.lt_succ_of_lt (Nat.lt_succ_self _)) (fun _ none => nomatch none)
    (fun _ _ none => nomatch none)
  rw [List.nil_append, List.append_nil] at read
  rw [RawJson.parse?, written]
  simp only [read]
  rfl

theorem parse?_compress {j : Json} (legible : j.Legible) (shallow : j.depth ≤ deepest) :
    RawJson.parse? j.compress = some (ofJson j) := by
  rw [parse?_of_chars true 0 legible (toList_compress 0 j), cut_of_depth j shallow]

/-- What lies too deep cannot be read. -/
theorem parse?_pretty_cut {j : Json} (legible : j.Legible) (level : Nat) :
    RawJson.parse? (j.pretty level) = some (cut deepest j) :=
  parse?_of_chars false level legible (toList_pretty level j)

theorem parse?_pretty {j : Json} (legible : j.Legible) (shallow : j.depth ≤ deepest) (level : Nat) :
    RawJson.parse? (j.pretty level) = some (ofJson j) := by
  rw [parse?_pretty_cut legible, cut_of_depth j shallow]

end Playbook.Json
