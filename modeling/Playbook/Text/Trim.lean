import Playbook.Text.CharClass

/- Text cut at its ends and into lines. -/
namespace Playbook.Text

def trimStart (cs : List Char) : List Char := cs.dropWhile isBlank

def trimEnd (cs : List Char) : List Char := (cs.reverse.dropWhile isBlank).reverse

def trim (cs : List Char) : List Char := trimEnd (trimStart cs)

def newlines (cs : List Char) : Nat := cs.count '\n'

def splitAt (sep : Char) : List Char → List (List Char)
  | [] => [[]]
  | c :: rest =>
    if c = sep then [] :: splitAt sep rest
    else match splitAt sep rest with
      | [] => [[c]]
      | piece :: more => (c :: piece) :: more

def lines (cs : List Char) : List (List Char) :=
  let pieces := splitAt '\n' cs
  let ended := pieces.dropLast.map fun line =>
    if line.getLast? = some '\r' then line.dropLast else line
  match pieces.getLast? with
  | some [] | none => ended
  | some open_ => ended ++ [open_]

def dropStart? : List Char → List Char → Option (List Char)
  | [], cs => some cs
  | _ :: _, [] => none
  | p :: ps, c :: cs => if p = c then dropStart? ps cs else none

def hasInside (needle : List Char) : List Char → Bool
  | [] => needle.isEmpty
  | c :: rest => (dropStart? needle (c :: rest)).isSome || hasInside needle rest

def splitLast? (needle : List Char) : List Char → Option (List Char × List Char)
  | [] => none
  | c :: rest =>
    match splitLast? needle rest with
    | some (before, after) => some (c :: before, after)
    | none => (dropStart? needle (c :: rest)).map ([], ·)

theorem dropStart?_eq_some_iff {start cs rest : List Char} :
    dropStart? start cs = some rest ↔ cs = start ++ rest := by
  induction start generalizing cs with
  | nil => simp [dropStart?, eq_comm]
  | cons p ps ih =>
    cases cs with
    | nil => simp [dropStart?]
    | cons c cs =>
      by_cases h : p = c
      · simp [dropStart?, h, ih]
      · simp [dropStart?, h, Ne.symm h]

end Playbook.Text
