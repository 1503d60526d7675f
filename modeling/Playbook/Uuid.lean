/- Random ids in their usual writing: 32 hexadecimal digits in five groups, the version and the
   variant fixed, 122 bits free. -/
namespace Playbook.Uuid

def hex (width n : Nat) : String :=
  String.ofList ((List.range width).map fun i =>
    Nat.digitChar (n / Nat.pow 16 (width - 1 - i) % 16))

def ofBits (n : Nat) : String :=
  let node := n % Nat.pow 2 48
  let clock := n / Nat.pow 2 48 % Nat.pow 2 14
  let high := n / Nat.pow 2 62 % Nat.pow 2 12
  let middle := n / Nat.pow 2 74 % Nat.pow 2 16
  let low := n / Nat.pow 2 90 % Nat.pow 2 32
  hex 8 low ++ "-" ++ hex 4 middle ++ "-" ++ hex 4 (0x4000 + high) ++ "-" ++
    hex 4 (0x8000 + clock) ++ "-" ++ hex 12 node

def isLowerHex (c : Char) : Bool := ('0' ≤ c && c ≤ '9') || ('a' ≤ c && c ≤ 'f')

def fitsAt (i : Nat) (c : Char) : Bool :=
  if i = 8 ∨ i = 13 ∨ i = 18 ∨ i = 23 then c = '-'
  else if i = 14 then c = '4'
  else if i = 19 then c = '8' || c = '9' || c = 'a' || c = 'b'
  else isLowerHex c

def atStart? (cs : List Char) : Option String :=
  let id := cs.take 36
  if id.length = 36 && id.zipIdx.all (fun (c, i) => fitsAt i c) then some (String.ofList id)
  else none

/-- The text with the ids in it numbered in the order in which they first appear, those to be kept
    excepted. Of an id already dealt with, so many characters are still to be passed over. -/
def numberTail (keep : String → Bool) (known : List (String × Nat)) (passed : Nat) :
    List Char → List String
  | [] => []
  | c :: cs =>
    if 0 < passed then numberTail keep known (passed - 1) cs
    else match atStart? (c :: cs) with
      | none => String.singleton c :: numberTail keep known 0 cs
      | some id =>
        if keep id then id :: numberTail keep known 35 cs
        else
          let n := (known.lookup id).getD (known.length + 1)
          let known := if (known.lookup id).isSome then known else (id, n) :: known
          s!"<uuid:{n}>" :: numberTail keep known 35 cs

def number (keep : String → Bool) (text : String) : String :=
  String.join (numberTail keep [] 0 text.toList)

end Playbook.Uuid
