/- Whole numbers that fit in a signed word of 64 bits. -/
namespace Playbook.Word

def ofInt? (i : Int) : Option Int64 :=
  if Int64.minValue.toInt ≤ i ∧ i ≤ Int64.maxValue.toInt then some (Int64.ofInt i) else none

/-- The double nearest to a word; of two that are equally near, the one with the even mantissa. -/
def toFloat (i : Int64) : Float :=
  let x := (UInt64.ofNat i.toInt.natAbs).toFloat
  if i.toInt < 0 then -x else x

end Playbook.Word
