import Mathlib
import Playbook.Word

/- The double nearest to a whole number of 64 bits. Doubles have 53 significant bits, so between two
   powers of 2 they stand in even steps; a number between two of them goes to the nearer one, and one
   halfway to the one of even significand. -/
namespace Playbook.Word
open Float.Model Float.Model.UnpackedFloat

/-- The number of steps that comes nearest to `n`, the even one of two that are equally near. -/
def halfEven (n step : Nat) : Nat :=
  let below := n / step
  let beyond := n % step
  if step < beyond * 2 ∨ step = beyond * 2 ∧ below % 2 = 1 then below + 1 else below

/-- The step from one double to the next around `n`, but no less than 1. -/
def spacing (n : Nat) : Nat := 2 ^ (n.log2 - 52)

def nearest (n : Nat) : Nat := halfEven n (spacing n) * spacing n

def nearestInt (i : Int) : Int := i.sign * nearest i.natAbs

theorem halfEven_one (n : Nat) : halfEven n 1 = n := by simp [halfEven, Nat.mod_one]

theorem le_halfEven (n step : Nat) : n / step ≤ halfEven n step := by
  unfold halfEven
  dsimp only
  split <;> omega

theorem halfEven_le (n step : Nat) : halfEven n step ≤ n / step + 1 := by
  unfold halfEven
  dsimp only
  split <;> omega

theorem spacing_of_lt {n : Nat} (small : n < 2 ^ 53) : spacing n = 1 := by
  unfold spacing
  by_cases zero : n = 0
  · subst zero
    rfl
  · have : n.log2 < 53 := (Nat.log2_lt zero).2 small
    rw [show n.log2 - 52 = 0 by omega, Nat.pow_zero]

theorem nearest_of_le {n : Nat} (small : n ≤ 2 ^ 53) : nearest n = n := by
  obtain below | rfl := Nat.lt_or_eq_of_le small
  · rw [nearest, spacing_of_lt below, halfEven_one, Nat.mul_one]
  · decide +kernel

theorem nearest_pos {n : Nat} (pos : 0 < n) : 0 < nearest n := by
  have low : spacing n ≤ 2 ^ n.log2 := Nat.pow_le_pow_right (by decide) (Nat.sub_le ..)
  have some : 0 < n / spacing n :=
    Nat.div_pos (Nat.le_trans low (Nat.log2_self_le (by omega))) (Nat.two_pow_pos _)
  exact Nat.mul_pos (Nat.lt_of_lt_of_le some (le_halfEven ..)) (Nat.two_pow_pos _)

theorem nearestInt_natCast (n : Nat) : nearestInt n = nearest n := by
  rw [nearestInt, Int.natAbs_natCast]
  cases n with
  | zero => rfl
  | succ n => exact Int.one_mul _

theorem nearestInt_neg (i : Int) : nearestInt (-i) = -nearestInt i := by
  rw [nearestInt, Int.sign_neg, Int.natAbs_neg, Int.neg_mul, nearestInt]

theorem nearestInt_of_le {i : Int} (small : i.natAbs ≤ 2 ^ 53) : nearestInt i = i := by
  rw [nearestInt, nearest_of_le small, Int.sign_mul_natAbs]

/-- What is left of a number when its last `k + 1` bits are dropped: the first of these, and whether
    there is anything in the others. -/
theorem shiftRight_succ (n k : Nat) :
    (⟨n, false, false⟩ : ExtendedMantissa) >>> (k + 1) =
      ⟨n / 2 ^ (k + 1), n / 2 ^ k % 2 != 0, n % 2 ^ k != 0⟩ := by
  induction k with
  | zero =>
    simp [HShiftRight.hShiftRight, Nat.repeat, ExtendedMantissa.shiftRightOne, Nat.mod_one]
  | succ k ih =>
    have split : n % 2 ^ (k + 1) = 2 ^ k * (n / 2 ^ k % 2) + n % 2 ^ k := by
      rw [Nat.pow_succ, Nat.mod_mul]
      omega
    have pos := Nat.two_pow_pos k
    change ((⟨n, false, false⟩ : ExtendedMantissa) >>> (k + 1)).shiftRightOne = _
    rw [ih]
    simp only [ExtendedMantissa.shiftRightOne, ExtendedMantissa.mk.injEq, true_and]
    refine ⟨by rw [Nat.div_div_eq_div_mul, ← Nat.pow_succ], ?_⟩
    rw [split]
    obtain even | odd : n / 2 ^ k % 2 = 0 ∨ n / 2 ^ k % 2 = 1 := by omega
    · simp [even]
    · simp [odd]

theorem roundedMantissa_eq (q : Nat) (half more : Bool) :
    (⟨q, half, more⟩ : ExtendedMantissa).roundedMantissa =
      if half = true ∧ (more = true ∨ q % 2 = 1) then q + 1 else q := by
  cases half <;> cases more <;>
    simp [ExtendedMantissa.roundedMantissa, ExtendedMantissa.accuracy, Accuracy.roundToNearestEven]
  split <;> omega

theorem roundedMantissa_shiftRight (n k : Nat) :
    ((⟨n, false, false⟩ : ExtendedMantissa) >>> k).roundedMantissa = halfEven n (2 ^ k) := by
  cases k with
  | zero =>
    rw [Nat.pow_zero, halfEven_one]
    rfl
  | succ k =>
    have beyond : n % 2 ^ (k + 1) = 2 ^ k * (n / 2 ^ k % 2) + n % 2 ^ k := by
      rw [Nat.pow_succ, Nat.mod_mul]
      omega
    have less := Nat.mod_lt n (Nat.two_pow_pos k)
    have double := Nat.pow_succ 2 k
    rw [shiftRight_succ, roundedMantissa_eq, halfEven]
    congr 1
    simp only [bne_iff_ne, ne_eq, eq_iff_iff]
    obtain even | odd : n / 2 ^ k % 2 = 0 ∨ n / 2 ^ k % 2 = 1 := by omega
    · simp only [even, Nat.mul_zero, Nat.zero_add] at beyond
      omega
    · simp only [odd, Nat.mul_one] at beyond
      omega

theorem shiftToTargetExponent_eq {m : Nat} {e : Int} (large : -1022 ≤ m.log2 + e) :
    shiftToTargetExponent Format.binary64 m e .exact =
      ((⟨m, false, false⟩ : ExtendedMantissa) >>> (m.log2 - 52), e + (m.log2 - 52 : Nat)) := by
  have target : Format.binary64.targetExponent (totalExponent m e) = m.log2 + e - 52 := by
    simp only [Format.targetExponent, totalExponent, Format.mantissaBits, Format.minExponent]
    omega
  have amount : (m.log2 + e - 52 - e).toNat = m.log2 - 52 := by omega
  simp only [shiftToTargetExponent, target, shiftToExponent, amount,
    ExtendedMantissa.ofMantissaAndAccuracy]

theorem halfEven_bounds {m : Nat} (normal : 52 ≤ m.log2) :
    2 ^ 52 ≤ halfEven m (spacing m) ∧ halfEven m (spacing m) ≤ 2 ^ 53 := by
  have pos : 0 < spacing m := Nat.two_pow_pos _
  have low : 2 ^ 52 * spacing m ≤ m := by
    rw [spacing, ← Nat.pow_add, show 52 + (m.log2 - 52) = m.log2 by omega]
    exact Nat.log2_self_le (by rintro rfl; simp at normal)
  have high : m < 2 ^ 53 * spacing m := by
    rw [spacing, ← Nat.pow_add, show 53 + (m.log2 - 52) = m.log2 + 1 by omega]
    exact Nat.lt_log2_self
  have := le_halfEven m (spacing m)
  have := halfEven_le m (spacing m)
  have : 2 ^ 52 ≤ m / spacing m := (Nat.le_div_iff_mul_le pos).2 low
  have : m / spacing m < 2 ^ 53 := Nat.div_lt_of_lt_mul (by rwa [Nat.mul_comm])
  omega

theorem mantissa_shiftRight (n k : Nat) :
    ((⟨n, false, false⟩ : ExtendedMantissa) >>> k).mantissa = n / 2 ^ k := by
  cases k with
  | zero => exact (Nat.div_one n).symm
  | succ k => rw [shiftRight_succ]

/-- A significand of 53 bits or more is rounded to 53 bits; a carry into the 54th is shifted out. -/
theorem roundWithAccuracy_eq (s : Sign) {m : Nat} {e : Int} (normal : 52 ≤ m.log2)
    (large : -1022 ≤ e) :
    ∃ r c h, roundWithAccuracy Format.binary64 s m e .exact =
        .finite s r (e + (m.log2 - 52 : Nat) + (c : Nat)) h ∧
      r.log2 = 52 ∧ r * 2 ^ c = halfEven m (spacing m) ∧ c ≤ 1 := by
  obtain ⟨low, high⟩ := halfEven_bounds normal
  have rounded := roundedMantissa_shiftRight m (m.log2 - 52)
  rw [← spacing] at rounded
  generalize halfEven m (spacing m) = r at *
  have log : 52 ≤ r.log2 := (Nat.le_log2 (by omega)).2 low
  have exact_part : r / 2 ^ (r.log2 - 52) * 2 ^ (r.log2 - 52) = r ∧
      (r / 2 ^ (r.log2 - 52)).log2 = 52 ∧ r.log2 - 52 ≤ 1 := by
    obtain below | rfl := Nat.lt_or_eq_of_le high
    · have : r.log2 < 53 := (Nat.log2_lt (by omega)).2 below
      simp [show r.log2 - 52 = 0 by omega]
      omega
    · decide +kernel
  have pos : r / 2 ^ (r.log2 - 52) ≠ 0 := by
    intro zero
    simp [zero] at exact_part
  refine ⟨r / 2 ^ (r.log2 - 52), r.log2 - 52, Nat.pos_of_ne_zero pos, ?_, exact_part.2.1,
    exact_part.1, exact_part.2.2⟩
  unfold roundWithAccuracy
  simp only [shiftToTargetExponent_eq (show -1022 ≤ m.log2 + e by omega), rounded,
    shiftToTargetExponent_eq (show -1022 ≤ r.log2 + (e + (m.log2 - 52 : Nat)) by omega),
    mantissa_shiftRight, pos, dif_neg, not_false_eq_true]

/-- The significand and the exponent, counted from `2 ^ (-52)`, of the double nearest to `n`. -/
structure Significand (n m p : Nat) : Prop where
  log : m.log2 = 52
  exponent : p ≤ n.log2 + 1
  value : m * 2 ^ p = nearest n * 2 ^ 52

theorem log2_mul_two_pow {n : Nat} (pos : 0 < n) (k : Nat) : (n * 2 ^ k).log2 = n.log2 + k := by
  induction k with
  | zero => simp
  | succ k ih =>
    have : n * 2 ^ k ≠ 0 := Nat.ne_of_gt (Nat.mul_pos pos (Nat.two_pow_pos k))
    rw [Nat.pow_succ, ← Nat.mul_assoc, Nat.mul_comm _ 2, Nat.log2_two_mul this, ih, Nat.add_assoc]

theorem round_eq (s : Sign) {n : Nat} (pos : 0 < n) :
    ∃ m p h, UnpackedFloat.round Format.binary64 s n 0 = .finite s m ((p : Nat) - 52) h ∧
      Significand n m p := by
  have target : Format.binary64.targetExponent (totalExponent n 0) = n.log2 - 52 := by
    simp only [Format.targetExponent, totalExponent, Format.mantissaBits, Format.minExponent]
    omega
  have amount : (0 - ((n.log2 : Int) - 52)).toNat = 52 - n.log2 := by omega
  have log := log2_mul_two_pow pos (52 - n.log2)
  obtain ⟨r, c, h, rounded, r_log, value, small⟩ := roundWithAccuracy_eq s
    (m := n * 2 ^ (52 - n.log2)) (e := 0 - (52 - n.log2 : Nat)) (by omega) (by omega)
  refine ⟨r, n.log2 + c, h, ?_, r_log, by omega, ?_⟩
  · simp only [UnpackedFloat.round, target, decreaseExponent, amount, Nat.shiftLeft_eq, rounded]
    congr 1
    omega
  · rw [Nat.add_comm, Nat.pow_add, ← Nat.mul_assoc, value]
    have same : spacing (n * 2 ^ (52 - n.log2)) = spacing n := by
      rw [spacing, spacing, log, show n.log2 + (52 - n.log2) - 52 = n.log2 - 52 by omega]
    rw [same]
    obtain short | long := Nat.lt_or_ge n.log2 52
    · have one : spacing n = 1 := by rw [spacing, show n.log2 - 52 = 0 by omega, Nat.pow_zero]
      rw [nearest, one, halfEven_one, halfEven_one, Nat.mul_one, Nat.mul_assoc, ← Nat.pow_add,
        show 52 - n.log2 + n.log2 = 52 by omega]
    · rw [show 52 - n.log2 = 0 by omega, Nat.pow_zero, Nat.mul_one, nearest, Nat.mul_assoc,
        spacing, ← Nat.pow_add, show n.log2 - 52 + 52 = n.log2 by omega]

theorem Significand.pos {n m p : Nat} (near : Significand n m p) : 0 < m := by
  refine Nat.pos_of_ne_zero ?_
  rintro rfl
  exact absurd near.log (by decide)

theorem Significand.ext_iff {n m p n' m' p' : Nat} (near : Significand n m p)
    (near' : Significand n' m' p') : nearest n = nearest n' ↔ m = m' ∧ p = p' := by
  constructor
  · intro same
    have value : m * 2 ^ p = m' * 2 ^ p' := by rw [near.value, near'.value, same]
    have logs := congrArg Nat.log2 value
    rw [log2_mul_two_pow near.pos, log2_mul_two_pow near'.pos, near.log, near'.log] at logs
    obtain rfl : p = p' := by omega
    exact ⟨Nat.eq_of_mul_eq_mul_right (Nat.two_pow_pos p) value, rfl⟩
  · rintro ⟨rfl, rfl⟩
    exact Nat.eq_of_mul_eq_mul_right (Nat.two_pow_pos 52) (near.value.symm.trans near'.value)

theorem unpack_pack (s : Sign) {m p : Nat} (h : 0 < m) (log : m.log2 = 52) (small : p ≤ 1000) :
    (pack (.finite s m (p - 52) h)).unpack = .finite s m (p - 52) h := by
  have bias : ((p : Int) - 52 + Format.binary64.exponentBias + (52 : Nat)).toNat = p + 1023 := by
    simp only [Format.exponentBias]
    omega
  have packed : UnpackedFloat.pack Format.binary64 (.finite s m (p - 52) h) =
      packComponents Format.binary64 s (BitVec.ofNat 11 (p + 1023)) (BitVec.ofNat 52 m) := by
    have inside : ¬ 2 ^ 11 ≤ p + 1023 + 1 := by omega
    simp only [UnpackedFloat.pack, bias, inside, if_false, log, Format.mantissaBits, if_true]
  have exponent : (BitVec.ofNat 11 (p + 1023)).toNat = p + 1023 := by
    rw [BitVec.toNat_ofNat, Nat.mod_eq_of_lt (by omega)]
  have not_ones : BitVec.ofNat 11 (p + 1023) ≠ -1#11 := by
    intro same
    have : p + 1023 = 2047 := exponent.symm.trans (congrArg BitVec.toNat same)
    omega
  have not_zeros : BitVec.ofNat 11 (p + 1023) ≠ 0#11 := by
    intro same
    have : p + 1023 = 0 := exponent.symm.trans (congrArg BitVec.toNat same)
    omega
  have mantissa : (1#1 ++ BitVec.ofNat 52 m).toNat = m := by
    obtain ⟨low, high⟩ := (Nat.log2_eq_iff (Nat.ne_of_gt h)).1 log
    simp only [BitVec.toNat_append, BitVec.toNat_ofNat, Nat.shiftLeft_eq]
    rw [Nat.mul_comm, ← Nat.two_pow_add_eq_or_of_lt (Nat.mod_lt _ (Nat.two_pow_pos 52))]
    omega
  have unbiased :
      ((p + 1023 : Nat) : Int) - (Format.binary64.exponentBias + (52 : Nat)) = p - 52 := by
    simp only [Format.exponentBias]
    omega
  unfold Float.Model.unpack Float.Model.pack
  simp only [packed, UnpackedFloat.unpack, unpackExponent_packComponents,
    unpackMantissa_packComponents, unpackSign_packComponents, not_ones, not_zeros, if_false,
    Sign.ofBitVec_toBitVec, mantissa, exponent, unbiased]

inductive Rounded : Int → UnpackedFloat → Prop
  | zero : Rounded 0 (.zero .positive)
  | finite (s : Sign) {n m p : Nat} (pos : 0 < n) (near : Significand n m p) (h : 0 < m) :
    Rounded (s.apply n) (.finite s m (p - 52) h)

theorem Rounded.isNaN {i : Int} {x : UnpackedFloat} (rounded : Rounded i x) : x.isNaN = false := by
  cases rounded <;> rfl

theorem unpack_ofUInt64 {n : Nat} (pos : 0 < n) (fits : n < 2 ^ 64) :
    ∃ m p h, (UInt64.ofNat n).toFloat.toModel.unpack = .finite .positive m ((p : Nat) - 52) h ∧
      Significand n m p := by
  obtain ⟨m, p, h, rounded, near⟩ := round_eq .positive pos
  have small : n.log2 < 64 := (Nat.log2_lt (by omega)).2 fits
  have exponent := near.exponent
  have whole : (UInt64.ofNat n).toNat = n := by
    rw [UInt64.toNat_ofNat', Nat.mod_eq_of_lt fits]
  have gt : compare (n : Int) 0 = .gt := Int.compare_eq_gt.2 (by omega)
  refine ⟨m, p, h, ?_, near⟩
  rw [← unpack_pack .positive h near.log (by omega), ← rounded]
  simp only [UInt64.toFloat, Float.Model.ofUInt64, UnpackedFloat.ofUInt64, UnpackedFloat.ofNat,
    UnpackedFloat.ofInt, UnpackedFloat.normalize, whole, gt, Int.toNat_natCast]

theorem rounded_toFloat (i : Int64) : Rounded i.toInt (toFloat i).toModel.unpack := by
  have low := i.le_toInt
  have high := i.toInt_lt
  have fits : i.toInt.natAbs < 2 ^ 64 := by omega
  obtain zero | pos := Nat.eq_zero_or_pos i.toInt.natAbs
  · have zero : i.toInt = 0 := by omega
    have plain : (toFloat i).toModel.unpack = .zero .positive := by
      simp only [toFloat, zero]
      rfl
    rw [zero, plain]
    exact .zero
  · obtain ⟨m, p, h, unpacked, near⟩ := unpack_ofUInt64 pos fits
    have small : i.toInt.natAbs.log2 < 64 := (Nat.log2_lt (by omega)).2 fits
    have exponent := near.exponent
    by_cases negative : i.toInt < 0
    · have turned : (toFloat i).toModel.unpack = .finite .negative m ((p : Nat) - 52) h := by
        rw [← unpack_pack .negative h near.log (by omega)]
        simp only [toFloat, negative, if_true]
        change (pack (UnpackedFloat.neg _)).unpack = _
        rw [unpacked]
        rfl
      have sign : i.toInt = Sign.negative.apply i.toInt.natAbs := by
        simp only [Sign.apply]
        omega
      rw [turned, sign]
      exact .finite .negative pos near h
    · have plain : (toFloat i).toModel.unpack = .finite .positive m ((p : Nat) - 52) h := by
        simp only [toFloat, negative, if_false, unpacked]
      have sign : i.toInt = Sign.positive.apply i.toInt.natAbs := by
        simp only [Sign.apply]
        omega
      rw [plain, sign]
      exact .finite .positive pos near h

theorem nearestInt_apply (s : Sign) (n : Nat) : nearestInt (s.apply n) = s.apply (nearest n) := by
  cases s with
  | negative => simp only [Sign.apply, nearestInt_neg, nearestInt_natCast]
  | positive => exact nearestInt_natCast n

/-- Doubles of whole numbers compare as equal where the numbers round to the same. -/
theorem compare_eq_of_rounded {i j : Int} {x y : UnpackedFloat} (hx : Rounded i x)
    (hy : Rounded j y) : x.compare y = some .eq ↔ nearestInt i = nearestInt j := by
  cases hx with
  | zero =>
    cases hy with
    | zero => simp [UnpackedFloat.compare]
    | finite t pos near h =>
      have := nearest_pos pos
      rw [nearestInt_apply, show nearestInt 0 = 0 from rfl]
      cases t <;> simp [UnpackedFloat.compare, Sign.apply] <;> omega
  | finite s pos near h =>
    have := nearest_pos pos
    cases hy with
    | zero =>
      rw [nearestInt_apply, show nearestInt 0 = 0 from rfl]
      cases s <;> simp [UnpackedFloat.compare, Sign.apply] <;> omega
    | finite t pos' near' h' =>
      have := nearest_pos pos'
      have same := near.ext_iff near'
      rw [nearestInt_apply, nearestInt_apply]
      cases s <;> cases t <;> simp [UnpackedFloat.compare, Sign.apply] <;> omega

end Playbook.Word
