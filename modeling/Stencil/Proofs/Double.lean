import Mathlib
import Stencil.Value.Order

/-! Integers as doubles. The double nearest to an integer has for its bits the place of the highest
binary digit and the 53 digits from there on, rounded half to even. So the nearest doubles of two
integers stand in the order of the integers, or are the same. -/

namespace Stencil.Double

open Float.Model Float.Model.UnpackedFloat

/-- `n / 2 ^ k`, rounded to a whole number, a half to the even one -/
def halfEven (n k : Nat) : Nat :=
  let rest := n % 2 ^ k
  if 2 * rest < 2 ^ k then n / 2 ^ k
  else if 2 * rest = 2 ^ k then n / 2 ^ k + n / 2 ^ k % 2
  else n / 2 ^ k + 1

theorem halfEven_bounds (n k : Nat) :
    n / 2 ^ k ≤ halfEven n k ∧ halfEven n k ≤ n / 2 ^ k + 1 := by
  grind [halfEven]

theorem halfEven_mul (n k : Nat) : halfEven (n * 2 ^ k) k = n := by
  have hk := Nat.two_pow_pos k
  simp [halfEven, Nat.mul_div_cancel n hk]

theorem halfEven_zero (n : Nat) : halfEven n 0 = n := by
  have h := halfEven_mul n 0
  rwa [Nat.pow_zero, Nat.mul_one] at h

theorem halfEven_mono {n n' : Nat} (h : n ≤ n') (k : Nat) : halfEven n k ≤ halfEven n' k := by
  have hq : n / 2 ^ k ≤ n' / 2 ^ k := Nat.div_le_div_right h
  rcases Nat.lt_or_eq_of_le hq with hq | hq
  · have h1 := halfEven_bounds n k
    have h2 := halfEven_bounds n' k
    omega
  · -- within one unit the remainders decide
    have hr : n % 2 ^ k ≤ n' % 2 ^ k := by
      have h1 := Nat.div_add_mod n (2 ^ k)
      have h2 := Nat.div_add_mod n' (2 ^ k)
      rw [← hq] at h2
      omega
    grind [halfEven]

theorem log2_mul_two_pow {n : Nat} (hn : n ≠ 0) (k : Nat) : (n * 2 ^ k).log2 = n.log2 + k := by
  obtain ⟨hlow, hhigh⟩ := (Nat.log2_eq_iff hn).1 rfl
  have hk := Nat.two_pow_pos k
  rw [Nat.log2_eq_iff (Nat.mul_ne_zero hn (Nat.ne_of_gt hk)), Nat.add_right_comm, Nat.pow_add,
    Nat.pow_add _ (n.log2 + 1)]
  exact ⟨Nat.mul_le_mul_right _ hlow, Nat.mul_lt_mul_of_pos_right hhigh hk⟩

/-- Without `k` of its binary digits a number of 53 digits more is left with 53 of them, or carries
over to the next power of two. -/
theorem halfEven_of_log2 {n k : Nat} (hn : n.log2 = 52 + k) :
    2 ^ 52 ≤ halfEven n k ∧ halfEven n k ≤ 2 ^ 53 := by
  have hn0 : n ≠ 0 := by
    rintro rfl
    rw [Nat.log2_zero] at hn
    omega
  obtain ⟨hlow, hhigh⟩ := (Nat.log2_eq_iff hn0).1 hn
  have hk := Nat.two_pow_pos k
  have hb := halfEven_bounds n k
  have hq : 2 ^ 52 ≤ n / 2 ^ k := by
    rw [Nat.le_div_iff_mul_le hk, ← Nat.pow_add]
    exact hlow
  have hq' : n / 2 ^ k < 2 ^ 53 := by
    rw [Nat.div_lt_iff_lt_mul hk, ← Nat.pow_add, show 53 + k = 52 + k + 1 by omega]
    exact hhigh
  omega

theorem shiftRight_succ (em : ExtendedMantissa) (k : Nat) :
    em >>> (k + 1) = (em >>> k).shiftRightOne := rfl

/-- Digits that are shifted out are told by the first of them and by whether all others are zero. -/
theorem shiftRight_exact (n k : Nat) :
    (⟨n, false, false⟩ : ExtendedMantissa) >>> (k + 1) =
      ⟨n / 2 ^ (k + 1), n / 2 ^ k % 2 != 0, n % 2 ^ k != 0⟩ := by
  induction k with
  | zero => simp [ExtendedMantissa.shiftRightOne, HShiftRight.hShiftRight, Nat.repeat, Nat.mod_one]
  | succ k ih =>
    have hd : n / 2 ^ (k + 1) / 2 = n / 2 ^ (k + 1 + 1) := by
      rw [Nat.div_div_eq_div_mul, ← Nat.pow_succ]
    rw [shiftRight_succ, ih, ExtendedMantissa.shiftRightOne, hd, Nat.mod_pow_succ]
    rcases Nat.mod_two_eq_zero_or_one (n / 2 ^ k) with h | h <;> simp [h]

theorem roundedMantissa_shiftRight (n k : Nat) :
    ((⟨n, false, false⟩ : ExtendedMantissa) >>> k).roundedMantissa = halfEven n k := by
  cases k with
  | zero => exact (halfEven_zero n).symm
  | succ k =>
    have hk := Nat.two_pow_pos k
    have hlt := Nat.mod_lt n hk
    rw [shiftRight_exact, halfEven, Nat.mod_pow_succ, ExtendedMantissa.roundedMantissa]
    -- below, at or above the half, by the first digit and the others
    rcases Nat.mod_two_eq_zero_or_one (n / 2 ^ k) with h | h <;>
      rcases Nat.eq_zero_or_pos (n % 2 ^ k) with h' | h' <;>
        simp [ExtendedMantissa.accuracy, Accuracy.roundToNearestEven, h, h', Nat.pow_succ] <;>
          grind

section

variable {n k : Nat} {e : Int}

theorem shiftToTargetExponent_eq (hn : n.log2 = 52 + k) (he : -1074 ≤ e + k) :
    shiftToTargetExponent .binary64 n e .exact =
      ((⟨n, false, false⟩ : ExtendedMantissa) >>> k, e + k) := by
  have ht : Format.binary64.targetExponent (totalExponent n e) = e + k := by
    simp [Format.targetExponent, totalExponent, Format.mantissaBits, Format.minExponent]
    omega
  have hk : (e + k - e).toNat = k := by omega
  rw [shiftToTargetExponent, ht, shiftToExponent, hk]
  rfl

theorem shiftToTargetExponent_of_log2 (hn : n.log2 = 52) (he : -1074 ≤ e) :
    shiftToTargetExponent .binary64 n e .exact = (⟨n, false, false⟩, e) := by
  rw [shiftToTargetExponent_eq (k := 0) hn (by omega)]
  simp [HShiftRight.hShiftRight, Nat.repeat]

theorem shiftToTargetExponent_carry (he : -1074 ≤ e) :
    shiftToTargetExponent .binary64 (2 ^ 53) e .exact = (⟨2 ^ 52, false, false⟩, e + 1) := by
  rw [shiftToTargetExponent_eq (k := 1) (by decide) (by omega)]
  rfl

/-- Rounding shifts, rounds, and shifts once more. -/
theorem roundWithAccuracy_eq (sign : Sign) {r m : Nat} {e' e'' : Int} {em : ExtendedMantissa}
    (h : shiftToTargetExponent .binary64 n e .exact = (em, e')) (hr : em.roundedMantissa = r)
    (h' : shiftToTargetExponent .binary64 r e' .exact = (⟨m, false, false⟩, e'')) (hm : 0 < m) :
    roundWithAccuracy .binary64 sign n e .exact = .finite sign m e'' hm := by
  rw [roundWithAccuracy]
  simp only [h, hr, h']
  exact dif_neg (Nat.ne_of_gt hm)

end

/-- A normal double, unpacked, with the number that its bits are without the sign. -/
inductive Normal (sign : Sign) : Nat → UnpackedFloat → Prop
  | mk (place fraction : Nat) (hp : 0 < place) (hp' : place < 2047) (hf : fraction < 2 ^ 52) :
    Normal sign (place * 2 ^ 52 + fraction)
      (.finite sign (2 ^ 52 + fraction) (place - 1075) (by omega))

namespace Normal

variable {sign : Sign} {bits : Nat} {u : UnpackedFloat}

theorem neg (h : Normal sign bits u) : Normal (-sign) bits u.neg := by
  cases h with
  | mk place fraction hp hp' hf => exact .mk place fraction hp hp' hf

theorem log2_significand {fraction : Nat} (hf : fraction < 2 ^ 52) :
    (2 ^ 52 + fraction).log2 = 52 := by
  rw [Nat.log2_eq_iff (by omega)]
  omega

theorem exists_components (h : Normal sign bits u) :
    ∃ place fraction : Nat, 0 < place ∧ place < 2047 ∧ fraction < 2 ^ 52 ∧
      bits = place * 2 ^ 52 + fraction ∧
      (∃ hm, u = .finite sign (2 ^ 52 + fraction) (place - 1075) hm) ∧
      (Float.Model.pack u).toBits = .ofBitVec (packComponents .binary64 sign (BitVec.ofNat 11 place)
        (BitVec.ofNat 52 fraction)) := by
  cases h with
  | mk place fraction hp hp' hf =>
    refine ⟨place, fraction, hp, hp', hf, rfl, ⟨_, rfl⟩, ?_⟩
    have he : ((place : Int) - 1075 + Format.binary64.exponentBias +
        Format.binary64.mantissaBitsWithoutImplicit).toNat = place := by
      simp [Format.exponentBias]
      omega
    have hm : BitVec.ofNat 52 (2 ^ 52 + fraction) = BitVec.ofNat 52 fraction := by
      apply BitVec.eq_of_toNat_eq
      simp
    simp only [Float.Model.pack, UnpackedFloat.pack, he, log2_significand hf]
    rw [if_neg (by simp; omega), if_pos (by simp [Format.mantissaBits]), hm]

theorem unpack_pack (h : Normal sign bits u) : (Float.Model.pack u).unpack = u := by
  obtain ⟨place, fraction, hp, hp', hf, -, ⟨_, rfl⟩, hb⟩ := h.exists_components
  have hnat : (BitVec.ofNat 11 place).toNat = place := by
    rw [BitVec.toNat_ofNat]
    omega
  have h1 : BitVec.ofNat 11 place ≠ -1#11 := fun he => by
    rw [he] at hnat
    exact absurd hnat (Nat.ne_of_gt hp')
  have h0 : BitVec.ofNat 11 place ≠ 0#11 := fun he => by
    rw [he, BitVec.toNat_ofNat] at hnat
    omega
  have hm : (1#1 ++ BitVec.ofNat 52 fraction).toNat = 2 ^ 52 + fraction := by
    rw [BitVec.toNat_append, ← Nat.shiftLeft_add_eq_or_of_lt (BitVec.isLt _),
      BitVec.toNat_ofNat fraction, Nat.mod_eq_of_lt hf]
    rfl
  have he : (place : Int) - (Format.binary64.exponentBias +
      Format.binary64.mantissaBitsWithoutImplicit) = place - 1075 := by
    simp [Format.exponentBias]
  rw [Float.Model.unpack, hb, UnpackedFloat.unpack]
  simp only [unpackMantissa_packComponents, unpackExponent_packComponents,
    unpackSign_packComponents, Sign.ofBitVec_toBitVec]
  rw [if_neg h1, if_neg h0]
  simp only [hm, hnat, he]

theorem toNat_toBits_pack (h : Normal sign bits u) :
    (Float.Model.pack u).toBits.toNat = sign.toBitVec.toNat * 2 ^ 63 + bits := by
  obtain ⟨place, fraction, hp, hp', hf, rfl, -, hb⟩ := h.exists_components
  rw [hb, UInt64.toNat_ofBitVec, packComponents, BitVec.toNat_append, BitVec.toNat_append,
    ← Nat.shiftLeft_add_eq_or_of_lt (BitVec.isLt _),
    ← Nat.shiftLeft_add_eq_or_of_lt (BitVec.isLt _)]
  simp [Nat.shiftLeft_eq]
  omega

end Normal

/-- A number of more than 52 binary digits rounds to a normal double. If rounding carries over, its
place is one higher, and the bits still are the sum of what they consist of. -/
theorem normal_round (sign : Sign) {n k p : Nat} {e : Int} (hn : n.log2 = 52 + k) (hp : p < 2045)
    (he : e + k = p - 1074) :
    Normal sign (p * 2 ^ 52 + halfEven n k) (roundWithAccuracy .binary64 sign n e .exact) := by
  have hb := halfEven_of_log2 hn
  have hr := roundedMantissa_shiftRight n k
  have h := shiftToTargetExponent_eq (e := e) hn (by omega)
  rw [he] at h
  rcases Nat.lt_or_ge (halfEven n k) (2 ^ 53) with hlt | hge
  · obtain ⟨fraction, hf⟩ := Nat.exists_eq_add_of_le hb.1
    rw [show (p : Int) - 1074 = (p + 1 : Nat) - 1075 by omega] at h
    have h' := shiftToTargetExponent_of_log2 (e := (p + 1 : Nat) - 1075)
      (Normal.log2_significand (show fraction < 2 ^ 52 by omega)) (by omega)
    rw [roundWithAccuracy_eq sign h (hr.trans hf) h' (by omega), hf,
      show p * 2 ^ 52 + (2 ^ 52 + fraction) = (p + 1) * 2 ^ 52 + fraction by omega]
    exact .mk (p + 1) fraction (by omega) (by omega) (by omega)
  · have hf : halfEven n k = 2 ^ 53 := by omega
    have h' := shiftToTargetExponent_carry (e := p - 1074) (by omega)
    rw [show (p : Int) - 1074 + 1 = (p + 2 : Nat) - 1075 by omega] at h'
    rw [roundWithAccuracy_eq sign h (hr.trans hf) h' (by decide), hf,
      show p * 2 ^ 52 + 2 ^ 53 = (p + 2) * 2 ^ 52 + 0 by omega]
    exact .mk (p + 2) 0 (by omega) (by omega) (by decide)

theorem Normal.mul_one {bits : Nat} {u : UnpackedFloat} (h : Normal .positive bits u)
    (hb : bits < 2046 * 2 ^ 52) :
    Normal .positive bits
      (UnpackedFloat.mul .binary64 u (.finite .positive (2 ^ 52) (-52) (by decide))) := by
  cases h with
  | mk place fraction hp hp' hf =>
    have hlog : ((2 ^ 52 + fraction) * 2 ^ 52).log2 = 52 + 52 := by
      rw [log2_mul_two_pow (by omega), Normal.log2_significand hf]
    have hN := normal_round .positive (p := place - 1) (e := place - 1075 + -52) hlog (by omega)
      (by omega)
    rw [halfEven_mul,
      show (place - 1) * 2 ^ 52 + (2 ^ 52 + fraction) = place * 2 ^ 52 + fraction by omega] at hN
    exact hN

/-- the bits of the double nearest to a natural number -/
def bitsOf (n : Nat) : Nat :=
  if n = 0 then 0 else (n.log2 + 1022) * 2 ^ 52 + halfEven (n * 2 ^ 53) (n.log2 + 1)

section

variable {n : Nat} (hn : n ≠ 0)
include hn

theorem bitsOf_eq : bitsOf n = (n.log2 + 1022) * 2 ^ 52 + halfEven (n * 2 ^ 53) (n.log2 + 1) :=
  if_neg hn

theorem log2_widened : (n * 2 ^ 53).log2 = 52 + (n.log2 + 1) := by
  rw [log2_mul_two_pow hn]
  omega

/-- with all binary digits up to the highest at least the bits of a power of two, and at most those
of the next one -/
theorem bitsOf_bounds :
    (n.log2 + 1023) * 2 ^ 52 ≤ bitsOf n ∧ bitsOf n ≤ (n.log2 + 1024) * 2 ^ 52 := by
  have hb := halfEven_of_log2 (k := n.log2 + 1) (log2_widened hn)
  have he := bitsOf_eq hn
  constructor <;> omega

theorem normal_ofInt (hl : n.log2 ≤ 52) :
    Normal .positive (bitsOf n) (UnpackedFloat.ofInt .binary64 n) := by
  have hc : compare (n : Int) 0 = .gt := by
    rw [Int.compare_eq_gt]
    omega
  have ht : Format.binary64.targetExponent (totalExponent n 0) = n.log2 - 52 := by
    simp [Format.targetExponent, totalExponent, Format.mantissaBits, Format.minExponent]
    omega
  have hk : ((0 : Int) - (n.log2 - 52)).toNat = 52 - n.log2 := by omega
  have hlog : (n * 2 ^ (52 - n.log2)).log2 = 52 + 0 := by
    rw [log2_mul_two_pow hn]
    omega
  have hp : n * 2 ^ 53 = n * 2 ^ (52 - n.log2) * 2 ^ (n.log2 + 1) := by
    rw [Nat.mul_assoc, ← Nat.pow_add, show 52 - n.log2 + (n.log2 + 1) = 53 by omega]
  have hN := normal_round .positive (p := n.log2 + 1022) (e := 0 - (52 - n.log2 : Nat)) hlog
    (by omega) (by omega)
  rw [halfEven_zero] at hN
  rw [bitsOf_eq hn, hp, halfEven_mul, UnpackedFloat.ofInt,
    UnpackedFloat.normalize, hc]
  simp only [UnpackedFloat.round, ht, decreaseExponent, hk, Int.toNat_natCast, Nat.shiftLeft_eq]
  exact hN

theorem exists_normal_ofNat (hl : n < 2 ^ 64) :
    ∃ u, Normal .positive (bitsOf n) u ∧ Float.ofNat n = .ofModel (Float.Model.pack u) := by
  have hlog := (Nat.log2_lt hn).2 hl
  by_cases hf : n < 2 ^ 53
  · have hlog' := (Nat.log2_lt hn).2 hf
    have hN := normal_ofInt hn (by omega)
    have hb := bitsOf_bounds hn
    refine ⟨_, hN.mul_one (by omega), ?_⟩
    -- a number of few digits is read as a product with a power of ten, which is one
    have hu : Float.ofNat n = n.toUInt64.toFloat * .ofBits 0x3FF0000000000000 := by
      change Float.ofScientific n false 0 = _
      rw [Float.ofScientific, dif_pos ⟨hf, by decide⟩]
      rfl
    have h1 : (Float.Model.ofBits 0x3FF0000000000000).unpack =
        .finite .positive (2 ^ 52) (-52) (by decide) := rfl
    have h2 : (Float.Model.ofUInt64 n.toUInt64).unpack = UnpackedFloat.ofInt .binary64 n := by
      have ht : n.toUInt64.toNat = n := Nat.mod_eq_of_lt hl
      rw [← hN.unpack_pack, Float.Model.ofUInt64, UnpackedFloat.ofUInt64, UnpackedFloat.ofNat, ht]
    rw [hu, ← h1, ← h2]
    rfl
  · have hd : (n * 2 ^ 53 * 1).log2 = 52 + (n.log2 + 1) := by
      rw [Nat.mul_one, log2_widened hn]
    have hN : Normal .positive (bitsOf n)
        (roundWithAccuracy .binary64 .positive (n * 2 ^ 53 * 1) (-53 + 0) .exact) := by
      rw [bitsOf_eq hn, ← congrArg (halfEven · (n.log2 + 1)) (Nat.mul_one (n * 2 ^ 53))]
      exact normal_round .positive hd (by omega) (by omega)
    refine ⟨_, hN, ?_⟩
    have hu : Float.ofNat n = .ofModel (Float.Model.ofScientific n 0) := by
      change Float.ofScientific n false 0 = _
      rw [Float.ofScientific, dif_neg fun h => hf h.1]
      rfl
    have hs : ¬ (0 : Int) < -(2 ^ 11 + n.log2) := by omega
    rw [hu, Float.Model.ofScientific, UnpackedFloat.ofScientific, dif_neg hn, if_neg (by decide),
      if_neg hs, if_pos (by decide)]
    simp only [Nat.shiftLeft_eq]
    rfl

end

variable {n : Nat}

theorem toBits_ofNat (hl : n < 2 ^ 64) : (Float.ofNat n).toBits.toNat = bitsOf n := by
  by_cases hn : n = 0
  · rw [hn]
    rfl
  · obtain ⟨u, hN, hu⟩ := exists_normal_ofNat hn hl
    rw [hu]
    exact hN.toNat_toBits_pack.trans (Nat.zero_add _)

theorem toBits_neg_ofNat (hn : n ≠ 0) (hl : n < 2 ^ 64) :
    (Float.neg (Float.ofNat n)).toBits.toNat = 2 ^ 63 + bitsOf n := by
  obtain ⟨u, hN, hu⟩ := exists_normal_ofNat hn hl
  have hm : (Float.neg (.ofModel (Float.Model.pack u))).toModel = Float.Model.pack u.neg := by
    change Float.Model.pack (Float.Model.pack u).unpack.neg = _
    rw [hN.unpack_pack]
  rw [hu, Float.toBits, hm]
  exact hN.neg.toNat_toBits_pack.trans (congrArg (· + bitsOf n) (Nat.one_mul _))

theorem bitsOf_lt (hl : n < 2 ^ 64) : bitsOf n < 2 ^ 63 := by
  by_cases hn : n = 0
  · rw [hn]
    decide
  · have hlog := (Nat.log2_lt hn).2 hl
    have hb := bitsOf_bounds hn
    omega

theorem bitsOf_mono {m : Nat} (h : m ≤ n) : bitsOf m ≤ bitsOf n := by
  by_cases hm : m = 0
  · rw [hm]
    exact Nat.zero_le _
  have hn : n ≠ 0 := by omega
  have hlog : m.log2 ≤ n.log2 := (Nat.le_log2 hn).2 (Nat.le_trans (Nat.log2_self_le hm) h)
  rcases Nat.lt_or_eq_of_le hlog with hlt | heq
  · -- with more binary digits the bits are larger, even if rounding carries over
    have h1 := bitsOf_bounds hm
    have h2 := bitsOf_bounds hn
    omega
  · have hr := halfEven_mono (Nat.mul_le_mul_right (2 ^ 53) h) (n.log2 + 1)
    rw [bitsOf_eq hm, bitsOf_eq hn, heq]
    omega

end Stencil.Double

namespace Stencil.Value

open Double (bitsOf)

theorem doubleRank_eq (x : Float) :
    doubleRank x =
      if x.toBits.toNat < 2 ^ 63 then (x.toBits.toNat : Int) else 2 ^ 63 - 1 - x.toBits.toNat := rfl

theorem doubleRank_injective {x y : Float} (h : doubleRank x = doubleRank y) : x = y := by
  rw [doubleRank_eq, doubleRank_eq] at h
  have hb : x.toBits.toNat = y.toBits.toNat := by
    split at h <;> split at h <;> omega
  exact Float.toBits_inj.1 (UInt64.toNat_inj.1 hb)

theorem doubleRank_toDouble (n : Int64) :
    doubleRank (toDouble n) =
      if 0 ≤ n.toInt then (bitsOf n.toInt.toNat : Int) else -1 - bitsOf n.toInt.natAbs := by
  have hlow := n.le_toInt
  have hhigh := n.toInt_lt
  rw [doubleRank_eq, toDouble]
  rcases hn : n.toInt with k | k
  · have hl : k < 2 ^ 64 := by
      rw [hn, Int.ofNat_eq_natCast] at hhigh
      omega
    have hb : (Float.ofInt (.ofNat k)).toBits.toNat = bitsOf k := Double.toBits_ofNat hl
    have hk : 0 ≤ Int.ofNat k := Int.natCast_nonneg k
    rw [hb, if_pos (Double.bitsOf_lt hl), if_pos hk]
    rfl
  · have hl : k.succ < 2 ^ 64 := by omega
    have hb : (Float.ofInt (.negSucc k)).toBits.toNat = 2 ^ 63 + bitsOf k.succ :=
      Double.toBits_neg_ofNat (by omega) hl
    have hlt := Double.bitsOf_lt hl
    rw [hb, if_neg (by omega), if_neg (by omega), Int.natAbs_negSucc]
    omega

theorem doubleRank_toDouble_mono {m n : Int64} (h : m.toInt ≤ n.toInt) :
    doubleRank (toDouble m) ≤ doubleRank (toDouble n) := by
  rw [doubleRank_toDouble, doubleRank_toDouble]
  split
  · rw [if_pos (by omega)]
    have := Double.bitsOf_mono (Int.toNat_le_toNat h)
    omega
  · split
    · omega
    · have := Double.bitsOf_mono (show n.toInt.natAbs ≤ m.toInt.natAbs by omega)
      omega

end Stencil.Value
