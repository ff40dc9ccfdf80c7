import Mathlib
import Klex.Operator

/-!
# Whole numbers that become doubles

A conversion can only overflow where a double is put into its bits, and only if its exponent is too
great by then.  So exponents are followed through rounding, with bounds that need not be sharp.

* **`Moderate`** — zero, or finite with bounds on mantissa and exponent.
* **`roundWithAccuracy_moderate`** — rounding adds little to the exponent of a moderate number.
* **`unpack_pack`** — what is put into bits with a moderate exponent comes out with one.
* **`floatOfInt_ok`** — **every whole number that a literal can stand for becomes a double.**
-/

namespace Klex.Numeric

open Float.Model Float.Model.UnpackedFloat

/-- Zero, or finite with a mantissa of up to `k` bits and an exponent up to `b`. -/
inductive Moderate (k : Nat) (b : Int) : UnpackedFloat → Prop
  | zero (s : Sign) : Moderate k b (.zero s)
  | finite {s : Sign} {m : Nat} {e : Int} {h : 0 < m} (hm : m < 2 ^ k) (he : e ≤ b) :
      Moderate k b (.finite s m e h)

theorem Moderate.isInf {k : Nat} {b : Int} {f : UnpackedFloat} (hf : Moderate k b f) :
    f.isInf = false := by
  cases hf <;> rfl

/-! ### Rounding -/

/-- Shifting right makes no mantissa greater. -/
theorem mantissa_shiftRight_le (em : ExtendedMantissa) (n : Nat) :
    (em >>> n).mantissa ≤ em.mantissa := by
  show (n.repeat ExtendedMantissa.shiftRightOne em).mantissa ≤ em.mantissa
  induction n with
  | zero => exact Nat.le_refl _
  | succ n ih => exact Nat.le_trans (Nat.div_le_self _ 2) ih

theorem roundedMantissa_le (em : ExtendedMantissa) : em.roundedMantissa ≤ em.mantissa + 1 := by
  rw [ExtendedMantissa.roundedMantissa]
  cases em.accuracy with
  | exact => exact Nat.le_succ _
  | inexact o =>
    cases o with
    | lt => exact Nat.le_succ _
    | eq => exact Nat.add_le_add_left (Nat.le_of_lt_succ (Nat.mod_lt _ (by decide))) _
    | gt => exact Nat.le_refl _

theorem mantissa_ofMantissaAndAccuracy (m : Nat) (a : Accuracy) :
    (ExtendedMantissa.ofMantissaAndAccuracy m a).mantissa = m := by
  cases a with
  | exact => rfl
  | inexact o => cases o <;> rfl

/-- A shift to the target keeps the mantissa below its bound, and the exponent by the bits that the
mantissa has too many. -/
theorem shiftToTargetExponent_le {k m : Nat} {e b : Int} (a : Accuracy) (hm : m < 2 ^ k)
    (he : e ≤ b) (hb : 0 ≤ b) (hk : 53 ≤ k) :
    (shiftToTargetExponent .binary64 m e a).1.mantissa ≤ m ∧
      (shiftToTargetExponent .binary64 m e a).2 ≤ b + (k - 53) := by
  constructor
  · refine Nat.le_trans (mantissa_shiftRight_le _ _) (Nat.le_of_eq ?_)
    exact mantissa_ofMantissaAndAccuracy m a
  · have hlog : m.log2 < k := by
      by_cases hzero : m = 0
      · rw [hzero, Nat.log2_zero]
        omega
      · exact (Nat.log2_lt hzero).2 hm
    have hmin : Format.minExponent .binary64 = -1074 := rfl
    have hbits : (Format.mantissaBits .binary64 : Int) = 53 := rfl
    show e + ((Format.targetExponent .binary64 (totalExponent m e) - e).toNat : Int) ≤ b + (k - 53)
    rw [Format.targetExponent, hmin, hbits, totalExponent]
    omega

/-- **Rounding adds little to an exponent.** -/
theorem roundWithAccuracy_moderate (sign : Sign) {m : Nat} {e b B : Int} (a : Accuracy)
    (hm : m < 2 ^ 128) (he : e ≤ b) (hb : 0 ≤ b) (hB : b + 151 ≤ B) :
    Moderate 129 B (roundWithAccuracy .binary64 sign m e a) := by
  have hfirst := shiftToTargetExponent_le a hm he hb (by decide)
  generalize hshift : shiftToTargetExponent .binary64 m e a = first at hfirst
  have hrounded : first.1.roundedMantissa < 2 ^ 129 := by
    have hle := roundedMantissa_le first.1
    omega
  have hsecond := shiftToTargetExponent_le .exact hrounded hfirst.2 (by omega) (by decide)
  rw [roundWithAccuracy, hshift]
  show Moderate 129 B (if h : _ then _ else _)
  split
  · exact .zero sign
  · exact .finite (Nat.lt_of_le_of_lt hsecond.1 hrounded) (Int.le_trans hsecond.2 (by omega))

/-! ### Bits -/

/-- Bits whose exponent is not all ones are zero or finite. -/
theorem unpack_packComponents (sign : Sign) {exponent : BitVec 11} (mantissa : BitVec 52) {b : Int}
    (hb : 0 ≤ b) (hone : exponent.toNat < 2047) (hexponent : (exponent.toNat : Int) ≤ b + 1075) :
    Moderate 53 b
      (UnpackedFloat.unpack .binary64 (packComponents .binary64 sign exponent mantissa)) := by
  have hone : exponent ≠ -1#11 := by
    intro heq
    rw [heq] at hone
    exact absurd hone (by decide)
  have hbias : ((Format.exponentBias .binary64 : Int) + (52 : Nat)) = 1075 := rfl
  unfold UnpackedFloat.unpack
  simp only [unpackMantissa_packComponents, unpackExponent_packComponents]
  rw [if_neg hone, hbias]
  by_cases hzero : exponent = 0#11
  · rw [if_pos hzero]
    split
    · exact .zero _
    · refine .finite (Nat.lt_trans mantissa.isLt (by decide)) ?_
      rw [hzero]
      show (-1074 : Int) ≤ b
      omega
  · rw [if_neg hzero]
    refine .finite (1#1 ++ mantissa).isLt ?_
    omega

/-- **What is put into bits with a moderate exponent comes out with one**, and with a mantissa of the
format. -/
theorem unpack_pack {k : Nat} {b : Int} {f : UnpackedFloat} (hf : Moderate k b f) (hb : 0 ≤ b)
    (hb' : b ≤ 900) : Moderate 53 b (Float.Model.pack f).unpack := by
  cases hf with
  | zero s =>
    refine unpack_packComponents s 0#52 hb (by decide) ?_
    show (0 : Int) ≤ b + 1075
    omega
  | @finite s m e h _ he =>
    generalize hbiased : (e + 1023 + 52).toNat = biased
    have hle : (biased : Int) ≤ b + 1075 := by omega
    have hnat : (BitVec.ofNat 11 biased).toNat = biased := by
      rw [BitVec.toNat_ofNat]
      exact Nat.mod_eq_of_lt (by omega)
    show Moderate 53 b (UnpackedFloat.unpack .binary64
      (if 2 ^ 11 ≤ (e + 1023 + 52).toNat + 1 then packedInfinity .binary64 s
        else if m.log2 + 1 = 53 then
          packComponents .binary64 s (BitVec.ofNat 11 (e + 1023 + 52).toNat) (BitVec.ofNat 52 m)
        else packComponents .binary64 s 0#11 (BitVec.ofNat 52 m)))
    rw [hbiased, if_neg (by omega)]
    split
    · exact unpack_packComponents s _ hb (by omega) (by omega)
    · refine unpack_packComponents s _ hb (by decide) ?_
      show (0 : Int) ≤ b + 1075
      omega

/-! ### Whole numbers -/

/-- A whole number is shifted left by the bits that its mantissa lacks, before it is rounded. -/
theorem round_moderate (sign : Sign) {n : Nat} (hn : n < 2 ^ 64) :
    Moderate 129 151 (UnpackedFloat.round .binary64 sign n 0) := by
  have hmin : Format.minExponent .binary64 = -1074 := rfl
  have hbits : (Format.mantissaBits .binary64 : Int) = 53 := rfl
  generalize hshift : ((0 : Int) - Format.targetExponent .binary64 (totalExponent n 0)).toNat = shift
  have hle : shift ≤ 52 := by
    rw [Format.targetExponent, hmin, hbits, totalExponent] at hshift
    omega
  have hm : n <<< shift < 2 ^ 128 := by
    rw [Nat.shiftLeft_eq]
    have hpow : 2 ^ shift ≤ 2 ^ 52 := Nat.pow_le_pow_right (by decide) hle
    exact Nat.lt_of_lt_of_le (Nat.mul_lt_mul_of_lt_of_le hn hpow (by decide)) (by decide)
  show Moderate 129 151 (roundWithAccuracy .binary64 sign
    (n <<< ((0 : Int) - Format.targetExponent .binary64 (totalExponent n 0)).toNat)
    (0 - (((0 : Int) - Format.targetExponent .binary64 (totalExponent n 0)).toNat : Int)) .exact)
  rw [hshift]
  exact roundWithAccuracy_moderate sign .exact hm (by omega) (Int.le_refl 0) (by decide)

theorem ofUInt64_moderate (n : UInt64) :
    Moderate 129 151 (UnpackedFloat.ofUInt64 .binary64 n) := by
  have hn : ((n.toNat : Int)).toNat < 2 ^ 64 := n.toNat_lt
  show Moderate 129 151 (UnpackedFloat.normalize .binary64 n.toNat 0 .positive)
  rw [UnpackedFloat.normalize]
  split
  · next hneg =>
    rw [Int.compare_eq_lt] at hneg
    omega
  · exact .zero _
  · exact round_moderate .positive hn

/-- The product of moderate numbers is moderate. -/
theorem mul_moderate {k j : Nat} {b c B : Int} {f g : UnpackedFloat} (hf : Moderate k b f)
    (hg : Moderate j c g) (hk : k + j ≤ 128) (hb : 0 ≤ b + c) (hB : b + c + 151 ≤ B) :
    Moderate 129 B (UnpackedFloat.mul .binary64 f g) := by
  cases hf with
  | zero s => cases hg <;> exact .zero _
  | @finite s m e _ hm he =>
    cases hg with
    | zero s' => exact .zero _
    | @finite s' m' e' _ hm' he' =>
      have hproduct : m * m' < 2 ^ 128 :=
        calc m * m' < 2 ^ k * 2 ^ j := Nat.mul_lt_mul'' hm hm'
          _ = 2 ^ (k + j) := (Nat.pow_add 2 k j).symm
          _ ≤ 2 ^ 128 := Nat.pow_le_pow_right (by decide) hk
      exact roundWithAccuracy_moderate _ _ hproduct (Int.add_le_add he he') hb hB

theorem isInf_pack {k : Nat} {b : Int} {f : UnpackedFloat} (hf : Moderate k b f) (hb : 0 ≤ b)
    (hb' : b ≤ 900) : (Float.ofModel (Float.Model.pack f)).isInf = false :=
  (unpack_pack hf hb hb').isInf

/-- A whole number in scientific notation is rounded as it stands. -/
theorem ofScientific_moderate {n : Nat} (hn : n < 2 ^ 63) :
    Moderate 129 151 (UnpackedFloat.ofScientific .binary64 n 0) := by
  have hpower : ((2 : Int) ^ Format.exponentBits .binary64) = 2048 := rfl
  rw [UnpackedFloat.ofScientific]
  by_cases hzero : n = 0
  · rw [dif_pos hzero]
    exact .zero _
  · rw [dif_neg hzero, if_neg (by decide), if_neg (by omega), if_pos (Int.le_refl 0)]
    have hm : n <<< Format.mantissaBits .binary64 < 2 ^ 116 := by
      rw [Nat.shiftLeft_eq, show Format.mantissaBits .binary64 = 53 from rfl]
      omega
    refine mul_moderate (k := 116) (j := 1) (b := 0) (c := 0) (.finite hm ?_) (.finite ?_ ?_) ?_ ?_ ?_
      <;> decide

/-- **A whole number of up to 63 bits does not become infinite.**  Small numbers become doubles directly
and are multiplied by one; the others are rounded in one go. -/
theorem isInf_ofNat {n : Nat} (hn : n < 2 ^ 63) : (Float.ofNat n).isInf = false := by
  show (Float.ofScientific n false 0).isInf = false
  rw [Float.ofScientific]
  by_cases hsmall : n < 2 ^ 53 ∧ 0 ≤ 22
  · rw [dif_pos hsmall]
    have hbits := unpack_pack (ofUInt64_moderate n.toUInt64) (by decide) (by decide)
    have hone : Moderate 53 0 (Float.ofBits 0x3FF0000000000000).toModel.unpack :=
      .finite (m := 2 ^ 52) (e := -52) (h := by decide) (by decide) (by decide)
    have hproduct := mul_moderate hbits hone (by decide) (by decide) (Int.le_refl _)
    exact isInf_pack hproduct (by decide) (by decide)
  · rw [dif_neg hsmall]
    exact isInf_pack (ofScientific_moderate hn) (by decide) (by decide)

/-- **Every whole number that a literal can stand for becomes a double.** -/
theorem floatOfInt_ok {n : Int} (hn : 0 ≤ n) (hmax : n ≤ Literal.maxInt) :
    floatOfInt n = .ok (Float.ofInt n) := by
  obtain ⟨k, rfl⟩ := Int.eq_ofNat_of_zero_le hn
  have hk : k < 2 ^ 63 := by
    have : Literal.maxInt = 2 ^ 63 - 1 := rfl
    omega
  have hinf : (Float.ofInt (k : Int)).isInf = false := isInf_ofNat hk
  rw [floatOfInt]
  simp [hinf]

end Klex.Numeric
