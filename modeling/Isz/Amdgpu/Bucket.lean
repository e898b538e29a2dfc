import Isz.Amdgpu.Index

namespace Isz.Amdgpu

def InBucket (scale i : Int) (value : F64) : Prop :=
  base scale ^ i < value.toReal ∧ value.toReal ≤ base scale ^ (i + 1)

theorem le_base_zpow_iff {scale j : Int} {value : F64} (hvalue : 0 < value.toReal) :
    value.toReal ≤ base scale ^ j ↔ ⌈position scale value⌉ ≤ j := by
  rw [Int.ceil_le, ← Real.rpow_intCast, ← Real.logb_le_iff_le_rpow (one_lt_base scale) hvalue,
    logb_base, position]

theorem inBucket_iff {scale i : Int} {value : F64} (hvalue : 0 < value.toReal) :
    InBucket scale i value ↔ i = ⌈position scale value⌉ - 1 := by
  rw [InBucket, ← not_le, le_base_zpow_iff hvalue, le_base_zpow_iff hvalue]
  omega

theorem position_neg_of_lt_one {scale : Int} {value : F64} (hvalue : 0 < value.toReal)
    (hlt : value.toReal < 1) : position scale value < 0 :=
  mul_neg_of_pos_of_neg (by positivity) (Real.logb_neg (by norm_num) hvalue hlt)

-- truncation toward zero lands one bucket too high below 1
theorem indexForValue_truncated {scale : Int} {value : F64} (hvalue : 0 < value.toReal)
    (hscale : 0 ≤ scale) (hmantissa : powerOf2 value.mantissa = false) (hlt : value.toReal < 1) :
    indexForValue scale value = some ⌈position scale value⌉ := by
  obtain ⟨n, rfl⟩ := Int.eq_ofNat_of_zero_le hscale
  have hpos : ¬(value.mantissa = 0 ∨ value.sign < 0) := by
    have hm := mantissa_pos hvalue
    have hs := sign_of_pos hvalue
    omega
  have hlog : Real.logb (base n) value.toReal = position n value := by
    rw [logb_base, position]
  have hneg : ¬0 ≤ position n value := not_le.mpr (position_neg_of_lt_one hvalue hlt)
  simp only [indexForValue, hpos, hscale, hmantissa, if_false, if_true, Int.toNat_natCast,
    Bool.false_eq_true]
  rw [logAsIsize_eq hvalue, hlog, truncate, if_neg hneg]

theorem indexForValue_correct_iff {scale : Int} {value : F64} (hvalue : 0 < value.toReal) :
    (∃ i, indexForValue scale value = some i ∧ InBucket scale i value ∧
      ∀ j, InBucket scale j value → j = i) ↔
    scale < 0 ∨ powerOf2 value.mantissa = true ∨ 1 ≤ value.toReal := by
  constructor
  · rintro ⟨i, hi, hbucket, -⟩
    by_contra hcase
    simp only [not_or, not_lt, not_le, Bool.not_eq_true] at hcase
    obtain ⟨hscale, hmantissa, hlt⟩ := hcase
    rw [indexForValue_truncated hvalue hscale hmantissa hlt, Option.some.injEq] at hi
    rw [inBucket_iff hvalue] at hbucket
    omega
  · intro hcase
    refine ⟨⌈position scale value⌉ - 1, indexForValue_eq_ceil hvalue hcase,
      (inBucket_iff hvalue).mpr rfl, fun j hj => ?_⟩
    exact (inBucket_iff hvalue).mp hj

def threeQuarters : F64 :=
  { F64.ofNat 6755399441055744 (by decide) with
    exponent := -53
    le_exponent := by decide
    exponent_le := by decide }

theorem toReal_threeQuarters : threeQuarters.toReal = 3 / 4 := by
  simp only [F64.toReal_eq, threeQuarters, F64.ofNat]
  norm_num

theorem indexForValue_correct_three_quarters :
    ∃ i, indexForValue (-1) threeQuarters = some i ∧ InBucket (-1) i threeQuarters ∧
      ∀ j, InBucket (-1) j threeQuarters → j = i :=
  (indexForValue_correct_iff (by rw [toReal_threeQuarters]; norm_num)).mpr (.inl (by decide))

theorem threeQuarters_misplaced :
    0 < threeQuarters.toReal ∧ indexForValue 0 threeQuarters = some 0 ∧
      InBucket 0 (-1) threeQuarters ∧
      ¬∃ i, indexForValue 0 threeQuarters = some i ∧ InBucket 0 i threeQuarters := by
  have hbase : base 0 = 2 := by simp [base]
  have hindex : indexForValue 0 threeQuarters = some 0 := by decide
  refine ⟨?_, hindex, ⟨?_, ?_⟩, ?_⟩
  · rw [toReal_threeQuarters]
    norm_num
  · rw [toReal_threeQuarters, hbase]
    norm_num
  · rw [toReal_threeQuarters, hbase]
    norm_num
  · rintro ⟨i, hi, hlow, -⟩
    rw [hindex, Option.some.injEq] at hi
    rw [← hi, toReal_threeQuarters, hbase] at hlow
    norm_num at hlow

end Isz.Amdgpu
