import Mathlib.Analysis.SpecialFunctions.Log.Base
import Mathlib.Data.Nat.Prime.Pow

namespace Isz.Amdgpu

-- a finite f64, as integer_decode gives it
structure F64 where
  mantissa : Nat
  exponent : Int
  sign : Int
  mantissa_lt : mantissa < 2 ^ 53
  le_exponent : -1075 ≤ exponent
  exponent_le : exponent ≤ 971
  sign_unit : sign = 1 ∨ sign = -1

namespace F64

def toRat (value : F64) : ℚ := value.sign * value.mantissa * 2 ^ value.exponent

noncomputable def toReal (value : F64) : ℝ := value.toRat

def ofNat (n : Nat) (h : n < 2 ^ 53) : F64 :=
  ⟨n, 0, 1, h, by decide, by decide, Or.inl rfl⟩

def IsNat (value : F64) : Prop := ∃ n : ℕ, value.toRat = n

theorem toReal_eq (value : F64) :
    value.toReal = value.sign * value.mantissa * 2 ^ value.exponent := by
  simp [toReal, toRat]

end F64

noncomputable def exp2 (x : ℝ) : ℝ := 2 ^ x

noncomputable def base (scale : Int) : ℝ := (2 : ℝ) ^ ((2 : ℝ) ^ (-scale))

noncomputable def truncate (x : ℝ) : Int := if 0 ≤ x then ⌊x⌋ else ⌈x⌉

-- `value.log(base(scale)) as isize`, the logarithm exact (logAsIsize_eq)
def logAsIsize (scale : Nat) (value : F64) : Int :=
  let power := value.mantissa ^ 2 ^ scale
  let below := (power.log2 : Int) + value.exponent * 2 ^ scale
  if 0 ≤ below ∨ 2 ^ power.log2 = power then below else below + 1

def powerOf2 (mantissa : Nat) : Bool :=
  mantissa == (mantissa >>> mantissa.log2) <<< mantissa.log2

def indexForValue (scale : Int) (value : F64) : Option Int :=
  if value.mantissa = 0 ∨ value.sign < 0 then none
  else
    let mantissaLog := value.mantissa.log2
    let exponentIndex := value.exponent + mantissaLog
    if 0 ≤ scale then
      if powerOf2 value.mantissa then some ((exponentIndex <<< scale.toNat) - 1)
      else some (logAsIsize scale.toNat value)
    else some ((exponentIndex - (powerOf2 value.mantissa).toNat) >>> (-scale).toNat)

noncomputable def position (scale : Int) (value : F64) : ℝ :=
  2 ^ scale * Real.logb 2 value.toReal

theorem logb_base (scale : Int) (x : ℝ) :
    Real.logb (base scale) x = 2 ^ scale * Real.logb 2 x := by
  have hlog : Real.log (base scale) = (2 : ℝ) ^ (-scale) * Real.log 2 := by
    rw [base, Real.log_rpow (by norm_num)]
  have hpos : (0 : ℝ) < 2 ^ scale := by positivity
  rw [Real.logb, hlog, Real.logb, zpow_neg]
  field_simp

theorem one_lt_base (scale : Int) : 1 < base scale :=
  Real.one_lt_rpow (by norm_num) (by positivity)

theorem position_pred (scale : Int) (value : F64) :
    position (scale - 1) value = position scale value / 2 := by
  simp only [position]
  rw [zpow_sub_one₀ (by norm_num)]
  ring

section Positive

variable {value : F64} (hvalue : 0 < value.toReal)
include hvalue

theorem sign_of_pos : value.sign = 1 := by
  rcases value.sign_unit with h | h
  · exact h
  · have hm : (0 : ℝ) ≤ value.mantissa := Nat.cast_nonneg _
    have he : (0 : ℝ) < 2 ^ value.exponent := by positivity
    simp only [F64.toReal_eq, h] at hvalue
    push_cast at hvalue
    nlinarith

theorem mantissa_pos : 0 < value.mantissa := by
  rcases Nat.eq_zero_or_pos value.mantissa with h | h
  · simp [F64.toReal_eq, h] at hvalue
  · exact h

theorem toReal_of_pos : value.toReal = value.mantissa * 2 ^ value.exponent := by
  simp [F64.toReal_eq, sign_of_pos hvalue]

theorem logb_toReal :
    Real.logb 2 value.toReal = Real.logb 2 value.mantissa + value.exponent := by
  have hm : (value.mantissa : ℝ) ≠ 0 := by exact_mod_cast (mantissa_pos hvalue).ne'
  rw [toReal_of_pos hvalue, Real.logb_mul hm (by positivity)]
  congr 1
  rw [← Real.rpow_intCast, Real.logb_rpow (by norm_num) (by norm_num)]

theorem position_natCast (n : Nat) :
    position n value =
      Real.logb 2 ((value.mantissa ^ 2 ^ n : ℕ) : ℝ) + (value.exponent * 2 ^ n : ℤ) := by
  simp only [position, logb_toReal hvalue]
  push_cast
  rw [Real.logb_pow, zpow_natCast]
  push_cast
  ring

end Positive

theorem log2_le_logb {n : Nat} (hn : n ≠ 0) : (n.log2 : ℝ) ≤ Real.logb 2 n := by
  rw [Real.le_logb_iff_rpow_le (by norm_num) (by exact_mod_cast Nat.pos_of_ne_zero hn),
    Real.rpow_natCast]
  exact_mod_cast Nat.log2_self_le hn

theorem logb_lt_log2 {n : Nat} (hn : n ≠ 0) : Real.logb 2 n < n.log2 + 1 := by
  rw [Real.logb_lt_iff_lt_rpow (by norm_num) (by exact_mod_cast Nat.pos_of_ne_zero hn)]
  have h : (n : ℝ) < 2 ^ (n.log2 + 1) := by exact_mod_cast Nat.lt_log2_self
  exact_mod_cast h

theorem floor_logb {n : Nat} (hn : n ≠ 0) (k : Int) :
    ⌊Real.logb 2 n + k⌋ = n.log2 + k := by
  rw [Int.floor_add_intCast, Int.floor_eq_iff.mpr ⟨?_, ?_⟩]
  · exact_mod_cast log2_le_logb hn
  · exact_mod_cast logb_lt_log2 hn

theorem ceil_logb {n : Nat} (hn : n ≠ 0) (k : Int) :
    ⌈Real.logb 2 n + k⌉ = n.log2 + k + if 2 ^ n.log2 = n then 0 else 1 := by
  rw [Int.ceil_add_intCast]
  split
  case isTrue h =>
    have hlog : Real.logb 2 n = n.log2 := by
      conv_lhs => rw [← h]
      push_cast
      rw [Real.logb_pow, Real.logb_self_eq_one (by norm_num), mul_one]
    rw [hlog, Int.ceil_natCast, add_zero]
  case isFalse h =>
    have hlt : (n.log2 : ℝ) < Real.logb 2 n := by
      rw [Real.lt_logb_iff_rpow_lt (by norm_num) (by exact_mod_cast Nat.pos_of_ne_zero hn),
        Real.rpow_natCast]
      exact_mod_cast lt_of_le_of_ne (Nat.log2_self_le hn) h
    have hceil : ⌈Real.logb 2 n⌉ = (n.log2 : ℤ) + 1 := by
      rw [Int.ceil_eq_iff]
      push_cast
      exact ⟨by linarith, (logb_lt_log2 hn).le⟩
    rw [hceil]
    ring

theorem logAsIsize_eq {scale : Nat} {value : F64} (hvalue : 0 < value.toReal) :
    logAsIsize scale value = truncate (Real.logb (base scale) value.toReal) := by
  have hn : value.mantissa ^ 2 ^ scale ≠ 0 := (Nat.pow_pos (mantissa_pos hvalue)).ne'
  have hp : Real.logb (base scale) value.toReal = position scale value := by
    rw [logb_base, position]
  rw [hp, position_natCast hvalue]
  have hfloor := floor_logb hn (value.exponent * 2 ^ scale)
  have hceil := ceil_logb hn (value.exponent * 2 ^ scale)
  have hsign := Int.floor_nonneg (a := Real.logb 2 ((value.mantissa ^ 2 ^ scale : ℕ) : ℝ) +
    (value.exponent * 2 ^ scale : ℤ))
  simp only [truncate, logAsIsize, ← hsign, hfloor, hceil]
  by_cases hbelow : 0 ≤ ((value.mantissa ^ 2 ^ scale).log2 : Int) + value.exponent * 2 ^ scale
  · rw [if_pos (Or.inl hbelow), if_pos hbelow]
  · by_cases hself : 2 ^ (value.mantissa ^ 2 ^ scale).log2 = value.mantissa ^ 2 ^ scale
    · rw [if_pos (Or.inr hself), if_neg hbelow, if_pos hself, add_zero]
    · rw [if_neg (by tauto), if_neg hbelow, if_neg hself]

theorem powerOf2_iff {m : Nat} : powerOf2 m = true ↔ m = 2 ^ m.log2 ∨ m = 0 := by
  simp only [powerOf2, beq_iff_eq, Nat.shiftLeft_eq, Nat.shiftRight_eq_div_pow]
  rcases Nat.eq_zero_or_pos m with rfl | hm
  · simp
  have hdiv : m / 2 ^ m.log2 = 1 := by
    rw [Nat.div_eq_iff (by positivity)]
    have hle := Nat.log2_self_le hm.ne'
    have hlt := Nat.lt_log2_self (n := m)
    rw [pow_succ] at hlt
    omega
  rw [hdiv, one_mul]
  simp [hm.ne']

theorem pow_eq_two_pow {m k j : Nat} (hk : k ≠ 0) (h : 2 ^ j = m ^ k) : m = 2 ^ m.log2 := by
  have hdvd : m ∣ 2 ^ j := h ▸ dvd_pow_self m hk
  obtain ⟨i, -, rfl⟩ := (Nat.dvd_prime_pow Nat.prime_two).mp hdvd
  rw [Nat.log2_two_pow]

theorem ceil_sub_one_shiftRight (x : ℝ) (k : Nat) :
    (⌈x⌉ - 1) >>> k = ⌈x / 2 ^ k⌉ - 1 := by
  have hpow : (0 : ℝ) < 2 ^ k := by positivity
  have hint : (0 : Int) < 2 ^ k := by positivity
  have hq : ⌈x / 2 ^ k⌉ = (⌈x⌉ - 1) / 2 ^ k + 1 := by
    have hlow : (⌈x⌉ - 1) / 2 ^ k * 2 ^ k < ⌈x⌉ :=
      Int.lt_of_le_sub_one (Int.ediv_mul_le (⌈x⌉ - 1) hint.ne')
    have hup : ⌈x⌉ ≤ ((⌈x⌉ - 1) / 2 ^ k + 1) * 2 ^ k :=
      Int.le_of_sub_one_lt (Int.lt_ediv_add_one_mul_self (⌈x⌉ - 1) hint)
    rw [Int.ceil_eq_iff, lt_div_iff₀ hpow, div_le_iff₀ hpow]
    constructor
    · have := Int.lt_ceil.mp hlow
      push_cast at this ⊢
      linarith
    · have := Int.ceil_le.mp hup
      push_cast at this ⊢
      linarith
  rw [Int.shiftRight_eq_div_pow, hq]
  push_cast
  ring

theorem ceil_position_zero {value : F64} (hvalue : 0 < value.toReal) :
    ⌈position 0 value⌉ - 1 =
      value.exponent + value.mantissa.log2 - (powerOf2 value.mantissa).toNat := by
  have hm := (mantissa_pos hvalue).ne'
  have hposition := position_natCast hvalue 0
  simp only [Nat.cast_zero, pow_zero, pow_one, mul_one] at hposition
  rw [hposition, ceil_logb hm]
  cases hp : powerOf2 value.mantissa with
  | false =>
    have hne : ¬2 ^ value.mantissa.log2 = value.mantissa := fun h => by
      simp [powerOf2_iff.mpr (Or.inl h.symm)] at hp
    simp only [hne, if_false, Bool.toNat_false]
    omega
  | true =>
    have hself : 2 ^ value.mantissa.log2 = value.mantissa :=
      ((powerOf2_iff.mp hp).resolve_right hm).symm
    simp only [hself, if_true, Bool.toNat_true]
    omega

theorem position_neg (k : Nat) (value : F64) :
    position (-(k : Int)) value = position 0 value / 2 ^ k := by
  simp only [position, zpow_neg, zpow_natCast, zpow_zero]
  field_simp

theorem log2_pow_of_powerOf2 {m : Nat} (hm : m ≠ 0) (hp : powerOf2 m = true) (k : Nat) :
    (m ^ k).log2 = m.log2 * k ∧ 2 ^ (m ^ k).log2 = m ^ k := by
  have hself : m = 2 ^ m.log2 := (powerOf2_iff.mp hp).resolve_right hm
  have hlog : (m ^ k).log2 = m.log2 * k := by
    conv_lhs => rw [hself, ← pow_mul]
    exact Nat.log2_two_pow
  refine ⟨hlog, ?_⟩
  rw [hlog, pow_mul, ← hself]

theorem indexForValue_eq_ceil {scale : Int} {value : F64} (hvalue : 0 < value.toReal)
    (hcase : scale < 0 ∨ powerOf2 value.mantissa = true ∨ 1 ≤ value.toReal) :
    indexForValue scale value = some (⌈position scale value⌉ - 1) := by
  have hm := mantissa_pos hvalue
  have hpos : ¬(value.mantissa = 0 ∨ value.sign < 0) := by
    have := sign_of_pos hvalue
    omega
  simp only [indexForValue, hpos, if_false]
  split
  case isFalse hneg =>
    obtain ⟨k, rfl⟩ : ∃ k : Nat, scale = -(k : Int) := ⟨scale.natAbs, by omega⟩
    rw [position_neg, ← ceil_sub_one_shiftRight, ceil_position_zero hvalue]
    simp
  case isTrue hnonneg =>
    obtain ⟨n, rfl⟩ := Int.eq_ofNat_of_zero_le hnonneg
    have hposition := position_natCast hvalue n
    have hn : value.mantissa ^ 2 ^ n ≠ 0 := (Nat.pow_pos hm).ne'
    split
    case isTrue hp =>
      obtain ⟨hlog, hself⟩ := log2_pow_of_powerOf2 hm.ne' hp (2 ^ n)
      rw [hposition, ceil_logb hn, if_pos hself, hlog, Int.shiftLeft_eq, Int.toNat_natCast]
      push_cast
      congr 1
      ring
    case isFalse hp =>
      have hne : ¬2 ^ (value.mantissa ^ 2 ^ n).log2 = value.mantissa ^ 2 ^ n := fun h =>
        hp (powerOf2_iff.mpr (Or.inl (pow_eq_two_pow (by positivity) h)))
      have hge : 1 ≤ value.toReal := (hcase.resolve_left (by omega)).resolve_left hp
      have hbelow : 0 ≤ ((value.mantissa ^ 2 ^ n).log2 : Int) + value.exponent * 2 ^ n := by
        rw [← floor_logb hn, Int.floor_nonneg, ← hposition, position]
        exact mul_nonneg (by positivity) (Real.logb_nonneg (by norm_num) hge)
      rw [hposition, ceil_logb hn, if_neg hne, logAsIsize, Int.toNat_natCast,
        if_pos (Or.inl hbelow)]
      congr 1
      ring

theorem indexForValue_eq_none {scale : Int} {value : F64} :
    indexForValue scale value = none ↔ value.toReal ≤ 0 := by
  constructor
  · intro h
    by_contra hpos
    have hm := mantissa_pos (not_le.mp hpos)
    have hs := sign_of_pos (not_le.mp hpos)
    simp only [indexForValue] at h
    split_ifs at h
    omega
  · intro h
    have : value.mantissa = 0 ∨ value.sign < 0 := by
      by_contra hc
      have hs : value.sign = 1 := by
        have := value.sign_unit
        omega
      have hm : (0 : ℝ) < value.mantissa := by exact_mod_cast Nat.pos_of_ne_zero (by omega)
      have : 0 < value.toReal := by
        simp only [F64.toReal_eq, hs]
        positivity
      linarith
    simp [indexForValue, this]

theorem toReal_pos_of_index {scale i : Int} {value : F64}
    (hi : indexForValue scale value = some i) : 0 < value.toReal := by
  by_contra h
  rw [indexForValue_eq_none.mpr (not_lt.mp h)] at hi
  cases hi

theorem logb_toReal_lt {value : F64} (hvalue : 0 < value.toReal) :
    Real.logb 2 value.toReal < 1024 := by
  have hm : (value.mantissa : ℝ) < 2 ^ 53 := by exact_mod_cast value.mantissa_lt
  have he : (2 : ℝ) ^ value.exponent ≤ 2 ^ (971 : Int) :=
    zpow_le_zpow_right₀ (by norm_num) value.exponent_le
  have hlt : value.toReal < 2 ^ (1024 : ℝ) :=
    calc value.toReal = value.mantissa * 2 ^ value.exponent := toReal_of_pos hvalue
      _ < 2 ^ 53 * 2 ^ value.exponent := by gcongr
      _ ≤ 2 ^ 53 * 2 ^ (971 : Int) := by gcongr
      _ = 2 ^ (1024 : ℝ) := by
          rw [← Real.rpow_intCast, ← Real.rpow_natCast, ← Real.rpow_add (by norm_num)]
          norm_num
  exact (Real.logb_lt_iff_lt_rpow (by norm_num) hvalue).mpr hlt

section Natural

variable {value : F64} (hnat : value.IsNat)
include hnat

theorem one_le_of_pos (hvalue : 0 < value.toReal) : 1 ≤ value.toReal := by
  obtain ⟨n, hn⟩ := hnat
  rw [F64.toReal, hn] at hvalue ⊢
  exact_mod_cast hvalue

theorem indexForValue_nat (scale : Int) (hvalue : 0 < value.toReal) :
    indexForValue scale value = some (⌈position scale value⌉ - 1) :=
  indexForValue_eq_ceil hvalue (Or.inr (Or.inr (one_le_of_pos hnat hvalue)))

theorem indexForValue_pred (scale : Int) :
    indexForValue (scale - 1) value = (indexForValue scale value).map (· / 2) := by
  rcases le_or_gt value.toReal 0 with h | h
  · rw [indexForValue_eq_none.mpr h, indexForValue_eq_none.mpr h, Option.map_none]
  · rw [indexForValue_nat hnat _ h, indexForValue_nat hnat _ h, Option.map_some, position_pred]
    have := ceil_sub_one_shiftRight (position scale value) 1
    rw [Int.shiftRight_eq_div_pow, pow_one, pow_one] at this
    rw [← this, Nat.cast_ofNat]

theorem toReal_le_base_zpow {scale i : Int} (hi : indexForValue scale value = some i) (j : Int) :
    value.toReal ≤ base scale ^ j ↔ i < j := by
  have hvalue := toReal_pos_of_index hi
  rw [indexForValue_nat hnat scale hvalue, Option.some.injEq] at hi
  rw [← hi, Int.sub_one_lt_iff, Int.ceil_le, ← Real.rpow_intCast,
    ← Real.logb_le_iff_le_rpow (one_lt_base scale) hvalue, logb_base, position]

theorem neg_one_le_index {scale i : Int} (hi : indexForValue scale value = some i) : -1 ≤ i := by
  have hvalue := toReal_pos_of_index hi
  rw [indexForValue_nat hnat scale hvalue, Option.some.injEq] at hi
  have hposition : 0 ≤ position scale value :=
    mul_nonneg (by positivity) (Real.logb_nonneg (by norm_num) (one_le_of_pos hnat hvalue))
  have := Int.ceil_nonneg hposition
  omega

theorem index_lt {scale i : Int} (hi : indexForValue scale value = some i) (hscale : scale ≤ 20) :
    i < 2 ^ 30 := by
  have hvalue := toReal_pos_of_index hi
  rw [indexForValue_nat hnat scale hvalue, Option.some.injEq] at hi
  have hlog := logb_toReal_lt hvalue
  have hpow : (2 : ℝ) ^ scale ≤ 2 ^ (20 : Int) := zpow_le_zpow_right₀ (by norm_num) hscale
  have hposition : position scale value ≤ ((2 ^ 30 : Int) : ℝ) :=
    calc position scale value ≤ 2 ^ scale * 1024 := by
          rw [position]
          gcongr
      _ ≤ 2 ^ (20 : Int) * 1024 := by gcongr
      _ = ((2 ^ 30 : Int) : ℝ) := by norm_num
  have := Int.ceil_le.mpr hposition
  omega

theorem index_neg_eleven {i : Int} (hi : indexForValue (-11) value = some i) : i = -1 ∨ i = 0 := by
  have hlow := neg_one_le_index hnat hi
  have hvalue := toReal_pos_of_index hi
  rw [indexForValue_nat hnat _ hvalue, Option.some.injEq] at hi
  have hlog := logb_toReal_lt hvalue
  have hposition : position (-11) value ≤ ((1 : Int) : ℝ) := by
    rw [position]
    norm_num
    linarith
  have := Int.ceil_le.mpr hposition
  omega

end Natural

end Isz.Amdgpu
