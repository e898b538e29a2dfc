import Isz.Amdgpu.Recording

namespace Isz.Amdgpu

open Bucketing

def least (scale : Int) : Int := (-1076 * 2 ^ 20 : Int) >>> (20 - scale).toNat

def greatest (scale : Int) : Int := (1024 * 2 ^ 20 : Int) >>> (20 - scale).toNat

theorem shiftRight_pred (x : Int) {scale : Int} (hscale : scale ≤ 20) :
    x >>> (20 - (scale - 1)).toNat = (x >>> (20 - scale).toNat) / 2 := by
  have hsucc : (20 - (scale - 1)).toNat = (20 - scale).toNat + 1 := by omega
  rw [hsucc, Int.shiftRight_add, Int.shiftRight_eq_div_pow (n := 1)]
  rfl

theorem least_pred {scale : Int} (hscale : scale ≤ 20) : least (scale - 1) = least scale / 2 :=
  shiftRight_pred _ hscale

theorem greatest_pred {scale : Int} (hscale : scale ≤ 20) :
    greatest (scale - 1) = greatest scale / 2 :=
  shiftRight_pred _ hscale

theorem shiftRight_natCast (x : Int) {n : Nat} (hn : n ≤ 20) :
    (x * 2 ^ 20) >>> (20 - (n : Int)).toNat = x * 2 ^ n := by
  have hk : (20 - (n : Int)).toNat = 20 - n := by omega
  have hpow : (2 : Int) ^ 20 = 2 ^ n * 2 ^ (20 - n) := by
    rw [← pow_add, Nat.add_sub_cancel' hn]
  rw [hk, Int.shiftRight_eq_div_pow, hpow, ← mul_assoc]
  push_cast
  exact Int.mul_ediv_cancel _ (by positivity)

theorem shiftRight_neg (x : Int) (k : Nat) :
    (x * 2 ^ 20) >>> (20 - -(k : Int)).toNat = x / 2 ^ k := by
  have hk : (20 - -(k : Int)).toNat = 20 + k := by omega
  have hpow : ((2 ^ (20 + k) : ℕ) : Int) = 2 ^ k * 2 ^ 20 := by
    rw [pow_add]
    push_cast
    ring
  rw [hk, Int.shiftRight_eq_div_pow, hpow]
  exact Int.mul_ediv_mul_of_pos_left x (2 ^ k) (by norm_num)

theorem exponent_bounds (value : F64) (hm : value.mantissa ≠ 0) :
    -1075 ≤ value.exponent + value.mantissa.log2 ∧
      value.exponent + value.mantissa.log2 ≤ 1023 := by
  have hlog : value.mantissa.log2 < 53 := (Nat.log2_lt hm).mpr value.mantissa_lt
  have hlow := value.le_exponent
  have hhigh := value.exponent_le
  omega

theorem logAsIsize_bounds (n : Nat) (value : F64) (hm : value.mantissa ≠ 0) :
    -1075 * 2 ^ n ≤ logAsIsize n value ∧ logAsIsize n value ≤ 1024 * 2 ^ n := by
  have hpower : value.mantissa ^ 2 ^ n ≠ 0 := pow_ne_zero _ hm
  have hlt : value.mantissa ^ 2 ^ n < 2 ^ (53 * 2 ^ n) := by
    rw [pow_mul]
    exact Nat.pow_lt_pow_left value.mantissa_lt (by positivity)
  have hlog : ((value.mantissa ^ 2 ^ n).log2 : Int) + 1 ≤ 53 * 2 ^ n := by
    exact_mod_cast (Nat.log2_lt hpower).mpr hlt
  have hpos : (0 : Int) < 2 ^ n := by positivity
  have hlow := mul_le_mul_of_nonneg_right value.le_exponent hpos.le
  have hhigh := mul_le_mul_of_nonneg_right value.exponent_le hpos.le
  simp only [logAsIsize]
  split <;> constructor <;> linarith

theorem index_within {scale i : Int} {value : F64} (hscale : scale ≤ 20)
    (hi : indexForValue scale value = some i) : least scale ≤ i ∧ i ≤ greatest scale := by
  simp only [indexForValue] at hi
  split at hi
  case isTrue => cases hi
  case isFalse hsome =>
    have hm : value.mantissa ≠ 0 := fun h => hsome (.inl h)
    obtain ⟨hlow, hhigh⟩ := exponent_bounds value hm
    split at hi
    case isTrue hnonneg =>
      obtain ⟨n, rfl⟩ := Int.eq_ofNat_of_zero_le hnonneg
      have hpos : (0 : Int) < 2 ^ n := by positivity
      rw [least, greatest, shiftRight_natCast _ (by omega), shiftRight_natCast _ (by omega)]
      split at hi
      case isTrue =>
        obtain rfl := Option.some.inj hi
        rw [Int.toNat_natCast, Int.shiftLeft_eq]
        have := mul_le_mul_of_nonneg_right hlow hpos.le
        have := mul_le_mul_of_nonneg_right hhigh hpos.le
        constructor <;> linarith
      case isFalse =>
        obtain rfl := Option.some.inj hi
        obtain ⟨hlow', hhigh'⟩ := logAsIsize_bounds n value hm
        rw [Int.toNat_natCast]
        constructor <;> linarith
    case isFalse hneg =>
      obtain ⟨k, rfl⟩ : ∃ k : Nat, scale = -(k : Int) := ⟨scale.natAbs, by omega⟩
      obtain rfl := Option.some.inj hi
      have hbit : (powerOf2 value.mantissa).toNat ≤ 1 := Bool.toNat_le _
      rw [least, greatest, shiftRight_neg, shiftRight_neg, neg_neg, Int.toNat_natCast,
        Int.shiftRight_eq_div_pow]
      push_cast
      exact ⟨Int.ediv_le_ediv (by positivity) (by omega),
        Int.ediv_le_ediv (by positivity) (by omega)⟩

theorem length_pairSums (l : List Nat) : (pairSums l).length = (l.length + 1) / 2 := by
  induction l using pairSums.induct with
  | case1 => rfl
  | case2 a => simp [pairSums]
  | case3 a b rest ih =>
    rw [pairSums, List.length_cons, ih, List.length_cons, List.length_cons]
    omega

theorem sum_pairSums (l : List Nat) : (pairSums l).sum = l.sum := by
  induction l using pairSums.induct with
  | case1 => rfl
  | case2 a => rfl
  | case3 a b rest ih =>
    rw [pairSums, List.sum_cons, ih, List.sum_cons, List.sum_cons, Nat.add_assoc]

theorem sum_modify (l : List Nat) {i : Nat} (hi : i < l.length) (weight : Nat) :
    (l.modify i (· + weight)).sum = l.sum + weight := by
  induction l generalizing i with
  | nil => cases hi
  | cons a l ih =>
    cases i with
    | zero =>
      rw [List.modify_zero_cons, List.sum_cons, List.sum_cons]
      omega
    | succ i =>
      rw [List.modify_succ_cons, List.sum_cons, List.sum_cons, ih (Nat.lt_of_succ_lt_succ hi)]
      omega

section Held

variable {MAX_SIZE : Nat}

structure Held (total : Nat) (h : ExponentialHistogram MAX_SIZE) : Prop where
  scale_le : h.scale ≤ 20
  le_scale : -11 ≤ h.scale
  count : h.count = total
  sum : h.buckets.toList.sum = total
  empty : h.indexOffset = none → h.buckets.len ≤ 1
  bounds : ∀ o, h.indexOffset = some o →
    2 ≤ h.buckets.len ∧ least h.scale ≤ o ∧ o + h.buckets.len - 2 ≤ greatest h.scale

theorem held_default : Held 0 (.default : ExponentialHistogram MAX_SIZE) where
  scale_le := le_refl (20 : Int)
  le_scale := show (-11 : Int) ≤ 20 by decide
  count := rfl
  sum := rfl
  empty := fun _ => Nat.zero_le 1
  bounds := fun o ho => by cases ho

theorem compress_held {total : Nat} {h : ExponentialHistogram MAX_SIZE} (hheld : Held total h)
    (htotal : total < 2 ^ 64) {o : Int} (hoffset : h.indexOffset = some o)
    (hscale : -11 < h.scale) :
    ∃ h', h.compress = .ok h' ∧ Held total h' ∧ h'.scale = h.scale - 1 ∧
      h'.indexOffset = some (o / 2) := by
  obtain ⟨hlen, hlow, hhigh⟩ := hheld.bounds o hoffset
  have hscale20 := hheld.scale_le
  obtain ⟨first, rest, hbuckets⟩ : ∃ first rest, h.buckets.toList = first :: rest :=
    List.exists_cons_of_length_pos (by simp only [HeaplessVec.len] at hlen; omega)
  have hrest : h.buckets.len = rest.length + 1 := by
    rw [HeaplessVec.len, hbuckets, List.length_cons]
  set padded := List.replicate (o % 2).toNat 0 ++ rest
  have hpadded : padded.sum = rest.sum := by simp [padded]
  have hlength : (pairSums padded).length = ((o % 2).toNat + rest.length + 1) / 2 := by
    rw [length_pairSums, List.length_append, List.length_replicate]
  have hsum := hheld.sum
  rw [hbuckets, List.sum_cons] at hsum
  have hfit : (first :: pairSums padded).length ≤ MAX_SIZE := by
    have := h.buckets.length_le
    rw [hbuckets, List.length_cons] at this
    rw [List.length_cons, hlength]
    omega
  refine ⟨⟨h.scale - 1, h.sum, h.count, some (o / 2), ⟨_, hfit⟩⟩, ?_, ?_, rfl, rfl⟩
  · rw [ExponentialHistogram.compress, isize_ok (by omega), Except.ok_bind, if_pos (by omega),
      hoffset, unwrap, Except.ok_bind, asUsize_ok (by omega), Except.ok_bind, hbuckets,
      splitAt_one, Except.ok_bind]
    dsimp only
    rw [chunkSums_ok (by rw [hpadded]; omega), Except.ok_bind, List.singleton_append,
      HeaplessVec.collect_ok hfit, Except.ok_bind]
    simp [Int.shiftRight_eq_div_pow]
  · refine ⟨by simpa using by omega, by simpa using by omega, hheld.count, ?_,
      (fun hnone => by cases hnone), ?_⟩
    · rw [List.sum_cons, sum_pairSums, hpadded, hsum]
    · rintro _ ⟨⟩
      have hleast := least_pred hscale20
      have hgreatest := greatest_pred hscale20
      simp only [HeaplessVec.len, List.length_cons, hlength, hleast, hgreatest]
      omega

structure Reached (total : Nat) (i : Nat) (h : ExponentialHistogram MAX_SIZE) : Prop where
  lt : i < MAX_SIZE
  scale_le : h.scale ≤ 20
  le_scale : -11 ≤ h.scale
  count : h.count = total
  sum : h.buckets.toList.sum = total
  empty : h.indexOffset = none → max h.buckets.len (i + 1) ≤ 1
  bounds : ∀ o, h.indexOffset = some o → 2 ≤ max h.buckets.len (i + 1) ∧
    least h.scale ≤ o ∧ o + max h.buckets.len (i + 1) - 2 ≤ greatest h.scale

theorem Held.reached {total : Nat} {h : ExponentialHistogram MAX_SIZE} (hheld : Held total h)
    {i : Nat} (hi : i < MAX_SIZE) (hlen : h.indexOffset = none → i = 0)
    (hbound : ∀ o, h.indexOffset = some o → o + i ≤ greatest h.scale + 1) : Reached total i h where
  lt := hi
  scale_le := hheld.scale_le
  le_scale := hheld.le_scale
  count := hheld.count
  sum := hheld.sum
  empty := fun hnone => by
    have := hheld.empty hnone
    have := hlen hnone
    omega
  bounds := fun o ho => by
    have := hheld.bounds o ho
    have := hbound o ho
    omega

theorem greatest_lt (scale : Int) : greatest scale < 2 ^ 31 := by
  rw [greatest, Int.shiftRight_eq_div_pow]
  have hle : (1024 * 2 ^ 20 : Int) / ((2 ^ (20 - scale).toNat : ℕ) : Int) ≤ 1024 * 2 ^ 20 :=
    Int.ediv_le_self _ (by norm_num)
  omega

theorem lt_least (scale : Int) : -2 ^ 31 < least scale := by
  rw [least, Int.shiftRight_eq_div_pow]
  have hpos : (0 : Int) < ((2 ^ (20 - scale).toNat : ℕ) : Int) := by positivity
  have hle : (-1076 * 2 ^ 20 : Int) ≤
      (-1076 * 2 ^ 20 : Int) / ((2 ^ (20 - scale).toNat : ℕ) : Int) := by
    rw [Int.le_ediv_iff_mul_le hpos]
    nlinarith
  omega

theorem resizeToFit_zero {total : Nat} {h : ExponentialHistogram MAX_SIZE}
    (hmax : 3 ≤ MAX_SIZE) (hheld : Held total h) {value : F64}
    (hindex : h.indexForValue value = .ok none) :
    Reached total 0 h ∧ ∀ depth, h.resizeToFit (depth + 1) value = .ok (0, h) := by
  refine ⟨hheld.reached (by omega) (fun _ => rfl) fun o ho => ?_, fun depth => ?_⟩
  · have := hheld.bounds o ho
    omega
  · rw [ExponentialHistogram.resizeToFit, hindex]
    rfl

theorem resizeToFit_first {total : Nat} {h : ExponentialHistogram MAX_SIZE}
    (hmax : 3 ≤ MAX_SIZE) (hheld : Held total h) {value : F64} {index : Int}
    (hindex : h.indexForValue value = .ok (some index))
    (hwithin : least h.scale ≤ index ∧ index ≤ greatest h.scale)
    (hoffset : h.indexOffset = none) :
    Reached total 1 { h with indexOffset := some index } ∧
      ∀ depth, h.resizeToFit (depth + 1) value =
        .ok (1, { h with indexOffset := some index }) := by
  have hlen := hheld.empty hoffset
  refine ⟨⟨by omega, hheld.scale_le, hheld.le_scale, hheld.count, hheld.sum,
    (fun hnone => by cases hnone), ?_⟩, fun depth => ?_⟩
  · rintro _ ⟨⟩
    exact ⟨by omega, hwithin.1, by dsimp only; omega⟩
  · rw [ExponentialHistogram.resizeToFit, hindex, Except.ok_bind]
    dsimp only
    rw [hoffset]
    rfl

theorem resizeToFit_front {total : Nat} {h : ExponentialHistogram MAX_SIZE}
    (hheld : Held total h) {value : F64} {o index : Int} {first : Nat} {rest : List Nat}
    (hwithin : least h.scale ≤ index ∧ index ≤ greatest h.scale)
    (hoffset : h.indexOffset = some o) (hbuckets : h.buckets.toList = first :: rest)
    (hfront : index < o)
    (hroom : max (1 + (max (index - o + 1) 1).toNat) h.buckets.len + (o - index).toNat ≤ MAX_SIZE)
    (heq : ∀ depth, h.resizeToFit (depth + 1) value = do
      let buckets ← HeaplessVec.collect (first :: (List.replicate (o - index).toNat 0 ++ rest))
      pure (1, { h with indexOffset := some index, buckets := buckets })) :
    ∃ h', Reached total 1 h' ∧ ∀ depth, h.resizeToFit (depth + 1) value = .ok (1, h') := by
  obtain ⟨hlen, holow, hohigh⟩ := hheld.bounds o hoffset
  have hsize : h.buckets.len = rest.length + 1 := by
    rw [HeaplessVec.len, hbuckets, List.length_cons]
  have hfit : (first :: (List.replicate (o - index).toNat 0 ++ rest)).length ≤ MAX_SIZE := by
    rw [List.length_cons, List.length_append, List.length_replicate]
    omega
  have hsum := hheld.sum
  rw [hbuckets] at hsum
  refine ⟨{ h with indexOffset := some index, buckets := ⟨_, hfit⟩ }, ?_, fun depth => ?_⟩
  · refine ⟨by omega, hheld.scale_le, hheld.le_scale, hheld.count, by simpa using hsum,
      (fun hnone => by cases hnone), ?_⟩
    rintro _ ⟨⟩
    simp only [HeaplessVec.len, List.length_cons, List.length_append, List.length_replicate]
    omega
  · rw [heq, HeaplessVec.collect_ok hfit, Except.ok_bind]
    rfl

theorem reached_or_compresses (hmax : 3 ≤ MAX_SIZE) {total : Nat}
    {h : ExponentialHistogram MAX_SIZE} (hheld : Held total h) (value : F64) :
    (∃ i h', Reached total i h' ∧ ∀ depth, h.resizeToFit (depth + 1) value = .ok (i, h')) ∨
      ∃ o, h.indexOffset = some o ∧ -11 < h.scale ∧ ∀ depth, h.resizeToFit (depth + 1) value =
        h.compress >>= fun h => h.resizeToFit depth value := by
  have hscale := hheld.scale_le
  have hlow := hheld.le_scale
  have hrange : -64 < h.scale ∧ h.scale < 64 := by omega
  have hmethod : h.indexForValue value = .ok (indexForValue h.scale value) := if_pos hrange
  cases hindex : indexForValue h.scale value with
  | none =>
    rw [hindex] at hmethod
    exact .inl ⟨0, h, resizeToFit_zero hmax hheld hmethod⟩
  | some index =>
    obtain ⟨hleast, hgreatest⟩ := index_within hscale hindex
    cases hoffset : h.indexOffset with
    | none =>
      rw [hindex] at hmethod
      exact .inl ⟨1, _, resizeToFit_first hmax hheld hmethod ⟨hleast, hgreatest⟩ hoffset⟩
    | some o =>
      obtain ⟨hlen, holow, hohigh⟩ := hheld.bounds o hoffset
      have hlt := greatest_lt h.scale
      have hgt := lt_least h.scale
      obtain ⟨first, rest, hbuckets⟩ : ∃ first rest, h.buckets.toList = first :: rest :=
        List.exists_cons_of_length_pos (by simp only [HeaplessVec.len] at hlen; omega)
      have heq := resizeToFit_offset hrange hindex hoffset hbuckets (by omega) (by omega)
        (by omega)
      by_cases hroom : MAX_SIZE <
          max (1 + (max (index - o + 1) 1).toNat) h.buckets.len + (o - index).toNat
      · refine .inr ⟨o, rfl, ?_, fun depth => by rw [heq, if_pos hroom]⟩
        by_contra hstop
        obtain hlast : h.scale = -11 := by omega
        have hleast11 : least (-11) = -1 := by decide
        have hgreatest11 : greatest (-11) = 0 := by decide
        rw [hlast] at hleast hgreatest holow hohigh
        omega
      · left
        simp only [if_neg hroom] at heq
        by_cases hfront : index < o
        · simp only [if_pos hfront] at heq
          exact ⟨1, resizeToFit_front hheld ⟨hleast, hgreatest⟩ hoffset hbuckets hfront
            (not_lt.mp hroom) heq⟩
        · simp only [if_neg hfront] at heq
          refine ⟨_, h, hheld.reached (i := (index - o + 1).toNat) (by omega)
            (fun hnone => by rw [hoffset] at hnone; cases hnone) fun o' ho' => ?_, heq⟩
          obtain rfl := Option.some.inj (hoffset.symm.trans ho')
          omega

theorem resizeToFit_reached (hmax : 3 ≤ MAX_SIZE) {total : Nat} (htotal : total < 2 ^ 64)
    (value : F64) (k : Nat) (h : ExponentialHistogram MAX_SIZE) (hheld : Held total h)
    (hk : h.scale + 11 = k) :
    ∃ i h', Reached total i h' ∧ ∀ depth, k < depth → h.resizeToFit depth value = .ok (i, h') := by
  induction k generalizing h with
  | zero =>
    rcases reached_or_compresses hmax hheld value with ⟨i, h', hreached, heq⟩ | ⟨o, -, hscale, -⟩
    · refine ⟨i, h', hreached, fun depth hdepth => ?_⟩
      rw [← Nat.sub_add_cancel hdepth]
      exact heq _
    · omega
  | succ k ih =>
    rcases reached_or_compresses hmax hheld value with
      ⟨i, h', hreached, heq⟩ | ⟨o, hoffset, hscale, heq⟩
    · refine ⟨i, h', hreached, fun depth hdepth => ?_⟩
      rw [← Nat.sub_add_cancel (show 1 ≤ depth by omega)]
      exact heq _
    · obtain ⟨h1, hcompress, hheld1, hscale1, -⟩ := compress_held hheld htotal hoffset hscale
      obtain ⟨i, h', hreached, hruns⟩ := ih h1 hheld1 (by omega)
      refine ⟨i, h', hreached, fun depth hdepth => ?_⟩
      rw [← Nat.sub_add_cancel (show 1 ≤ depth by omega), heq, hcompress, Except.ok_bind]
      exact hruns _ (by omega)

theorem recordWeighted_held (hmax : 3 ≤ MAX_SIZE) {total weight : Nat}
    (htotal : total + weight < 2 ^ 64) {h : ExponentialHistogram MAX_SIZE}
    (hheld : Held total h) (value : F64) :
    ∃ h', Held (total + weight) h' ∧
      ∀ depth, 32 ≤ depth → h.recordWeighted depth value weight = .ok h' := by
  have hscale := hheld.scale_le
  have hlow := hheld.le_scale
  obtain ⟨i, h1, hreached, hresize⟩ :=
    resizeToFit_reached hmax (by omega) value (h.scale + 11).toNat h hheld (by omega)
  have hsmall : ∀ x ∈ h1.buckets.toList, x + weight < 2 ^ 64 := by
    intro x hx
    have := List.single_le_sum (fun _ _ => Nat.zero_le _) x hx
    have := hreached.sum
    omega
  obtain ⟨v, hv, hstore⟩ := addAt_resized weight hreached.lt (by omega) hsmall
  have hlen : v.len = max h1.buckets.len (i + 1) := by
    simp only [HeaplessVec.len, hv, List.length_modify, List.length_append, List.length_replicate]
    omega
  refine ⟨_, ?_, fun depth hdepth => recordWeighted_eq (hresize depth (by omega)) hstore
    (by rw [hreached.count]; omega)⟩
  refine ⟨hreached.scale_le, hreached.le_scale, ?_, ?_, fun hnone => ?_, fun o ho => ?_⟩
  · dsimp only
    rw [hreached.count]
  · dsimp only
    rw [hv, sum_modify]
    · simp [hreached.sum]
    · simp only [HeaplessVec.len, List.length_append, List.length_replicate]
      omega
  · dsimp only
    rw [hlen]
    exact hreached.empty hnone
  · dsimp only
    rw [hlen]
    exact hreached.bounds o ho

theorem recordAll_held (hmax : 3 ≤ MAX_SIZE) (calls : List Call)
    (htotal : totalWeight calls < 2 ^ 64) :
    ∃ h : ExponentialHistogram MAX_SIZE, Held (totalWeight calls) h ∧
      ∀ depth, 32 ≤ depth → recordAll depth calls = .ok h := by
  induction calls using List.reverseRecOn with
  | nil => exact ⟨.default, held_default, fun _ _ => rfl⟩
  | append_singleton calls call ih =>
    rw [totalWeight_concat] at htotal ⊢
    obtain ⟨h, hheld, hrun⟩ := ih (by omega)
    obtain ⟨h', hheld', hstep⟩ := recordWeighted_held hmax htotal hheld call.value
    refine ⟨h', hheld', fun depth hdepth => ?_⟩
    rw [recordAll_concat, hrun depth hdepth, Except.ok_bind, hstep depth hdepth]

end Held

end Isz.Amdgpu
