import Isz.Amdgpu.Recording
import Mathlib.Order.WithBot

namespace Isz.Amdgpu

open Bucketing

structure Stats where
  sum : ℚ
  count : Nat

namespace ExponentialHistogram

variable {MAX_SIZE : Nat}

-- f64::INFINITY is ⊤
noncomputable def upperBound (h : ExponentialHistogram MAX_SIZE) (i : Nat) : WithTop ℝ :=
  match h.indexOffset.map fun indexOffset => (i : Int) + indexOffset with
  | none => ⊤
  | some index => (exp2 ((index : ℝ) / exp2 (h.scale : ℝ)) : ℝ)

noncomputable def sample (h : ExponentialHistogram MAX_SIZE) : List (WithTop ℝ × Nat) :=
  h.buckets.toList.zipIdx.map fun (count, i) => (h.upperBound i, count)

def stats (h : ExponentialHistogram MAX_SIZE) : Stats where
  sum := h.sum
  count := h.count

end ExponentialHistogram

def isFinite : WithTop ℝ → Bool
  | none => false
  | some _ => true

-- itertools: the first item that fails the test is still taken
def takeWhileInclusive {α : Type} (p : α → Bool) : List α → List α
  | [] => []
  | a :: rest => if p a then a :: takeWhileInclusive p rest else [a]

def scan {α : Type} : Nat → List (α × Nat) → Except Fault (List (α × Nat))
  | _, [] => .ok []
  | state, (le, value) :: rest => do
    let state ← u64 (state + value)
    let lines ← scan state rest
    pure ((le, state) :: lines)

-- `as i64` on a u64
def asI64 (n : Nat) : Int := if n < 2 ^ 63 then n else n - 2 ^ 64

structure BucketLine where
  le : WithTop ℝ
  field : String
  value : Int

structure StatsLine where
  countField : String
  count : Int
  sumField : String
  sum : ℚ

noncomputable def report {MAX_SIZE : Nat} (field : String) (h : ExponentialHistogram MAX_SIZE) :
    Except Fault (List BucketLine × StatsLine) := do
  let infinityBucket := [((⊤ : WithTop ℝ), 0)]
  let samples := h.sample ++ infinityBucket
  let cumulativeSamples ← scan 0 (takeWhileInclusive (fun sample => isFinite sample.1) samples)
  let lines := cumulativeSamples.map fun (le, value) => ⟨le, field, asI64 value⟩
  let stats := h.stats
  pure (lines, ⟨field ++ "_count", asI64 stats.count, field ++ "_sum", stats.sum⟩)

open Classical in
noncomputable def weightUpTo (le : WithTop ℝ) (calls : List Call) : Nat :=
  ((calls.filter fun call => (call.value.toReal : WithTop ℝ) ≤ le).map Call.weight).sum

theorem takeWhileInclusive_append {α : Type} {p : α → Bool} {l : List α} {a : α}
    (hl : ∀ x ∈ l, p x = true) (ha : p a = false) (rest : List α) :
    takeWhileInclusive p (l ++ a :: rest) = l ++ [a] := by
  induction l with
  | nil => simp [takeWhileInclusive, ha]
  | cons x l ih =>
    rw [List.cons_append, takeWhileInclusive, if_pos (hl x (by simp)),
      ih fun y hy => hl y (by simp [hy])]
    rfl

theorem scan_range {α : Type} (f : Nat → α) (w S : Nat → Nat) (n : Nat)
    (hstep : ∀ i, S (i + 1) = S i + w i) (hsmall : ∀ i, i ≤ n → S i < 2 ^ 64) :
    scan (S 0) ((List.range n).map fun i => (f i, w i)) =
      .ok ((List.range n).map fun i => (f i, S (i + 1))) := by
  induction n generalizing f w S with
  | zero => rfl
  | succ n ih =>
    have htail := ih (fun i => f (i + 1)) (fun i => w (i + 1)) (fun i => S (i + 1))
      (fun i => hstep (i + 1)) fun i hi => hsmall (i + 1) (by omega)
    have hfirst : u64 (S 0 + w 0) = .ok (S 1) := by
      rw [← hstep 0]
      exact u64_ok (hsmall 1 (by omega))
    simp only [List.range_succ_eq_map, List.map_cons, List.map_map, scan, hfirst, Except.ok_bind]
    have hcomp : (List.range n).map ((fun i => (f i, w i)) ∘ Nat.succ) =
        (List.range n).map fun i => (f (i + 1), w (i + 1)) := rfl
    rw [hcomp, htail, Except.ok_bind]
    rfl

section Exact

variable {MAX_SIZE : Nat} {calls : List Call} {h : ExponentialHistogram MAX_SIZE}

theorem exp2_div (scale index : Int) :
    exp2 ((index : ℝ) / exp2 (scale : ℝ)) = base scale ^ index := by
  rw [exp2, exp2, base, ← Real.rpow_intCast, ← Real.rpow_mul (by norm_num), Real.rpow_intCast,
    zpow_neg]
  congr 1
  rw [div_eq_mul_inv, mul_comm]

theorem upperBound_some {lo : Int} (hoffset : h.indexOffset = some lo) (i : Nat) :
    h.upperBound i = ((base h.scale ^ (lo + i) : ℝ) : WithTop ℝ) := by
  rw [ExponentialHistogram.upperBound, hoffset, Option.map_some]
  dsimp only
  rw [exp2_div, add_comm]

theorem weightUpTo_bound (hnat : Natural calls) (scale i : Int) :
    weightUpTo ((base scale ^ i : ℝ) : WithTop ℝ) calls = zeroWeight calls +
      tallyBelow (fun call => indexForValue scale call.value) Call.weight calls i := by
  induction calls with
  | nil => rfl
  | cons call calls ih =>
    have hcall : call.value.IsNat := hnat call (by simp)
    have hrest := ih fun c hc => hnat c (by simp [hc])
    have hpos : (0 : ℝ) < base scale ^ i := zpow_pos (zero_lt_one.trans (one_lt_base scale)) i
    simp only [weightUpTo, zeroWeight, tallyBelow, WithTop.coe_le_coe] at hrest
    simp only [weightUpTo, zeroWeight, tallyBelow, WithTop.coe_le_coe, List.filter_cons]
    cases hindex : indexForValue scale call.value with
    | none =>
      have hzero := (indexForValue_none_iff hcall scale).mp hindex
      have hle : call.value.toReal ≤ base scale ^ i :=
        ((toReal_nonpos_iff hcall).mpr hzero).trans hpos.le
      simp only [hzero, hle, decide_true, if_true, Option.any_none, Bool.false_eq_true, if_false,
        List.map_cons, List.sum_cons]
      omega
    | some k =>
      have hne : ¬call.value.toRat = 0 := fun hzero => by
        rw [(indexForValue_none_iff hcall scale).mpr hzero] at hindex
        cases hindex
      have hiff := toReal_le_base_zpow hcall hindex i
      by_cases hk : k < i
      · simp only [hne, hiff.mpr hk, hk, decide_true, decide_false, if_true, Option.any_some,
          Bool.false_eq_true, if_false, List.map_cons, List.sum_cons]
        omega
      · have hgt : ¬call.value.toReal ≤ base scale ^ i := fun hle => hk (hiff.mp hle)
        simpa only [hne, hgt, hk, decide_false, Option.any_some, Bool.false_eq_true, if_false]
          using hrest

theorem weightUpTo_top (calls : List Call) : weightUpTo ⊤ calls = totalWeight calls := by
  simp [weightUpTo, totalWeight]

theorem weightUpTo_mono {a b : WithTop ℝ} (hab : a ≤ b) (calls : List Call) :
    weightUpTo a calls ≤ weightUpTo b calls := by
  classical
  refine ((List.monotone_filter_right calls fun call hcall => ?_).map Call.weight).sum_le_sum
    (by simp)
  simp only [decide_eq_true_eq] at hcall ⊢
  exact hcall.trans hab

theorem weightUpTo_le (le : WithTop ℝ) (calls : List Call) :
    weightUpTo le calls ≤ totalWeight calls :=
  (weightUpTo_mono le_top calls).trans (weightUpTo_top calls).le

theorem asI64_of_lt {n : Nat} (h : n < 2 ^ 63) : asI64 n = n := if_pos h

noncomputable def lineBound (scale lo : Int) (n i : Nat) : WithTop ℝ :=
  if i < n then ((base scale ^ (lo + i) : ℝ) : WithTop ℝ) else ⊤

theorem lineBound_strict (scale lo : Int) {n i j : Nat} (hij : i < j) (hj : j ≤ n) :
    lineBound scale lo n i < lineBound scale lo n j := by
  rw [lineBound, if_pos (by omega), lineBound]
  split
  case isTrue =>
    rw [WithTop.coe_lt_coe]
    exact zpow_lt_zpow_right₀ (one_lt_base scale) (by omega)
  case isFalse => exact WithTop.coe_lt_top _

def bucketWeight (scale lo : Int) (calls : List Call) (i : Nat) : Nat :=
  if i = 0 then zeroWeight calls else weightAt scale calls (lo + i - 1)

theorem sample_some (hb : Bucketed calls h) {lo hi : Int}
    (hspan : Spans (indices h.scale calls) lo hi) :
    h.sample = (List.range ((hi - lo + 1).toNat + 1)).map fun i =>
      (lineBound h.scale lo ((hi - lo + 1).toNat + 1) i, bucketWeight h.scale lo calls i) := by
  obtain ⟨hoffset, hbuckets⟩ := hb.spans_buckets hspan
  apply List.ext_getElem
  · simp [ExponentialHistogram.sample, hbuckets]
  intro i hi hi'
  simp only [List.length_map, List.length_range] at hi'
  simp only [ExponentialHistogram.sample, List.getElem_map, List.getElem_zipIdx,
    List.getElem_range, zero_add, upperBound_some hoffset, lineBound, hi', if_true, hbuckets]
  cases i with
  | zero => rfl
  | succ j =>
    rw [List.getElem_cons_succ, window_getElem, bucketWeight, if_neg (Nat.succ_ne_zero j)]
    congr 2
    push_cast
    ring

theorem samples_some (hb : Bucketed calls h) {lo hi : Int}
    (hspan : Spans (indices h.scale calls) lo hi) :
    takeWhileInclusive (fun sample : WithTop ℝ × Nat => isFinite sample.1)
      (h.sample ++ [((⊤ : WithTop ℝ), 0)]) =
      (List.range ((hi - lo + 1).toNat + 2)).map fun i =>
        (lineBound h.scale lo ((hi - lo + 1).toNat + 1) i, bucketWeight h.scale lo calls i) := by
  have hle := hspan.le
  rw [takeWhileInclusive_append _ rfl, sample_some hb hspan, List.range_succ
    (n := (hi - lo + 1).toNat + 1), List.map_append]
  · have hlast : weightAt h.scale calls (lo + ((hi - lo + 1).toNat + 1 : ℕ) - 1) = 0 :=
      weightAt_outside hspan (Or.inr (by omega))
    rw [List.map_singleton, bucketWeight, hlast]
    simp [lineBound]
  · rw [sample_some hb hspan]
    intro x hx
    obtain ⟨i, hi, rfl⟩ := List.mem_map.mp hx
    rw [lineBound, if_pos (List.mem_range.mp hi)]
    rfl

def weightBefore (scale lo : Int) (calls : List Call) (i : Nat) : Nat :=
  if i = 0 then 0
  else zeroWeight calls +
    tallyBelow (fun call => indexForValue scale call.value) Call.weight calls (lo + i - 1)

theorem weightBefore_succ {scale lo hi : Int} (hspan : Spans (indices scale calls) lo hi)
    (i : Nat) :
    weightBefore scale lo calls (i + 1) =
      weightBefore scale lo calls i + bucketWeight scale lo calls i := by
  cases i with
  | zero =>
    have hlow : ∀ call ∈ calls, ∀ i, indexForValue scale call.value = some i → lo ≤ i :=
      fun call hcall i hi => (hspan.bounds i (mem_indices.mpr ⟨call, hcall, hi⟩)).1
    simp [weightBefore, bucketWeight, tallyBelow_eq_zero _ _ hlow]
  | succ i =>
    have hnext : lo + (i + 1 + 1 : ℕ) - 1 = lo + (i + 1 : ℕ) - 1 + 1 := by
      push_cast
      ring
    rw [weightBefore, weightBefore, bucketWeight, if_neg (Nat.succ_ne_zero _),
      if_neg (Nat.succ_ne_zero _), if_neg (Nat.succ_ne_zero _), hnext, tallyBelow_succ,
      ← add_assoc]
    rfl

theorem weightUpTo_lineBound (hnat : Natural calls) {scale lo hi : Int}
    (hspan : Spans (indices scale calls) lo hi) {i : Nat} (hi' : i ≤ (hi - lo + 1).toNat + 1) :
    weightUpTo (lineBound scale lo ((hi - lo + 1).toNat + 1) i) calls = zeroWeight calls +
      tallyBelow (fun call => indexForValue scale call.value) Call.weight calls (lo + i) := by
  rw [lineBound]
  split
  case isTrue => exact weightUpTo_bound hnat scale (lo + i)
  case isFalse hend =>
    have hle := hspan.le
    rw [← weightUpTo_bound hnat]
    simp only [weightUpTo]
    congr 2
    refine List.filter_congr fun call hcall => ?_
    simp only [le_top, decide_true, Bool.true_eq, decide_eq_true_eq, WithTop.coe_le_coe]
    cases hindex : indexForValue scale call.value with
    | none =>
      exact (indexForValue_eq_none.mp hindex).trans
        (zpow_pos (zero_lt_one.trans (one_lt_base scale)) _).le
    | some k =>
      have := hspan.bounds k (mem_indices.mpr ⟨call, hcall, hindex⟩)
      exact (toReal_le_base_zpow (hnat call hcall) hindex _).mpr (by omega)

theorem weightBefore_lineBound (hnat : Natural calls) {scale lo hi : Int}
    (hspan : Spans (indices scale calls) lo hi) {i : Nat} (hi' : i ≤ (hi - lo + 1).toNat + 1) :
    weightBefore scale lo calls (i + 1) =
      weightUpTo (lineBound scale lo ((hi - lo + 1).toNat + 1) i) calls := by
  rw [weightUpTo_lineBound hnat hspan hi', weightBefore, if_neg (Nat.succ_ne_zero i)]
  congr 3
  push_cast
  ring

theorem scan_some (hb : Bucketed calls h) (hnat : Natural calls)
    (htotal : totalWeight calls < 2 ^ 63) {lo hi : Int}
    (hspan : Spans (indices h.scale calls) lo hi) :
    scan 0 (takeWhileInclusive (fun sample => isFinite sample.1)
        (h.sample ++ [((⊤ : WithTop ℝ), 0)])) =
      .ok ((List.range ((hi - lo + 1).toNat + 2)).map fun i =>
        (lineBound h.scale lo ((hi - lo + 1).toNat + 1) i,
          weightUpTo (lineBound h.scale lo ((hi - lo + 1).toNat + 1) i) calls)) := by
  have hsmall : ∀ i, i ≤ (hi - lo + 1).toNat + 2 → weightBefore h.scale lo calls i < 2 ^ 64 := by
    intro i hsize
    cases i with
    | zero => exact Nat.two_pow_pos 64
    | succ i =>
      rw [weightBefore_lineBound hnat hspan (by omega)]
      have := weightUpTo_le (lineBound h.scale lo ((hi - lo + 1).toNat + 1) i) calls
      omega
  rw [samples_some hb hspan]
  refine (scan_range (lineBound h.scale lo ((hi - lo + 1).toNat + 1))
    (bucketWeight h.scale lo calls) (weightBefore h.scale lo calls) _ (weightBefore_succ hspan)
    hsmall).trans ?_
  refine congrArg Except.ok (List.map_congr_left fun i hi => ?_)
  rw [weightBefore_lineBound hnat hspan (Nat.lt_succ_iff.mp (List.mem_range.mp hi))]

theorem report_eq (field : String) {lines : List (WithTop ℝ × Nat)}
    (hscan : scan 0 (takeWhileInclusive (fun sample => isFinite sample.1)
      (h.sample ++ [((⊤ : WithTop ℝ), 0)])) = .ok lines) :
    report field h = .ok (lines.map fun line => ⟨line.1, field, asI64 line.2⟩,
      ⟨field ++ "_count", asI64 h.stats.count, field ++ "_sum", h.stats.sum⟩) := by
  rw [report, hscan]
  rfl

theorem report_some (hb : Bucketed calls h) (hnat : Natural calls)
    (htotal : totalWeight calls < 2 ^ 63) (field : String) {lo hi : Int}
    (hspan : Spans (indices h.scale calls) lo hi) :
    report field h = .ok ((List.range ((hi - lo + 1).toNat + 2)).map fun i =>
        ⟨lineBound h.scale lo ((hi - lo + 1).toNat + 1) i, field,
          weightUpTo (lineBound h.scale lo ((hi - lo + 1).toNat + 1) i) calls⟩,
      ⟨field ++ "_count", h.stats.count, field ++ "_sum", h.stats.sum⟩) := by
  have hcount : h.stats.count < 2 ^ 63 := hb.count.trans_lt htotal
  rw [report_eq field (scan_some hb hnat htotal hspan), asI64_of_lt hcount, List.map_map]
  refine congrArg (fun lines => Except.ok (lines, _)) (List.map_congr_left fun i _ => ?_)
  simp only [Function.comp]
  rw [asI64_of_lt ((weightUpTo_le _ calls).trans_lt htotal)]

theorem report_none (hb : Bucketed calls h) (hnat : Natural calls)
    (htotal : totalWeight calls < 2 ^ 63) (field : String) (hnil : indices h.scale calls = []) :
    report field h = .ok ([⟨⊤, field, weightUpTo ⊤ calls⟩],
      ⟨field ++ "_count", h.stats.count, field ++ "_sum", h.stats.sum⟩) := by
  have hcount : h.stats.count < 2 ^ 63 := hb.count.trans_lt htotal
  have hoffset : h.indexOffset = none := by rw [hb.offset, hnil]; rfl
  have hzeros : zeroWeight calls = totalWeight calls := by
    rw [zeroWeight, totalWeight, List.filter_eq_self.mpr]
    intro call hcall
    have hnone : indexForValue h.scale call.value = none := by
      by_contra hsome
      obtain ⟨k, hk⟩ := Option.ne_none_iff_exists'.mp hsome
      have := mem_indices.mpr ⟨call, hcall, hk⟩
      simp [hnil] at this
    simpa using (indexForValue_none_iff (hnat call hcall) _).mp hnone
  have hsamples : scan 0 (takeWhileInclusive (fun sample => isFinite sample.1)
      (h.sample ++ [((⊤ : WithTop ℝ), 0)])) = .ok [(⊤, totalWeight calls)] := by
    have hbound : ∀ i, h.upperBound i = ⊤ := fun i => by
      rw [ExponentialHistogram.upperBound, hoffset]
      rfl
    have hu64 : u64 (totalWeight calls) = .ok (totalWeight calls) := u64_ok (by omega)
    rcases eq_or_ne calls [] with hempty | hne
    · subst hempty
      rw [ExponentialHistogram.sample, hb.nil rfl]
      rfl
    · have hsample : h.sample = [(⊤, totalWeight calls)] := by
        simp [ExponentialHistogram.sample, hb.buckets hne, occupied_of_nil hnil, hzeros, hbound]
      rw [hsample, List.singleton_append, takeWhileInclusive]
      change scan 0 [(⊤, totalWeight calls)] = _
      rw [scan, zero_add, hu64]
      rfl
  rw [report_eq field hsamples, asI64_of_lt hcount, weightUpTo_top, List.map_singleton,
    asI64_of_lt htotal]

end Exact

structure ExactLines {MAX_SIZE : Nat} (field : String) (calls : List Call)
    (h : ExponentialHistogram MAX_SIZE) (lines : List BucketLine) : Prop where
  increasing : lines.Pairwise fun a b => a.le < b.le
  nondecreasing : lines.Pairwise fun a b => a.value ≤ b.value
  last : ∃ front, lines = front ++ [⟨⊤, field, h.stats.count⟩] ∧ ∀ line ∈ front, line.le ≠ ⊤
  exact : ∀ line ∈ lines, line.value = weightUpTo line.le calls

theorem exactLines_of_bounds {MAX_SIZE : Nat} {calls : List Call}
    {h : ExponentialHistogram MAX_SIZE} (hcount : h.stats.count = totalWeight calls)
    (field : String) (bound : Nat → WithTop ℝ) (n : Nat)
    (hstrict : ∀ i j, i < j → j ≤ n → bound i < bound j) (htop : bound n = ⊤) :
    ExactLines field calls h ((List.range (n + 1)).map fun i =>
      ⟨bound i, field, weightUpTo (bound i) calls⟩) where
  increasing := by
    rw [List.pairwise_map]
    exact List.pairwise_lt_range.imp_of_mem fun _ hj hij =>
      hstrict _ _ hij (Nat.lt_succ_iff.mp (List.mem_range.mp hj))
  nondecreasing := by
    rw [List.pairwise_map]
    exact List.pairwise_lt_range.imp_of_mem fun _ hj hij => Int.ofNat_le.mpr (weightUpTo_mono
      (hstrict _ _ hij (Nat.lt_succ_iff.mp (List.mem_range.mp hj))).le calls)
  last := by
    refine ⟨(List.range n).map fun i => ⟨bound i, field, weightUpTo (bound i) calls⟩, ?_, ?_⟩
    · rw [List.range_succ, List.map_append, List.map_singleton, htop, weightUpTo_top, hcount]
    · intro line hline
      obtain ⟨i, hi, rfl⟩ := List.mem_map.mp hline
      exact (htop ▸ hstrict i n (List.mem_range.mp hi) (le_refl n)).ne
  exact := by
    intro line hline
    obtain ⟨i, -, rfl⟩ := List.mem_map.mp hline
    rfl

theorem report_exact {MAX_SIZE : Nat} (hmax : 3 ≤ MAX_SIZE) (calls : List Call)
    (hnat : Natural calls) (htotal : totalWeight calls < 2 ^ 63) (field : String) :
    ∃ (h : ExponentialHistogram MAX_SIZE) (lines : List BucketLine),
      (∀ depth, 32 ≤ depth → recordAll depth calls = .ok h) ∧
      report field h = .ok (lines,
        ⟨field ++ "_count", h.stats.count, field ++ "_sum", h.stats.sum⟩) ∧
      ExactLines field calls h lines := by
  obtain ⟨h, hb, -, hrun⟩ := recordAll_bucketed hmax calls hnat (by omega)
  rcases eq_or_ne (indices h.scale calls) [] with hnil | hne
  · exact ⟨h, _, hrun, report_none hb hnat htotal field hnil,
      exactLines_of_bounds hb.count field (fun _ => ⊤) 0 (fun i j hij hj => by omega) rfl⟩
  · obtain ⟨lo, hi, hspan⟩ := Spans.exists_of_ne_nil hne
    exact ⟨h, _, hrun, report_some hb hnat htotal field hspan,
      exactLines_of_bounds hb.count field _ _ (fun i j => lineBound_strict h.scale lo)
        (by simp [lineBound])⟩

theorem report_exact_shifting :
    ∃ (h : ExponentialHistogram 10) (lines : List BucketLine),
      (∀ depth, 32 ≤ depth → recordAll depth
        [⟨F64.ofNat 0 (by decide), 1⟩, ⟨F64.ofNat 1024 (by decide), 1⟩] = .ok h) ∧
      report "temperature" h = .ok (lines,
        ⟨"temperature" ++ "_count", h.stats.count, "temperature" ++ "_sum", h.stats.sum⟩) ∧
      ExactLines "temperature"
        [⟨F64.ofNat 0 (by decide), 1⟩, ⟨F64.ofNat 1024 (by decide), 1⟩] h lines :=
  report_exact (by decide) _ (natural_pair _ _ _ _ _ _) (by decide) "temperature"

end Isz.Amdgpu
