import Isz.Amdgpu.Derive
import Isz.Amdgpu.Encoding
import Isz.Amdgpu.Parsing
import Isz.Amdgpu.Report

namespace Isz.Amdgpu

open Bucketing

theorem natAbs_mod_lt (value : Nat) : ((value % 2 ^ 64 : Nat) : Int).natAbs < 2 ^ 128 := by
  rw [Int.natAbs_natCast]
  omega

-- `value as f64`; no field is wider than a u64
def asF64 (value : Nat) : F64 := Derive.ofInteger (value % 2 ^ 64 : Nat) (natAbs_mod_lt value)

def WeightedValue.call (c : WeightedValue) : Call := ⟨asF64 c.value, c.weight⟩

-- what has a histogram of its own, in the order of the report calls
def elements (r : Revision) : List (Field × Option Nat) :=
  (r.fields.filter fun f => f.Recorded).flatMap fun f =>
    match f.count with
    | none => [(f, none)]
    | some len => (List.range len).map fun i => (f, some i)

-- the points of one report(&mut w, builder, field, hist); index is its tag
structure Section where
  index : Option Nat
  lines : List BucketLine
  stats : StatsLine

namespace Recorder

def histogram (depth : Nat) (self : Recorder) (field : String) (index : Option Nat) :
    Except Fault (ExponentialHistogram 20) :=
  recordAll depth
    ((self.calls.filter fun c => c.field = field ∧ c.index = index).map WeightedValue.call)

noncomputable def report (depth : Nat) (self : Recorder) : Except Fault (List Section) :=
  (elements self.revision).mapM fun element => do
    let hist ← self.histogram depth element.1.name element.2
    let points ← Amdgpu.report element.1.name hist
    pure ⟨element.2, points.1, points.2⟩

end Recorder

noncomputable def MetricsReader.report (depth : Nat) (self : MetricsReader) :
    Except Fault (List Section) :=
  self.r.report depth

section Natural

theorem ofInteger_isNat (n : Nat) (h : (n : Int).natAbs < 2 ^ 128) :
    (Derive.ofInteger n h).IsNat := by
  have hsign : Derive.signOf (n : Int) = 1 := if_neg (by omega)
  simp only [Derive.ofInteger]
  split
  case isTrue =>
    refine ⟨Derive.divRoundEven (n : Int).natAbs ((n : Int).natAbs.log2 + 1 - 53) *
      2 ^ ((n : Int).natAbs.log2 + 1 - 53), ?_⟩
    simp only [F64.toRat, hsign]
    push_cast
    rw [one_mul, zpow_natCast]
  case isFalse =>
    have hpow : ∀ k : Nat, (2 : ℚ) ^ ((k : Int) + 1) = 2 ^ (k + 1) := fun k => by
      exact_mod_cast zpow_natCast (2 : ℚ) (k + 1)
    refine ⟨2 ^ 52 * 2 ^ ((n : Int).natAbs.log2 + 1 - 53 + 1), ?_⟩
    simp only [F64.toRat, hsign, hpow]
    push_cast
    rw [one_mul]

theorem asF64_isNat (value : Nat) : (asF64 value).IsNat :=
  ofInteger_isNat _ (natAbs_mod_lt value)

end Natural

structure Sample where
  values : Assignment
  pad : Nat → UInt8

namespace Sample

def bytes (r : Revision) (s : Sample) : List UInt8 := encode s.values s.pad r

def element (s : Sample) (f : Field) (index : Option Nat) : Nat :=
  (s.values f).values.getD (index.getD 0) 0

def clockField : Field := ⟨"system_clock_counter", .u64, none⟩

def clock (s : Sample) : Nat := s.element clockField none

end Sample

def observations (e : Field × Option Nat) (samples : List Sample) : List Call :=
  (samples.zip samples.tail).map fun p => ⟨asF64 (p.2.element e.1 e.2), p.2.clock - p.1.clock⟩

theorem observations_natural (e : Field × Option Nat) (samples : List Sample) :
    Natural (observations e samples) := by
  intro call hcall
  obtain ⟨p, -, rfl⟩ := List.mem_map.mp hcall
  exact asF64_isNat _

section Structure

variable (r : Revision) (s : Sample)

def Sample.metrics : Metrics :=
  ⟨r, ⟨r.size, r.format, r.content⟩, r.fields.map fun f => (f, (s.values f).values)⟩

theorem readMetrics_bytes : readMetrics r (s.bytes r) = s.metrics r := readMetrics_encode _ _ r

theorem complete_bytes : Complete (s.bytes r) r := by
  refine ⟨(length_encode s.values s.pad r).ge, ?_⟩
  rw [Sample.bytes, readHeader_encode, revisionOf_eq]
  exact ⟨rfl, rfl⟩

theorem find_clockField :
    r.fields.find? (fun f => f.name = "system_clock_counter") = some Sample.clockField := by
  cases r <;> decide

theorem clock_metrics : (s.metrics r).systemClockCounter = s.clock := by
  have hlen : (s.values Sample.clockField).values.length = 1 :=
    (s.values Sample.clockField).length_eq
  obtain ⟨v, hv⟩ := List.length_eq_one_iff.mp hlen
  rw [Metrics.systemClockCounter, Sample.metrics, List.find?_map]
  change ((r.fields.find? (fun f => f.name = "system_clock_counter")).map _ |>.bind _).getD 0 = _
  rw [find_clockField]
  simp [Sample.clock, Sample.element, hv]

theorem recordCalls_metrics (weight : Nat) :
    recordCalls (s.metrics r) weight =
      (elements r).map fun e => ⟨e.1.name, e.2, s.element e.1 e.2, weight⟩ := by
  rw [recordCalls, Sample.metrics, elements, List.filter_map, List.flatMap_map, List.map_flatMap]
  refine List.flatMap_congr fun f _ => ?_
  have hlen := (s.values f).length_eq
  dsimp only
  cases hcount : f.count with
  | none =>
    rw [Field.length, hcount] at hlen
    obtain ⟨v, hv⟩ := List.length_eq_one_iff.mp hlen
    simp [Sample.element, hv]
  | some len =>
    rw [Field.length, hcount, Option.getD_some] at hlen
    apply List.ext_getElem
    · simp [hlen]
    · intro i hi hi'
      simp only [List.length_map, List.length_zipIdx] at hi
      simp [Sample.element, List.getD_eq_getElem?_getD, List.getElem?_eq_getElem hi]

theorem nodup_names : (r.fields.map Field.name).Nodup := by
  cases r <;> decide +kernel

theorem mem_elements {e : Field × Option Nat} (he : e ∈ elements r) : e.1 ∈ r.fields := by
  obtain ⟨f, hf, hmem⟩ := List.mem_flatMap.mp he
  have hfield : e.1 = f := by
    split at hmem
    · rw [List.mem_singleton.mp hmem]
    · obtain ⟨i, -, rfl⟩ := List.mem_map.mp hmem
      rfl
  exact hfield ▸ (List.mem_filter.mp hf).1

theorem nodup_elements : (elements r).Nodup := by
  have hfields : (r.fields.filter fun f => f.Recorded).Nodup :=
    (List.Nodup.of_map _ (nodup_names r)).filter _
  refine List.nodup_flatMap.mpr ⟨fun f _ => ?_, hfields.imp fun {f g} hne => ?_⟩
  · split
    · exact List.nodup_singleton _
    · exact List.nodup_range.map fun i j h => Option.some.inj (Prod.mk.inj h).2
  · have hblock : ∀ (f : Field) (e : Field × Option Nat), e ∈ (match f.count with
        | none => [(f, none)]
        | some len => (List.range len).map fun i => (f, some i)) → e.1 = f := by
      intro f e he
      split at he
      · rw [List.mem_singleton.mp he]
      · obtain ⟨i, -, rfl⟩ := List.mem_map.mp he
        rfl
    intro e hf hg
    exact hne ((hblock f e hf).symm.trans (hblock g e hg))

theorem filter_map_element {e : Field × Option Nat} (he : e ∈ elements r)
    (g : Field × Option Nat → WeightedValue)
    (hg : ∀ e, (g e).field = e.1.name ∧ (g e).index = e.2) :
    ((elements r).map g).filter (fun c => c.field = e.1.name ∧ c.index = e.2) = [g e] := by
  have hfilter : (elements r).filter (fun e' => e' = e) = [e] := by
    rw [List.filter_eq, List.count_eq_one_of_mem (nodup_elements r) he, List.replicate_one]
  rw [List.filter_map, ← List.map_singleton, ← hfilter]
  refine congrArg _ (List.filter_congr fun e' he' => ?_)
  simp only [Function.comp, hg, decide_eq_decide]
  constructor
  · rintro ⟨hname, hindex⟩
    have hfield := List.inj_on_of_nodup_map (nodup_names r) (mem_elements r he')
      (mem_elements r he) hname
    exact Prod.ext hfield hindex
  · rintro rfl
    exact ⟨rfl, rfl⟩

end Structure

section Run

variable (r : Revision) (first : Sample)

def lastOf (samples : List Sample) : Sample :=
  (first :: samples).getLast (List.cons_ne_nil first samples)

theorem lastOf_concat (samples : List Sample) (s : Sample) : lastOf first (samples ++ [s]) = s := by
  simp [lastOf]

theorem pairs_concat (samples : List Sample) (s : Sample) :
    (first :: (samples ++ [s])).zip (samples ++ [s]) =
      (first :: samples).zip samples ++ [(lastOf first samples, s)] := by
  induction samples generalizing first with
  | nil => rfl
  | cons next samples ih =>
    rw [List.cons_append, List.zip_cons_cons, ih next, List.zip_cons_cons]
    rfl

def recorderAfter (samples : List Sample) : Recorder where
  revision := r
  lastSystemClockCounter := some (lastOf first samples).clock
  calls := ((first :: samples).zip samples).flatMap fun p =>
    (elements r).map fun e => ⟨e.1.name, e.2, p.2.element e.1 e.2, p.2.clock - p.1.clock⟩

theorem record_after {samples : List Sample} {s : Sample}
    (hle : (lastOf first samples).clock ≤ s.clock) :
    (recorderAfter r first samples).record (s.metrics r) =
      .ok (recorderAfter r first (samples ++ [s])) := by
  rw [Recorder.record, recorderAfter]
  dsimp only
  rw [clock_metrics, if_pos hle, recordCalls_metrics, recorderAfter, pairs_concat, lastOf_concat,
    List.flatMap_append, List.flatMap_singleton]

theorem record_opened : (Recorder.fresh r).record (first.metrics r) =
    .ok (recorderAfter r first []) := by
  rw [Recorder.record, Recorder.fresh]
  dsimp only
  rw [clock_metrics]
  rfl

theorem step_sample {recorder next : Recorder} (hr : recorder.revision = r) {s : Sample}
    (hrecord : recorder.record (s.metrics r) = .ok next) (position : Nat) :
    MetricsReader.step ⟨position, recorder⟩ (s.bytes r) = some ⟨r.size, next⟩ := by
  have hread : tryFromFile recorder.revision ⟨s.bytes r, position⟩ =
      (.ok (s.metrics r), ⟨s.bytes r, r.size⟩) := by
    rw [hr, tryFromFile_eq, if_pos (complete_bytes r s).1, readMetrics_bytes, checkRevision_eq]
    exact congrArg (·, _) (if_pos (revisionOf_eq.mpr ⟨rfl, rfl⟩))
  rw [MetricsReader.step, MetricsReader.record]
  dsimp only
  rw [Recorder.sample, hread]
  dsimp only
  rw [hrecord]
  rfl

theorem new_sample : MetricsReader.new (first.bytes r) = .ok ⟨headerSize, Recorder.fresh r⟩ := by
  have hcomplete := complete_bytes r first
  have hnew : Recorder.new ⟨first.bytes r, 0⟩ =
      (.ok (Recorder.fresh r), ⟨first.bytes r, 0 + headerSize⟩) :=
    new_eq_ok.mpr ⟨by simpa using complete_length hcomplete, ⟨r, hcomplete.2, rfl⟩, rfl⟩
  rw [MetricsReader.new, hnew, Nat.zero_add]

def NonDecreasing (samples : List Sample) : Prop :=
  samples.Pairwise fun s s' => s.clock ≤ s'.clock

theorem nonDecreasing_concat {samples : List Sample} {s : Sample}
    (hclock : NonDecreasing (first :: (samples ++ [s]))) :
    NonDecreasing (first :: samples) ∧ (lastOf first samples).clock ≤ s.clock := by
  rw [NonDecreasing, ← List.cons_append, List.pairwise_append] at hclock
  obtain ⟨hbefore, -, hle⟩ := hclock
  exact ⟨hbefore, hle _ (List.getLast_mem _) s (List.mem_singleton_self s)⟩

theorem run_samples {samples : List Sample} (hclock : NonDecreasing (first :: samples)) :
    ((first :: samples).map (Sample.bytes r)).foldlM MetricsReader.step
      ⟨headerSize, Recorder.fresh r⟩ = some ⟨r.size, recorderAfter r first samples⟩ := by
  induction samples using List.reverseRecOn with
  | nil => exact congrArg (· >>= pure) (step_sample r rfl (record_opened r first) headerSize)
  | append_singleton samples s ih =>
    obtain ⟨hbefore, hle⟩ := nonDecreasing_concat first hclock
    rw [← List.cons_append, List.map_append, List.foldlM_append, ih hbefore]
    exact congrArg (· >>= pure) (step_sample r rfl (record_after r first hle) r.size)

theorem elapsed {samples : List Sample} (hclock : NonDecreasing (first :: samples))
    (e : Field × Option Nat) :
    totalWeight (observations e (first :: samples)) + first.clock =
      (lastOf first samples).clock := by
  induction samples using List.reverseRecOn with
  | nil => exact Nat.zero_add _
  | append_singleton samples s ih =>
    obtain ⟨hbefore, hle⟩ := nonDecreasing_concat first hclock
    have := ih hbefore
    rw [observations, List.tail_cons] at this ⊢
    rw [pairs_concat, List.map_append, List.map_singleton, totalWeight_concat, lastOf_concat]
    dsimp only
    omega

theorem histogram_after {e : Field × Option Nat} (he : e ∈ elements r) (depth : Nat)
    (samples : List Sample) :
    (recorderAfter r first samples).histogram depth e.1.name e.2 =
      recordAll depth (observations e (first :: samples)) := by
  rw [Recorder.histogram, recorderAfter, observations, List.tail_cons]
  dsimp only
  rw [List.filter_flatMap, List.map_flatMap, List.map_eq_flatMap]
  refine congrArg _ (List.flatMap_congr fun p _ => ?_)
  rw [filter_map_element r he _ fun _ => ⟨rfl, rfl⟩]
  rfl

end Run

section Bounds

variable {calls : List Call} (hnat : Natural calls) (htotal : totalWeight calls < 2 ^ 63)

structure Printed (field : String) (calls : List Call) (hist : ExponentialHistogram 20)
    (lo : Int) (n : Nat) : Prop where
  bucketed : Bucketed calls hist
  tight : Tight 20 calls hist.scale
  runs : ∀ depth, 32 ≤ depth → recordAll depth calls = .ok hist
  report_eq : report field hist = .ok ((List.range (n + 1)).map fun i =>
      ⟨lineBound hist.scale lo n i, field, weightUpTo (lineBound hist.scale lo n i) calls⟩,
    ⟨field ++ "_count", totalWeight calls, field ++ "_sum", totalSum calls⟩)

theorem lineBound_lt {n i : Nat} (scale lo : Int) (h : i < n) :
    lineBound scale lo n i = ((base scale ^ (lo + i) : ℝ) : WithTop ℝ) :=
  if_pos h

theorem lineBound_last (scale lo : Int) (n : Nat) : lineBound scale lo n n = ⊤ :=
  if_neg (lt_irrefl n)

include hnat htotal in
theorem exists_printed (field : String) :
    ∃ (hist : ExponentialHistogram 20) (lo : Int) (n : Nat), Printed field calls hist lo n := by
  obtain ⟨hist, hb, htight, hrun⟩ : ∃ hist : ExponentialHistogram 20, _ :=
    recordAll_bucketed (by decide) calls hnat (by omega)
  have hcount : hist.stats.count = totalWeight calls := hb.count
  have hsum : hist.stats.sum = totalSum calls := hb.sum
  rcases eq_or_ne (indices hist.scale calls) [] with hnil | hne
  · refine ⟨hist, 0, 0, hb, htight, hrun, ?_⟩
    rw [report_none hb hnat htotal field hnil, hcount, hsum]
    rfl
  · obtain ⟨lo, hi, hspan⟩ := Spans.exists_of_ne_nil hne
    refine ⟨hist, lo, (hi - lo + 1).toNat + 1, hb, htight, hrun, ?_⟩
    rw [report_some hb hnat htotal field hspan, hcount, hsum]

theorem fits_of_append {more : List Call} {scale : Int} (h : Fits 20 (calls ++ more) scale) :
    Fits 20 calls scale := by
  intro lo hi hlo hhi
  have hspan := spans_of_min_max hlo hhi
  have hmem : ∀ i ∈ indices scale calls, i ∈ indices scale (calls ++ more) := fun i hi => by
    rw [indices_append]
    exact List.mem_append_left _ hi
  obtain ⟨lo', hi', hspan'⟩ := Spans.exists_of_ne_nil (List.ne_nil_of_mem (hmem lo hspan.lo_mem))
  have hlow := (hspan'.bounds lo (hmem lo hspan.lo_mem)).1
  have hhigh := (hspan'.bounds hi (hmem hi hspan.hi_mem)).2
  have := h lo' hi' hspan'.min?_eq hspan'.max?_eq
  omega

theorem scale_le_of_append {more : List Call} {hist hist' : ExponentialHistogram 20}
    (hb : Bucketed calls hist) (htight : Tight 20 calls hist.scale)
    (hb' : Bucketed (calls ++ more) hist') : hist'.scale ≤ hist.scale :=
  (hb.best_scale htight).2 ⟨hb'.scale_le, fits_of_append hb'.fits⟩

theorem base_eq_pow {scale scale' : Int} (hle : scale' ≤ scale) :
    base scale' = base scale ^ (2 ^ (scale - scale').toNat : Nat) := by
  have hexponent : (2 : ℝ) ^ (-scale') =
      (2 : ℝ) ^ (-scale) * ((2 ^ (scale - scale').toNat : Nat) : ℝ) := by
    push_cast
    rw [← zpow_natCast, ← zpow_add₀ (by norm_num)]
    congr 1
    omega
  rw [base, base, hexponent, Real.rpow_mul (by norm_num), Real.rpow_natCast]

theorem lineBound_nested {scale scale' : Int} (hle : scale' ≤ scale) {lo lo' : Int}
    {n n' i i' j : Nat} (hi : i ≤ n) (hj : j < n) (hi' : i' ≤ n')
    (hlow : lineBound scale lo n i ≤ lineBound scale' lo' n' i')
    (hhigh : lineBound scale' lo' n' i' ≤ lineBound scale lo n j) :
    ∃ k, k ≤ n ∧ lineBound scale lo n k = lineBound scale' lo' n' i' := by
  have hfinite : lineBound scale lo n j < ⊤ := by
    rw [← lineBound_last scale lo n]
    exact lineBound_strict scale lo hj (le_refl n)
  have hlast : i' < n' := by
    rcases Nat.lt_or_eq_of_le hi' with hlt | rfl
    · exact hlt
    · rw [lineBound_last] at hhigh
      exact absurd hfinite (not_lt.mpr hhigh)
  have hfirst : i < n := by
    rcases Nat.lt_or_eq_of_le hi with hlt | rfl
    · exact hlt
    · rw [lineBound_last] at hlow
      exact absurd hfinite (not_lt.mpr (hlow.trans hhigh))
  have hsame : base scale' ^ (lo' + i') =
      base scale ^ ((2 ^ (scale - scale').toNat : Nat) * (lo' + i' : Int)) := by
    rw [base_eq_pow hle, ← zpow_natCast, ← zpow_mul]
  have hone := one_lt_base scale
  rw [lineBound_lt _ _ hlast, hsame] at hlow hhigh ⊢
  rw [lineBound_lt _ _ hfirst, WithTop.coe_le_coe, zpow_le_zpow_iff_right₀ hone] at hlow
  rw [lineBound_lt _ _ hj, WithTop.coe_le_coe, zpow_le_zpow_iff_right₀ hone] at hhigh
  generalize ((2 ^ (scale - scale').toNat : Nat) : Int) * (lo' + i') = index at hlow hhigh ⊢
  refine ⟨(index - lo).toNat, by omega, ?_⟩
  rw [lineBound_lt _ _ (by omega), Int.toNat_of_nonneg (by omega), add_sub_cancel]

end Bounds

section Sections

variable {first : Sample} {samples : List Sample} {e : Field × Option Nat}
  {hist hist' : ExponentialHistogram 20} {lo lo' : Int} {n n' : Nat}

noncomputable def sectionOf (e : Field × Option Nat) (calls : List Call)
    (hist : ExponentialHistogram 20) (lo : Int) (n : Nat) : Section where
  index := e.2
  lines := (List.range (n + 1)).map fun i => ⟨lineBound hist.scale lo n i, e.1.name,
    weightUpTo (lineBound hist.scale lo n i) calls⟩
  stats := ⟨e.1.name ++ "_count", totalWeight calls, e.1.name ++ "_sum", totalSum calls⟩

structure ExactSection (first : Sample) (samples : List Sample) (e : Field × Option Nat)
    (s : Section) : Prop where
  index : s.index = e.2
  increasing : s.lines.Pairwise fun a b => a.le < b.le
  exact : ∀ line ∈ s.lines, line.field = e.1.name ∧
    line.value = weightUpTo line.le (observations e (first :: samples))
  last : ∃ front, s.lines = front ++
    [⟨⊤, e.1.name, ((lastOf first samples).clock - first.clock : Nat)⟩] ∧
      ∀ line ∈ front, line.le ≠ ⊤
  stats : s.stats = ⟨e.1.name ++ "_count", ((lastOf first samples).clock - first.clock : Nat),
    e.1.name ++ "_sum", totalSum (observations e (first :: samples))⟩

theorem sectionOf_exact (hclock : NonDecreasing (first :: samples)) :
    ExactSection first samples e
      (sectionOf e (observations e (first :: samples)) hist lo n) := by
  have htotal : totalWeight (observations e (first :: samples)) =
      (lastOf first samples).clock - first.clock := by
    have := elapsed first hclock e
    omega
  refine ⟨rfl, ?_, ?_, ?_, ?_⟩
  · rw [sectionOf, List.pairwise_map]
    exact List.pairwise_lt_range.imp_of_mem fun _ hj hij =>
      lineBound_strict _ _ hij (Nat.lt_succ_iff.mp (List.mem_range.mp hj))
  · intro line hline
    obtain ⟨i, -, rfl⟩ := List.mem_map.mp hline
    exact ⟨rfl, rfl⟩
  · refine ⟨(List.range n).map fun i => ⟨lineBound hist.scale lo n i, e.1.name,
      weightUpTo (lineBound hist.scale lo n i) (observations e (first :: samples))⟩, ?_, ?_⟩
    · rw [sectionOf, List.range_succ, List.map_append, List.map_singleton, lineBound_last,
        weightUpTo_top, htotal]
    · intro line hline
      obtain ⟨i, hi, rfl⟩ := List.mem_map.mp hline
      rw [lineBound_lt _ _ (List.mem_range.mp hi)]
      exact WithTop.coe_ne_top
  · rw [sectionOf, htotal]

structure Grown (a b : Section) : Prop where
  index : b.index = a.index
  value : ∀ line ∈ a.lines, ∀ line' ∈ b.lines, line.le = line'.le → line.value ≤ line'.value
  count : a.stats.count ≤ b.stats.count
  sum : a.stats.sum ≤ b.stats.sum
  nested : ∀ low ∈ a.lines, ∀ high ∈ a.lines, high.le ≠ ⊤ → ∀ line' ∈ b.lines,
    low.le ≤ line'.le → line'.le ≤ high.le → ∃ line ∈ a.lines, line.le = line'.le

theorem weightUpTo_append (le : WithTop ℝ) (calls more : List Call) :
    weightUpTo le (calls ++ more) = weightUpTo le calls + weightUpTo le more := by
  simp [weightUpTo]

theorem totalSum_nonneg {calls : List Call} (hnat : Natural calls) : 0 ≤ totalSum calls := by
  refine List.sum_nonneg fun x hx => ?_
  obtain ⟨call, hcall, rfl⟩ := List.mem_map.mp hx
  obtain ⟨v, hv⟩ := hnat call hcall
  rw [hv]
  positivity

theorem sectionOf_grown {calls more : List Call} (hmore : Natural more)
    (hscale : hist'.scale ≤ hist.scale) :
    Grown (sectionOf e calls hist lo n) (sectionOf e (calls ++ more) hist' lo' n') := by
  refine ⟨rfl, ?_, ?_, ?_, ?_⟩
  · intro line hline line' hline' hle
    obtain ⟨i, -, rfl⟩ := List.mem_map.mp hline
    obtain ⟨i', -, rfl⟩ := List.mem_map.mp hline'
    dsimp only at hle ⊢
    rw [← hle, weightUpTo_append]
    omega
  · rw [sectionOf, sectionOf]
    dsimp only
    rw [← weightUpTo_top, ← weightUpTo_top, weightUpTo_append]
    omega
  · have hsum : totalSum (calls ++ more) = totalSum calls + totalSum more := by
      simp [totalSum]
    rw [sectionOf, sectionOf]
    dsimp only
    rw [hsum]
    exact le_add_of_nonneg_right (totalSum_nonneg hmore)
  · intro low hlow high hhigh htop line' hline' hle hle'
    obtain ⟨i, hi, rfl⟩ := List.mem_map.mp hlow
    obtain ⟨j, hj, rfl⟩ := List.mem_map.mp hhigh
    obtain ⟨i', hi', rfl⟩ := List.mem_map.mp hline'
    rw [List.mem_range, Nat.lt_succ_iff] at hi hj hi'
    have hfinite : j < n := by
      refine Nat.lt_of_le_of_ne hj fun heq => htop ?_
      rw [heq]
      exact lineBound_last _ _ _
    obtain ⟨k, hk, hbound⟩ := lineBound_nested hscale hi hfinite hi' hle hle'
    exact ⟨_, List.mem_map.mpr ⟨k, List.mem_range.mpr (Nat.lt_succ_iff.mpr hk), rfl⟩, hbound⟩

theorem report_after (r : Revision) (first : Sample) (samples : List Sample)
    {hist : Field × Option Nat → ExponentialHistogram 20} {lo : Field × Option Nat → Int}
    {n : Field × Option Nat → Nat}
    (hprinted : ∀ e, Printed e.1.name (observations e (first :: samples)) (hist e) (lo e) (n e))
    {depth : Nat} (hdepth : 32 ≤ depth) (position : Nat) :
    MetricsReader.report depth ⟨position, recorderAfter r first samples⟩ =
      .ok ((elements r).map fun e =>
        sectionOf e (observations e (first :: samples)) (hist e) (lo e) (n e)) := by
  rw [MetricsReader.report, Recorder.report]
  refine Except.mapM_ok fun e he => ?_
  rw [histogram_after r first he, (hprinted e).runs depth hdepth, Except.ok_bind,
    (hprinted e).report_eq]
  rfl

end Sections

theorem reports_exact (r : Revision) (first : Sample) (samples : List Sample)
    (hclock : NonDecreasing (first :: samples))
    (hspan : (lastOf first samples).clock - first.clock < 2 ^ 63) :
    ∃ opened self sections, MetricsReader.new (first.bytes r) = .ok opened ∧
      ((first :: samples).map (Sample.bytes r)).foldlM MetricsReader.step opened = some self ∧
      (∀ depth, 32 ≤ depth → self.report depth = .ok sections) ∧
      List.Forall₂ (ExactSection first samples) (elements r) sections := by
  have htotal : ∀ e, totalWeight (observations e (first :: samples)) < 2 ^ 63 := fun e => by
    have := elapsed first hclock e
    omega
  choose hist lo n hprinted using fun e : Field × Option Nat =>
    exists_printed (observations_natural e (first :: samples)) (htotal e) e.1.name
  refine ⟨_, _, _, new_sample r first, run_samples r first hclock,
    fun depth hdepth => report_after r first samples hprinted hdepth _, ?_⟩
  rw [List.forall₂_map_right_iff, List.forall₂_same]
  exact fun e _ => sectionOf_exact hclock

def filled (v : Nat) (h : v < 256) : Sample where
  values := fun f =>
    { values := List.replicate f.length v
      length_eq := List.length_replicate
      bounded := fun w hw => by
        rw [List.eq_of_mem_replicate hw]
        exact h.trans_le (Nat.le_self_pow f.type.size_pos.ne' 256) }
  pad := fun _ => 0

theorem nonDecreasing_filled : NonDecreasing [filled 5 (by decide), filled 9 (by decide)] := by
  simp [NonDecreasing, filled, Sample.clock, Sample.element, Sample.clockField, Field.length]

theorem reports_exact_two_samples :
    ∃ opened self sections,
      MetricsReader.new ((filled 5 (by decide)).bytes .v2_2) = .ok opened ∧
      ([filled 5 (by decide), filled 9 (by decide)].map (Sample.bytes .v2_2)).foldlM
        MetricsReader.step opened = some self ∧
      (∀ depth, 32 ≤ depth → self.report depth = .ok sections) ∧
      List.Forall₂ (ExactSection (filled 5 (by decide)) [filled 9 (by decide)])
        (elements .v2_2) sections :=
  reports_exact .v2_2 _ _ nonDecreasing_filled (by decide)

theorem observations_append (e : Field × Option Nat) (first : Sample)
    (samples more : List Sample) :
    ∃ later, Natural later ∧ observations e (first :: (samples ++ more)) =
      observations e (first :: samples) ++ later := by
  induction samples generalizing first with
  | nil => exact ⟨observations e (first :: more), observations_natural e _, rfl⟩
  | cons s samples ih =>
    obtain ⟨later, hlater, heq⟩ := ih s
    exact ⟨later, hlater, congrArg (_ :: ·) heq⟩

theorem reports_grow (r : Revision) (first : Sample) (samples more : List Sample)
    (hclock : NonDecreasing (first :: (samples ++ more)))
    (hspan : (lastOf first (samples ++ more)).clock - first.clock < 2 ^ 63) :
    ∃ opened self later sections sections', MetricsReader.new (first.bytes r) = .ok opened ∧
      ((first :: samples).map (Sample.bytes r)).foldlM MetricsReader.step opened = some self ∧
      (more.map (Sample.bytes r)).foldlM MetricsReader.step self = some later ∧
      (∀ depth, 32 ≤ depth →
        self.report depth = .ok sections ∧ later.report depth = .ok sections') ∧
      List.Forall₂ Grown sections sections' := by
  have hbefore : NonDecreasing (first :: samples) := by
    rw [NonDecreasing, ← List.cons_append, List.pairwise_append] at hclock
    exact hclock.1
  have htotal : ∀ e, totalWeight (observations e (first :: (samples ++ more))) < 2 ^ 63 :=
    fun e => by
      have := elapsed first hclock e
      omega
  have hsmall : ∀ e, totalWeight (observations e (first :: samples)) < 2 ^ 63 := fun e => by
    obtain ⟨later, -, heq⟩ := observations_append e first samples more
    have := htotal e
    rw [heq, ← weightUpTo_top, weightUpTo_append] at this
    rw [← weightUpTo_top]
    omega
  choose hist lo n hprinted using fun e : Field × Option Nat =>
    exists_printed (observations_natural e (first :: samples)) (hsmall e) e.1.name
  choose hist' lo' n' hprinted' using fun e : Field × Option Nat =>
    exists_printed (observations_natural e (first :: (samples ++ more))) (htotal e) e.1.name
  have hlater : (more.map (Sample.bytes r)).foldlM MetricsReader.step
      ⟨r.size, recorderAfter r first samples⟩ =
        some ⟨r.size, recorderAfter r first (samples ++ more)⟩ := by
    have hrun := run_samples r first hclock
    rw [← List.cons_append, List.map_append, List.foldlM_append, run_samples r first hbefore]
      at hrun
    exact hrun
  refine ⟨_, _, _, _, _, new_sample r first, run_samples r first hbefore, hlater,
    fun depth hdepth => ⟨report_after r first samples hprinted hdepth _,
      report_after r first (samples ++ more) hprinted' hdepth _⟩, ?_⟩
  rw [List.forall₂_map_left_iff, List.forall₂_map_right_iff, List.forall₂_same]
  intro e _
  obtain ⟨later, hlater, heq⟩ := observations_append e first samples more
  have hb' := (hprinted' e).bucketed
  rw [heq] at hb' ⊢
  exact sectionOf_grown hlater
    (scale_le_of_append (hprinted e).bucketed (hprinted e).tight hb')

theorem reports_grow_two_samples :
    ∃ opened self later sections sections',
      MetricsReader.new ((filled 5 (by decide)).bytes .v1_3) = .ok opened ∧
      ([filled 5 (by decide)].map (Sample.bytes .v1_3)).foldlM MetricsReader.step opened =
        some self ∧
      ([filled 9 (by decide)].map (Sample.bytes .v1_3)).foldlM MetricsReader.step self =
        some later ∧
      (∀ depth, 32 ≤ depth →
        self.report depth = .ok sections ∧ later.report depth = .ok sections') ∧
      List.Forall₂ Grown sections sections' :=
  reports_grow .v1_3 _ [] _ nonDecreasing_filled (by decide)

end Isz.Amdgpu
