import Isz.Amdgpu.Batch

namespace Isz.Amdgpu

open Bucketing

section Step

variable {MAX_SIZE : Nat} {calls : List Call} {call : Call} {h : ExponentialHistogram MAX_SIZE}

structure Recorded (calls : List Call) (call : Call) (h h' : ExponentialHistogram MAX_SIZE) :
    Prop where
  bucketed : Bucketed (calls ++ [call]) h'
  tight : Tight MAX_SIZE (calls ++ [call]) h'.scale
  runs : ∀ depth, 32 ≤ depth → h.recordWeighted depth call.value call.weight = .ok h' ∧
    ∃ i resized, h.resizeToFit depth call.value = .ok (i, resized) ∧ i < MAX_SIZE

theorem recorded_first (hmax : 3 ≤ MAX_SIZE) (hb : Bucketed calls h) (hvalue : call.value.IsNat)
    (hpos : call.value.toRat ≠ 0) (htight : Tight MAX_SIZE (calls ++ [call]) h.scale)
    (htotal : totalWeight (calls ++ [call]) < 2 ^ 64) (hnil : indices h.scale calls = []) :
    ∃ h', Recorded calls call h h' := by
  rw [totalWeight_concat] at htotal
  obtain ⟨index, hindex⟩ := exists_index hvalue hpos h.scale
  have hoffset : h.indexOffset = none := by rw [hb.offset, hnil]; rfl
  have hresize : ∀ depth, h.resizeToFit (depth + 1) call.value =
      .ok (1, { h with indexOffset := some index }) := fun depth => by
    rw [ExponentialHistogram.resizeToFit, method_indexForValue hb, Except.ok_bind, hindex]
    dsimp only
    rw [hoffset]
    rfl
  obtain ⟨v, hv, hstore⟩ := addAt_resized (v := h.buckets) (i := 1) call.weight
    (by omega) (by omega) fun x hx => by
      have := bucket_le hb x hx
      omega
  have hzero : ∀ i, weightAt h.scale calls i = 0 := fun i =>
    tally_eq_zero _ _ fun c hc heq => by
      have := mem_indices.mpr ⟨c, hc, heq⟩
      simp [hnil] at this
  have hspan : Spans (indices h.scale (calls ++ [call])) index index := by
    rw [indices_append, hnil, indices_singleton hindex, List.nil_append]
    exact .singleton index
  have hpadded : h.buckets.toList ++ List.replicate (1 + 1 - h.buckets.len) 0 =
      zeroWeight calls :: window (weightAt h.scale calls) index 0 ++ List.replicate 1 0 := by
    rcases eq_or_ne calls [] with hempty | hne
    · subst hempty
      simp [HeaplessVec.len, hb.nil rfl, zeroWeight]
    · simp [HeaplessVec.len, hb.buckets hne, occupied_of_nil hnil]
  have hwindow := stored_window (n := 0) hindex hpos (le_refl index) fun i _ => hzero i
  simp only [sub_self, zero_add, Int.toNat_one, Nat.add_sub_cancel, Nat.zero_max] at hwindow
  refine ⟨⟨h.scale, h.sum + call.value.toRat * call.weight, h.count + call.weight,
    some index, v⟩, ⟨bucketed_concat ⟨hb.scale_le, hb.le_scale⟩ ?_ ?_ hspan rfl ?_, htight,
    fun depth hdepth => ?_⟩⟩
  · rw [hb.count]
  · rw [hb.sum]
  · rw [hv, hpadded, hwindow]
    simp
  · obtain ⟨depth, rfl⟩ : ∃ d, depth = d + 1 := ⟨depth - 1, by omega⟩
    exact ⟨recordWeighted_eq (hresize depth) hstore (by rw [hb.count]; omega),
      1, _, hresize depth, by omega⟩

theorem recorded_fits (hb : Bucketed calls h) (hnat : Natural calls)
    (hvalue : call.value.IsNat) (hpos : call.value.toRat ≠ 0)
    (htotal : totalWeight (calls ++ [call]) < 2 ^ 64) {index lo hi : Int}
    (hindex : indexForValue h.scale call.value = some index)
    (hspan : Spans (indices h.scale calls) lo hi)
    (hroom : 2 + max hi index - min lo index ≤ MAX_SIZE) :
    ∃ (h' : ExponentialHistogram MAX_SIZE) (i : Nat) (resized : ExponentialHistogram MAX_SIZE),
      Bucketed (calls ++ [call]) h' ∧ h'.scale = h.scale ∧ i < MAX_SIZE ∧ ∀ depth,
        h.resizeToFit (depth + 1) call.value = .ok (i, resized) ∧
        h.recordWeighted (depth + 1) call.value call.weight = .ok h' := by
  rw [totalWeight_concat] at htotal
  have hle := hspan.le
  obtain ⟨buckets, hbuckets, hresize⟩ := resizeToFit_fits hb hnat hvalue hindex hspan hroom
  have hspan' : Spans (indices h.scale (calls ++ [call])) (min lo index) (max hi index) := by
    rw [indices_append, indices_singleton hindex]
    exact hspan.concat index
  have hsmall : ∀ x ∈ buckets.toList, x + call.weight < 2 ^ 64 := by
    intro x hx
    rw [hbuckets, window] at hx
    have : x ≤ totalWeight calls := by
      rcases List.mem_cons.mp hx with rfl | hx
      · exact filter_weight_le _ _
      · obtain ⟨j, -, rfl⟩ := List.mem_map.mp hx
        exact filter_weight_le _ _
    omega
  obtain ⟨v, hv, hstore⟩ := addAt_resized (v := buckets) (i := (index - min lo index + 1).toNat)
    call.weight (by omega) (by omega) hsmall
  have hlen : buckets.len = (hi - min lo index + 1).toNat + 1 := by
    simp [HeaplessVec.len, hbuckets]
  have hwindow := stored_window (n := (hi - min lo index + 1).toNat) hindex hpos
    (min_le_right lo index) fun i hi => weightAt_outside hspan (Or.inr (by omega))
  have hmax : max (hi - min lo index + 1).toNat (index - min lo index + 1).toNat =
      (max hi index - min lo index + 1).toNat := by omega
  refine ⟨⟨h.scale, h.sum + call.value.toRat * call.weight, h.count + call.weight,
    some (min lo index), v⟩, _, _, bucketed_concat ⟨hb.scale_le, hb.le_scale⟩ ?_ ?_ hspan' rfl ?_,
    rfl, by omega, fun depth => ⟨hresize depth, recordWeighted_eq (hresize depth) hstore
      (by dsimp only; rw [hb.count]; omega)⟩⟩
  · rw [hb.count]
  · rw [hb.sum]
  · rw [hv, hlen, hbuckets, hwindow, hmax]

theorem recorded (hmax : 3 ≤ MAX_SIZE) (hb : Bucketed calls h)
    (htight : Tight MAX_SIZE calls h.scale) (hnat : Natural (calls ++ [call]))
    (htotal : totalWeight (calls ++ [call]) < 2 ^ 64) : ∃ h', Recorded calls call h h' := by
  have hcalls : Natural calls := fun c hc => hnat c (by simp [hc])
  have hvalue : call.value.IsNat := hnat call (by simp)
  have hprior : totalWeight calls < 2 ^ 64 := by
    rw [totalWeight_concat] at htotal
    omega
  rcases eq_or_ne call.value.toRat 0 with hzero | hpos
  · obtain ⟨h', hb', hscale, hrun⟩ := recordWeighted_zero hmax hb hvalue hzero htotal
    refine ⟨h', hb', hscale ▸ htight.concat call, fun depth hdepth => ?_⟩
    obtain ⟨depth, rfl⟩ : ∃ d, depth = d + 1 := ⟨depth - 1, by omega⟩
    exact ⟨(hrun depth).2, 0, h, (hrun depth).1, by omega⟩
  · rcases eq_or_ne (indices h.scale calls) [] with hnil | hne
    · exact recorded_first hmax hb hvalue hpos (htight.concat call) htotal hnil
    · have hlow := hb.le_scale
      have hhigh := hb.scale_le
      obtain ⟨h1, index, lo, hi, hb1, hindex, hspan, hroom, htight1, hdepth⟩ :=
        resizeToFit_compresses hmax hcalls hprior call.weight hvalue hpos (h.scale + 11).toNat h hb
          (by omega) hne (htight.concat call)
      obtain ⟨h', i, resized, hb', hscale, hi', hrun⟩ :=
        recorded_fits hb1 hcalls hvalue hpos htotal hindex hspan hroom
      refine ⟨h', hb', hscale ▸ htight1, fun depth hlarge => ?_⟩
      obtain ⟨rest, hrest⟩ := hdepth depth (by omega)
      have hsame : h.recordWeighted depth call.value call.weight =
          h1.recordWeighted (rest + 1) call.value call.weight := by
        rw [ExponentialHistogram.recordWeighted, hrest, ExponentialHistogram.recordWeighted]
      exact ⟨hsame.trans (hrun rest).2, i, resized, hrest.trans (hrun rest).1, hi'⟩

end Step

theorem recordAll_concat {MAX_SIZE : Nat} (depth : Nat) (calls : List Call) (call : Call) :
    (recordAll depth (calls ++ [call]) : Except Fault (ExponentialHistogram MAX_SIZE)) =
      recordAll depth calls >>= fun h => h.recordWeighted depth call.value call.weight := by
  simp only [recordAll, List.foldlM_append, List.foldlM_cons, List.foldlM_nil, bind_pure]

theorem recordAll_bucketed {MAX_SIZE : Nat} (hmax : 3 ≤ MAX_SIZE) (calls : List Call)
    (hnat : Natural calls) (htotal : totalWeight calls < 2 ^ 64) :
    ∃ h : ExponentialHistogram MAX_SIZE, Bucketed calls h ∧ Tight MAX_SIZE calls h.scale ∧
      ∀ depth, 32 ≤ depth → recordAll depth calls = .ok h := by
  induction calls using List.reverseRecOn with
  | nil =>
    refine ⟨.default, bucketed_default, fun s hs hs20 => ?_, fun _ _ => rfl⟩
    have : (20 : Int) < s := hs
    omega
  | append_singleton calls call ih =>
    have hprior : totalWeight calls < 2 ^ 64 := by
      rw [totalWeight_concat] at htotal
      omega
    obtain ⟨h, hb, htight, hrun⟩ := ih (fun c hc => hnat c (by simp [hc])) hprior
    obtain ⟨h', hrec⟩ := recorded hmax hb htight hnat htotal
    refine ⟨h', hrec.bucketed, hrec.tight, fun depth hdepth => ?_⟩
    rw [recordAll_concat, hrun depth hdepth, Except.ok_bind, (hrec.runs depth hdepth).1]

theorem recordWeighted_stored {MAX_SIZE : Nat} {h h' resized : ExponentialHistogram MAX_SIZE}
    {depth i weight : Nat} {value : F64} (hresize : h.resizeToFit depth value = .ok (i, resized))
    (hrecord : h.recordWeighted depth value weight = .ok h') :
    i < h'.buckets.len ∧ h'.count = resized.count + weight := by
  rw [ExponentialHistogram.recordWeighted, hresize, Except.ok_bind] at hrecord
  obtain ⟨grown, -, hrecord⟩ := Except.bind_eq_ok.mp hrecord
  obtain ⟨v, hadd, hrecord⟩ := Except.bind_eq_ok.mp hrecord
  obtain ⟨count, hcount, hstate⟩ := Except.bind_eq_ok.mp hrecord
  obtain rfl := Except.ok.inj hstate
  exact ⟨HeaplessVec.lt_of_addAt hadd, eq_of_u64 hcount⟩

theorem resizeToFit_returns {MAX_SIZE : Nat} (hmax : 3 ≤ MAX_SIZE) {calls : List Call}
    {h : ExponentialHistogram MAX_SIZE} (hb : Bucketed calls h)
    (htight : Tight MAX_SIZE calls h.scale) (hnat : Natural calls) {value : F64}
    (hvalue : value.IsNat) (htotal : totalWeight calls < 2 ^ 64) {depth : Nat}
    (hdepth : 32 ≤ depth) :
    ∃ i resized, h.resizeToFit depth value = .ok (i, resized) ∧ i < MAX_SIZE ∧
      resized.count = totalWeight calls := by
  have hsame : totalWeight (calls ++ [⟨value, 0⟩]) = totalWeight calls :=
    totalWeight_concat calls ⟨value, 0⟩
  have hnat' : Natural (calls ++ [⟨value, 0⟩]) := by
    intro c hc
    rcases List.mem_append.mp hc with hc | hc
    · exact hnat c hc
    · obtain rfl := List.mem_singleton.mp hc
      exact hvalue
  have hrecorded : ∃ h', Recorded calls ⟨value, 0⟩ h h' :=
    recorded hmax hb htight hnat' (hsame ▸ htotal)
  obtain ⟨h', hrec⟩ := hrecorded
  obtain ⟨hrecord, i, resized, hresize, hi⟩ := hrec.runs depth hdepth
  have hcount : h'.count = resized.count := (recordWeighted_stored hresize hrecord).2
  exact ⟨i, resized, hresize, hi, by rw [← hcount, hrec.bucketed.count, hsame]⟩

theorem recordWeighted_overflow {MAX_SIZE : Nat} {h resized : ExponentialHistogram MAX_SIZE}
    {depth i weight : Nat} {value : F64} (hresize : h.resizeToFit depth value = .ok (i, resized))
    (hi : i < MAX_SIZE) (hcount : 2 ^ 64 ≤ resized.count + weight) :
    h.recordWeighted depth value weight = .error .overflow := by
  obtain ⟨v, -, hlen, hgrow⟩ := resizeDefault_fits resized.buckets hi
  rw [ExponentialHistogram.recordWeighted, hresize, Except.ok_bind]
  dsimp only
  rw [hgrow, Except.ok_bind, HeaplessVec.addAt, List.getElem?_eq_getElem hlen]
  dsimp only
  rcases lt_or_ge (v.toList[i] + weight) (2 ^ 64) with hsmall | hlarge
  · rw [u64_ok hsmall, Except.ok_bind, Except.pure_eq_ok, Except.ok_bind, u64_overflow hcount]
    rfl
  · rw [u64_overflow hlarge]
    rfl

theorem recordAll_overflow {MAX_SIZE : Nat} (hmax : 3 ≤ MAX_SIZE) {calls : List Call}
    (hnat : Natural calls) (htotal : 2 ^ 64 ≤ totalWeight calls) {depth : Nat}
    (hdepth : 32 ≤ depth) :
    (recordAll depth calls : Except Fault (ExponentialHistogram MAX_SIZE)) =
      .error .overflow := by
  induction calls using List.reverseRecOn with
  | nil => exact absurd htotal (by decide)
  | append_singleton calls call ih =>
    have hcalls : Natural calls := fun c hc => hnat c (by simp [hc])
    rw [recordAll_concat]
    rcases lt_or_ge (totalWeight calls) (2 ^ 64) with hprior | hprior
    · obtain ⟨h, hb, htight, hrun⟩ := recordAll_bucketed hmax calls hcalls hprior
      obtain ⟨i, resized, hresize, hi, hcount⟩ :=
        resizeToFit_returns hmax hb htight hcalls (hnat call (by simp)) hprior hdepth
      rw [hrun depth hdepth, Except.ok_bind]
      refine recordWeighted_overflow hresize hi ?_
      rwa [hcount, ← totalWeight_concat]
    · rw [ih hcalls hprior, Except.error_bind]

theorem F64.ofNat_isNat (n : Nat) (h : n < 2 ^ 53) : (F64.ofNat n h).IsNat :=
  ⟨n, by simp [F64.ofNat, F64.toRat]⟩

structure IsBatch {MAX_SIZE : Nat} (calls : List Call) (h : ExponentialHistogram MAX_SIZE) :
    Prop where
  empty : calls = [] → h.buckets.toList = []
  zero : calls ≠ [] → h.buckets.toList[0]? = some (zeroWeight calls)
  only_zeros : calls ≠ [] → indices h.scale calls = [] → h.buckets.len = 1
  offset : h.indexOffset = (indices h.scale calls).min?
  length : ∀ lo hi, (indices h.scale calls).min? = some lo →
    (indices h.scale calls).max? = some hi → (h.buckets.len : Int) = 1 + (hi - lo + 1)
  bucket : ∀ lo, (indices h.scale calls).min? = some lo → ∀ i, 1 ≤ i → i < h.buckets.len →
    h.buckets.toList[i]? = some (weightAt h.scale calls (lo + i - 1))
  count : h.count = totalWeight calls
  sum : h.sum = totalSum calls

theorem spans_of_min_max {l : List Int} {lo hi : Int} (hlo : l.min? = some lo)
    (hhi : l.max? = some hi) : Spans l lo hi := by
  obtain ⟨hmem, hle⟩ := List.min?_eq_some_iff.mp hlo
  obtain ⟨hmem', hle'⟩ := List.max?_eq_some_iff.mp hhi
  exact ⟨hmem, hmem', fun i hi => ⟨hle i hi, hle' i hi⟩⟩

theorem Bucketed.isBatch {MAX_SIZE : Nat} {calls : List Call} {h : ExponentialHistogram MAX_SIZE}
    (hb : Bucketed calls h) : IsBatch calls h where
  empty := hb.nil
  zero := fun hne => by rw [hb.buckets hne]; rfl
  only_zeros := fun hne hnil => by
    simp [HeaplessVec.len, hb.buckets hne, occupied_of_nil hnil]
  offset := hb.offset
  length := fun lo hi hlo hhi => by
    have hspan := spans_of_min_max hlo hhi
    have hle := hspan.le
    simp only [HeaplessVec.len, (hb.spans_buckets hspan).2, List.length_cons, window_length]
    omega
  bucket := fun lo hlo i hi hlen => by
    have hne : indices h.scale calls ≠ [] := by
      rintro hnil
      simp [hnil] at hlo
    obtain ⟨lo', hi', hspan⟩ := Spans.exists_of_ne_nil hne
    obtain rfl : lo' = lo := Option.some.inj (hspan.min?_eq.symm.trans hlo)
    obtain ⟨j, rfl⟩ : ∃ j, i = j + 1 := ⟨i - 1, by omega⟩
    simp only [HeaplessVec.len, (hb.spans_buckets hspan).2, List.length_cons] at hlen
    have hj : j < (window (weightAt h.scale calls) lo' (hi' - lo' + 1).toNat).length := by omega
    rw [(hb.spans_buckets hspan).2, List.getElem?_cons_succ, List.getElem?_eq_getElem hj,
      window_getElem]
    congr 2
    push_cast
    ring
  count := hb.count
  sum := hb.sum

theorem recordAll_batch {MAX_SIZE : Nat} (hmax : 3 ≤ MAX_SIZE) (calls : List Call)
    (hnat : Natural calls) (htotal : totalWeight calls < 2 ^ 64) :
    ∃ h : ExponentialHistogram MAX_SIZE,
      (∀ depth, 32 ≤ depth → recordAll depth calls = .ok h) ∧ IsBatch calls h := by
  obtain ⟨h, hb, -, hrun⟩ := recordAll_bucketed hmax calls hnat htotal
  exact ⟨h, hrun, hb.isBatch⟩

theorem natural_pair (a b : Nat) (ha : a < 2 ^ 53) (hb : b < 2 ^ 53) (x y : Nat) :
    Natural [⟨F64.ofNat a ha, x⟩, ⟨F64.ofNat b hb, y⟩] := by
  rintro _ (_ | ⟨_, _ | ⟨_, ⟨⟩⟩⟩)
  · exact F64.ofNat_isNat _ _
  · exact F64.ofNat_isNat _ _

theorem recordAll_batch_two_values :
    ∃ h : ExponentialHistogram 10,
      (∀ depth, 32 ≤ depth → recordAll depth
        [⟨F64.ofNat 1 (by decide), 1⟩, ⟨F64.ofNat 10 (by decide), 1⟩] = .ok h) ∧
      IsBatch [⟨F64.ofNat 1 (by decide), 1⟩, ⟨F64.ofNat 10 (by decide), 1⟩] h :=
  recordAll_batch (by decide) _ (natural_pair _ _ _ _ _ _) (by decide)

theorem recordWeighted_never_faults {MAX_SIZE : Nat} (hmax : 3 ≤ MAX_SIZE) (calls : List Call)
    (call : Call) (hnat : Natural (calls ++ [call]))
    (htotal : totalWeight (calls ++ [call]) < 2 ^ 64) :
    ∃ h h' : ExponentialHistogram MAX_SIZE, ∀ depth, 32 ≤ depth →
      recordAll depth calls = .ok h ∧ h.recordWeighted depth call.value call.weight = .ok h' ∧
      ∃ i resized, h.resizeToFit depth call.value = .ok (i, resized) ∧ i < MAX_SIZE ∧
        i < h'.buckets.len := by
  have hprior : totalWeight calls < 2 ^ 64 := by
    rw [totalWeight_concat] at htotal
    omega
  obtain ⟨h, hb, htight, hrun⟩ :=
    recordAll_bucketed hmax calls (fun c hc => hnat c (by simp [hc])) hprior
  obtain ⟨h', hrec⟩ := recorded hmax hb htight hnat htotal
  refine ⟨h, h', fun depth hdepth => ?_⟩
  obtain ⟨hrecord, i, resized, hresize, hi⟩ := hrec.runs depth hdepth
  exact ⟨hrun depth hdepth, hrecord, i, resized, hresize, hi,
    (recordWeighted_stored hresize hrecord).1⟩

theorem recordWeighted_never_faults_after_one :
    ∃ h h' : ExponentialHistogram 3, ∀ depth, 32 ≤ depth →
      recordAll depth [⟨F64.ofNat 1 (by decide), 1⟩] = .ok h ∧
      h.recordWeighted depth (F64.ofNat 1000 (by decide)) 1 = .ok h' ∧
      ∃ i resized, h.resizeToFit depth (F64.ofNat 1000 (by decide)) = .ok (i, resized) ∧ i < 3 ∧
        i < h'.buckets.len :=
  recordWeighted_never_faults (by decide) [⟨F64.ofNat 1 (by decide), 1⟩]
    ⟨F64.ofNat 1000 (by decide), 1⟩ (natural_pair _ _ _ _ _ _) (by decide)

def Fits (MAX_SIZE : Nat) (calls : List Call) (scale : Int) : Prop :=
  ∀ lo hi, (indices scale calls).min? = some lo → (indices scale calls).max? = some hi →
    2 + hi - lo ≤ MAX_SIZE

theorem Bucketed.fits {MAX_SIZE : Nat} {calls : List Call} {h : ExponentialHistogram MAX_SIZE}
    (hb : Bucketed calls h) : Fits MAX_SIZE calls h.scale := by
  intro lo hi hlo hhi
  have hlen := h.buckets.length_le
  have := hb.isBatch.length lo hi hlo hhi
  simp only [HeaplessVec.len] at this
  omega

theorem Bucketed.best_scale {MAX_SIZE : Nat} {calls : List Call}
    {h : ExponentialHistogram MAX_SIZE} (hb : Bucketed calls h)
    (htight : Tight MAX_SIZE calls h.scale) :
    IsGreatest {scale | scale ≤ 20 ∧ Fits MAX_SIZE calls scale} h.scale := by
  refine ⟨⟨hb.scale_le, hb.fits⟩, ?_⟩
  rintro s ⟨hs20, hfits⟩
  by_contra hlt
  obtain ⟨lo, hi, hspan, hlong⟩ := htight s (not_le.mp hlt) hs20
  have := hfits lo hi hspan.min?_eq hspan.max?_eq
  omega

theorem indices_of_zeros {calls : List Call} (hnat : Natural calls)
    (hzeros : ∀ call ∈ calls, call.value.toRat = 0) (scale : Int) : indices scale calls = [] := by
  rw [List.eq_nil_iff_forall_not_mem]
  intro i hi
  obtain ⟨call, hcall, heq⟩ := mem_indices.mp hi
  rw [(indexForValue_none_iff (hnat call hcall) scale).mpr (hzeros call hcall)] at heq
  cases heq

theorem recordAll_best_scale {MAX_SIZE : Nat} (hmax : 3 ≤ MAX_SIZE) (calls : List Call)
    (hnat : Natural calls) :
    (2 ^ 64 ≤ totalWeight calls ∧ ∀ depth, 32 ≤ depth →
      (recordAll depth calls : Except Fault (ExponentialHistogram MAX_SIZE)) = .error .overflow) ∨
    ∃ h : ExponentialHistogram MAX_SIZE,
      (∀ depth, 32 ≤ depth → recordAll depth calls = .ok h) ∧
      IsGreatest {scale | scale ≤ 20 ∧ Fits MAX_SIZE calls scale} h.scale ∧
      ((∀ call ∈ calls, call.value.toRat = 0) → h.scale = 20) := by
  rcases lt_or_ge (totalWeight calls) (2 ^ 64) with htotal | htotal
  · obtain ⟨h, hb, htight, hrun⟩ := recordAll_bucketed hmax calls hnat htotal
    have hgreatest := hb.best_scale htight
    refine .inr ⟨h, hrun, hgreatest, fun hzeros => ?_⟩
    have h20 : Fits MAX_SIZE calls 20 := fun lo hi hlo _ => by
      simp [indices_of_zeros hnat hzeros] at hlo
    exact le_antisymm hb.scale_le (hgreatest.2 ⟨le_refl _, h20⟩)
  · exact .inl ⟨htotal, fun depth hdepth => recordAll_overflow hmax hnat htotal hdepth⟩

theorem recordAll_best_scale_exact_size :
    ∃ h : ExponentialHistogram 20,
      (∀ depth, 32 ≤ depth → recordAll depth
        [⟨F64.ofNat 3 (by decide), 1⟩, ⟨F64.ofNat 7 (by decide), 1⟩] = .ok h) ∧
      IsGreatest {scale | scale ≤ 20 ∧
        Fits 20 [⟨F64.ofNat 3 (by decide), 1⟩, ⟨F64.ofNat 7 (by decide), 1⟩] scale} h.scale ∧
      ((∀ call ∈ [(⟨F64.ofNat 3 (by decide), 1⟩ : Call), ⟨F64.ofNat 7 (by decide), 1⟩],
        call.value.toRat = 0) → h.scale = 20) :=
  (recordAll_best_scale (by decide) _ (natural_pair _ _ _ _ _ _)).resolve_left fun hlarge =>
    absurd hlarge.1 (by decide)

end Isz.Amdgpu
