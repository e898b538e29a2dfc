import Isz.Amdgpu.Histogram

namespace Isz.Amdgpu

open Bucketing

def indices (scale : Int) (calls : List Call) : List Int :=
  calls.filterMap fun call => indexForValue scale call.value

def weightAt (scale : Int) (calls : List Call) (i : Int) : Nat :=
  tally (fun call => indexForValue scale call.value) Call.weight calls i

def zeroWeight (calls : List Call) : Nat :=
  ((calls.filter fun call => call.value.toRat = 0).map Call.weight).sum

def totalWeight (calls : List Call) : Nat := (calls.map Call.weight).sum

def Natural (calls : List Call) : Prop := ∀ call ∈ calls, call.value.IsNat

theorem toReal_nonpos_iff {value : F64} (hnat : value.IsNat) :
    value.toReal ≤ 0 ↔ value.toRat = 0 := by
  obtain ⟨n, hn⟩ := hnat
  simp [F64.toReal, hn]

theorem indexForValue_none_iff {value : F64} (hnat : value.IsNat) (scale : Int) :
    indexForValue scale value = none ↔ value.toRat = 0 :=
  indexForValue_eq_none.trans (toReal_nonpos_iff hnat)

theorem exists_index {value : F64} (hnat : value.IsNat) (hpos : value.toRat ≠ 0) (scale : Int) :
    ∃ index, indexForValue scale value = some index :=
  Option.ne_none_iff_exists'.mp fun hnone => hpos ((indexForValue_none_iff hnat scale).mp hnone)

theorem mem_indices {scale i : Int} {calls : List Call} :
    i ∈ indices scale calls ↔ ∃ call ∈ calls, indexForValue scale call.value = some i := by
  simp [indices]

theorem indices_append (scale : Int) (calls more : List Call) :
    indices scale (calls ++ more) = indices scale calls ++ indices scale more := by
  simp [indices]

theorem indices_singleton {scale i : Int} {call : Call}
    (h : indexForValue scale call.value = some i) : indices scale [call] = [i] := by
  simp [indices, h]

theorem indices_singleton_none {scale : Int} {call : Call}
    (h : indexForValue scale call.value = none) : indices scale [call] = [] := by
  simp [indices, h]

theorem indices_pred {calls : List Call} (hnat : Natural calls) (scale : Int) :
    indices (scale - 1) calls = (indices scale calls).map (· / 2) := by
  rw [indices, indices, List.map_filterMap]
  exact List.filterMap_congr fun call hcall => indexForValue_pred (hnat call hcall) scale

theorem weightAt_pred {calls : List Call} (hnat : Natural calls) (scale i : Int) :
    weightAt (scale - 1) calls i = halve (weightAt scale calls) i :=
  tally_halve Call.weight (fun call hcall => indexForValue_pred (hnat call hcall) scale) i

theorem weightAt_outside {scale lo hi i : Int} {calls : List Call}
    (hspan : Spans (indices scale calls) lo hi) (hi : i < lo ∨ hi < i) :
    weightAt scale calls i = 0 := by
  refine tally_eq_zero _ _ fun call hcall heq => ?_
  have := hspan.bounds i (mem_indices.mpr ⟨call, hcall, heq⟩)
  omega

theorem weightAt_concat {scale k : Int} {calls : List Call} {call : Call}
    (h : indexForValue scale call.value = some k) (i : Int) :
    weightAt scale (calls ++ [call]) i =
      weightAt scale calls i + if i = k then call.weight else 0 := by
  rw [weightAt, tally_append, tally_cons, h]
  simp [weightAt, tally, eq_comm]

theorem weightAt_concat_none {scale : Int} {calls : List Call} {call : Call}
    (h : indexForValue scale call.value = none) (i : Int) :
    weightAt scale (calls ++ [call]) i = weightAt scale calls i := by
  rw [weightAt, tally_append, tally_cons, h]
  simp [weightAt, tally]

theorem filter_weight_le (p : Call → Bool) (calls : List Call) :
    ((calls.filter p).map Call.weight).sum ≤ totalWeight calls :=
  (List.filter_sublist.map Call.weight).sum_le_sum (by simp)

theorem window_weight_le {scale lo hi : Int} {calls : List Call}
    (hspan : Spans (indices scale calls) lo hi) (n : Nat) :
    (window (weightAt scale calls) lo n).sum ≤ totalWeight calls := by
  have hlow : ∀ call ∈ calls, ∀ i, indexForValue scale call.value = some i → lo ≤ i :=
    fun call hcall i hi => (hspan.bounds i (mem_indices.mpr ⟨call, hcall, hi⟩)).1
  exact (window_tally_sum _ _ n hlow).le.trans (filter_weight_le _ _)

theorem totalWeight_concat (calls : List Call) (call : Call) :
    totalWeight (calls ++ [call]) = totalWeight calls + call.weight := by
  simp [totalWeight]

def occupied (scale : Int) (calls : List Call) : List Nat :=
  match (indices scale calls).min?, (indices scale calls).max? with
  | some lo, some hi => window (weightAt scale calls) lo (hi - lo + 1).toNat
  | _, _ => []

theorem occupied_of_spans {scale lo hi : Int} {calls : List Call}
    (hspan : Spans (indices scale calls) lo hi) :
    occupied scale calls = window (weightAt scale calls) lo (hi - lo + 1).toNat := by
  simp [occupied, hspan.min?_eq, hspan.max?_eq]

theorem occupied_of_nil {scale : Int} {calls : List Call} (h : indices scale calls = []) :
    occupied scale calls = [] := by
  simp [occupied, h]

def totalSum (calls : List Call) : ℚ :=
  (calls.map fun call => call.value.toRat * (call.weight : ℚ)).sum

structure Bucketed {MAX_SIZE : Nat} (calls : List Call) (h : ExponentialHistogram MAX_SIZE) :
    Prop where
  scale_le : h.scale ≤ 20
  le_scale : -11 ≤ h.scale
  count : h.count = totalWeight calls
  sum : h.sum = totalSum calls
  offset : h.indexOffset = (indices h.scale calls).min?
  nil : calls = [] → h.buckets.toList = []
  buckets : calls ≠ [] → h.buckets.toList = zeroWeight calls :: occupied h.scale calls

def Tight (MAX_SIZE : Nat) (calls : List Call) (scale : Int) : Prop :=
  ∀ s, scale < s → s ≤ 20 →
    ∃ lo hi, Spans (indices s calls) lo hi ∧ (MAX_SIZE : Int) < 2 + hi - lo

theorem bucketed_default {MAX_SIZE : Nat} :
    Bucketed [] (.default : ExponentialHistogram MAX_SIZE) where
  scale_le := le_refl (20 : Int)
  le_scale := show (-11 : Int) ≤ 20 by decide
  count := rfl
  sum := rfl
  offset := rfl
  nil := fun _ => rfl
  buckets := fun h => absurd rfl h

theorem Bucketed.spans_buckets {MAX_SIZE : Nat} {calls : List Call}
    {h : ExponentialHistogram MAX_SIZE} (hb : Bucketed calls h) {lo hi : Int}
    (hspan : Spans (indices h.scale calls) lo hi) :
    h.indexOffset = some lo ∧ h.buckets.toList =
      zeroWeight calls :: window (weightAt h.scale calls) lo (hi - lo + 1).toNat := by
  have hne : calls ≠ [] := by
    rintro rfl
    exact absurd hspan.lo_mem (by simp [indices])
  exact ⟨hb.offset.trans hspan.min?_eq, by rw [hb.buckets hne, occupied_of_spans hspan]⟩

theorem indices_nil_pred {calls : List Call} (hnat : Natural calls) {scale : Int} :
    indices (scale - 1) calls = [] ↔ indices scale calls = [] := by
  rw [indices_pred hnat, List.map_eq_nil_iff]

theorem pairSums_padded {calls : List Call} (hnat : Natural calls) {scale lo hi : Int}
    (hspan : Spans (indices scale calls) lo hi) :
    pairSums (List.replicate (lo % 2).toNat 0 ++
      window (weightAt scale calls) lo (hi - lo + 1).toNat) =
      window (weightAt (scale - 1) calls) (lo / 2) (hi / 2 - lo / 2 + 1).toNat := by
  have hle := hspan.le
  have hstart : lo - ((lo % 2).toNat : Int) = 2 * (lo / 2) := by omega
  rw [replicate_append_window _ _ fun i hi => weightAt_outside hspan (Or.inl hi), hstart,
    pairSums_window _ _ _ fun i hi => weightAt_outside hspan (Or.inr (by omega)),
    window_congr fun i _ _ => (weightAt_pred hnat scale i).symm]
  congr 1
  omega

theorem compress_bucketed {MAX_SIZE : Nat} {calls : List Call}
    {h : ExponentialHistogram MAX_SIZE} (hb : Bucketed calls h) (hnat : Natural calls)
    (htotal : totalWeight calls < 2 ^ 64) (hne : indices h.scale calls ≠ [])
    (hscale : -11 < h.scale) :
    ∃ h', h.compress = .ok h' ∧ Bucketed calls h' ∧ h'.scale = h.scale - 1 := by
  obtain ⟨lo, hi, hspan⟩ := Spans.exists_of_ne_nil hne
  obtain ⟨hoffset, hbuckets⟩ := hb.spans_buckets hspan
  have hle := hspan.le
  have hscale20 := hb.scale_le
  have hlen : h.buckets.len = (hi - lo + 1).toNat + 1 := by
    simp [HeaplessVec.len, hbuckets]
  have hsum : (List.replicate (lo % 2).toNat 0 ++
      window (weightAt h.scale calls) lo (hi - lo + 1).toNat).sum < 2 ^ 64 := by
    have := window_weight_le hspan (hi - lo + 1).toNat
    simp only [List.sum_append, List.sum_replicate, smul_zero, zero_add]
    omega
  have hfit : (zeroWeight calls :: window (weightAt (h.scale - 1) calls) (lo / 2)
      (hi / 2 - lo / 2 + 1).toNat).length ≤ MAX_SIZE := by
    have := h.buckets.length_le
    rw [hbuckets] at this
    simp only [List.length_cons, window_length] at this ⊢
    omega
  refine ⟨⟨h.scale - 1, h.sum, h.count, some (lo / 2), ⟨_, hfit⟩⟩, ?_, ?_, rfl⟩
  · rw [ExponentialHistogram.compress, isize_ok (by omega), Except.ok_bind, if_pos (by omega),
      hoffset, unwrap, Except.ok_bind, asUsize_ok (by omega), Except.ok_bind, hbuckets,
      splitAt_one, Except.ok_bind]
    dsimp only
    rw [chunkSums_ok hsum, Except.ok_bind, pairSums_padded hnat hspan, List.singleton_append,
      HeaplessVec.collect_ok hfit, Except.ok_bind]
    simp [Int.shiftRight_eq_div_pow]
  · have hspan' : Spans (indices (h.scale - 1) calls) (lo / 2) (hi / 2) := by
      rw [indices_pred hnat]
      exact hspan.map_halve
    exact {
      scale_le := by simpa using by omega
      le_scale := by simpa using by omega
      count := hb.count
      sum := hb.sum
      offset := hspan'.min?_eq.symm
      nil := fun hnil => absurd (by simp [hnil, indices]) hne
      buckets := fun _ => by rw [occupied_of_spans hspan'] }

theorem resizeToFit_offset {MAX_SIZE : Nat} {h : ExponentialHistogram MAX_SIZE} {value : F64}
    {o index : Int} {first : Nat} {rest : List Nat} (hscale : -64 < h.scale ∧ h.scale < 64)
    (hindex : indexForValue h.scale value = some index) (hoffset : h.indexOffset = some o)
    (hbuckets : h.buckets.toList = first :: rest) (ho : -2 ^ 40 < o ∧ o < 2 ^ 40)
    (hi : -2 ^ 40 < index ∧ index < 2 ^ 40) (hlen : h.buckets.len < 2 ^ 40) (depth : Nat) :
    h.resizeToFit (depth + 1) value =
      if MAX_SIZE < max (1 + (max (index - o + 1) 1).toNat) h.buckets.len + (o - index).toNat then
        h.compress >>= fun h => h.resizeToFit depth value
      else if index < o then do
        let buckets ← HeaplessVec.collect
          (first :: (List.replicate (o - index).toNat 0 ++ rest))
        pure (1, { h with indexOffset := some index, buckets := buckets })
      else pure ((index - o + 1).toNat, h) := by
  have hmethod : h.indexForValue value = .ok (some index) := by
    rw [ExponentialHistogram.indexForValue, if_pos hscale, hindex]
  have hshift : (max (saturatingSub o index) 0).toNat = (o - index).toNat := by
    simp only [saturatingSub]
    omega
  have hlength : saturatingAdd (max (1 + (max (index - o + 1) 1).toNat) h.buckets.len)
      (o - index).toNat =
      max (1 + (max (index - o + 1) 1).toNat) h.buckets.len + (o - index).toNat := by
    simp only [saturatingAdd]
    omega
  rw [ExponentialHistogram.resizeToFit, hmethod, Except.ok_bind]
  dsimp only
  rw [hoffset]
  dsimp only
  rw [asUsize_ok (by omega), Except.ok_bind, isize_ok (by omega), Except.ok_bind,
    asUsize_ok (by omega), Except.ok_bind, hshift, hlength]
  refine if_congr Iff.rfl rfl ?_
  by_cases hfront : index < o
  · rw [if_pos (by omega), if_pos hfront, hbuckets, splitAt_one, Except.ok_bind]
    dsimp only
    rw [List.append_assoc, List.singleton_append]
    congr 1
    funext buckets
    rw [isize_ok (by omega), Except.ok_bind, isize_ok (by omega), Except.ok_bind,
      asUsize_ok (by omega), Except.ok_bind]
    congr 3
    · omega
    · congr 1
      omega
  · rw [if_neg (by omega), if_neg hfront, asUsize_ok (by omega), Except.ok_bind]

section Fit

variable {MAX_SIZE : Nat} {calls : List Call} {h : ExponentialHistogram MAX_SIZE} {value : F64}
  {index lo hi : Int}

theorem method_indexForValue (hb : Bucketed calls h) :
    h.indexForValue value = .ok (indexForValue h.scale value) := by
  have := hb.scale_le
  have := hb.le_scale
  exact if_pos (by omega)

theorem index_range (hb : Bucketed calls h) (hnat : Natural calls)
    (hspan : Spans (indices h.scale calls) lo hi) :
    -1 ≤ lo ∧ hi < 2 ^ 30 := by
  obtain ⟨first, hfirst, hlo⟩ := mem_indices.mp hspan.lo_mem
  obtain ⟨last, hlast, hhi⟩ := mem_indices.mp hspan.hi_mem
  exact ⟨neg_one_le_index (hnat first hfirst) hlo, index_lt (hnat last hlast) hhi hb.scale_le⟩

theorem resizeToFit_eq (hb : Bucketed calls h) (hnat : Natural calls) (hvalue : value.IsNat)
    (hindex : indexForValue h.scale value = some index)
    (hspan : Spans (indices h.scale calls) lo hi) (depth : Nat) :
    h.resizeToFit (depth + 1) value =
      if MAX_SIZE < (2 + max hi index - min lo index).toNat then
        h.compress >>= fun h => h.resizeToFit depth value
      else if index < lo then do
        let buckets ← HeaplessVec.collect (zeroWeight calls ::
          (List.replicate (lo - index).toNat 0 ++
            window (weightAt h.scale calls) lo (hi - lo + 1).toNat))
        pure (1, { h with indexOffset := some index, buckets := buckets })
      else pure ((index - lo + 1).toNat, h) := by
  obtain ⟨hoffset, hbuckets⟩ := hb.spans_buckets hspan
  have hle := hspan.le
  have hscale := hb.scale_le
  have hscale' := hb.le_scale
  obtain ⟨hlo, hhi⟩ := index_range hb hnat hspan
  have hrange : -1 ≤ index ∧ index < 2 ^ 30 :=
    ⟨neg_one_le_index hvalue hindex, index_lt hvalue hindex hb.scale_le⟩
  have hlen : h.buckets.len = (hi - lo + 1).toNat + 1 := by
    simp [HeaplessVec.len, hbuckets]
  have hspanLength : max (1 + (max (index - lo + 1) 1).toNat) h.buckets.len +
      (lo - index).toNat = (2 + max hi index - min lo index).toNat := by
    omega
  rw [resizeToFit_offset (by omega) hindex hoffset hbuckets (by omega) (by omega) (by omega) depth,
    hspanLength]

theorem resizeToFit_fits (hb : Bucketed calls h) (hnat : Natural calls) (hvalue : value.IsNat)
    (hindex : indexForValue h.scale value = some index)
    (hspan : Spans (indices h.scale calls) lo hi)
    (hroom : 2 + max hi index - min lo index ≤ MAX_SIZE) :
    ∃ buckets : HeaplessVec MAX_SIZE,
      buckets.toList = zeroWeight calls ::
        window (weightAt h.scale calls) (min lo index) (hi - min lo index + 1).toNat ∧
      ∀ depth, h.resizeToFit (depth + 1) value = .ok ((index - min lo index + 1).toNat,
        { h with indexOffset := some (min lo index), buckets := buckets }) := by
  obtain ⟨hoffset, hbuckets⟩ := hb.spans_buckets hspan
  have hle := hspan.le
  by_cases hfront : index < lo
  · have hmin : min lo index = index := by omega
    have hshift : List.replicate (lo - index).toNat 0 ++
        window (weightAt h.scale calls) lo (hi - lo + 1).toNat =
        window (weightAt h.scale calls) index (hi - index + 1).toNat := by
      rw [replicate_append_window _ _ fun i hi => weightAt_outside hspan (Or.inl hi)]
      congr 1 <;> omega
    have hfit : (zeroWeight calls ::
        window (weightAt h.scale calls) index (hi - index + 1).toNat).length ≤ MAX_SIZE := by
      simp only [List.length_cons, window_length]
      omega
    refine ⟨⟨_, hfit⟩, by rw [hmin], fun depth => ?_⟩
    rw [resizeToFit_eq hb hnat hvalue hindex hspan, if_neg (by omega), if_pos hfront, hshift,
      HeaplessVec.collect_ok hfit, Except.ok_bind, hmin]
    simp
  · have hmin : min lo index = lo := by omega
    refine ⟨h.buckets, by rw [hbuckets, hmin], fun depth => ?_⟩
    rw [resizeToFit_eq hb hnat hvalue hindex hspan, if_neg (by omega), if_neg hfront, hmin,
      ← hoffset]
    rfl

theorem Tight.pred {scale : Int} (htight : Tight MAX_SIZE calls scale) {lo hi : Int}
    (hspan : Spans (indices scale calls) lo hi) (hlong : (MAX_SIZE : Int) < 2 + hi - lo) :
    Tight MAX_SIZE calls (scale - 1) := by
  intro s hs hs20
  rcases eq_or_lt_of_le (show scale ≤ s by omega) with rfl | hlt
  · exact ⟨lo, hi, hspan, hlong⟩
  · exact htight s hlt hs20

theorem fits_neg_eleven (hmax : 3 ≤ MAX_SIZE) (hnat : Natural calls) (hvalue : value.IsNat)
    (hindex : indexForValue (-11) value = some index)
    (hspan : Spans (indices (-11) calls) lo hi) : 2 + max hi index - min lo index ≤ MAX_SIZE := by
  have hbounds : ∀ i ∈ indices (-11) calls, i = -1 ∨ i = 0 := by
    intro i hi
    obtain ⟨call, hcall, heq⟩ := mem_indices.mp hi
    exact index_neg_eleven (hnat call hcall) heq
  have hlo := hbounds lo hspan.lo_mem
  have hhi := hbounds hi hspan.hi_mem
  have hi' := index_neg_eleven hvalue hindex
  omega

theorem resizeToFit_compresses (hmax : 3 ≤ MAX_SIZE) (hnat : Natural calls)
    (htotal : totalWeight calls < 2 ^ 64) (weight : Nat) (hvalue : value.IsNat)
    (hpos : value.toRat ≠ 0) (k : Nat) (h : ExponentialHistogram MAX_SIZE)
    (hb : Bucketed calls h) (hk : h.scale + 11 = k) (hne : indices h.scale calls ≠ [])
    (htight : Tight MAX_SIZE (calls ++ [⟨value, weight⟩]) h.scale) :
    ∃ (h' : ExponentialHistogram MAX_SIZE) (index lo hi : Int), Bucketed calls h' ∧
      indexForValue h'.scale value = some index ∧ Spans (indices h'.scale calls) lo hi ∧
      2 + max hi index - min lo index ≤ MAX_SIZE ∧
      Tight MAX_SIZE (calls ++ [⟨value, weight⟩]) h'.scale ∧
      ∀ depth, k < depth → ∃ rest, h.resizeToFit depth value = h'.resizeToFit (rest + 1) value := by
  induction k generalizing h with
  | zero =>
    obtain ⟨lo, hi, hspan⟩ := Spans.exists_of_ne_nil hne
    have hscale : h.scale = -11 := by omega
    obtain ⟨index, hindex⟩ := exists_index hvalue hpos h.scale
    have hroom := fits_neg_eleven hmax hnat hvalue (hscale ▸ hindex) (hscale ▸ hspan)
    refine ⟨h, index, lo, hi, hb, hindex, hspan, hroom, htight, fun depth hdepth => ?_⟩
    exact ⟨depth - 1, by rw [Nat.sub_add_cancel hdepth]⟩
  | succ k ih =>
    obtain ⟨lo, hi, hspan⟩ := Spans.exists_of_ne_nil hne
    obtain ⟨index, hindex⟩ := exists_index hvalue hpos h.scale
    by_cases hroom : 2 + max hi index - min lo index ≤ MAX_SIZE
    · refine ⟨h, index, lo, hi, hb, hindex, hspan, hroom, htight, fun depth hdepth => ?_⟩
      exact ⟨depth - 1, by rw [Nat.sub_add_cancel (by omega)]⟩
    · obtain ⟨h1, hcompress, hb1, hscale1⟩ :=
        compress_bucketed hb hnat htotal hne (by omega)
      have hspan' : Spans (indices h.scale (calls ++ [⟨value, weight⟩]))
          (min lo index) (max hi index) := by
        rw [indices_append, indices_singleton hindex]
        exact hspan.concat index
      have htight1 : Tight MAX_SIZE (calls ++ [⟨value, weight⟩]) h1.scale := by
        rw [hscale1]
        exact htight.pred hspan' (by omega)
      have hne1 : indices h1.scale calls ≠ [] := by
        rw [hscale1]
        exact fun hnil => hne ((indices_nil_pred hnat).mp hnil)
      obtain ⟨h', index', lo', hi', hb', hindex', hspan'', hroom', htight', hdepth⟩ :=
        ih h1 hb1 (by omega) hne1 htight1
      refine ⟨h', index', lo', hi', hb', hindex', hspan'', hroom', htight', fun depth hk => ?_⟩
      obtain ⟨rest, hrest⟩ := hdepth (depth - 1) (by omega)
      refine ⟨rest, ?_⟩
      rw [← hrest, ← Nat.sub_add_cancel (show 1 ≤ depth by omega),
        resizeToFit_eq hb hnat hvalue hindex hspan, if_pos (by omega), hcompress, Except.ok_bind]
      rfl

end Fit

section Record

variable {MAX_SIZE : Nat}

theorem resizeDefault_fits (v : HeaplessVec MAX_SIZE) {i : Nat} (hi : i < MAX_SIZE) :
    ∃ v' : HeaplessVec MAX_SIZE, v'.toList = v.toList ++ List.replicate (i + 1 - v.len) 0 ∧
      i < v'.toList.length ∧ (if v.len ≤ i then v.resizeDefault (i + 1) else .ok v) = .ok v' := by
  have hlen := v.length_le
  have hpadded : (v.toList ++ List.replicate (i + 1 - v.len) 0).length ≤ MAX_SIZE := by
    simp only [List.length_append, List.length_replicate, HeaplessVec.len]
    omega
  refine ⟨⟨_, hpadded⟩, rfl, ?_, ?_⟩
  · simp only [List.length_append, List.length_replicate, HeaplessVec.len]
    omega
  split
  case isTrue hle =>
    have htake : v.toList.take (i + 1) = v.toList :=
      List.take_of_length_le (Nat.le_succ_of_le hle)
    rw [HeaplessVec.resizeDefault, htake, HeaplessVec.collect_ok hpadded]
  case isFalse hlt =>
    have hzero : i + 1 - v.len = 0 := by omega
    simp [hzero]

theorem addAt_resized {v : HeaplessVec MAX_SIZE} {i : Nat} (weight : Nat) (hi : i < MAX_SIZE)
    (hweight : weight < 2 ^ 64) (hold : ∀ x ∈ v.toList, x + weight < 2 ^ 64) :
    ∃ v' : HeaplessVec MAX_SIZE,
      v'.toList = (v.toList ++ List.replicate (i + 1 - v.len) 0).modify i (· + weight) ∧
      ((if v.len ≤ i then v.resizeDefault (i + 1) else .ok v) >>= fun buckets =>
        buckets.addAt i weight) = .ok v' := by
  obtain ⟨padded, hpadded, hlen, hresized⟩ := resizeDefault_fits v hi
  have hbound : ∀ x ∈ padded.toList, x + weight < 2 ^ 64 := by
    intro x hx
    rw [hpadded] at hx
    rcases List.mem_append.mp hx with hx | hx
    · exact hold x hx
    · rw [List.eq_of_mem_replicate hx]
      omega
  refine ⟨⟨_, (List.length_modify _ _ i).trans_le padded.length_le⟩, by rw [← hpadded], ?_⟩
  rw [hresized, Except.ok_bind, HeaplessVec.addAt, List.getElem?_eq_getElem hlen]
  dsimp only
  rw [u64_ok (hbound _ (List.getElem_mem hlen)), Except.ok_bind]
  rfl

theorem recordWeighted_eq {h h1 : ExponentialHistogram MAX_SIZE} {depth i : Nat} {value : F64}
    {weight : Nat} {v : HeaplessVec MAX_SIZE} (hresize : h.resizeToFit depth value = .ok (i, h1))
    (hstore : ((if h1.buckets.len ≤ i then h1.buckets.resizeDefault (i + 1) else .ok h1.buckets) >>=
      fun buckets => buckets.addAt i weight) = .ok v) (hcount : h1.count + weight < 2 ^ 64) :
    h.recordWeighted depth value weight = .ok { h1 with
      sum := h1.sum + value.toRat * weight, count := h1.count + weight, buckets := v } := by
  rw [ExponentialHistogram.recordWeighted, hresize, Except.ok_bind]
  dsimp only
  rw [← bind_assoc, hstore, Except.ok_bind, u64_ok hcount, Except.ok_bind]
  rfl

variable {calls : List Call} {call : Call}

theorem totalSum_concat (calls : List Call) (call : Call) :
    totalSum (calls ++ [call]) = totalSum calls + call.value.toRat * call.weight := by
  simp [totalSum]

theorem zeroWeight_concat (calls : List Call) (call : Call) :
    zeroWeight (calls ++ [call]) =
      zeroWeight calls + if call.value.toRat = 0 then call.weight else 0 := by
  by_cases h : call.value.toRat = 0 <;> simp [zeroWeight, h]

theorem bucket_le {h : ExponentialHistogram MAX_SIZE} (hb : Bucketed calls h) :
    ∀ x ∈ h.buckets.toList, x ≤ totalWeight calls := by
  intro x hx
  rcases eq_or_ne calls [] with hnil | hne
  · simp [hb.nil hnil] at hx
  rw [hb.buckets hne] at hx
  rcases List.mem_cons.mp hx with rfl | hx
  · exact filter_weight_le _ _
  · rcases eq_or_ne (indices h.scale calls) [] with hnil | hsome
    · simp [occupied_of_nil hnil] at hx
    · obtain ⟨lo, hi, hspan⟩ := Spans.exists_of_ne_nil hsome
      rw [occupied_of_spans hspan, window] at hx
      obtain ⟨j, -, rfl⟩ := List.mem_map.mp hx
      exact filter_weight_le _ _

theorem Tight.concat {scale : Int} (htight : Tight MAX_SIZE calls scale) (call : Call) :
    Tight MAX_SIZE (calls ++ [call]) scale := by
  intro s hs hs20
  obtain ⟨lo, hi, hspan, hlong⟩ := htight s hs hs20
  rw [indices_append]
  cases hindex : indexForValue s call.value with
  | none =>
    rw [indices_singleton_none hindex, List.append_nil]
    exact ⟨lo, hi, hspan, hlong⟩
  | some index =>
    rw [indices_singleton hindex]
    exact ⟨_, _, hspan.concat index, by omega⟩

theorem recordWeighted_zero {h : ExponentialHistogram MAX_SIZE} (hmax : 3 ≤ MAX_SIZE)
    (hb : Bucketed calls h) (hvalue : call.value.IsNat) (hzero : call.value.toRat = 0)
    (htotal : totalWeight (calls ++ [call]) < 2 ^ 64) :
    ∃ h' : ExponentialHistogram MAX_SIZE, Bucketed (calls ++ [call]) h' ∧ h'.scale = h.scale ∧
      ∀ depth, h.resizeToFit (depth + 1) call.value = .ok (0, h) ∧
        h.recordWeighted (depth + 1) call.value call.weight = .ok h' := by
  rw [totalWeight_concat] at htotal
  have hnone := (indexForValue_none_iff hvalue h.scale).mpr hzero
  have hresize : ∀ depth, h.resizeToFit (depth + 1) call.value = .ok (0, h) := fun depth => by
    rw [ExponentialHistogram.resizeToFit, method_indexForValue hb, Except.ok_bind, hnone]
    rfl
  obtain ⟨v, hv, hstore⟩ := addAt_resized (v := h.buckets) (i := 0) call.weight
    (by omega) (by omega) fun x hx => by
      have := bucket_le hb x hx
      omega
  have hindices : indices h.scale (calls ++ [call]) = indices h.scale calls := by
    rw [indices_append, indices_singleton_none hnone, List.append_nil]
  have hoccupied : occupied h.scale (calls ++ [call]) = occupied h.scale calls := by
    have hweight : weightAt h.scale (calls ++ [call]) = weightAt h.scale calls :=
      funext (weightAt_concat_none hnone)
    rw [occupied, hindices, hweight, occupied]
  refine ⟨⟨h.scale, h.sum + call.value.toRat * call.weight, h.count + call.weight,
    h.indexOffset, v⟩, ?_, rfl, fun depth => ⟨hresize depth,
    recordWeighted_eq (hresize depth) hstore (by rw [hb.count]; omega)⟩⟩
  exact {
    scale_le := hb.scale_le
    le_scale := hb.le_scale
    count := by rw [totalWeight_concat, ← hb.count]
    sum := by rw [totalSum_concat, ← hb.sum]
    offset := by rw [hindices]; exact hb.offset
    nil := fun hnil => absurd hnil (by simp)
    buckets := fun _ => by
      dsimp only
      rw [hv, hoccupied, zeroWeight_concat, if_pos hzero]
      rcases eq_or_ne calls [] with hnil | hne
      · subst hnil
        simp [HeaplessVec.len, hb.nil rfl, zeroWeight, occupied, indices]
      · simp [HeaplessVec.len, hb.buckets hne] }

theorem stored_window {scale index lo : Int} {n : Nat}
    (hindex : indexForValue scale call.value = some index) (hpos : call.value.toRat ≠ 0)
    (hlo : lo ≤ index) (hhigh : ∀ i, lo + n ≤ i → weightAt scale calls i = 0) :
    (zeroWeight calls :: window (weightAt scale calls) lo n ++
      List.replicate ((index - lo + 1).toNat + 1 - (n + 1)) 0).modify (index - lo + 1).toNat
        (· + call.weight) =
    zeroWeight (calls ++ [call]) ::
      window (weightAt scale (calls ++ [call])) lo (max n (index - lo + 1).toNat) := by
  have hsucc : (index - lo + 1).toNat = (index - lo).toNat + 1 := by omega
  have hgrow : window (weightAt scale calls) lo n ++
      List.replicate ((index - lo + 1).toNat + 1 - (n + 1)) 0 =
      window (weightAt scale calls) lo (max n (index - lo + 1).toNat) := by
    rw [window_append_replicate _ _ hhigh]
    congr 1
    omega
  have hat : lo + ((index - lo).toNat : Int) = index := by omega
  rw [List.cons_append, hgrow, zeroWeight_concat, if_neg hpos, add_zero]
  conv_lhs => rw [hsucc, List.modify_succ_cons]
  rw [window_modify, hat, ← hsucc]
  congr 2
  funext i
  rw [weightAt_concat hindex]

theorem bucketed_concat {h : ExponentialHistogram MAX_SIZE} {lo hi : Int}
    (hscale : h.scale ≤ 20 ∧ -11 ≤ h.scale)
    (hcount : h.count = totalWeight calls + call.weight)
    (hsum : h.sum = totalSum calls + call.value.toRat * call.weight)
    (hspan : Spans (indices h.scale (calls ++ [call])) lo hi)
    (hoffset : h.indexOffset = some lo)
    (hbuckets : h.buckets.toList = zeroWeight (calls ++ [call]) ::
      window (weightAt h.scale (calls ++ [call])) lo (hi - lo + 1).toNat) :
    Bucketed (calls ++ [call]) h where
  scale_le := hscale.1
  le_scale := hscale.2
  count := by rw [totalWeight_concat, hcount]
  sum := by rw [totalSum_concat, hsum]
  offset := hoffset.trans hspan.min?_eq.symm
  nil := fun hnil => absurd hnil (by simp)
  buckets := fun _ => by rw [hbuckets, occupied_of_spans hspan]

end Record

end Isz.Amdgpu
