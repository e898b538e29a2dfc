import Isz.Library.Except
import Isz.Library.PyDict
import Isz.Library.Text

namespace Isz.Mikrotik.Counters

open Except

abbrev Stats := PyDict Str (List Nat)

def merged (low high : List Nat) : List Nat :=
  List.zipWith (fun v1 v2 => v1 ||| (if v2 = 0xffffffff then 0 else v2) <<< 32) low high

-- set(k+'h' for k in keys) & keys
def keysHigh {V : Type} (stats : PyDict Str V) : List Str :=
  stats.keys.filter fun k => k ∈ stats.keys.map (· ++ ['h'])

def mergeKey (stats : Stats) (k : Str) : Except (PyDict.KeyError Str) Stats := do
  let low ← stats.getItem k.dropLast
  let high ← stats.getItem k
  (stats.insert k.dropLast (merged low high)).delItem k

-- order is the iteration order of keys_high
def merge64bit (order : List Str) (stats : Stats) : Except (PyDict.KeyError Str) Stats :=
  order.foldlM mergeKey stats

def mergedEntry (stats : Stats) (k : Str) : Option (List Nat) :=
  if k ∈ keysHigh stats then none
  else
    match stats.get? k, stats.get? (k ++ ['h']) with
    | some low, some high => some (merged low high)
    | entry, _ => entry

def MergesAlike (stats : Stats) : Prop :=
  ∀ order, order.Perm (keysHigh stats) →
    ∃ result, merge64bit order stats = .ok result ∧ ∀ k, result.get? k = mergedEntry stats k

def Chained (stats : Stats) : Prop :=
  ∃ k, k ∈ stats.keys ∧ k ++ ['h'] ∈ stats.keys ∧ k ++ ['h', 'h'] ∈ stats.keys

theorem mem_keysHigh {stats : Stats} {k : Str} :
    k ∈ keysHigh stats ↔ ∃ low ∈ stats.keys, k = low ++ ['h'] ∧ k ∈ stats.keys := by
  simp only [keysHigh, List.mem_filter, List.mem_map, decide_eq_true_iff]
  constructor
  · rintro ⟨hk, low, hlow, rfl⟩
    exact ⟨low, hlow, rfl, hk⟩
  · rintro ⟨low, hlow, rfl, hk⟩
    exact ⟨hk, low, hlow, rfl⟩

section Unchained

variable {stats : Stats} (hfree : ¬Chained stats)

include hfree

theorem notMem_keysHigh_of_low {low : Str} (h : low ++ ['h'] ∈ keysHigh stats) :
    low ∉ keysHigh stats := by
  intro hlow
  obtain ⟨first, hfirst, rfl, hkey⟩ := mem_keysHigh.mp hlow
  obtain ⟨_, _, _, hhigh⟩ := mem_keysHigh.mp h
  exact hfree ⟨first, hfirst, hkey, by simpa using hhigh⟩

theorem mergeKey_step {d : Stats} {done : List Str} {k : Str} (hk : k ∈ keysHigh stats)
    (hnew : k ∉ done) (hdone : ∀ x ∈ done, x ∈ keysHigh stats)
    (hd : ∀ x, d.get? x =
      if x ∈ done ∨ x ++ ['h'] ∈ done then mergedEntry stats x else stats.get? x) :
    ∃ d', mergeKey d k = .ok d' ∧ ∀ x, d'.get? x =
      if x ∈ k :: done ∨ x ++ ['h'] ∈ k :: done then mergedEntry stats x else stats.get? x := by
  obtain ⟨low, hlow, rfl, hkey⟩ := mem_keysHigh.mp hk
  have hlowFree := notMem_keysHigh_of_low hfree hk
  obtain ⟨v1, hv1⟩ := Option.isSome_iff_exists.mp (PyDict.mem_keys.mp hlow)
  obtain ⟨v2, hv2⟩ := Option.isSome_iff_exists.mp (PyDict.mem_keys.mp hkey)
  have hreadLow : d.get? low = some v1 := by
    rw [hd, if_neg, hv1]
    rintro (hin | hin)
    · exact hlowFree (hdone _ hin)
    · exact hnew hin
  have hreadHigh : d.get? (low ++ ['h']) = some v2 := by
    rw [hd, if_neg, hv2]
    rintro (hin | hin)
    · exact hnew hin
    · exact notMem_keysHigh_of_low hfree (hdone _ hin) hk
  have hstay : (d.insert low (merged v1 v2)).get? (low ++ ['h']) = some v2 := by
    rw [PyDict.get?_insert, if_neg (by simp), hreadHigh]
  obtain ⟨d', hdel⟩ := PyDict.delItem_ok hstay
  refine ⟨d', ?_, fun x => ?_⟩
  · rw [mergeKey, List.dropLast_concat, PyDict.getItem_eq hreadLow, ok_bind,
      PyDict.getItem_eq hreadHigh, ok_bind, hdel]
  · rw [PyDict.get?_delItem hdel, PyDict.get?_insert]
    by_cases hx : x = low ++ ['h']
    · rw [if_pos hx, if_pos (.inl (hx ▸ List.mem_cons_self)), mergedEntry, if_pos (hx ▸ hk)]
    · rw [if_neg hx]
      by_cases hlow' : x = low
      · rw [if_pos hlow', hlow', if_pos (.inr List.mem_cons_self), mergedEntry, if_neg hlowFree,
          hv1, hv2]
      · rw [if_neg hlow', hd]
        simp [hx, hlow']

theorem merge64bit_ok {order done : List Str} {d : Stats} (hnodup : (done ++ order).Nodup)
    (hkeys : ∀ x ∈ done ++ order, x ∈ keysHigh stats)
    (hd : ∀ x, d.get? x =
      if x ∈ done ∨ x ++ ['h'] ∈ done then mergedEntry stats x else stats.get? x) :
    ∃ result, merge64bit order d = .ok result ∧ ∀ x, result.get? x =
      if x ∈ done ++ order ∨ x ++ ['h'] ∈ done ++ order then mergedEntry stats x
      else stats.get? x := by
  induction order generalizing done d with
  | nil => exact ⟨d, rfl, by simpa using hd⟩
  | cons k order ih =>
    have hperm : (done ++ k :: order).Perm (k :: done ++ order) := List.perm_middle
    rw [List.Perm.nodup_iff hperm] at hnodup
    have hnew : k ∉ done := fun hin =>
      (List.nodup_cons.mp hnodup).1 (List.mem_append_left _ hin)
    have hkeys' : ∀ x ∈ k :: done ++ order, x ∈ keysHigh stats := fun x hx =>
      hkeys x (hperm.mem_iff.mpr hx)
    obtain ⟨d', hstep, hd'⟩ := mergeKey_step hfree (hkeys' k List.mem_cons_self) hnew
      (fun x hx => hkeys x (List.mem_append_left _ hx)) hd
    obtain ⟨result, hresult, hentries⟩ := ih hnodup hkeys' hd'
    refine ⟨result, ?_, fun x => ?_⟩
    · rw [merge64bit, List.foldlM_cons, hstep]
      exact hresult
    · rw [hentries]
      simp only [hperm.mem_iff]

end Unchained

theorem mergeKey_eq_ok {d d' : Stats} {low : Str} (h : mergeKey d (low ++ ['h']) = .ok d') :
    (d.get? low).isSome ∧ ∃ v, ∀ x, d'.get? x =
      if x = low ++ ['h'] then none else if x = low then some v else d.get? x := by
  rw [mergeKey, List.dropLast_concat] at h
  obtain ⟨v1, hv1, hrest⟩ := bind_eq_ok.mp h
  obtain ⟨v2, -, hdel⟩ := bind_eq_ok.mp hrest
  refine ⟨?_, merged v1 v2, fun x => by rw [PyDict.get?_delItem hdel, PyDict.get?_insert]⟩
  cases hlow : d.get? low with
  | some v => rfl
  | none =>
    rw [PyDict.getItem_missing hlow] at hv1
    cases hv1

theorem merge64bit_missing {low : Str} {order : List Str} {d : Stats}
    (hkeys : ∀ k ∈ order, ∃ x, k = x ++ ['h']) (hmem : low ++ ['h', 'h'] ∈ order)
    (hgone : d.get? (low ++ ['h']) = none) : ∃ e, merge64bit order d = .error e := by
  induction order generalizing d with
  | nil => cases hmem
  | cons k order ih =>
    rw [List.forall_mem_cons] at hkeys
    obtain ⟨⟨x, rfl⟩, hkeys⟩ := hkeys
    rw [merge64bit, List.foldlM_cons]
    cases hstep : mergeKey d (x ++ ['h']) with
    | error e => exact ⟨e, rfl⟩
    | ok d' =>
      obtain ⟨hsome, v, hentries⟩ := mergeKey_eq_ok hstep
      have hne : low ++ ['h'] ≠ x := by
        rintro rfl
        rw [hgone] at hsome
        cases hsome
      have hin : low ++ ['h', 'h'] ∈ order := by
        obtain heq | hin := List.mem_cons.mp hmem
        · have happend : low ++ ['h', 'h'] = low ++ ['h'] ++ ['h'] := by simp
          rw [happend] at heq
          exact absurd (List.append_cancel_right heq) hne
        · exact hin
      refine ih hkeys hin ?_
      rw [hentries, if_neg hne, hgone, ite_self]

theorem not_mergesAlike {stats : Stats} (h : Chained stats) : ¬MergesAlike stats := by
  obtain ⟨low, hlow, hkey, hhigh⟩ := h
  have hfirst : low ++ ['h'] ∈ keysHigh stats := mem_keysHigh.mpr ⟨low, hlow, rfl, hkey⟩
  have hsecond : low ++ ['h', 'h'] ∈ keysHigh stats :=
    mem_keysHigh.mpr ⟨low ++ ['h'], hkey, by simp, hhigh⟩
  have hne : low ++ ['h', 'h'] ≠ low ++ ['h'] := by simp
  intro halike
  obtain ⟨result, hresult, -⟩ := halike
    ((low ++ ['h']) :: (keysHigh stats).erase (low ++ ['h'])) (List.perm_cons_erase hfirst).symm
  rw [merge64bit, List.foldlM_cons] at hresult
  obtain ⟨d, hstep, hrest⟩ := bind_eq_ok.mp hresult
  obtain ⟨-, v, hentries⟩ := mergeKey_eq_ok hstep
  have hends : ∀ k ∈ (keysHigh stats).erase (low ++ ['h']), ∃ x, k = x ++ ['h'] := by
    intro k hk
    obtain ⟨x, -, hx, -⟩ := mem_keysHigh.mp (List.mem_of_mem_erase hk)
    exact ⟨x, hx⟩
  obtain ⟨e, he⟩ := merge64bit_missing hends ((List.mem_erase_of_ne hne).mpr hsecond)
    ((hentries _).trans (if_pos rfl))
  rw [merge64bit, hrest] at he
  cases he

theorem mergesAlike_iff (stats : Stats) : MergesAlike stats ↔ ¬Chained stats := by
  refine ⟨fun halike hchained => not_mergesAlike hchained halike, fun hfree order horder => ?_⟩
  have hnodup : ([] ++ order).Nodup := horder.nodup_iff.mpr (stats.distinct.filter _)
  have hkeys : ∀ x ∈ [] ++ order, x ∈ keysHigh stats := fun x hx => horder.mem_iff.mp hx
  obtain ⟨result, hresult, hentries⟩ :=
    merge64bit_ok hfree hnodup hkeys (d := stats) (fun x => by simp)
  refine ⟨result, hresult, fun k => ?_⟩
  rw [hentries]
  split
  case isTrue => rfl
  case isFalse hneither =>
    rw [List.nil_append, horder.mem_iff, horder.mem_iff, not_or] at hneither
    rw [mergedEntry, if_neg hneither.1]
    split
    case h_1 low high hlow hhigh =>
      have hkeys := PyDict.mem_keys.mpr (Option.isSome_iff_exists.mpr ⟨low, hlow⟩)
      have hkeysHigh := PyDict.mem_keys.mpr (Option.isSome_iff_exists.mpr ⟨high, hhigh⟩)
      exact absurd (mem_keysHigh.mpr ⟨k, hkeys, rfl, hkeysHigh⟩) hneither.2
    case h_2 => rfl

def chainStats : Stats where
  items := [("a".toList, [1]), ("ah".toList, [2]), ("ahh".toList, [3])]
  distinct := by decide

theorem chainStats_raises :
    ["ah".toList, "ahh".toList].Perm (keysHigh chainStats) ∧
      merge64bit ["ah".toList, "ahh".toList] chainStats = .error ⟨"ah".toList⟩ ∧
      ¬MergesAlike chainStats := by
  have hperm : ["ah".toList, "ahh".toList].Perm (keysHigh chainStats) := by decide
  have hraises : merge64bit ["ah".toList, "ahh".toList] chainStats = .error ⟨"ah".toList⟩ := rfl
  refine ⟨hperm, hraises, fun h => ?_⟩
  obtain ⟨result, hresult, -⟩ := h _ hperm
  rw [hraises] at hresult
  cases hresult

end Isz.Mikrotik.Counters
