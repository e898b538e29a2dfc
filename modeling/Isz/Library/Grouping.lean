import Isz.Library.Dict
import Mathlib.Data.List.Dedup

namespace Grouping

variable {α κ : Type} [DecidableEq κ]

-- keys in the order in which they are first seen, the members of each in their own order
def bucket (key : α → κ) (l : List α) : List (κ × List α) :=
  (l.map key).eraseDups.map fun k => (k, l.filter fun a => key a = k)

theorem map_fst_bucket (key : α → κ) (l : List α) :
    (bucket key l).map Prod.fst = (l.map key).eraseDups := by
  rw [bucket, List.map_map]
  exact List.map_id _

theorem mem_keys {key : α → κ} {l : List α} {k : κ} :
    k ∈ (l.map key).eraseDups ↔ k ∈ l.map key := List.mem_eraseDups

theorem mem_bucket {key : α → κ} {l : List α} {e : κ × List α} :
    e ∈ bucket key l ↔ e.1 ∈ l.map key ∧ e.2 = l.filter fun a => key a = e.1 := by
  rw [bucket, List.mem_map]
  constructor
  · rintro ⟨k, hk, rfl⟩
    exact ⟨mem_keys.mp hk, rfl⟩
  · rintro ⟨hk, heq⟩
    exact ⟨e.1, mem_keys.mpr hk, Prod.ext rfl heq.symm⟩

theorem lookup_map_of_mem {V : Type} [BEq κ] [LawfulBEq κ] (f : κ → V) {keys : List κ} {k : κ}
    (hk : k ∈ keys) : (keys.map fun k => (k, f k)).lookup k = some (f k) := by
  induction keys with
  | nil => cases hk
  | cons k' keys ih =>
    rw [List.map_cons, List.lookup_cons]
    by_cases heq : k = k'
    · rw [heq, beq_self_eq_true]
    · rw [beq_false_of_ne heq]
      exact ih ((List.mem_cons.mp hk).resolve_left heq)

theorem getLast?_filter {l : List α} {p : α → Bool} {a : α}
    (h : l.getLast? = some a) (hp : p a) : (l.filter p).getLast? = some a := by
  obtain ⟨init, rfl⟩ := List.getLast?_eq_some_iff.mp h
  rw [List.filter_append, List.filter_singleton, hp]
  exact List.getLast?_concat

theorem filter_flatMap_key (key : α → κ) (l : List α) {keys : List κ} (hnodup : keys.Nodup)
    {k : κ} (hk : k ∈ keys) :
    ((keys.flatMap fun k' => l.filter fun a => key a = k').filter fun a => key a = k) =
      l.filter fun a => key a = k := by
  have hother : ∀ keys : List κ, k ∉ keys →
      ((keys.flatMap fun k' => l.filter fun a => key a = k').filter fun a => key a = k) = [] := by
    intro keys hnot
    rw [List.filter_eq_nil_iff]
    intro a ha
    obtain ⟨k', hk', ha⟩ := List.mem_flatMap.mp ha
    have heq := of_decide_eq_true (List.mem_filter.mp ha).2
    simp only [decide_eq_true_eq]
    exact fun h => hnot (h ▸ heq ▸ hk')
  have hsame : ((l.filter fun a => key a = k).filter fun a => key a = k) =
      l.filter fun a => key a = k :=
    List.filter_eq_self.mpr fun a ha => (List.mem_filter.mp ha).2
  induction keys with
  | nil => cases hk
  | cons k' keys ih =>
    obtain ⟨hk', hkeys⟩ := List.nodup_cons.mp hnodup
    rw [List.flatMap_cons, List.filter_append]
    by_cases heq : k' = k
    · subst heq
      rw [hother keys hk', List.append_nil, hsame]
    · have hnone : ((l.filter fun a => key a = k').filter fun a => key a = k) = [] := by
        simpa using hother [k'] (by simpa using Ne.symm heq)
      rw [hnone, List.nil_append, ih hkeys ((List.mem_cons.mp hk).resolve_left (Ne.symm heq))]

theorem lookup_foldl_assign {V : Type} [BEq κ] [LawfulBEq κ] (key : α → κ) (value : α → V)
    (l : List α) (d : List (κ × V)) (k : κ) :
    (l.foldl (fun d a => assign d (key a) (value a)) d).lookup k =
      ((l.filter fun a => key a = k).getLast?.map value).or (d.lookup k) := by
  induction l generalizing d with
  | nil => rfl
  | cons a l ih =>
    rw [List.foldl_cons, ih, List.filter_cons]
    by_cases hkey : key a = k
    · subst hkey
      rw [lookup_assign_self, if_pos (decide_eq_true rfl), List.getLast?_cons]
      cases (l.filter fun b => key b = key a).getLast? <;> rfl
    · rw [lookup_assign_of_ne _ _ (Ne.symm hkey), if_neg (by simpa using hkey)]

end Grouping
