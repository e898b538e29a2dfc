import Mathlib.Data.List.Basic
import Mathlib.Algebra.BigOperators.Group.List.Basic
import Mathlib.Tactic.Ring

namespace Bucketing

def window (w : Int → Nat) (lo : Int) (n : Nat) : List Nat :=
  (List.range n).map fun j : Nat => w (lo + (j : Int))

@[simp] theorem window_length (w : Int → Nat) (lo : Int) (n : Nat) :
    (window w lo n).length = n := by simp [window]

@[simp] theorem window_zero (w : Int → Nat) (lo : Int) : window w lo 0 = [] := rfl

theorem window_getElem (w : Int → Nat) (lo : Int) (n j : Nat) (h : j < (window w lo n).length) :
    (window w lo n)[j] = w (lo + j) := by simp [window]

theorem window_succ (w : Int → Nat) (lo : Int) (n : Nat) :
    window w lo (n + 1) = w lo :: window w (lo + 1) n := by
  simp only [window, List.range_succ_eq_map, List.map_cons, List.map_map, Nat.cast_zero, add_zero,
    List.cons.injEq, true_and]
  refine List.map_congr_left fun j _ => ?_
  simp only [Function.comp, Nat.succ_eq_add_one, Nat.cast_add, Nat.cast_one]
  congr 1
  ring

theorem window_append (w : Int → Nat) (lo : Int) (m n : Nat) :
    window w lo (m + n) = window w lo m ++ window w (lo + m) n := by
  induction m generalizing lo with
  | zero => simp
  | succ m ih =>
    rw [Nat.succ_add, window_succ, ih, window_succ, List.cons_append]
    have hlo : lo + 1 + (m : Int) = lo + (m + 1 : ℕ) := by
      push_cast
      ring
    rw [hlo]

theorem window_congr {w v : Int → Nat} {lo : Int} {n : Nat}
    (h : ∀ i, lo ≤ i → i < lo + n → w i = v i) : window w lo n = window v lo n := by
  refine List.map_congr_left fun j hj => h _ ?_ ?_ <;>
  · have := List.mem_range.mp hj
    omega

theorem window_eq_replicate {w : Int → Nat} {lo : Int} {n : Nat}
    (h : ∀ i, lo ≤ i → i < lo + n → w i = 0) : window w lo n = List.replicate n 0 := by
  rw [window_congr h, List.eq_replicate_iff]
  exact ⟨window_length _ _ _, by simp [window]⟩

theorem replicate_append_window {w : Int → Nat} {lo : Int} (k n : Nat)
    (h : ∀ i, i < lo → w i = 0) :
    List.replicate k 0 ++ window w lo n = window w (lo - k) (k + n) := by
  have hfront : window w (lo - k) k = List.replicate k 0 :=
    window_eq_replicate fun i _ hi => h i (by omega)
  rw [window_append, hfront, sub_add_cancel]

theorem window_append_replicate {w : Int → Nat} {lo : Int} (n k : Nat)
    (h : ∀ i, lo + n ≤ i → w i = 0) :
    window w lo n ++ List.replicate k 0 = window w lo (n + k) := by
  have hback : window w (lo + n) k = List.replicate k 0 :=
    window_eq_replicate fun i hi _ => h i hi
  rw [window_append, hback]

theorem window_modify (w : Int → Nat) (lo : Int) (n j x : Nat) :
    (window w lo n).modify j (· + x) =
      window (fun i => w i + if i = lo + j then x else 0) lo n := by
  apply List.ext_getElem (by simp)
  intro k hk hk'
  rw [List.getElem_modify, window_getElem, window_getElem]
  by_cases h : j = k
  · simp [h]
  · have : ¬lo + (k : Int) = lo + j := by omega
    simp [h, this]

def halve (w : Int → Nat) (i : Int) : Nat := w (2 * i) + w (2 * i + 1)

def pairSums : List Nat → List Nat
  | [] => []
  | [a] => [a]
  | a :: b :: rest => (a + b) :: pairSums rest

theorem pairSums_window (w : Int → Nat) (lo : Int) (n : Nat)
    (h : ∀ i, 2 * lo + n ≤ i → w i = 0) :
    pairSums (window w (2 * lo) n) = window (halve w) lo ((n + 1) / 2) := by
  induction n using Nat.twoStepInduction generalizing lo with
  | zero => rfl
  | one =>
    have hnext : w (2 * lo + 1) = 0 := h _ (by simp)
    simp [window, pairSums, halve, hnext]
  | more n ih _ =>
    have hlen : (n + 2 + 1) / 2 = (n + 1) / 2 + 1 := by omega
    have hrest := ih (lo + 1) fun i hi => h i (by push_cast; omega)
    have hlo : 2 * lo + 1 + 1 = 2 * (lo + 1) := by ring
    rw [hlen, window_succ, window_succ, window_succ, pairSums, hlo, hrest, halve]

section Tally

variable {α : Type}

def tally (key : α → Option Int) (weight : α → Nat) (l : List α) (i : Int) : Nat :=
  ((l.filter fun a => key a = some i).map weight).sum

variable (key : α → Option Int) (weight : α → Nat)

theorem tally_append (l r : List α) (i : Int) :
    tally key weight (l ++ r) i = tally key weight l i + tally key weight r i := by
  simp [tally]

theorem tally_cons (a : α) (l : List α) (i : Int) :
    tally key weight (a :: l) i =
      (if key a = some i then weight a else 0) + tally key weight l i := by
  by_cases h : key a = some i <;> simp [tally, h]

theorem tally_eq_zero {l : List α} {i : Int} (h : ∀ a ∈ l, key a ≠ some i) :
    tally key weight l i = 0 := by
  have hf : l.filter (fun a => key a = some i) = [] := by
    simpa [List.filter_eq_nil_iff] using h
  simp [tally, hf]

theorem tally_halve {key key' : α → Option Int} {l : List α}
    (h : ∀ a ∈ l, key' a = (key a).map (· / 2)) (i : Int) :
    tally key' weight l i = halve (tally key weight l) i := by
  induction l with
  | nil => rfl
  | cons a l ih =>
    have ha : key' a = (key a).map (· / 2) := h a (by simp)
    have hl := ih fun b hb => h b (by simp [hb])
    simp only [halve, tally_cons] at hl ⊢
    rw [hl, ha]
    cases hk : key a with
    | none => simp
    | some k =>
      simp only [Option.map_some, Option.some.injEq]
      split_ifs <;> omega

def tallyBelow (l : List α) (b : Int) : Nat :=
  ((l.filter fun a => (key a).any (· < b)).map weight).sum

theorem tallyBelow_succ (l : List α) (b : Int) :
    tallyBelow key weight l (b + 1) = tallyBelow key weight l b + tally key weight l b := by
  induction l with
  | nil => rfl
  | cons a l ih =>
    simp only [tallyBelow] at ih
    simp only [tallyBelow, tally_cons, List.filter_cons]
    cases hk : key a with
    | none => simpa [hk] using ih
    | some k =>
      simp only [Option.any_some, decide_eq_true_eq, Option.some.injEq]
      split_ifs <;> first | omega | (simp only [List.map_cons, List.sum_cons]; omega)

theorem tallyBelow_eq_zero {l : List α} {b : Int} (h : ∀ a ∈ l, ∀ i, key a = some i → b ≤ i) :
    tallyBelow key weight l b = 0 := by
  have hf : l.filter (fun a => (key a).any (· < b)) = [] := by
    rw [List.filter_eq_nil_iff]
    intro a ha
    cases hk : key a with
    | none => simp
    | some i => simpa using h a ha i hk
  simp [tallyBelow, hf]

theorem window_tally_sum {l : List α} {lo : Int} (n : Nat)
    (h : ∀ a ∈ l, ∀ i, key a = some i → lo ≤ i) :
    (window (tally key weight l) lo n).sum = tallyBelow key weight l (lo + n) := by
  induction n with
  | zero => simp [tallyBelow_eq_zero key weight h]
  | succ n ih =>
    rw [window_append, List.sum_append, ih]
    push_cast
    rw [← add_assoc, tallyBelow_succ]
    simp [window]

end Tally

structure Spans (l : List Int) (lo hi : Int) : Prop where
  lo_mem : lo ∈ l
  hi_mem : hi ∈ l
  bounds : ∀ i ∈ l, lo ≤ i ∧ i ≤ hi

namespace Spans

variable {l : List Int} {lo hi : Int}

theorem le (h : Spans l lo hi) : lo ≤ hi := (h.bounds lo h.lo_mem).2

theorem map_halve (h : Spans l lo hi) : Spans (l.map (· / 2)) (lo / 2) (hi / 2) where
  lo_mem := List.mem_map_of_mem h.lo_mem
  hi_mem := List.mem_map_of_mem h.hi_mem
  bounds := by
    simp only [List.mem_map]
    rintro _ ⟨i, hi, rfl⟩
    have := h.bounds i hi
    omega

theorem concat (h : Spans l lo hi) (i : Int) : Spans (l ++ [i]) (min lo i) (max hi i) where
  lo_mem := by
    rcases min_choice lo i with hm | hm <;> simp [hm, h.lo_mem]
  hi_mem := by
    rcases max_choice hi i with hm | hm <;> simp [hm, h.hi_mem]
  bounds := by
    intro j hj
    rcases List.mem_append.mp hj with hj | hj
    · have := h.bounds j hj
      omega
    · have := List.mem_singleton.mp hj
      omega

theorem singleton (i : Int) : Spans [i] i i where
  lo_mem := by simp
  hi_mem := by simp
  bounds := by simp

theorem min?_eq (h : Spans l lo hi) : l.min? = some lo :=
  List.min?_eq_some_iff.mpr ⟨h.lo_mem, fun i hi => (h.bounds i hi).1⟩

theorem max?_eq (h : Spans l lo hi) : l.max? = some hi :=
  List.max?_eq_some_iff.mpr ⟨h.hi_mem, fun i hi => (h.bounds i hi).2⟩

theorem exists_of_ne_nil (hl : l ≠ []) : ∃ lo hi, Spans l lo hi := by
  obtain ⟨lo, hlo⟩ := Option.isSome_iff_exists.mp (List.isSome_min?_of_ne_nil hl)
  obtain ⟨hi, hhi⟩ := Option.isSome_iff_exists.mp (List.isSome_max?_of_ne_nil hl)
  obtain ⟨hlm, hlb⟩ := List.min?_eq_some_iff.mp hlo
  obtain ⟨hhm, hhb⟩ := List.max?_eq_some_iff.mp hhi
  exact ⟨lo, hi, hlm, hhm, fun i h => ⟨hlb i h, hhb i h⟩⟩

end Spans

end Bucketing
