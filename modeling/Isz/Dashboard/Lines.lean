import Mathlib.Algebra.Group.Prod
import Mathlib.Algebra.Order.Group.Unbundled.Int
import Mathlib.Data.List.Destutter
import Mathlib.Tactic.Linarith
import Mathlib.Tactic.Ring

namespace Isz.Dashboard

abbrev Point := Int × Int

def normalize (a b : Int) : Int × Int :=
  let d := b - a
  if d < 0 then (-d, -1) else (d, 1)

def straight (step : Point) : Nat → Point → List Point
  | 0, _ => []
  | n + 1, p => p :: straight step n (p + step)

-- the loop of both octants: step along the major axis, turn along the minor one
def bresenham (step turn : Point) (major2 minor2 : Int) : Nat → Point → Int → List Point
  | 0, _, _ => []
  | n + 1, p, e =>
    let (p', e) := if 0 ≤ e then (p + turn, e - major2) else (p, e)
    p :: bresenham step turn major2 minor2 n (p' + step) (e + minor2)

def linePoints (x0 y0 x1 y1 : Int) : List Point :=
  let (dx, xs) := normalize x0 x1
  let (dy, ys) := normalize y0 y1
  if dx = 0 then straight (0, ys) dy.toNat (x0, y0)
  else if dy = 0 then straight (xs, 0) dx.toNat (x0, y0)
  else if dy < dx then
    bresenham (xs, 0) (0, ys) (dx + dx) (dy + dy) dx.toNat (x0, y0) (dy + dy - dx)
  else bresenham (0, ys) (xs, 0) (dy + dy) (dx + dx) dy.toNat (x0, y0) (dx + dx - dy)

def pairwise {α : Type} (l : List α) : List (α × α) := l.zip l.tail

-- unique_justseen
def uniqueJustSeen (l : List Point) : List Point := l.destutter (· ≠ ·)

def linesPoints (xys : List Point) : List Point :=
  uniqueJustSeen ((pairwise xys).flatMap fun s => linePoints s.1.1 s.1.2 s.2.1 s.2.2)

def minorSteps (major minor i : Int) : Int := (2 * i * minor + major) / (2 * major)

def trace (x0 y0 x1 y1 i : Int) : Point :=
  let dx := |x1 - x0|
  let dy := |y1 - y0|
  if dy < dx then (x0 + (x1 - x0).sign * i, y0 + (y1 - y0).sign * minorSteps dx dy i)
  else (x0 + (x1 - x0).sign * minorSteps dy dx i, y0 + (y1 - y0).sign * i)

theorem floor_step {a b c : Int} (hc : 0 < c) (hb : 0 ≤ b ∧ b ≤ c) :
    (a + b) / c = if (a / c + 1) * c ≤ a + b then a / c + 1 else a / c := by
  have hlow : a / c * c ≤ a := Int.ediv_mul_le a hc.ne'
  have hhigh : a < (a / c + 1) * c := Int.lt_ediv_add_one_mul_self a hc
  split
  case isTrue hstep =>
    refine le_antisymm (Int.lt_add_one_iff.mp ((Int.ediv_lt_iff_lt_mul hc).mpr ?_))
      ((Int.le_ediv_iff_mul_le hc).mpr hstep)
    linarith
  case isFalse hstep =>
    refine le_antisymm (Int.lt_add_one_iff.mp ((Int.ediv_lt_iff_lt_mul hc).mpr ?_))
      ((Int.le_ediv_iff_mul_le hc).mpr ?_)
    · linarith
    · linarith

def along (p step turn : Point) (i m : Int) : Point :=
  (p.1 + step.1 * i + turn.1 * m, p.2 + step.2 * i + turn.2 * m)

theorem along_step (p step turn : Point) (i m : Int) :
    along p step turn i m + step = along p step turn (i + 1) m := by
  ext <;> simp only [along, Prod.fst_add, Prod.snd_add] <;> ring

theorem along_turn (p step turn : Point) (i m : Int) :
    along p step turn i m + turn = along p step turn i (m + 1) := by
  ext <;> simp only [along, Prod.fst_add, Prod.snd_add] <;> ring

theorem straight_eq (step turn p : Point) (n j : Nat) :
    straight step n (along p step turn j 0) =
      (List.range' j n).map fun i : Nat => along p step turn i 0 := by
  induction n generalizing j with
  | zero => rfl
  | succ n ih =>
    rw [straight, along_step, List.range'_succ, List.map_cons, ← ih]
    rfl

section Slope

variable {major minor : Int} (hmajor : 0 < major) (hminor : 0 ≤ minor ∧ minor ≤ major)

include hmajor

theorem minorSteps_zero : minorSteps major minor 0 = 0 := by
  rw [minorSteps]
  exact Int.ediv_eq_zero_of_lt (by omega) (by omega)

theorem minorSteps_end : minorSteps major minor major = minor := by
  have hwhole : 2 * major * minor + major = major + minor * (2 * major) := by ring
  rw [minorSteps, hwhole, Int.add_mul_ediv_right _ _ (by omega), Int.ediv_eq_zero_of_lt
    (by omega) (by omega), Int.zero_add]

theorem minorSteps_nearest (i : Int) :
    |2 * (minorSteps major minor i * major - i * minor)| ≤ major := by
  have hlow := Int.ediv_mul_le (2 * i * minor + major) (show 2 * major ≠ 0 by omega)
  have hhigh := Int.lt_ediv_add_one_mul_self (2 * i * minor + major) (show 0 < 2 * major by omega)
  rw [← minorSteps] at hlow hhigh
  rw [abs_le]
  constructor <;> linarith

include hminor

theorem minorSteps_succ (i : Int) :
    minorSteps major minor (i + 1) =
      if 0 ≤ 2 * i * minor + major + 2 * minor - (minorSteps major minor i + 1) * (2 * major)
      then minorSteps major minor i + 1 else minorSteps major minor i := by
  have hnext : 2 * (i + 1) * minor + major = 2 * i * minor + major + 2 * minor := by ring
  rw [minorSteps, hnext, floor_step (by omega) (by omega), ← minorSteps]
  simp only [Int.sub_nonneg]

theorem bresenham_eq (step turn p : Point) (n j : Nat) :
    bresenham step turn (major + major) (minor + minor) n
      (along p step turn j (minorSteps major minor j))
      (2 * j * minor + major + 2 * minor - (minorSteps major minor j + 1) * (2 * major)) =
        (List.range' j n).map fun i : Nat => along p step turn i (minorSteps major minor i) := by
  induction n generalizing j with
  | zero => rfl
  | succ n ih =>
    have hsucc := minorSteps_succ hmajor hminor j
    rw [List.range'_succ, List.map_cons, ← ih]
    push_cast
    by_cases hstep : 0 ≤ 2 * (j : Int) * minor + major + 2 * minor -
        (minorSteps major minor j + 1) * (2 * major)
    · rw [if_pos hstep] at hsucc
      rw [bresenham, if_pos hstep, hsucc, along_turn]
      dsimp only
      rw [along_step]
      congr 2
      ring
    · rw [if_neg hstep] at hsucc
      rw [bresenham, if_neg hstep, hsucc]
      dsimp only
      rw [along_step]
      congr 2
      ring

end Slope

theorem normalize_of_ne {a b : Int} (h : b - a ≠ 0) : normalize a b = (|b - a|, (b - a).sign) := by
  simp only [normalize]
  split
  case isTrue hneg => rw [abs_of_neg hneg, Int.sign_eq_neg_one_of_neg hneg]
  case isFalse hpos =>
    rw [abs_of_nonneg (by omega), Int.sign_eq_one_of_pos (by omega)]

theorem normalize_self (a : Int) : normalize a a = (0, 1) := by
  simp [normalize]

theorem trace_eq_along (x0 y0 x1 y1 i : Int) :
    trace x0 y0 x1 y1 i =
      if |y1 - y0| < |x1 - x0| then
        along (x0, y0) ((x1 - x0).sign, 0) (0, (y1 - y0).sign) i
          (minorSteps |x1 - x0| |y1 - y0| i)
      else
        along (x0, y0) (0, (y1 - y0).sign) ((x1 - x0).sign, 0) i
          (minorSteps |y1 - y0| |x1 - x0| i) := by
  simp only [trace]
  split <;> simp [along]

theorem minorSteps_straight {major : Int} (h : 0 < major) (i : Int) : minorSteps major 0 i = 0 := by
  rw [minorSteps, Int.mul_zero, Int.zero_add]
  exact Int.ediv_eq_zero_of_lt (by omega) (by omega)

theorem straight_from (step p : Point) (n : Nat) :
    straight step n p = (List.range n).map fun i : Nat => along p step 0 i 0 := by
  have hstart : along p step 0 (0 : Nat) 0 = p := by
    ext <;> simp [along]
  have h := straight_eq step 0 p n 0
  rw [hstart] at h
  rw [h, List.range_eq_range']

theorem bresenham_from {major minor : Int} (hmajor : 0 < major)
    (hminor : 0 ≤ minor ∧ minor ≤ major) (step turn p : Point) (n : Nat) :
    bresenham step turn (major + major) (minor + minor) n p (minor + minor - major) =
      (List.range n).map fun i : Nat => along p step turn i (minorSteps major minor i) := by
  have hstart : along p step turn (0 : Nat) (minorSteps major minor (0 : Nat)) = p := by
    rw [Nat.cast_zero, minorSteps_zero hmajor]
    ext <;> simp [along]
  have h := bresenham_eq hmajor hminor step turn p n 0
  rw [hstart, Nat.cast_zero, minorSteps_zero hmajor] at h
  rw [List.range_eq_range', ← h]
  congr 1
  ring

theorem linePoints_eq (x0 y0 x1 y1 : Int) :
    linePoints x0 y0 x1 y1 =
      (List.range (max |x1 - x0| |y1 - y0|).toNat).map fun i : Nat => trace x0 y0 x1 y1 i := by
  simp only [trace_eq_along]
  by_cases hx : x1 - x0 = 0
  · obtain rfl : x1 = x0 := by omega
    by_cases hy : y1 - y0 = 0
    · obtain rfl : y1 = y0 := by omega
      simp [linePoints, normalize_self, straight]
    · have hpos := abs_pos.mpr hy
      rw [linePoints, normalize_self, normalize_of_ne hy]
      simp [straight_from, hpos.le, minorSteps_straight hpos, not_lt.mpr hpos.le, along]
  · have hxpos := abs_pos.mpr hx
    by_cases hy : y1 - y0 = 0
    · obtain rfl : y1 = y0 := by omega
      rw [linePoints, normalize_self, normalize_of_ne hx]
      simp [straight_from, hxpos, hxpos.ne', hxpos.le, minorSteps_straight hxpos, along]
    · have hypos := abs_pos.mpr hy
      rw [linePoints, normalize_of_ne hx, normalize_of_ne hy]
      simp only [hxpos.ne', hypos.ne', if_false]
      by_cases hlt : |y1 - y0| < |x1 - x0|
      · rw [if_pos hlt, max_eq_left hlt.le, bresenham_from hxpos ⟨hypos.le, hlt.le⟩]
        simp only [if_pos hlt]
      · rw [if_neg hlt, max_eq_right (not_lt.mp hlt),
          bresenham_from hypos ⟨hxpos.le, not_lt.mp hlt⟩]
        simp only [if_neg hlt]

def Adjacent (p q : Point) : Prop := p ≠ q ∧ |p.1 - q.1| ≤ 1 ∧ |p.2 - q.2| ≤ 1

section Trace

variable (x0 y0 x1 y1 : Int)

theorem trace_zero : trace x0 y0 x1 y1 0 = (x0, y0) := by
  have hstart : ∀ d d' : Int, minorSteps |d| |d'| 0 = 0 := by
    intro d d'
    rw [minorSteps, Int.mul_zero, Int.zero_mul, Int.zero_add]
    obtain hd | hd := (abs_nonneg d).eq_or_lt
    · rw [← hd]
      rfl
    · exact Int.ediv_eq_zero_of_lt (by omega) (by omega)
  simp only [trace, hstart]
  split <;> simp

theorem trace_end : trace x0 y0 x1 y1 (max |x1 - x0| |y1 - y0|) = (x1, y1) := by
  have hend : ∀ d : Int, d.sign * |d| = d := Int.sign_mul_abs
  simp only [trace]
  split
  case isTrue hlt =>
    have hpos : 0 < |x1 - x0| := lt_of_le_of_lt (abs_nonneg _) hlt
    rw [max_eq_left hlt.le, minorSteps_end hpos, hend, hend]
    simp
  case isFalse hle =>
    rw [not_lt] at hle
    rw [max_eq_right hle]
    obtain hzero | hpos := (abs_nonneg (y1 - y0)).eq_or_lt
    · have hx : x1 - x0 = 0 := abs_eq_zero.mp (le_antisymm (hzero ▸ hle) (abs_nonneg _))
      have hy : y1 - y0 = 0 := abs_eq_zero.mp hzero.symm
      simp [hx, hy]
      omega
    · rw [minorSteps_end hpos, hend, hend]
      simp

variable {x0 y0 x1 y1}

theorem minorSteps_move {major minor : Int} (hmajor : 0 < major)
    (hminor : 0 ≤ minor ∧ minor ≤ major) (i : Int) :
    minorSteps major minor (i + 1) = minorSteps major minor i ∨
      minorSteps major minor (i + 1) = minorSteps major minor i + 1 := by
  rw [minorSteps_succ hmajor hminor]
  split
  · exact .inr rfl
  · exact .inl rfl

theorem Adjacent.swap {p q : Point} (h : Adjacent p q) : Adjacent p.swap q.swap :=
  ⟨fun heq => h.1 (Prod.swap_injective heq), h.2.2, h.2.1⟩

theorem adjacent_move {s t m m' : Int} (hs : s ≠ 0) (hsign : s = 1 ∨ s = 0 ∨ s = -1)
    (ht : t = 1 ∨ t = 0 ∨ t = -1) (hm : m' = m ∨ m' = m + 1) (x y i : Int) :
    Adjacent (x + s * i, y + t * m) (x + s * (i + 1), y + t * m') := by
  have hx : x + s * i - (x + s * (i + 1)) = -s := by ring
  have hy : y + t * m - (y + t * m') = t * (m - m') := by ring
  refine ⟨fun heq => ?_, ?_, ?_⟩
  · have := congrArg Prod.fst heq
    simp only at this
    omega
  · rw [hx, abs_neg, abs_le]
    omega
  · rw [hy, abs_le]
    obtain rfl | rfl | rfl := ht <;> omega

theorem trace_adjacent (hne : (x0, y0) ≠ (x1, y1)) (i : Int) :
    Adjacent (trace x0 y0 x1 y1 i) (trace x0 y0 x1 y1 (i + 1)) := by
  have hxsign := Int.sign_trichotomy (x1 - x0)
  have hysign := Int.sign_trichotomy (y1 - y0)
  simp only [trace]
  split
  case isTrue hlt =>
    have hpos : 0 < |x1 - x0| := lt_of_le_of_lt (abs_nonneg _) hlt
    have hsign : (x1 - x0).sign ≠ 0 := mt Int.sign_eq_zero_iff_zero.mp (abs_pos.mp hpos)
    exact adjacent_move hsign hxsign hysign
      (minorSteps_move hpos ⟨abs_nonneg _, hlt.le⟩ i) x0 y0 i
  case isFalse hle =>
    rw [not_lt] at hle
    have hy : y1 - y0 ≠ 0 := by
      intro hzero
      rw [hzero, abs_zero, abs_nonpos_iff] at hle
      exact hne (Prod.ext (by simp only; omega) (by simp only; omega))
    have hsign : (y1 - y0).sign ≠ 0 := mt Int.sign_eq_zero_iff_zero.mp hy
    exact (adjacent_move hsign hysign hxsign
      (minorSteps_move (abs_pos.mpr hy) ⟨abs_nonneg _, hle⟩ i) y0 x0 i).swap

end Trace

theorem isChain_map_range {α : Type} {R : α → α → Prop} {f : Nat → α} {n : Nat} {l : List α}
    (hstep : ∀ i < n, R (f i) (f (i + 1))) (hhead : l.head? = some (f n)) (hl : l.IsChain R) :
    ((List.range n).map f ++ l).IsChain R := by
  induction n generalizing l with
  | zero => exact hl
  | succ n ih =>
    rw [List.range_succ, List.map_append, List.append_assoc]
    refine ih (fun i hi => hstep i (by omega)) rfl ?_
    obtain ⟨rest, rfl⟩ := List.head?_eq_some_iff.mp hhead
    exact .cons_cons (hstep n (by omega)) hl

def segmentPoints (s : Point × Point) : List Point := linePoints s.1.1 s.1.2 s.2.1 s.2.2

theorem segmentPoints_self (v : Point) : segmentPoints (v, v) = [] := by
  rw [segmentPoints, linePoints_eq]
  simp

theorem head_segmentPoints {v w : Point} (hne : v ≠ w) : (segmentPoints (v, w)).head? = some v := by
  obtain ⟨x0, y0⟩ := v
  obtain ⟨x1, y1⟩ := w
  have hpos : 0 < max |x1 - x0| |y1 - y0| := by
    by_contra hzero
    rw [not_lt, max_le_iff, abs_nonpos_iff, abs_nonpos_iff] at hzero
    exact hne (Prod.ext (by simp only; omega) (by simp only; omega))
  obtain ⟨n, hn⟩ := Nat.exists_eq_succ_of_ne_zero
    (show (max |x1 - x0| |y1 - y0|).toNat ≠ 0 by omega)
  rw [segmentPoints, linePoints_eq, hn, List.range_succ_eq_map, List.map_cons, List.head?_cons,
    Nat.cast_zero, trace_zero]

theorem segments_chain (v : Point) (vs : List Point) :
    let l := (pairwise (v :: vs)).flatMap segmentPoints ++
      [(v :: vs).getLast (List.cons_ne_nil v vs)]
    l.IsChain Adjacent ∧ l.head? = some v := by
  induction vs generalizing v with
  | nil => exact ⟨.singleton v, rfl⟩
  | cons w vs ih =>
    obtain ⟨hchain, hhead⟩ := ih w
    have hpairs : pairwise (v :: w :: vs) = (v, w) :: pairwise (w :: vs) := rfl
    have hlast : (v :: w :: vs).getLast (List.cons_ne_nil v (w :: vs)) =
        (w :: vs).getLast (List.cons_ne_nil w vs) := rfl
    simp only [hpairs, hlast, List.flatMap_cons, List.append_assoc] at hchain hhead ⊢
    by_cases hne : v = w
    · subst hne
      rw [segmentPoints_self]
      exact ⟨hchain, hhead⟩
    · refine ⟨?_, ?_⟩
      · rw [segmentPoints, linePoints_eq]
        refine isChain_map_range (fun i _ => ?_) ?_ hchain
        · push_cast
          exact trace_adjacent hne i
        · rw [hhead, Int.toNat_of_nonneg (le_max_of_le_left (abs_nonneg _)), trace_end]
      · rw [List.head?_append, head_segmentPoints hne, Option.some_or]

theorem segmentsPoints_chain (xys : List Point) :
    ((pairwise xys).flatMap segmentPoints).IsChain Adjacent := by
  cases xys with
  | nil => exact .nil
  | cons v vs =>
    obtain ⟨hchain, -⟩ := segments_chain v vs
    exact hchain.left_of_append

theorem linesPoints_eq (xys : List Point) :
    linesPoints xys = (pairwise xys).flatMap segmentPoints := by
  exact List.destutter_of_isChain _ _ ((segmentsPoints_chain xys).imp fun _ _ h => h.1)

theorem linesPoints_head (xys : List Point) :
    (linesPoints xys).head? = ((pairwise xys).find? fun s => s.1 ≠ s.2).map Prod.fst := by
  rw [linesPoints_eq]
  induction pairwise xys with
  | nil => rfl
  | cons s l ih =>
    obtain ⟨v, w⟩ := s
    rw [List.flatMap_cons, List.find?_cons]
    by_cases hne : v = w
    · subst hne
      simp [segmentPoints_self, ih]
    · simp [hne, head_segmentPoints hne]

theorem linesPoints_getLast {xys : List Point} {p v : Point}
    (hp : p ∈ (linesPoints xys).getLast?) (hv : v ∈ xys.getLast?) : Adjacent p v := by
  cases xys with
  | nil => nomatch hv
  | cons w vs =>
    obtain ⟨hchain, -⟩ := segments_chain w vs
    rw [List.getLast?_eq_some_getLast (List.cons_ne_nil w vs), Option.mem_some_iff] at hv
    obtain ⟨l, hl⟩ := List.getLast?_eq_some_iff.mp hp
    rw [linesPoints_eq] at hl
    rw [hl, hv, List.append_assoc] at hchain
    exact List.isChain_pair.mp hchain.right_of_append

theorem lines_gap_free :
    (∀ x0 y0 x1 y1, linePoints x0 y0 x1 y1 =
      (List.range (max |x1 - x0| |y1 - y0|).toNat).map fun i : Nat => trace x0 y0 x1 y1 i) ∧
    (∀ dx dy i : Int, |2 * (minorSteps (max |dx| |dy|) (min |dx| |dy|) i * max |dx| |dy| -
      i * min |dx| |dy|)| ≤ max |dx| |dy|) ∧
    ∀ xys : List Point,
      (linesPoints xys).head? = ((pairwise xys).find? fun s => s.1 ≠ s.2).map Prod.fst ∧
      (linesPoints xys).IsChain Adjacent ∧
      ∀ p ∈ (linesPoints xys).getLast?, ∀ v ∈ xys.getLast?,
        |p.1 - v.1| ≤ 1 ∧ |p.2 - v.2| ≤ 1 := by
  refine ⟨linePoints_eq, fun dx dy i => ?_, fun xys => ⟨linesPoints_head xys,
    linesPoints_eq xys ▸ segmentsPoints_chain xys, fun p hp v hv => (linesPoints_getLast hp hv).2⟩⟩
  obtain hzero | hpos := (le_max_of_le_left (abs_nonneg dx) : 0 ≤ max |dx| |dy|).eq_or_lt
  · have hmin : min |dx| |dy| = 0 :=
      le_antisymm (hzero ▸ min_le_max) (le_min (abs_nonneg _) (abs_nonneg _))
    simp [hmin, ← hzero]
  · exact minorSteps_nearest hpos i

end Isz.Dashboard
