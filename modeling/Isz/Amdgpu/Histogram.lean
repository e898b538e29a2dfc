import Isz.Amdgpu.Index
import Isz.Library.Bucketing
import Isz.Library.Except

namespace Isz.Amdgpu

open Bucketing

inductive Fault where
  | recursion
  | overflow
  | negativeCast
  | unwrapNone
  | splitAt
  | capacity
  | outOfBounds
  deriving DecidableEq, Repr

def isize (x : Int) : Except Fault Int :=
  if -2 ^ 63 ≤ x ∧ x < 2 ^ 63 then .ok x else .error .overflow

def u64 (n : Nat) : Except Fault Nat := if n < 2 ^ 64 then .ok n else .error .overflow

-- `as usize` on an isize; the cast of a negative number wraps, which counts as a fault here
def asUsize (x : Int) : Except Fault Nat := if 0 ≤ x then .ok x.toNat else .error .negativeCast

def saturatingSub (a b : Int) : Int := max (-2 ^ 63) (min (2 ^ 63 - 1) (a - b))

def saturatingAdd (a b : Nat) : Nat := min (2 ^ 64 - 1) (a + b)

def unwrap {α : Type} : Option α → Except Fault α
  | none => .error .unwrapNone
  | some a => .ok a

def splitAt (mid : Nat) (l : List Nat) : Except Fault (List Nat × List Nat) :=
  if mid ≤ l.length then .ok (l.take mid, l.drop mid) else .error .splitAt

theorem isize_ok {x : Int} (h : -2 ^ 63 ≤ x ∧ x < 2 ^ 63) : isize x = .ok x := if_pos h

theorem u64_ok {n : Nat} (h : n < 2 ^ 64) : u64 n = .ok n := if_pos h

theorem u64_overflow {n : Nat} (h : 2 ^ 64 ≤ n) : u64 n = .error .overflow := if_neg (not_lt.mpr h)

theorem eq_of_u64 {n m : Nat} (h : u64 n = .ok m) : m = n := by
  simp only [u64] at h
  split at h
  case isTrue => exact (Except.ok.inj h).symm
  case isFalse => cases h

theorem asUsize_ok {x : Int} (h : 0 ≤ x) : asUsize x = .ok x.toNat := if_pos h

@[simp] theorem splitAt_one (a : Nat) (l : List Nat) : splitAt 1 (a :: l) = .ok ([a], l) := by
  simp [splitAt]

@[ext]
structure HeaplessVec (capacity : Nat) where
  toList : List Nat
  length_le : toList.length ≤ capacity

namespace HeaplessVec

variable {capacity : Nat}

def new : HeaplessVec capacity := ⟨[], Nat.zero_le _⟩

def len (v : HeaplessVec capacity) : Nat := v.toList.length

def collect (l : List Nat) : Except Fault (HeaplessVec capacity) :=
  if h : l.length ≤ capacity then .ok ⟨l, h⟩ else .error .capacity

def resizeDefault (v : HeaplessVec capacity) (n : Nat) : Except Fault (HeaplessVec capacity) :=
  collect (v.toList.take n ++ List.replicate (n - v.len) 0)

def addAt (v : HeaplessVec capacity) (i weight : Nat) : Except Fault (HeaplessVec capacity) :=
  match v.toList[i]? with
  | none => .error .outOfBounds
  | some old => do
    let _ ← u64 (old + weight)
    pure ⟨v.toList.modify i (· + weight), by simpa using v.length_le⟩

theorem lt_of_addAt {v v' : HeaplessVec capacity} {i weight : Nat} (h : v.addAt i weight = .ok v') :
    i < v'.len := by
  simp only [addAt] at h
  split at h
  case h_1 => cases h
  case h_2 old hget =>
    obtain ⟨_, -, hmodify⟩ := Except.bind_eq_ok.mp h
    obtain rfl := Except.ok.inj hmodify
    simpa [len] using (List.getElem?_eq_some_iff.mp hget).1

theorem collect_ok {l : List Nat} (h : l.length ≤ capacity) : collect l = .ok ⟨l, h⟩ := dif_pos h

end HeaplessVec

-- the sum is kept exactly; zero_threshold is never read
structure ExponentialHistogram (MAX_SIZE : Nat) where
  scale : Int
  sum : ℚ
  count : Nat
  indexOffset : Option Int
  buckets : HeaplessVec MAX_SIZE

def chunkSums : List Nat → Except Fault (List Nat)
  | [] => .ok []
  | [a] => .ok [a]
  | a :: b :: rest => do
    let sum ← u64 (a + b)
    let sums ← chunkSums rest
    pure (sum :: sums)

theorem chunkSums_ok {l : List Nat} (h : l.sum < 2 ^ 64) : chunkSums l = .ok (pairSums l) := by
  induction l using chunkSums.induct with
  | case1 => rfl
  | case2 a => rfl
  | case3 a b rest ih =>
    simp only [List.sum_cons] at h
    rw [chunkSums, u64_ok (by omega), ih (by omega)]
    rfl

namespace ExponentialHistogram

variable {MAX_SIZE : Nat}

def default : ExponentialHistogram MAX_SIZE where
  scale := 20
  sum := 0
  count := 0
  indexOffset := none
  buckets := .new

def compress (h : ExponentialHistogram MAX_SIZE) :
    Except Fault (ExponentialHistogram MAX_SIZE) := do
  let scale ← isize (h.scale - 1)
  if 1 < h.buckets.len then
    let offset ← unwrap h.indexOffset
    let shift ← asUsize (offset % 2)  -- offset & 1
    let (zero, rest) ← splitAt 1 h.buckets.toList
    let sums ← chunkSums (List.replicate shift 0 ++ rest)
    let buckets ← HeaplessVec.collect (zero ++ sums)
    pure { h with
      scale := scale
      indexOffset := h.indexOffset.map fun o : Int => o >>> (1 : Nat)
      buckets := buckets }
  else
    pure { h with scale := scale }

-- a shift by 64 bits or more panics
def indexForValue (h : ExponentialHistogram MAX_SIZE) (value : F64) : Except Fault (Option Int) :=
  if -64 < h.scale ∧ h.scale < 64 then .ok (Amdgpu.indexForValue h.scale value)
  else .error .overflow

-- the first argument bounds the depth of the recursion through compress
def resizeToFit : Nat → ExponentialHistogram MAX_SIZE → F64 →
    Except Fault (Nat × ExponentialHistogram MAX_SIZE)
  | 0, _, _ => .error .recursion
  | depth + 1, h, value => do
    match ← h.indexForValue value with
    | none => pure (0, h)
    | some index =>
      match h.indexOffset with
      | none => pure (1, { h with indexOffset := some index })
      | some indexOffset =>
        let shift ← asUsize (max (saturatingSub indexOffset index) 0)
        let i ← isize (index - indexOffset + 1)
        let last ← asUsize (max i 1)
        let newLength := saturatingAdd (max (1 + last) h.buckets.len) shift
        if MAX_SIZE < newLength then
          let h ← h.compress
          resizeToFit depth h value
        else if 0 < shift then
          let (zero, rest) ← splitAt 1 h.buckets.toList
          let buckets ← HeaplessVec.collect (zero ++ List.replicate shift 0 ++ rest)
          let offset ← isize (indexOffset - shift)
          let i ← isize (i + shift)
          pure (← asUsize i, { h with indexOffset := some offset, buckets := buckets })
        else
          pure (← asUsize i, h)

def recordWeighted (depth : Nat) (h : ExponentialHistogram MAX_SIZE) (value : F64) (weight : Nat) :
    Except Fault (ExponentialHistogram MAX_SIZE) := do
  let (i, h) ← resizeToFit depth h value
  let buckets ← (if h.buckets.len ≤ i then h.buckets.resizeDefault (i + 1) else .ok h.buckets)
  let buckets ← buckets.addAt i weight
  let count ← u64 (h.count + weight)
  pure { h with sum := h.sum + value.toRat * weight, count := count, buckets := buckets }

end ExponentialHistogram

structure Call where
  value : F64
  weight : Nat

def recordAll {MAX_SIZE : Nat} (depth : Nat) (calls : List Call) :
    Except Fault (ExponentialHistogram MAX_SIZE) :=
  calls.foldlM (fun h call => h.recordWeighted depth call.value call.weight) .default

end Isz.Amdgpu
