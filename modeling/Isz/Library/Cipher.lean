import Mathlib.Data.List.Basic
import Mathlib.Logic.Equiv.Defs

namespace Cipher

abbrev Block := Vector UInt8 16

def xor (a b : Block) : Block := a.zipWith (fun x y => x ^^^ y) b

theorem xor_cancel (a b : Block) : xor (xor a b) b = a := by
  have hbyte : ∀ x y : UInt8, x ^^^ y ^^^ y = x := fun x y => by
    rw [UInt8.xor_assoc, UInt8.xor_self, UInt8.xor_zero]
  refine Vector.ext fun i hi => ?_
  simp only [xor, Vector.getElem_zipWith, hbyte]

def toBlocks : Nat → List UInt8 → List Block
  | 0, _ => []
  | n + 1, data => Vector.ofFn (fun i : Fin 16 => data.getD i 0) :: toBlocks n (data.drop 16)

def ofBlocks (blocks : List Block) : List UInt8 := blocks.flatMap Vector.toList

theorem toList_ofFn_getD {data : List UInt8} (h : 16 ≤ data.length) :
    (Vector.ofFn fun i : Fin 16 => data.getD i 0).toList = data.take 16 := by
  refine List.ext_getElem (by simp [h]) fun i h1 h2 => ?_
  have hi : i < data.length := by
    rw [List.length_take] at h2
    omega
  simp [hi]

theorem ofBlocks_toBlocks {n : Nat} {data : List UInt8} (h : data.length = 16 * n) :
    ofBlocks (toBlocks n data) = data := by
  induction n generalizing data with
  | zero =>
    obtain rfl := List.length_eq_zero_iff.mp h
    rfl
  | succ n ih =>
    have hlength : (data.drop 16).length = 16 * n := by
      rw [List.length_drop]
      omega
    have htail := ih hlength
    rw [ofBlocks] at htail ⊢
    rw [toBlocks, List.flatMap_cons, htail, toList_ofFn_getD (by omega), List.take_append_drop]

theorem length_ofBlocks (blocks : List Block) : (ofBlocks blocks).length = 16 * blocks.length := by
  induction blocks with
  | nil => rfl
  | cons b blocks ih =>
    rw [ofBlocks] at ih ⊢
    rw [List.flatMap_cons, List.length_append, ih, Vector.length_toList, List.length_cons]
    omega

theorem toBlocks_ofBlocks (blocks : List Block) :
    toBlocks blocks.length (ofBlocks blocks) = blocks := by
  induction blocks with
  | nil => rfl
  | cons b blocks ih =>
    have hsplit : ofBlocks (b :: blocks) = b.toList ++ ofBlocks blocks := List.flatMap_cons
    have hdrop : (ofBlocks (b :: blocks)).drop 16 = ofBlocks blocks := by
      rw [hsplit]
      exact List.drop_left' b.length_toList
    have hhead : (Vector.ofFn fun i : Fin 16 => (ofBlocks (b :: blocks)).getD i 0) = b := by
      ext i hi
      rw [hsplit]
      simp [List.getD, List.getElem?_append]
    rw [List.length_cons, toBlocks, hdrop, ih, hhead]

section Cbc

variable (E : Equiv.Perm Block)

def cbcEncrypt : Block → List Block → List Block
  | _, [] => []
  | iv, b :: blocks => E (xor b iv) :: cbcEncrypt (E (xor b iv)) blocks

def cbcDecrypt : Block → List Block → List Block
  | _, [] => []
  | iv, c :: blocks => xor (E.symm c) iv :: cbcDecrypt c blocks

theorem cbcDecrypt_cbcEncrypt (iv : Block) (blocks : List Block) :
    cbcDecrypt E iv (cbcEncrypt E iv blocks) = blocks := by
  induction blocks generalizing iv with
  | nil => rfl
  | cons b blocks ih => rw [cbcEncrypt, cbcDecrypt, ih, E.symm_apply_apply, xor_cancel]

end Cbc

section Padding

-- PKCS#7: between 1 and n copies of the number of copies
def pad (data : List UInt8) (n : Nat) : List UInt8 :=
  data ++ List.replicate (n - data.length % n) (UInt8.ofNat (n - data.length % n))

def unpad (data : List UInt8) : Option (List UInt8) :=
  data.getLast?.bind fun last =>
    let k := last.toNat
    if 0 < k ∧ k ≤ data.length ∧ data.drop (data.length - k) = List.replicate k last then
      some (data.take (data.length - k))
    else none

variable {n : Nat} (hn : 0 < n)
include hn

theorem length_pad (data : List UInt8) :
    (pad data n).length = n * (data.length / n + 1) := by
  have hmod := Nat.mod_lt data.length hn
  have hdiv := Nat.div_add_mod data.length n
  rw [pad, List.length_append, List.length_replicate, Nat.mul_add]
  omega

theorem unpad_pad (hbyte : n < 256) (data : List UInt8) : unpad (pad data n) = some data := by
  have hmod := Nat.mod_lt data.length hn
  set k := n - data.length % n with hk
  have hpad : pad data n = data ++ List.replicate k (UInt8.ofNat k) := rfl
  have hlast : (pad data n).getLast? = some (UInt8.ofNat k) := by
    rw [hpad, List.getLast?_append, List.getLast?_replicate, if_neg (by omega)]
    rfl
  have hnat : (UInt8.ofNat k).toNat = k := by
    rw [UInt8.toNat_ofNat', Nat.mod_eq_of_lt (by omega)]
  have hlength : (pad data n).length - k = data.length := by
    rw [hpad, List.length_append, List.length_replicate]
    omega
  have hdrop : (pad data n).drop data.length = List.replicate k (UInt8.ofNat k) := by
    rw [hpad, List.drop_left]
  have htake : (pad data n).take data.length = data := by
    rw [hpad, List.take_left]
  have hle : 0 < k ∧ k ≤ (pad data n).length := by
    rw [hpad, List.length_append, List.length_replicate]
    omega
  rw [unpad, hlast, Option.bind_some]
  simp only [hnat, hlength]
  rw [if_pos ⟨hle.1, hle.2, hdrop⟩, htake]

end Padding

end Cipher
