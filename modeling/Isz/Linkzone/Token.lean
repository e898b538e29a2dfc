import Isz.Library.Base64
import Isz.Library.Cipher
import Mathlib.Logic.Equiv.Basic
import Mathlib.Tactic.IntervalCases

namespace Isz.Linkzone

open Cipher

def bytes (text : String) : List UInt8 := text.toList.map fun c => UInt8.ofNat c.toNat

def phrase : List UInt8 := bytes "e5dl12XYVggihggafXWf0f2YSf2Xngd1"

def positioncode (idx : Nat) : UInt8 := phrase.getD (idx % phrase.length) 0

def nibble (positioncode r : UInt8) : UInt8 :=
  (240 &&& positioncode) ||| (r ^^^ (15 &&& positioncode))

def encryptFrom (idx : Nat) : List UInt8 → List UInt8
  | [] => []
  | r :: input =>
    nibble (positioncode idx) (15 &&& r) :: nibble (positioncode idx) (r >>> 4) ::
      encryptFrom (idx + 1) input

def encrypt (input : List UInt8) : List UInt8 := encryptFrom 0 input

inductive Fault where
  | keySize
  | panic
  deriving DecidableEq

def ivBlock (iv : List UInt8) : Option Block :=
  if h : iv.length = 16 then some ⟨iv.toArray, h⟩ else none

section Aes

variable (aes : List UInt8 → Equiv.Perm Block)

-- cipher.NewCBCEncrypter panics on another iv length, CryptBlocks on a part of a block
def ensA (input key iv : List UInt8) : Except Fault (List UInt8) :=
  if key.length = 16 ∨ key.length = 24 ∨ key.length = 32 then
    match ivBlock iv with
    | none => .error .panic
    | some iv =>
      let buf := pad input key.length
      if buf.length % 16 = 0 then
        .ok (Base64.encode (ofBlocks (cbcEncrypt (aes key) iv
          (toBlocks (buf.length / 16) buf))))
      else .error .panic
  else .error .keySize

def encryptC (input key iv : List UInt8) : Except Fault (List UInt8) :=
  ensA aes (encrypt input) key iv

structure LoginResponse where
  token : List UInt8
  param0 : List UInt8
  param1 : List UInt8

def headerToken (l : LoginResponse) : Except Fault (List UInt8) :=
  if l.param0 ≠ [] then encryptC aes l.token l.param0 l.param1
  else .ok (encrypt l.token)

def decryptFrom (idx : Nat) : List UInt8 → List UInt8
  | c :: d :: rest =>
    ((c ^^^ positioncode idx) ||| ((d ^^^ positioncode idx) <<< 4)) :: decryptFrom (idx + 1) rest
  | _ => []

def recovered (l : LoginResponse) (header : List UInt8) : Option (List UInt8) :=
  (Base64.decode header).bind fun ciphertext =>
    (ivBlock l.param1).bind fun iv =>
      (unpad (ofBlocks (cbcDecrypt (aes l.param0) iv
        (toBlocks (ciphertext.length / 16) ciphertext)))).map (decryptFrom 0)

theorem nibbles_inverse (p r : UInt8) :
    (nibble p (15 &&& r) ^^^ p) ||| ((nibble p (r >>> 4) ^^^ p) <<< 4) = r := by
  rw [← UInt8.toBitVec_inj]
  simp only [nibble, UInt8.toBitVec_or, UInt8.toBitVec_xor, UInt8.toBitVec_and,
    UInt8.toBitVec_shiftLeft, UInt8.toBitVec_shiftRight]
  generalize p.toBitVec = p
  generalize r.toBitVec = r
  ext i hi
  simp only [BitVec.getElem_or, BitVec.getElem_xor, BitVec.getElem_and]
  interval_cases i <;> simp

theorem decryptFrom_encryptFrom (idx : Nat) (input : List UInt8) :
    decryptFrom idx (encryptFrom idx input) = input := by
  induction input generalizing idx with
  | nil => rfl
  | cons r input ih => rw [encryptFrom, decryptFrom, nibbles_inverse, ih]

theorem length_encryptFrom (idx : Nat) (input : List UInt8) :
    (encryptFrom idx input).length = 2 * input.length := by
  induction input generalizing idx with
  | nil => rfl
  | cons r input ih =>
    rw [encryptFrom, List.length_cons, List.length_cons, ih, List.length_cons]
    omega

theorem length_padded {key : List UInt8}
    (hkey : key.length = 16 ∨ key.length = 24 ∨ key.length = 32) (input : List UInt8) :
    (pad (encrypt input) key.length).length % 16 = 0 ↔
      (key.length = 24 → input.length / 12 % 2 = 1) := by
  have hpos : 0 < key.length := by omega
  rw [length_pad hpos, encrypt, length_encryptFrom]
  rcases hkey with h | h | h <;> rw [h] <;> omega

theorem recovered_headerToken {l : LoginResponse} {iv : Block} (hiv : ivBlock l.param1 = some iv)
    {buf : List UInt8} (hbuf : buf.length % 16 = 0) (hunpad : unpad buf = some (encrypt l.token)) :
    recovered aes l (Base64.encode (ofBlocks (cbcEncrypt (aes l.param0) iv
      (toBlocks (buf.length / 16) buf)))) = some l.token := by
  have hlength : 16 * (buf.length / 16) = buf.length := by omega
  have hblocks : (ofBlocks (cbcEncrypt (aes l.param0) iv
      (toBlocks (buf.length / 16) buf))).length / 16 =
      (cbcEncrypt (aes l.param0) iv (toBlocks (buf.length / 16) buf)).length := by
    rw [length_ofBlocks]
    omega
  rw [recovered, Base64.decode_encode, Option.bind_some, hiv, Option.bind_some, hblocks,
    toBlocks_ofBlocks, cbcDecrypt_cbcEncrypt, ofBlocks_toBlocks hlength.symm, hunpad,
    Option.map_some, encrypt, decryptFrom_encryptFrom]

theorem headerToken_recovered_iff {l : LoginResponse}
    (hkey : l.param0.length = 16 ∨ l.param0.length = 24 ∨ l.param0.length = 32)
    (hiv : l.param1.length = 16) :
    (∃ header, headerToken aes l = .ok header ∧ recovered aes l header = some l.token) ↔
      (l.param0.length = 24 → l.token.length / 12 % 2 = 1) := by
  have hne : l.param0 ≠ [] := List.ne_nil_of_length_pos (by omega)
  have hblock : ivBlock l.param1 = some ⟨l.param1.toArray, hiv⟩ := by rw [ivBlock, dif_pos hiv]
  have hunpad : unpad (pad (encrypt l.token) l.param0.length) = some (encrypt l.token) :=
    unpad_pad (by omega) (by omega) _
  rw [← length_padded hkey]
  simp only [headerToken, hne, ne_eq, not_false_eq_true, if_true, encryptC, ensA, hkey, hblock]
  constructor
  · rintro ⟨header, hheader, -⟩
    by_contra hpartial
    rw [if_neg hpartial] at hheader
    cases hheader
  · intro hwhole
    refine ⟨_, if_pos hwhole, ?_⟩
    exact recovered_headerToken aes hblock hwhole hunpad

end Aes

example : encrypt (bytes "admin") = bytes "dc13ibej?7" := by decide

def testResponse : LoginResponse where
  token := bytes "6d421b324095c5f4"
  param0 := bytes "q4Jc197GFk58rnqW"
  param1 := bytes "fG7e9BOY5233ijXH"

def testHeader : List UInt8 :=
  bytes "GHH23on1pD7H07rlARYQcqn6fkhtuPIaLJh54a0Ox5Qh2Z4BCE4IHNOk+cU22rze"

def testAes (_ : List UInt8) : Equiv.Perm Block :=
  let ciphertext := toBlocks 3 ((Base64.decode testHeader).getD [])
  let plaintext := toBlocks 3 (pad (encrypt testResponse.token) 16)
  let chained := List.zipWith Cipher.xor plaintext (toBlocks 1 testResponse.param1 ++ ciphertext)
  (List.zipWith Equiv.swap chained ciphertext).foldr (fun e rest => e.trans rest) (Equiv.refl _)

example : headerToken testAes testResponse = .ok testHeader := by decide +kernel

theorem headerToken_recovered_test :
    ∃ header, headerToken testAes testResponse = .ok header ∧
      recovered testAes testResponse header = some testResponse.token :=
  (headerToken_recovered_iff testAes (by decide) (by decide)).mpr (by decide)

def longKeyResponse : LoginResponse where
  token := bytes "6d421b324095c5f46d421b324095c5f4"
  param0 := bytes "q4Jc197GFk58rnqWq4Jc197G"
  param1 := bytes "fG7e9BOY5233ijXH"

theorem longKeyResponse_panics :
    longKeyResponse.param0.length = 24 ∧ longKeyResponse.param1.length = 16 ∧
      headerToken testAes longKeyResponse = .error .panic := by
  decide +kernel

end Isz.Linkzone
