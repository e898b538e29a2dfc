import Isz.Linkzone.Token

namespace Isz.Linkzone

theorem positioncode_add (idx k : Nat) :
    positioncode (idx + phrase.length * k) = positioncode idx := by
  rw [positioncode, positioncode, Nat.add_mul_mod_self_left]

theorem phrase_mod (n : Nat) : phrase[n % phrase.length]? = some (positioncode n) := by
  have hlt : n % phrase.length < phrase.length := Nat.mod_lt n (by decide)
  rw [positioncode, List.getD_eq_getElem?_getD, List.getElem?_eq_getElem hlt, Option.getD_some]

theorem encryptFrom_append (idx : Nat) (s t : List UInt8) :
    encryptFrom idx (s ++ t) = encryptFrom idx s ++ encryptFrom (idx + s.length) t := by
  induction s generalizing idx with
  | nil => rfl
  | cons r s ih =>
    rw [List.cons_append, encryptFrom, ih, encryptFrom, List.length_cons, Nat.add_assoc,
      Nat.add_comm 1]
    rfl

theorem encryptFrom_period (idx k : Nat) (s : List UInt8) :
    encryptFrom (idx + phrase.length * k) s = encryptFrom idx s := by
  induction s generalizing idx with
  | nil => rfl
  | cons r s ih =>
    rw [encryptFrom, encryptFrom, positioncode_add, ← ih (idx + 1), Nat.add_right_comm]

theorem encrypt_append {s : List UInt8} (hs : phrase.length ∣ s.length) (t : List UInt8) :
    encrypt (s ++ t) = encrypt s ++ encrypt t := by
  obtain ⟨k, hk⟩ := hs
  rw [encrypt, encryptFrom_append, hk, encryptFrom_period]
  rfl

theorem encryptFrom_get {s : List UInt8} {n : Nat} {r : UInt8} (idx : Nat) (h : s[n]? = some r) :
    (encryptFrom idx s)[2 * n]? = some (nibble (positioncode (idx + n)) (15 &&& r)) ∧
      (encryptFrom idx s)[2 * n + 1]? = some (nibble (positioncode (idx + n)) (r >>> 4)) := by
  induction s generalizing idx n with
  | nil => cases h
  | cons b s ih =>
    cases n with
    | zero =>
      obtain rfl := Option.some.inj h
      exact ⟨rfl, rfl⟩
    | succ n =>
      have hshift : idx + (n + 1) = idx + 1 + n := by omega
      rw [hshift]
      exact ih (idx + 1) h

theorem nibble_high (p r : UInt8) : nibble p (15 &&& r) &&& 240 = p &&& 240 := by
  rw [← UInt8.toBitVec_inj]
  simp only [nibble, UInt8.toBitVec_or, UInt8.toBitVec_xor, UInt8.toBitVec_and]
  generalize p.toBitVec = p
  generalize r.toBitVec = r
  ext i hi
  simp only [BitVec.getElem_or, BitVec.getElem_xor, BitVec.getElem_and]
  interval_cases i <;> simp

theorem nibble_low (p r : UInt8) : nibble p (15 &&& r) ^^^ p = 15 &&& r := by
  rw [← UInt8.toBitVec_inj]
  simp only [nibble, UInt8.toBitVec_or, UInt8.toBitVec_xor, UInt8.toBitVec_and]
  generalize p.toBitVec = p
  generalize r.toBitVec = r
  ext i hi
  simp only [BitVec.getElem_or, BitVec.getElem_xor, BitVec.getElem_and]
  interval_cases i <;> simp

theorem high_nibble (r : UInt8) : (15 : UInt8) &&& (r >>> 4) = r >>> 4 := by
  rw [← UInt8.toBitVec_inj]
  simp only [UInt8.toBitVec_and, UInt8.toBitVec_shiftRight]
  generalize r.toBitVec = r
  ext i hi
  simp only [BitVec.getElem_and]
  interval_cases i <;> simp

def Hides (p c n : UInt8) : Prop := c &&& 240 = p &&& 240 ∧ c ^^^ p = n

theorem hides_nibble (p r : UInt8) : Hides p (nibble p (15 &&& r)) (15 &&& r) :=
  ⟨nibble_high p r, nibble_low p r⟩

theorem encrypt_invertible :
    ∃ decode : List UInt8 → List UInt8, ∀ s, decode (encrypt s) = s ∧
      (encrypt s).length = 2 * s.length ∧
      (∀ n r, s[n]? = some r → ∃ p c d, phrase[n % phrase.length]? = some p ∧
        (encrypt s)[2 * n]? = some c ∧ (encrypt s)[2 * n + 1]? = some d ∧
        Hides p c (15 &&& r) ∧ Hides p d (r >>> 4)) ∧
      ∀ t, phrase.length ∣ s.length → encrypt (s ++ t) = encrypt s ++ encrypt t := by
  refine ⟨decryptFrom 0, fun s => ⟨decryptFrom_encryptFrom 0 s, length_encryptFrom 0 s, ?_,
    fun t hs => encrypt_append hs t⟩⟩
  intro n r hr
  obtain ⟨hlow, hhigh⟩ := encryptFrom_get 0 hr
  rw [Nat.zero_add] at hlow hhigh
  refine ⟨_, _, _, phrase_mod n, hlow, hhigh, hides_nibble _ r, ?_⟩
  rw [← high_nibble r]
  exact hides_nibble _ (r >>> 4)

end Isz.Linkzone
