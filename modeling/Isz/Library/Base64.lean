import Mathlib.Data.List.Basic

namespace Base64

def symbol (n : Nat) : UInt8 :=
  if n < 26 then UInt8.ofNat (n + 65)
  else if n < 52 then UInt8.ofNat (n + 71)
  else if n < 62 then UInt8.ofNat (n - 4)
  else if n = 62 then 43
  else 47

def value (c : UInt8) : Option Nat :=
  let n := c.toNat
  if 65 ≤ n ∧ n ≤ 90 then some (n - 65)
  else if 97 ≤ n ∧ n ≤ 122 then some (n - 71)
  else if 48 ≤ n ∧ n ≤ 57 then some (n + 4)
  else if n = 43 then some 62
  else if n = 47 then some 63
  else none

def pad : UInt8 := 61

def encode : List UInt8 → List UInt8
  | a :: b :: c :: rest =>
    symbol (a.toNat / 4) :: symbol (a.toNat % 4 * 16 + b.toNat / 16) ::
      symbol (b.toNat % 16 * 4 + c.toNat / 64) :: symbol (c.toNat % 64) :: encode rest
  | [a, b] =>
    [symbol (a.toNat / 4), symbol (a.toNat % 4 * 16 + b.toNat / 16),
      symbol (b.toNat % 16 * 4), pad]
  | [a] => [symbol (a.toNat / 4), symbol (a.toNat % 4 * 16), pad, pad]
  | [] => []

def first (x y : Nat) : UInt8 := UInt8.ofNat (x * 4 + y / 16)

def second (y z : Nat) : UInt8 := UInt8.ofNat (y % 16 * 16 + z / 4)

def third (z w : Nat) : UInt8 := UInt8.ofNat (z % 4 * 64 + w)

def decode : List UInt8 → Option (List UInt8)
  | [] => some []
  | s :: t :: u :: v :: rest =>
    (value s).bind fun x => (value t).bind fun y =>
      if v = pad ∧ rest = [] then
        if u = pad then some [first x y]
        else (value u).map fun z => [first x y, second y z]
      else
        (value u).bind fun z => (value v).bind fun w =>
          (decode rest).map fun bytes => first x y :: second y z :: third z w :: bytes
  | _ => none

theorem value_symbol {n : Nat} (h : n < 64) : value (symbol n) = some n := by
  have hall : ∀ n < 64, value (symbol n) = some n := by decide
  exact hall n h

theorem symbol_ne_pad {n : Nat} (h : n < 64) : symbol n ≠ pad := by
  have hall : ∀ n < 64, symbol n ≠ pad := by decide
  exact hall n h

theorem ofNat_eq {a : UInt8} {n : Nat} (h : n % 256 = a.toNat) : UInt8.ofNat n = a := by
  rw [← UInt8.toNat_inj, UInt8.toNat_ofNat']
  exact h

section Groups

variable (a b c : UInt8)

theorem first_eq {y : Nat} (hy : y < 16) :
    first (a.toNat / 4) (a.toNat % 4 * 16 + y) = a := by
  have ha := a.toNat_lt
  exact ofNat_eq (by omega)

theorem second_eq {z : Nat} (hz : z < 4) :
    second (a.toNat % 4 * 16 + b.toNat / 16) (b.toNat % 16 * 4 + z) = b := by
  have hb := b.toNat_lt
  exact ofNat_eq (by omega)

theorem third_eq : third (b.toNat % 16 * 4 + c.toNat / 64) (c.toNat % 64) = c := by
  have hc := c.toNat_lt
  exact ofNat_eq (by omega)

end Groups

theorem decode_encode (data : List UInt8) : decode (encode data) = some data := by
  induction data using encode.induct with
  | case1 a b c rest ih =>
    have ha := a.toNat_lt
    have hb := b.toNat_lt
    have hc := c.toNat_lt
    have hlast : ¬(symbol (c.toNat % 64) = pad ∧ encode rest = []) := fun h =>
      symbol_ne_pad (Nat.mod_lt _ (by decide)) h.1
    simp only [encode, decode, hlast, if_false]
    rw [value_symbol (by omega), value_symbol (by omega), value_symbol (by omega),
      value_symbol (by omega), ih]
    simp only [Option.bind_some, Option.map_some]
    rw [first_eq a (by omega), second_eq a b (by omega), third_eq]
  | case2 a b =>
    have ha := a.toNat_lt
    have hb := b.toNat_lt
    have hthird : symbol (b.toNat % 16 * 4) ≠ pad := symbol_ne_pad (by omega)
    simp only [encode, decode, and_self, if_true, hthird, if_false]
    rw [value_symbol (by omega), value_symbol (by omega), value_symbol (by omega)]
    simp only [Option.bind_some, Option.map_some]
    rw [first_eq a (by omega), ← Nat.add_zero (b.toNat % 16 * 4), second_eq a b (by omega)]
  | case3 a =>
    have ha := a.toNat_lt
    simp only [encode, decode, and_self, if_true]
    rw [value_symbol (by omega), value_symbol (by omega)]
    simp only [Option.bind_some]
    rw [← Nat.add_zero (a.toNat % 4 * 16), first_eq a (by omega)]
  | case4 => rfl

end Base64
