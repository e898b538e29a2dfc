import Isz.Library.Except
import Isz.Library.Text
import Mathlib.Data.Rat.Floor

-- int() and float() of Python on strings, and the arithmetic of floats up to rounding
namespace PyNumber

inductive PyError where
  | valueError
  | overflowError
  | attributeError
  deriving DecidableEq, Repr

inductive PyFloat where
  | finite (x : ℚ)
  | infinite (negative : Bool)
  | nan
  deriving DecidableEq

-- how floats round, and the digits that sys.set_int_max_str_digits allows
structure Interpreter where
  round : ℚ → PyFloat
  maxStrDigits : Option Nat

-- floats read as exact rationals
def exact : Interpreter := ⟨.finite, none⟩

-- the zeros of the ten-digit blocks of category Nd in Unicode 15
def zeros : List Nat :=
  [0x30, 0x660, 0x6f0, 0x7c0, 0x966, 0x9e6, 0xa66, 0xae6, 0xb66, 0xbe6, 0xc66, 0xce6, 0xd66,
    0xde6, 0xe50, 0xed0, 0xf20, 0x1040, 0x1090, 0x17e0, 0x1810, 0x1946, 0x19d0, 0x1a80, 0x1a90,
    0x1b50, 0x1bb0, 0x1c40, 0x1c50, 0xa620, 0xa8d0, 0xa900, 0xa9d0, 0xa9f0, 0xaa50, 0xabf0,
    0xff10, 0x104a0, 0x10d30, 0x11066, 0x110f0, 0x11136, 0x111d0, 0x112f0, 0x11450, 0x114d0,
    0x11650, 0x116c0, 0x11730, 0x118e0, 0x11950, 0x11c50, 0x11d50, 0x11da0, 0x11f50, 0x16a60,
    0x16ac0, 0x16b50, 0x1d7ce, 0x1d7d8, 0x1d7e2, 0x1d7ec, 0x1d7f6, 0x1e140, 0x1e2f0, 0x1e4f0,
    0x1e950, 0x1fbf0]

def decimal (c : Char) : Option Nat :=
  zeros.findSome? fun z => if z ≤ c.toNat ∧ c.toNat < z + 10 then some (c.toNat - z) else none

def isDecimal (c : Char) : Bool := (decimal c).isSome

def isAsciiSpace (c : Char) : Bool := (9 ≤ c.toNat && c.toNat ≤ 13) || c == ' '

-- what int and float take a character for: an ASCII digit, a blank, or itself
def toAscii (c : Char) : Char :=
  if c.toNat < 127 then c
  else if c.toNat ∈ [0x85, 0xa0, 0x1680, 0x2028, 0x2029, 0x202f, 0x205f, 0x3000] ∨
      0x2000 ≤ c.toNat ∧ c.toNat ≤ 0x200a then ' '
  else
    match decimal c with
    | some d => Nat.digitChar d
    | none => '?'

def strip (s : Str) : Str := (s.dropWhile isAsciiSpace).rdropWhile isAsciiSpace

def sign : Str → Bool × Str
  | '-' :: s => (true, s)
  | '+' :: s => (false, s)
  | s => (false, s)

def digitValue (c : Char) : Nat :=
  if c.isDigit then c.toNat - '0'.toNat
  else if c.isLower then c.toNat - 'a'.toNat + 10
  else c.toNat - 'A'.toNat + 10

def isDigitOf (base : Nat) (c : Char) : Bool := c.isAlphanum && digitValue c < base

def ofDigits (base : Nat) (s : Str) : Nat := s.foldl (fun n c => base * n + digitValue c) 0

section Interpreter

variable (py : Interpreter)

-- an underscore only between two digits; the limit does not concern powers of two
def natural (base : Nat) (s : Str) : Except PyError Nat :=
  let parts := s.splitOn '_'
  if parts.all fun part => part ≠ [] && part.all (isDigitOf base) then
    if base = 10 ∧ ∃ limit ∈ py.maxStrDigits, limit < parts.flatten.length then
      .error .valueError
    else .ok (ofDigits base parts.flatten)
  else .error .valueError

def signed (negative : Bool) (n : Nat) : Int := if negative then -n else n

def int (s : Str) : Except PyError Int := do
  let (negative, body) := sign (strip (s.map toAscii))
  pure (signed negative (← natural py 10 body))

def dropUnderscore : Str → Str
  | '_' :: s => s
  | s => s

-- int(s, 0); a leading zero without a base is that of a zero
def intBase0 (s : Str) : Except PyError Int :=
  let (negative, body) := sign (strip (s.map toAscii))
  let based (base : Nat) (rest : Str) : Except PyError Int := do
    pure (signed negative (← natural py base (dropUnderscore rest)))
  match body with
  | '0' :: 'x' :: rest | '0' :: 'X' :: rest => based 16 rest
  | '0' :: 'o' :: rest | '0' :: 'O' :: rest => based 8 rest
  | '0' :: 'b' :: rest | '0' :: 'B' :: rest => based 2 rest
  | '0' :: _ => do
    let n ← natural py 10 body
    if n = 0 then pure 0 else .error .valueError
  | _ => do pure (signed negative (← natural py 10 body))

-- the underscores go, each only between two digits
def withoutUnderscores (s : Str) : Option Str :=
  let parts := s.splitOn '_'
  if (parts.zip parts.tail).all fun (a, b) =>
      (a.getLast?.any Char.isDigit) && (b.head?.any Char.isDigit) then
    some parts.flatten
  else none

def whole (s : Str) : Str := s.takeWhile (· ≠ '.')

def fraction (s : Str) : Str := (s.dropWhile (· ≠ '.')).drop 1

def decimalLiteral (s : Str) : Option ℚ :=
  let isExponent : Char → Bool := fun c => c == 'e' || c == 'E'
  let mantissa := s.takeWhile fun c => !isExponent c
  let digits := whole mantissa ++ fraction mantissa
  if digits ≠ [] ∧ digits.all Char.isDigit then
    let value : ℚ := ofDigits 10 digits / 10 ^ (fraction mantissa).length
    match s.dropWhile fun c => !isExponent c with
    | [] => some value
    | _ :: rest =>
      let (negative, exponent) := sign rest
      if exponent ≠ [] ∧ exponent.all Char.isDigit then
        let n := ofDigits 10 exponent
        some (if negative then value / 10 ^ n else value * 10 ^ n)
      else none
  else none

def float (s : Str) : Except PyError PyFloat :=
  match withoutUnderscores (strip (s.map toAscii)) with
  | none => .error .valueError
  | some body =>
    let (negative, body) := sign body
    let lower := body.map Char.toLower
    if lower = "inf".toList ∨ lower = "infinity".toList then .ok (.infinite negative)
    else if lower = "nan".toList then .ok .nan
    else
      match decimalLiteral body with
      | none => .error .valueError
      | some x => .ok (py.round (if negative then -x else x))

def ofInt (x : Int) : Except PyError PyFloat :=
  match py.round x with
  | .infinite _ => .error .overflowError
  | f => .ok f

def add : PyFloat → PyFloat → PyFloat
  | .finite x, .finite y => py.round (x + y)
  | .nan, _ | _, .nan => .nan
  | .infinite a, .infinite b => if a = b then .infinite a else .nan
  | .infinite a, .finite _ | .finite _, .infinite a => .infinite a

def mul : PyFloat → PyFloat → PyFloat
  | .finite x, .finite y => py.round (x * y)
  | .nan, _ | _, .nan => .nan
  | .infinite a, .infinite b => .infinite (a != b)
  | .infinite a, .finite x | .finite x, .infinite a =>
    if x = 0 then .nan else .infinite (a != decide (x < 0))

inductive Number where
  | int (x : Int)
  | float (x : PyFloat)

def Number.toFloat : Number → Except PyError PyFloat
  | .int x => ofInt py x
  | .float x => .ok x

def Number.add : Number → Number → Except PyError Number
  | .int x, .int y => .ok (.int (x + y))
  | a, b => do pure (.float (PyNumber.add py (← a.toFloat py) (← b.toFloat py)))

def Number.mul : Number → Number → Except PyError Number
  | .int x, .int y => .ok (.int (x * y))
  | a, b => do pure (.float (PyNumber.mul py (← a.toFloat py) (← b.toFloat py)))

end Interpreter

-- int(x); that of a float truncates
def Number.toInt : Number → Except PyError Int
  | .int x => .ok x
  | .float (.finite x) => .ok (if 0 ≤ x then ⌊x⌋ else ⌈x⌉)
  | .float (.infinite _) => .error .overflowError
  | .float .nan => .error .valueError

inductive Denotes : Number → ℚ → Prop
  | int (x : Int) : Denotes (.int x) x
  | float (x : ℚ) : Denotes (.float (.finite x)) x

theorem Denotes.add {a b : Number} {x y : ℚ} (ha : Denotes a x) (hb : Denotes b y) :
    ∃ c, a.add exact b = .ok c ∧ Denotes c (x + y) := by
  cases ha with
  | int x =>
    cases hb with
    | int y => exact ⟨_, rfl, by exact_mod_cast Denotes.int (x + y)⟩
    | float y => exact ⟨_, rfl, .float _⟩
  | float x =>
    cases hb with
    | int y => exact ⟨_, rfl, .float _⟩
    | float y => exact ⟨_, rfl, .float _⟩

theorem Denotes.mul {a b : Number} {x y : ℚ} (ha : Denotes a x) (hb : Denotes b y) :
    ∃ c, a.mul exact b = .ok c ∧ Denotes c (x * y) := by
  cases ha with
  | int x =>
    cases hb with
    | int y => exact ⟨_, rfl, by exact_mod_cast Denotes.int (x * y)⟩
    | float y => exact ⟨_, rfl, .float _⟩
  | float x =>
    cases hb with
    | int y => exact ⟨_, rfl, .float _⟩
    | float y => exact ⟨_, rfl, .float _⟩

theorem Denotes.toInt {a : Number} {x : ℚ} (ha : Denotes a x) (hx : 0 ≤ x) :
    a.toInt = .ok ⌊x⌋ := by
  cases ha with
  | int x => rw [Number.toInt, Int.floor_intCast]
  | float x => rw [Number.toInt, if_pos hx]

def numeral (t : Str) : Nat := t.foldl (fun n c => 10 * n + (decimal c).getD 0) 0

theorem decimal_bounds {c : Char} {d : Nat} (h : decimal c = some d) :
    ∃ z ∈ zeros, z ≤ c.toNat ∧ c.toNat < z + 10 ∧ d = c.toNat - z := by
  obtain ⟨z, hz, heq⟩ := List.exists_of_findSome?_eq_some h
  split at heq
  case isTrue hrange =>
    exact ⟨z, hz, hrange.1, hrange.2, (Option.some.inj heq).symm⟩
  case isFalse => cases heq

theorem zeros_far : ∀ z ∈ zeros, z = 0x30 ∨ 127 ≤ z := by decide

theorem zeros_no_space : ∀ z ∈ zeros, ∀ d < 10,
    ¬(z + d ∈ [0x85, 0xa0, 0x1680, 0x2028, 0x2029, 0x202f, 0x205f, 0x3000] ∨
      0x2000 ≤ z + d ∧ z + d ≤ 0x200a) := by decide

theorem toAscii_decimal {c : Char} {d : Nat} (h : decimal c = some d) :
    d < 10 ∧ toAscii c = Nat.digitChar d := by
  obtain ⟨z, hz, hle, hlt, rfl⟩ := decimal_bounds h
  refine ⟨by omega, ?_⟩
  rcases zeros_far z hz with rfl | hfar
  · rw [toAscii, if_pos (by omega), ← Char.toNat_inj, Nat.toNat_digitChar_of_lt_ten (by omega)]
    omega
  · have hspace := zeros_no_space z hz (c.toNat - z) (by omega)
    rw [Nat.add_sub_cancel' hle] at hspace
    rw [toAscii, if_neg (by omega), if_neg hspace, h]

def IsDigits (t : Str) : Prop := ∀ c ∈ t, isDecimal c

theorem ascii_digit {c : Char} (h : isDecimal c) :
    (toAscii c).isDigit ∧ digitValue (toAscii c) = (decimal c).getD 0 := by
  obtain ⟨d, hd⟩ := Option.isSome_iff_exists.mp h
  obtain ⟨hlt, hascii⟩ := toAscii_decimal hd
  have hdigit : (Nat.digitChar d).isDigit := by simpa [Nat.isDigit_digitChar] using hlt
  rw [hascii, hd, digitValue, if_pos hdigit, Nat.toNat_digitChar_of_lt_ten hlt]
  exact ⟨hdigit, Nat.add_sub_cancel_left _ _⟩

theorem ofDigits_ascii {t : Str} (h : IsDigits t) : ofDigits 10 (t.map toAscii) = numeral t := by
  rw [ofDigits, numeral, List.foldl_map]
  exact List.foldl_ext _ _ _ fun n c hc => by rw [(ascii_digit (h c hc)).2]

def Plain (s : Str) : Prop := ∀ c ∈ s, c.isDigit ∨ c = '.'

theorem plain_not {c : Char} {s : Str} (h : Plain s) (hdigit : c.isDigit = false) (hdot : c ≠ '.') :
    c ∉ s := by
  intro hc
  rcases h c hc with hd | rfl
  · rw [hd] at hdigit
    cases hdigit
  · exact hdot rfl

theorem strip_eq_self {s : Str} (h : ∀ c ∈ s, ¬isAsciiSpace c) : strip s = s := by
  rw [strip, List.dropWhile_eq_self_iff.mpr fun hl => h _ (List.getElem_mem hl),
    List.rdropWhile_eq_self_iff.mpr fun hl => h _ (List.getLast_mem hl)]

theorem not_isAsciiSpace {c : Char} (h : 33 ≤ c.toNat) : ¬isAsciiSpace c := by
  intro hspace
  simp only [isAsciiSpace, Bool.or_eq_true, Bool.and_eq_true, decide_eq_true_eq,
    beq_iff_eq] at hspace
  rcases hspace with hspace | rfl
  · omega
  · revert h
    decide

theorem isDigit_le {c : Char} (h : c.isDigit) : 48 ≤ c.toNat := by
  simp only [Char.isDigit, Bool.and_eq_true, decide_eq_true_eq] at h
  exact h.1

theorem strip_plain {s : Str} (h : Plain s) : strip s = s := by
  refine strip_eq_self fun c hc => not_isAsciiSpace ?_
  rcases h c hc with hd | rfl
  · exact le_trans (by decide) (isDigit_le hd)
  · decide

theorem sign_plain {s : Str} (h : Plain s) : sign s = (false, s) := by
  rw [sign.eq_def]
  split
  case h_1 s => exact absurd List.mem_cons_self (plain_not h (by decide) (by decide))
  case h_2 s => exact absurd List.mem_cons_self (plain_not h (by decide) (by decide))
  case h_3 => rfl

theorem isAlphanum_bounds {c : Char} (h : c.isAlphanum) : 48 ≤ c.toNat ∧ c.toNat ≤ 122 := by
  have hbounds {a b : UInt32} (ha : 48 ≤ a.toNat) (hb : b.toNat ≤ 122) (hlow : a ≤ c.val)
      (hhigh : c.val ≤ b) : 48 ≤ c.toNat ∧ c.toNat ≤ 122 :=
    ⟨le_trans ha (UInt32.le_iff_toNat_le.mp hlow), le_trans (UInt32.le_iff_toNat_le.mp hhigh) hb⟩
  obtain halpha | hdigit := Bool.or_eq_true_iff.mp h
  · obtain hupper | hlower := Bool.or_eq_true_iff.mp halpha
    · have hletter := of_decide_eq_true hupper
      exact hbounds (by decide) (by decide) hletter.1 hletter.2
    · obtain ⟨hlow, hhigh⟩ := Bool.and_eq_true_iff.mp hlower
      exact hbounds (by decide) (by decide) (of_decide_eq_true hlow) (of_decide_eq_true hhigh)
  · obtain ⟨hlow, hhigh⟩ := Bool.and_eq_true_iff.mp hdigit
    exact hbounds (by decide) (by decide) (of_decide_eq_true hlow) (of_decide_eq_true hhigh)

theorem sanitized_alphanum {s : Str} (h : ∀ c ∈ s, c.isAlphanum) :
    sign (strip (s.map toAscii)) = (false, s) ∧ s.splitOn '_' = [s] := by
  have hmap : s.map toAscii = s := by
    rw [List.map_congr_left fun c hc => ?_, List.map_id]
    exact if_pos (by have := isAlphanum_bounds (h c hc); omega)
  have hstrip : strip s = s := strip_eq_self fun c hc =>
    not_isAsciiSpace (le_trans (by decide) (isAlphanum_bounds (h c hc)).1)
  have hunder : '_' ∉ s := fun hin => by cases h '_' hin
  refine ⟨?_, List.splitOn_eq_singleton hunder⟩
  rw [hmap, hstrip, sign.eq_def]
  split
  case h_1 s => cases h '-' List.mem_cons_self
  case h_2 s => cases h '+' List.mem_cons_self
  case h_3 => rfl

theorem splitOn_plain {s : Str} (h : Plain s) : s.splitOn '_' = [s] :=
  List.splitOn_eq_singleton (plain_not h (by decide) (by decide))

theorem plain_ascii {t : Str} (h : ∀ c ∈ t, isDecimal c ∨ c = '.') : Plain (t.map toAscii) := by
  intro c hc
  obtain ⟨c, hmem, rfl⟩ := List.mem_map.mp hc
  rcases h c hmem with hd | rfl
  · exact .inl (ascii_digit hd).1
  · exact .inr rfl

theorem int_digits {t : Str} (hne : t ≠ []) (h : IsDigits t) :
    int exact t = .ok (numeral t : Int) := by
  have hplain : Plain (t.map toAscii) := plain_ascii fun c hc => .inl (h c hc)
  have hall : (t.map toAscii).all (isDigitOf 10) := by
    simp only [List.all_map, List.all_eq_true]
    intro c hc
    obtain ⟨d, hd⟩ := Option.isSome_iff_exists.mp (h c hc)
    obtain ⟨hdigit, hvalue⟩ := ascii_digit (h c hc)
    have := (toAscii_decimal hd).1
    rw [hd] at hvalue
    simp [isDigitOf, Char.isAlphanum, hdigit, hvalue, this]
  rw [int, strip_plain hplain, sign_plain hplain]
  simp [natural, splitOn_plain hplain, hall, hne, exact, signed, ofDigits_ascii h]

theorem plain_point {u v : Str} (hu : IsDigits u) (hv : IsDigits v) :
    Plain ((u ++ '.' :: v).map toAscii) :=
  plain_ascii fun c hc => by
    rcases List.mem_append.mp hc with hc | hc
    · exact .inl (hu c hc)
    · rcases List.mem_cons.mp hc with rfl | hc
      · exact .inr rfl
      · exact .inl (hv c hc)

theorem int_point {u v : Str} (hu : IsDigits u) (hv : IsDigits v) :
    int exact (u ++ '.' :: v) = .error .valueError := by
  have hplain := plain_point hu hv
  have hdot : ((u ++ '.' :: v).map toAscii).all (isDigitOf 10) = false := by
    rw [List.all_eq_false]
    exact ⟨'.', List.mem_map.mpr ⟨'.', by simp, rfl⟩, by decide⟩
  rw [int, strip_plain hplain, sign_plain hplain]
  simp only [natural, splitOn_plain hplain, List.all_cons, hdot, Bool.and_false, Bool.false_and]
  rfl

def quantity (t : Str) : ℚ := numeral (whole t ++ fraction t) / 10 ^ (fraction t).length

theorem digits_no_dot {t : Str} (h : IsDigits t) : '.' ∉ t := fun hdot =>
  absurd (h '.' hdot) (by decide)

theorem whole_fraction_digits {t : Str} (h : '.' ∉ t) : whole t = t ∧ fraction t = [] := by
  have hne : ∀ c ∈ t, decide (c ≠ '.') = true := by
    intro c hc
    rw [decide_eq_true_eq]
    rintro rfl
    exact h hc
  exact ⟨List.takeWhile_eq_self_iff.mpr hne,
    by rw [fraction, List.dropWhile_eq_nil_iff.mpr hne]; rfl⟩

theorem whole_fraction_point {u : Str} (v : Str) (h : '.' ∉ u) :
    whole (u ++ '.' :: v) = u ∧ fraction (u ++ '.' :: v) = v := by
  have hne : ∀ c ∈ u, decide (c ≠ '.') = true := by
    intro c hc
    rw [decide_eq_true_eq]
    rintro rfl
    exact h hc
  rw [whole, fraction, List.takeWhile_append_of_pos hne, List.dropWhile_append_of_pos hne]
  simp

theorem quantity_digits {t : Str} (h : IsDigits t) : quantity t = numeral t := by
  obtain ⟨hwhole, hfraction⟩ := whole_fraction_digits (digits_no_dot h)
  simp [quantity, hwhole, hfraction]

theorem quantity_point {u : Str} (v : Str) (hu : IsDigits u) :
    quantity (u ++ '.' :: v) = numeral (u ++ v) / 10 ^ v.length := by
  obtain ⟨hwhole, hfraction⟩ := whole_fraction_point v (digits_no_dot hu)
  rw [quantity, hwhole, hfraction]

theorem no_exponent {s : Str} (h : Plain s) :
    (s.takeWhile fun c => !(c == 'e' || c == 'E')) = s ∧
      (s.dropWhile fun c => !(c == 'e' || c == 'E')) = [] := by
  have hall : ∀ c ∈ s, (!(c == 'e' || c == 'E')) = true := by
    intro c hc
    have he : c ≠ 'e' := by
      rintro rfl
      exact plain_not h (by decide) (by decide) hc
    have hE : c ≠ 'E' := by
      rintro rfl
      exact plain_not h (by decide) (by decide) hc
    simp [he, hE]
  exact ⟨List.takeWhile_eq_self_iff.mpr hall, List.dropWhile_eq_nil_iff.mpr hall⟩

theorem toLower_plain {c : Char} (h : c.isDigit ∨ c = '.') : c.toLower = c := by
  refine dif_neg ?_
  rintro ⟨hA, -⟩
  rcases h with hd | rfl
  · simp only [Char.isDigit, Bool.and_eq_true, decide_eq_true_eq, UInt32.le_iff_toNat_le] at hd
    have hA : 65 ≤ c.val.toNat := UInt32.le_iff_toNat_le.mp hA
    have h9 : c.val.toNat ≤ 57 := hd.2
    omega
  · revert hA
    decide

theorem lower_plain {s : Str} (h : Plain s) : s.map Char.toLower = s := by
  rw [List.map_congr_left fun c hc => toLower_plain (h c hc)]
  exact List.map_id s

theorem float_plain {t : Str} (hplain : Plain (t.map toAscii)) {x : ℚ}
    (hliteral : decimalLiteral (t.map toAscii) = some x) :
    float exact t = .ok (.finite x) := by
  have hletter : ∀ c, c.isDigit = false → c ≠ '.' → ∀ l : Str, c ∈ l → t.map toAscii ≠ l := by
    rintro c hdigit hdot l hl rfl
    exact plain_not hplain hdigit hdot hl
  rw [float, strip_plain hplain]
  simp only [withoutUnderscores, splitOn_plain hplain, List.tail_cons, List.zip_nil_right,
    List.all_nil, if_true, List.flatten_singleton, sign_plain hplain, lower_plain hplain]
  rw [if_neg, if_neg, hliteral]
  · rfl
  · exact hletter 'n' (by decide) (by decide) _ (by decide)
  · exact fun h => h.elim (hletter 'n' (by decide) (by decide) _ (by decide))
      (hletter 'n' (by decide) (by decide) _ (by decide))

theorem isDigit_ascii {t : Str} (h : IsDigits t) : ∀ c ∈ t.map toAscii, c.isDigit := by
  intro c hc
  obtain ⟨c, hmem, rfl⟩ := List.mem_map.mp hc
  exact (ascii_digit (h c hmem)).1

theorem decimalLiteral_plain {s : Str} (hplain : Plain s) (hne : whole s ++ fraction s ≠ [])
    (hdigits : ∀ c ∈ whole s ++ fraction s, c.isDigit) :
    decimalLiteral s =
      some (ofDigits 10 (whole s ++ fraction s) / 10 ^ (fraction s).length : ℚ) := by
  obtain ⟨htake, hdrop⟩ := no_exponent hplain
  simp only [decimalLiteral, htake, hdrop]
  rw [if_pos ⟨hne, List.all_eq_true.mpr hdigits⟩]

theorem float_digits {t : Str} (hne : t ≠ []) (h : IsDigits t) :
    float exact t = .ok (.finite (quantity t)) := by
  have hplain : Plain (t.map toAscii) := plain_ascii fun c hc => .inl (h c hc)
  have hdot : '.' ∉ t.map toAscii := fun hmem => absurd (isDigit_ascii h _ hmem) (by decide)
  obtain ⟨hwhole, hfraction⟩ := whole_fraction_digits hdot
  refine float_plain hplain ?_
  rw [decimalLiteral_plain hplain, hwhole, hfraction, List.append_nil, ofDigits_ascii h,
    quantity_digits h, List.length_nil, pow_zero, div_one]
  · simpa [hwhole, hfraction] using hne
  · rw [hwhole, hfraction, List.append_nil]
    exact isDigit_ascii h

theorem float_point {u v : Str} (hne : u ++ v ≠ []) (hu : IsDigits u) (hv : IsDigits v) :
    float exact (u ++ '.' :: v) = .ok (.finite (quantity (u ++ '.' :: v))) := by
  have hdot : '.' ∉ u.map toAscii := fun hmem => absurd (isDigit_ascii hu _ hmem) (by decide)
  have hmap : (u ++ '.' :: v).map toAscii = u.map toAscii ++ '.' :: v.map toAscii := by
    rw [List.map_append, List.map_cons]
    rfl
  have hdigits : IsDigits (u ++ v) := fun c hc => (List.mem_append.mp hc).elim (hu c) (hv c)
  have hplain := plain_point hu hv
  obtain ⟨hwhole, hfraction⟩ := whole_fraction_point (v.map toAscii) hdot
  refine float_plain hplain ?_
  rw [hmap] at hplain ⊢
  rw [decimalLiteral_plain hplain, hwhole, hfraction, ← List.map_append, ofDigits_ascii hdigits,
    quantity_point v hu, List.length_map]
  · rwa [hwhole, hfraction, ← List.map_append, Ne, List.map_eq_nil_iff]
  · rw [hwhole, hfraction, ← List.map_append]
    exact isDigit_ascii hdigits

end PyNumber
