import Isz.Library.Dict
import Isz.Library.Text
import Isz.Wago.Logger
import Mathlib.Data.Nat.Digits.Defs
import Mathlib.Tactic.IntervalCases

namespace Isz.Wago

inductive Slot where
  | bytes
  | float (set : Status → ℚ → Status)
  | word (set : Status → UInt16 → Status)

-- tag is sf.Tag.Get("wago")
structure StructField where
  slot : Slot
  tag : Str

def statusFields : List StructField :=
  [⟨.bytes, []⟩,
    ⟨.float fun s x => { s with psuAmps := x }, "0,1000".toList⟩,
    ⟨.float fun s x => { s with batteryVolts := x }, "1,100".toList⟩,
    ⟨.float fun s x => { s with batteryOutAmps := x }, "2,1000".toList⟩,
    ⟨.float fun s x => { s with temperatureDegreesCelsius := x }, "3,100".toList⟩,
    ⟨.float fun s x => { s with outputVolts := x }, "4,100".toList⟩,
    ⟨.float fun s x => { s with psuVolts := x }, "5,100".toList⟩,
    ⟨.float fun s x => { s with batteryInAmps := x }, "6,1000".toList⟩,
    ⟨.word fun s x => { s with status := x }, "7".toList⟩,
    ⟨.word fun s x => { s with switchPosition := x }, "8".toList⟩]

-- strconv.Atoi
def atoi (s : Str) : Option Int :=
  let negative := s.head? = some '-'
  let digits := if negative ∨ s.head? = some '+' then s.tail else s
  if digits = [] ∨ digits.any fun c => !c.isDigit then none
  else
    let n : Int := Nat.ofDigitChars 10 digits 0
    let n := if negative then -n else n
    if -2 ^ 63 ≤ n ∧ n < 2 ^ 63 then some n else none

def divisorOf : List Str → Int
  | _ :: part :: _ => (atoi part).getD 0
  | _ => 0

def fieldOf : Slot → Int → Option Field
  | .float set, divisor => if 0 < divisor then some (.scaled divisor.toNat set) else none
  | .word set, divisor => if divisor = 0 then some (.word set) else none
  | .bytes, _ => none

def addField (table : List (Int × Field)) (f : StructField) : List (Int × Field) :=
  if f.tag = [] then table
  else
    let parts := f.tag.splitOn ','
    match atoi (parts.headD []), fieldOf f.slot (divisorOf parts) with
    | some wagoTag, some field => assign table wagoTag field
    | _, _ => table

def tagTable (fields : List StructField) : List (Int × Field) := fields.foldl addField []

theorem tagTable_statusFields :
    tagTable statusFields = (List.range 9).filterMap fun tag =>
      (tagToField (UInt8.ofNat tag)).map fun f => ((tag : Int), f) := rfl

theorem tagToField_isSome : ∀ n < 256, (tagToField (UInt8.ofNat n)).isSome = decide (n < 9) := by
  decide +kernel

theorem tagToField_isSome_iff (tag : UInt8) : (tagToField tag).isSome ↔ tag ≤ 8 := by
  have h := tagToField_isSome tag.toNat tag.toNat_lt
  rw [UInt8.ofNat_toNat] at h
  rw [h, decide_eq_true_iff, UInt8.le_iff_toNat_le]
  exact Nat.lt_succ_iff

theorem exists_ofNat {tag : UInt8} (h : tag ≤ 8) : ∃ n < 9, tag = UInt8.ofNat n :=
  ⟨tag.toNat, Nat.lt_succ_of_le (UInt8.le_iff_toNat_le.mp h), (UInt8.ofNat_toNat).symm⟩

theorem lookup_tagTable (tag : UInt8) :
    (tagTable statusFields).lookup (tag.toNat : Int) = tagToField tag := by
  rw [tagTable_statusFields]
  by_cases hle : tag ≤ 8
  · obtain ⟨n, hn, rfl⟩ := exists_ofNat hle
    interval_cases n <;> rfl
  · have hnone : tagToField tag = none := by
      rw [← tagToField_isSome_iff, Option.not_isSome_iff_eq_none] at hle
      exact hle
    rw [hnone, List.lookup_eq_none_iff]
    intro e he
    obtain ⟨n, hn, hf⟩ := List.mem_filterMap.mp he
    obtain ⟨f, -, rfl⟩ := Option.map_eq_some_iff.mp hf
    have hlt := List.mem_range.mp hn
    rw [UInt8.le_iff_toNat_le] at hle
    have : (8 : UInt8).toNat = 8 := rfl
    simp
    omega

structure Record where
  tag : UInt8
  hi : UInt8
  lo : UInt8

def Record.bytes (r : Record) : List UInt8 := [r.tag, r.hi, r.lo]

def Encodes (bytes : List UInt8) (records : List Record) : Prop :=
  bytes = records.flatMap Record.bytes ∧ ∀ r ∈ records, r.tag ≤ 8

def Record.apply (s : Status) (r : Record) : Status :=
  match tagToField r.tag with
  | some f => f.read s r.hi r.lo
  | none => s

theorem encodes_nil {records : List Record} : Encodes [] records ↔ records = [] := by
  constructor
  · rintro ⟨hbytes, -⟩
    cases records with
    | nil => rfl
    | cons r records => cases hbytes
  · rintro rfl
    exact ⟨rfl, List.forall_mem_nil _⟩

theorem encodes_cons {tag : UInt8} {rest : List UInt8} {records : List Record} :
    Encodes (tag :: rest) records ↔ ∃ hi lo rest' records', rest = hi :: lo :: rest' ∧
      records = ⟨tag, hi, lo⟩ :: records' ∧ tag ≤ 8 ∧ Encodes rest' records' := by
  constructor
  · rintro ⟨hbytes, htags⟩
    cases records with
    | nil => cases hbytes
    | cons r records =>
      obtain ⟨rfl, rfl⟩ := List.cons.inj hbytes
      rw [List.forall_mem_cons] at htags
      exact ⟨r.hi, r.lo, _, records, rfl, rfl, htags.1, rfl, htags.2⟩
  · rintro ⟨hi, lo, rest', records', rfl, rfl, htag, rfl, htags⟩
    exact ⟨rfl, List.forall_mem_cons.mpr ⟨htag, htags⟩⟩

theorem parseFields_eq_ok (bytes : List UInt8) (s s' : Status) :
    parseFields bytes s = .ok s' ↔
      ∃ records, Encodes bytes records ∧ s' = records.foldl Record.apply s := by
  fun_induction parseFields bytes s with
  | case1 s => simp [encodes_nil, eq_comm]
  | case2 tag rest s hnone =>
    have hlarge : ¬tag ≤ 8 := by
      rw [← tagToField_isSome_iff, hnone]
      exact Bool.false_ne_true
    simp [encodes_cons, hlarge]
  | case3 | case4 => simp [encodes_cons]
  | case5 tag s f hf hi lo rest ih =>
    have htag : tag ≤ 8 := by
      rw [← tagToField_isSome_iff, hf]
      rfl
    rw [ih]
    constructor
    · rintro ⟨records, hrecords, rfl⟩
      refine ⟨⟨tag, hi, lo⟩ :: records,
        encodes_cons.mpr ⟨hi, lo, rest, records, rfl, rfl, htag, hrecords⟩, ?_⟩
      rw [List.foldl_cons, Record.apply, hf]
    · rintro ⟨records, hrecords, rfl⟩
      obtain ⟨hi', lo', rest', records', hrest, rfl, -, hrecords'⟩ := encodes_cons.mp hrecords
      simp only [List.cons.injEq] at hrest
      obtain ⟨rfl, rfl, rfl⟩ := hrest
      refine ⟨records', hrecords', ?_⟩
      rw [List.foldl_cons, Record.apply, hf]

def unsigned16 (hi lo : UInt8) : Nat := 256 * hi.toNat + lo.toNat

def signed16 (hi lo : UInt8) : Int :=
  if unsigned16 hi lo < 2 ^ 15 then unsigned16 hi lo else unsigned16 hi lo - 2 ^ 16

def lastWith (records : List Record) (tag : UInt8) : Option Record :=
  records.reverse.find? fun r => r.tag = tag

def amount (records : List Record) (tag : UInt8) (divisor : Nat) : ℚ :=
  match lastWith records tag with
  | some r => signed16 r.hi r.lo / divisor
  | none => 0

def word (records : List Record) (tag : UInt8) : UInt16 :=
  match lastWith records tag with
  | some r => UInt16.ofNat (unsigned16 r.hi r.lo)
  | none => 0

def statusOf (records : List Record) : Status where
  deviceID := (0, 0)
  psuAmps := amount records 0 1000
  batteryVolts := amount records 1 100
  batteryOutAmps := amount records 2 1000
  temperatureDegreesCelsius := amount records 3 100
  outputVolts := amount records 4 100
  psuVolts := amount records 5 100
  batteryInAmps := amount records 6 1000
  status := word records 7
  switchPosition := word records 8

theorem toNat_bigEndian (hi lo : UInt8) : (bigEndian hi lo).toNat = unsigned16 hi lo := by
  have hhi := hi.toNat_lt
  have hshift : hi.toNat <<< 8 = 256 * hi.toNat := by rw [Nat.shiftLeft_eq, Nat.mul_comm]
  have hor := Nat.shiftLeft_add_eq_or_of_lt lo.toNat_lt hi.toNat
  rw [hshift] at hor
  rw [bigEndian, UInt16.toNat_or, UInt16.toNat_shiftLeft, UInt8.toNat_toUInt16,
    UInt8.toNat_toUInt16]
  change hi.toNat <<< 8 % 2 ^ 16 ||| lo.toNat = _
  rw [hshift, Nat.mod_eq_of_lt (by omega), ← hor, unsigned16]

theorem bigEndian_eq (hi lo : UInt8) : bigEndian hi lo = UInt16.ofNat (unsigned16 hi lo) := by
  rw [← toNat_bigEndian, UInt16.ofNat_toNat]

theorem toInt_unsigned16 (hi lo : UInt8) :
    (UInt16.ofNat (unsigned16 hi lo)).toInt16.toInt = signed16 hi lo := by
  have hlt := (bigEndian hi lo).toNat_lt
  have hint : (bigEndian hi lo).toInt16.toInt = ((bigEndian hi lo).toNat : Int).bmod (2 ^ 16) :=
    BitVec.toInt_eq_toNat_bmod _
  rw [← bigEndian_eq, hint, toNat_bigEndian, signed16]
  rw [toNat_bigEndian] at hlt
  split
  · rw [Int.bmod_eq_of_le] <;> omega
  · rw [Int.bmod_def]
    omega

section Concat

variable (records : List Record) {r : Record}

theorem lastWith_concat (tag : UInt8) :
    lastWith (records ++ [r]) tag = if r.tag = tag then some r else lastWith records tag := by
  rw [lastWith, List.reverse_concat, List.find?_cons]
  split <;> simp_all [lastWith]

theorem amount_concat (tag : UInt8) (divisor : Nat) :
    amount (records ++ [r]) tag divisor =
      if r.tag = tag then (signed16 r.hi r.lo : ℚ) / divisor else amount records tag divisor := by
  rw [amount, lastWith_concat]
  by_cases htag : r.tag = tag
  · rw [if_pos htag, if_pos htag]
  · rw [if_neg htag, if_neg htag, amount]

theorem word_concat (tag : UInt8) :
    word (records ++ [r]) tag =
      if r.tag = tag then UInt16.ofNat (unsigned16 r.hi r.lo) else word records tag := by
  rw [word, lastWith_concat]
  by_cases htag : r.tag = tag
  · rw [if_pos htag, if_pos htag]
  · rw [if_neg htag, if_neg htag, word]

theorem apply_statusOf (hr : r.tag ≤ 8) :
    r.apply (statusOf records) = statusOf (records ++ [r]) := by
  obtain ⟨tag, hi, lo⟩ := r
  obtain ⟨n, hn, rfl⟩ := exists_ofNat hr
  interval_cases n
  all_goals
    simp only [Record.apply, tagToField, Field.read, bigEndian_eq, toInt_unsigned16, statusOf,
      amount_concat, word_concat]
    rfl

end Concat

theorem foldl_apply {records : List Record} (h : ∀ r ∈ records, r.tag ≤ 8) :
    records.foldl Record.apply .zero = statusOf records := by
  induction records using List.reverseRecOn with
  | nil => rfl
  | append_singleton records r ih =>
    rw [List.forall_mem_append, List.forall_mem_singleton] at h
    rw [List.foldl_append, ih h.1, List.foldl_cons, List.foldl_nil, apply_statusOf records h.2]

theorem parseFields_grammar (bytes : List UInt8) :
    (∀ s, parseFields bytes .zero = .ok s ↔
      ∃ records, Encodes bytes records ∧ s = statusOf records) ∧
    ((∃ e, parseFields bytes .zero = .error e) ↔ ¬∃ records, Encodes bytes records) := by
  have haccepts : ∀ s, parseFields bytes .zero = .ok s ↔
      ∃ records, Encodes bytes records ∧ s = statusOf records := by
    intro s
    rw [parseFields_eq_ok]
    constructor
    · rintro ⟨records, hrecords, rfl⟩
      exact ⟨records, hrecords, foldl_apply hrecords.2⟩
    · rintro ⟨records, hrecords, rfl⟩
      exact ⟨records, hrecords, (foldl_apply hrecords.2).symm⟩
  refine ⟨haccepts, ?_, fun hnone => ?_⟩
  · rintro ⟨e, he⟩ ⟨records, hrecords⟩
    rw [(haccepts _).mpr ⟨records, hrecords, rfl⟩] at he
    cases he
  · cases hparse : parseFields bytes .zero with
    | error e => exact ⟨e, rfl⟩
    | ok s =>
      obtain ⟨records, hrecords, -⟩ := (haccepts s).mp hparse
      exact absurd ⟨records, hrecords⟩ hnone

end Isz.Wago
