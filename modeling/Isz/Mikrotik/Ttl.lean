import Isz.Dns.Zone
import Isz.Mikrotik.Duration

namespace Isz.Mikrotik

open PyNumber Regex Dns

-- the text of one component, none where to_ttl leaves it out
def piece (o : Option Nat) (u : Char) : Str := o.elim [] fun n => str n ++ [u]

def capture (caps : Captures Group) (k : Group) (o : Option Nat) : Captures Group :=
  o.elim caps fun n => Function.update caps k (some (str n))

def Avoids (r : Regex Group) (s : Str) : Prop :=
  s = [] ∨ ∃ n c rest, s = str n ++ c :: rest ∧ isDecimal c = false ∧ c ≠ '.' ∧
    ∀ caps, r.run caps (c :: rest) = []

theorem isDecimal_of_isDigit {c : Char} (h : c.isDigit) : decimal c = some (c.toNat - 48) := by
  have hbounds : 48 ≤ c.toNat ∧ c.toNat ≤ 57 := by
    simp only [Char.isDigit, Bool.and_eq_true, decide_eq_true_eq, UInt32.le_iff_toNat_le] at h
    exact h
  rw [decimal, zeros, List.findSome?_cons, if_pos (by omega)]

theorem str_digits (n : Nat) : IsDigits (str n) := fun c hc => by
  rw [isDecimal, isDecimal_of_isDigit (Nat.isDigit_of_mem_toDigits (by decide) (by decide) hc)]
  rfl

theorem str_ne_nil (n : Nat) : str n ≠ [] := Nat.toDigits_ne_nil

theorem quantity_str (n : Nat) : quantity (str n) = n := by
  have hfold : numeral (str n) = Nat.ofDigitChars 10 (str n) 0 := by
    rw [numeral, Nat.ofDigitChars_eq_foldl]
    refine List.foldl_ext _ _ _ fun m c hc => ?_
    rw [isDecimal_of_isDigit (Nat.isDigit_of_mem_toDigits (by decide) (by decide) hc)]
    rfl
  rw [quantity_digits (str_digits n), hfold, str, Nat.ofDigitChars_ten_toDigits]

theorem fraction9_nil {c : Char} (hc : c ≠ '.') (caps : Captures Group) (s : Str) :
    fraction9.run caps (c :: s) = [] := by
  simp [fraction9, run_seq, run_set, hc]

theorem dot_of_isDecimal {c : Char} (h : isDecimal c) : c ≠ '.' := by
  rintro rfl
  revert h
  decide

theorem fraction_run_nil {d rest : Str} (hd : IsDigits d)
    (hrest : ∀ c ∈ rest.head?, isDecimal c = false ∧ c ≠ '.') (caps : Captures Group) :
    (seq (many isDecimal 0 none) fraction9).run caps (d ++ rest) = [] := by
  refine run_many_nil fun n hn => ?_
  rw [takeWhile_run hd fun c hc => (hrest c hc).1] at hn
  rw [List.drop_append_of_le_length hn]
  cases hcut : d.drop n with
  | nil =>
    cases rest with
    | nil => rfl
    | cons c rest => exact fraction9_nil (hrest c rfl).2 caps rest
  | cons c d' =>
    have hc : c ∈ d := List.mem_of_mem_drop (hcut ▸ List.mem_cons_self)
    exact fraction9_nil (dot_of_isDecimal (hd c hc)) caps _

theorem body_run {k : Group} (hk : k ≠ .seconds) {d rest : Str} (hd : IsDigits d)
    (hrest : ∀ c ∈ rest.head?, isDecimal c = false ∧ c ≠ '.') (caps : Captures Group) :
    (body k).run caps (d ++ rest) = digits.run caps (d ++ rest) := by
  have halt : (alt digits (seq (many isDecimal 0 none) fraction9)).run caps (d ++ rest) =
      digits.run caps (d ++ rest) := by
    rw [run_alt, fraction_run_nil hd hrest, List.append_nil]
  cases k
  case seconds => exact absurd rfl hk
  case seconds2 | ms | us | ns => exact halt
  all_goals rfl

theorem component_run {k : Group} (hk : k ≠ .seconds) {r : Regex Group}
    (hr : ∀ caps c s, isDecimal c → r.run caps (c :: s) = []) (caps : Captures Group) (n : Nat)
    {rest : Str} (hrest : ∀ c ∈ rest.head?, isDecimal c = false ∧ c ≠ '.') :
    (seq (group k (body k)) r).run caps (str n ++ rest) =
      r.run (Function.update caps k (some (str n))) rest := by
  rw [← run_group_many caps (str_ne_nil n) (str_digits n) (fun c hc => (hrest c hc).1) hr]
  simp only [run_seq, run_group, body_run hk (str_digits n) hrest]
  rfl

theorem component_run_nil {k : Group} (hk : k ≠ .seconds) (r : Regex Group)
    (caps : Captures Group) : (seq (group k (body k)) r).run caps [] = [] := by
  cases k
  case seconds => exact absurd rfl hk
  all_goals rfl

structure IsUnit (r : Regex Group) (u : Char) : Prop where
  letter : isDecimal u = false ∧ u ≠ '.'
  reads : ∀ caps s, r.run caps (u :: s) = [(caps, s)]
  fails : ∀ caps c s, c ≠ u → c ≠ ':' → r.run caps (c :: s) = []

theorem literal_run (caps : Captures Group) (u c : Char) (s : Str) :
    (literal [u] : Regex Group).run caps (c :: s) = if c = u then [(caps, s)] else [] := by
  by_cases hc : c = u
  · have hnil : s.takeWhile (fun _ => false) = [] := by cases s <;> rfl
    simp [literal, run_seq, run_set, run_many, lengths, hc, hnil]
  · simp [literal, run_seq, run_set, hc]

theorem isUnit_literal (u : Char) (hu : isDecimal u = false ∧ u ≠ '.') :
    IsUnit (literal [u]) u where
  letter := hu
  reads caps s := by rw [literal_run, if_pos rfl]
  fails caps c s hc _ := by rw [literal_run, if_neg hc]

theorem isUnit_hours : IsUnit (set fun c => c == ':' || c == 'h') 'h' where
  letter := by decide
  reads _ _ := rfl
  fails caps c s hc hcolon := by simp [run_set, hc, hcolon]

section Unit

variable {r : Regex Group} {u : Char} (h : IsUnit r u) {k : Group} (hk : k ≠ .seconds)
  {caps : Captures Group} {s : Str}

include h

theorem IsUnit.no_digit (caps : Captures Group) (c : Char) (s : Str) (hc : isDecimal c) :
    r.run caps (c :: s) = [] := by
  refine h.fails caps c s ?_ ?_
  · rintro rfl
    rw [h.letter.1] at hc
    cases hc
  · rintro rfl
    revert hc
    decide

theorem IsUnit.avoids (o : Option Nat) {u' : Char} (hu' : isDecimal u' = false ∧ u' ≠ '.')
    (hne : u' ≠ u ∧ u' ≠ ':') (hs : Avoids r s) : Avoids r (piece o u' ++ s) := by
  cases o with
  | none => exact hs
  | some n =>
    exact .inr ⟨n, u', s, by simp [piece], hu'.1, hu'.2, fun caps => h.fails caps u' s hne.1 hne.2⟩

include hk

theorem IsUnit.avoided (hs : Avoids r s) : (seq (group k (body k)) r).run caps s = [] := by
  obtain rfl | ⟨n, c, rest, rfl, hdecimal, hdot, hnil⟩ := hs
  · exact component_run_nil hk r caps
  · rw [component_run hk h.no_digit caps n]
    · exact hnil _
    · rintro _ ⟨⟩
      exact ⟨hdecimal, hdot⟩

theorem IsUnit.first (o : Option Nat) (hs : Avoids r s) :
    (opt (seq (group k (body k)) r)).First caps (piece o u ++ s) (capture caps k o) s := by
  cases o with
  | none => exact .skip (h.avoided hk hs)
  | some n =>
    refine .opt ?_
    rw [First, piece, Option.elim_some, List.append_assoc, component_run hk h.no_digit caps n]
    · rw [List.singleton_append, h.reads]
      rfl
    · rintro _ ⟨⟩
      exact h.letter

theorem IsUnit.last (o : Option Nat) :
    (opt (seq (group k (body k)) r)).First caps (piece o u) (capture caps k o) [] := by
  rw [← List.append_nil (piece o u)]
  exact h.first hk o (.inl rfl)

end Unit

def shown (n : Nat) : Option Nat := if 0 < n then some n else none

def shownSeconds (n : Nat) : Option Nat := if 0 < n % 60 ∨ n = 0 then some (n % 60) else none

def ttlComponent (n : Nat) : Group → Option Nat
  | .days => shown (n / 60 / 60 / 24)
  | .hours => shown (n / 60 / 60 % 24)
  | .minutes2 => shown (n / 60 % 60)
  | .seconds2 => shownSeconds n
  | _ => none

def ttlCaptures (n : Nat) (k : Group) : Option Str := (ttlComponent n k).map str

theorem appended (out : Str) (n : Nat) (u : Char) :
    (if n > 0 then out ++ str n ++ [u] else out) = out ++ piece (shown n) u := by
  rw [shown]
  split
  · rw [piece, Option.elim_some, List.append_assoc]
  · rw [piece, Option.elim_none, List.append_nil]

theorem piece_shown_eq_nil {n : Nat} {u : Char} : piece (shown n) u = [] ↔ n = 0 := by
  rw [shown]
  split
  · simp [piece]
    omega
  · simp [piece]
    omega

theorem toTtl_eq (n : Nat) :
    toTtl n = piece (ttlComponent n .days) 'd' ++ (piece (ttlComponent n .hours) 'h' ++
      (piece (ttlComponent n .minutes2) 'm' ++ piece (ttlComponent n .seconds2) 's')) := by
  simp only [toTtl, appended]
  rw [List.nil_append]
  have hempty : (piece (shown (n / 60 / 60 / 24)) 'd' ++ piece (shown (n / 60 / 60 % 24)) 'h' ++
      piece (shown (n / 60 % 60)) 'm' = []) ↔ n / 60 = 0 := by
    simp only [List.append_eq_nil_iff, piece_shown_eq_nil]
    omega
  simp only [ttlComponent]
  rw [shownSeconds]
  by_cases hs : 0 < n % 60 ∨ n = 0
  · rw [if_pos (by rw [hempty]; omega), if_pos hs]
    simp [piece]
  · rw [if_neg (by rw [hempty]; omega), if_neg hs]
    simp [piece]

theorem capture_apply (caps : Captures Group) (k j : Group) (o : Option Nat) :
    capture caps k o j = ((if j = k then o else none).map str).or (caps j) := by
  cases o with
  | none => simp [capture]
  | some n =>
    rw [capture, Option.elim_some, Function.update_apply]
    split <;> simp

theorem capture_ttl (n : Nat) :
    capture (capture (capture (capture (fun _ => none) .days (ttlComponent n .days)) .hours
      (ttlComponent n .hours)) .minutes2 (ttlComponent n .minutes2)) .seconds2
      (ttlComponent n .seconds2) = ttlCaptures n := by
  funext k
  simp only [capture_apply]
  cases k <;> simp [ttlCaptures, ttlComponent]

theorem toTtl_matched (n : Nat) : DURATION_RE.firstMatch (toTtl n) = some (ttlCaptures n) := by
  rw [toTtl_eq, ← capture_ttl]
  generalize ttlComponent n .days = d, ttlComponent n .hours = h, ttlComponent n .minutes2 = m,
    ttlComponent n .seconds2 = s
  have hw := isUnit_literal 'w' (by decide)
  have hd := isUnit_literal 'd' (by decide)
  have hh := isUnit_hours
  have hcolon := isUnit_literal ':' (by decide)
  have hm := isUnit_literal 'm' (by decide)
  have hs := isUnit_literal 's' (by decide)
  have seconds : ∀ {r u}, IsUnit r u → 's' ≠ u → Avoids r (piece s 's') := by
    intro r u hr hne
    rw [← List.append_nil (piece s 's')]
    exact hr.avoids s (by decide) ⟨hne, by decide⟩ (.inl rfl)
  have minutes : ∀ {r u}, IsUnit r u → 'm' ≠ u → 's' ≠ u →
      Avoids r (piece m 'm' ++ piece s 's') := fun hr hm hs =>
    hr.avoids m (by decide) ⟨hm, by decide⟩ (seconds hr hs)
  have hours : ∀ {r u}, IsUnit r u → 'h' ≠ u → 'm' ≠ u → 's' ≠ u →
      Avoids r (piece h 'h' ++ (piece m 'm' ++ piece s 's')) := fun hr hh hm hs =>
    hr.avoids h (by decide) ⟨hh, by decide⟩ (minutes hr hm hs)
  have days : Avoids (literal ['w'])
      (piece d 'd' ++ (piece h 'h' ++ (piece m 'm' ++ piece s 's'))) :=
    hw.avoids d (by decide) (by decide) (hours hw (by decide) (by decide) (by decide))
  refine First.firstMatch (?_ : DURATION_RE.First _ _ _ [])
  refine First.seq (hw.first (k := .weeks) (by decide) none days) ?_
  refine First.seq (hd.first (k := .days) (by decide) d
    (hours hd (by decide) (by decide) (by decide))) ?_
  refine First.seq (hh.first (k := .hours) (by decide) h (minutes hh (by decide) (by decide))) ?_
  refine First.seq (First.alt_right ?_ ?_) First.stop
  · exact run_seq_nil (hcolon.avoided (k := .minutes) (by decide)
      (minutes hcolon (by decide) (by decide)))
  · refine First.seq (hm.first (k := .minutes2) (by decide) m (seconds hm (by decide))) ?_
    refine First.seq (hs.last (k := .seconds2) (by decide) s) ?_
    refine First.seq (.skip (component_run_nil (by decide) _ _)) ?_
    refine First.seq (.skip (component_run_nil (by decide) _ _)) ?_
    exact .skip (component_run_nil (by decide) _ _)

theorem component_ttl (n : Nat) (k : Group) :
    component (ttlCaptures n) k = (ttlComponent n k).elim 0 fun x => (x : ℚ) * unit k := by
  rw [component, ttlCaptures]
  cases ttlComponent n k with
  | none => rfl
  | some x => simp [quantity_str]

theorem elim_shown (n : Nat) (u : ℚ) : ((shown n).elim 0 fun x => (x : ℚ) * u) = n * u := by
  rw [shown]
  split
  case isTrue => rfl
  case isFalse hzero =>
    obtain rfl : n = 0 := by omega
    simp

theorem elim_shownSeconds (n : Nat) (u : ℚ) :
    ((shownSeconds n).elim 0 fun x => (x : ℚ) * u) = (n % 60 : ℕ) * u := by
  rw [shownSeconds]
  split
  case isTrue => rfl
  case isFalse hzero =>
    have hmod : n % 60 = 0 := by omega
    simp [hmod]

theorem total_ttl (n : Nat) : total (ttlCaptures n) = n := by
  have hn : n / 60 / 60 / 24 * (24 * 60 * 60) + n / 60 / 60 % 24 * (60 * 60) +
      n / 60 % 60 * 60 + n % 60 = n := by omega
  simp only [total, order, List.map_cons, List.map_nil, List.sum_cons, List.sum_nil,
    component_ttl, ttlComponent, elim_shown, elim_shownSeconds, Option.elim_none, unit]
  calc _ = ((n / 60 / 60 / 24 * (24 * 60 * 60) + n / 60 / 60 % 24 * (60 * 60) +
        n / 60 % 60 * 60 + n % 60 : ℕ) : ℚ) := by push_cast; ring
    _ = n := by rw [hn]

theorem toTtl_ne_nil (n : Nat) : toTtl n ≠ [] := by
  intro hnil
  have hcaps := toTtl_matched n
  rw [hnil, empty_captures] at hcaps
  have hnone : ∀ k, ttlComponent n k = none := fun k => by
    have hk := congrFun (Option.some.inj hcaps) k
    rw [ttlCaptures] at hk
    exact Option.map_eq_none_iff.mp hk.symm
  have hzero : (n : ℚ) = 0 := by
    rw [← total_ttl, total]
    refine List.sum_eq_zero fun x hx => ?_
    obtain ⟨k, -, rfl⟩ := List.mem_map.mp hx
    rw [component_ttl, hnone k]
    rfl
  obtain rfl : n = 0 := by exact_mod_cast hzero
  cases hnone .seconds2

theorem toTtl_ne_never (n : Nat) : toTtl n ≠ "never".toList := by
  intro hnever
  have hcaps := toTtl_matched n
  rw [hnever, never_not_matched] at hcaps
  cases hcaps

theorem toDuration_toTtl (base : Str) (n : Nat) :
    toDuration exact base (toTtl n) = .ok [(base ++ "-ns".toList, n * 10 ^ 9)] := by
  have hint : Integral (ttlCaptures n) := by
    rintro k t (rfl | rfl | rfl) hk <;> cases hk
  have hfloor : ⌊(10 : ℚ) ^ 9 * n⌋ = (n : Int) * 10 ^ 9 := by
    have hcast : (10 : ℚ) ^ 9 * n = ((n * 10 ^ 9 : Int) : ℚ) := by
      push_cast
      ring
    rw [hcast, Int.floor_intCast]
  rw [toDuration_ok base (toTtl_ne_nil n) (toTtl_ne_never n) (toTtl_matched n) hint, total_ttl,
    hfloor]

theorem toTtl_injective : Function.Injective toTtl := by
  intro n m h
  have hboth := toDuration_toTtl [] n
  rw [h, toDuration_toTtl] at hboth
  simpa using hboth.symm

theorem toTtl_bounds (n : Nat) {k : Group} {t : Str} (hk : ttlCaptures n k = some t) :
    (k = .hours → quantity t < 24) ∧
      (k = .minutes ∨ k = .minutes2 ∨ k = .seconds ∨ k = .seconds2 → quantity t < 60) := by
  obtain ⟨x, hx, rfl⟩ := Option.map_eq_some_iff.mp hk
  rw [quantity_str]
  have hshown : ∀ {i : Nat}, shown i = some x → x = i := by
    intro i hi
    rw [shown] at hi
    split at hi
    case isTrue => exact (Option.some.inj hi).symm
    case isFalse => cases hi
  refine ⟨?_, ?_⟩
  · rintro rfl
    have := hshown hx
    exact_mod_cast (by omega : x < 24)
  · rintro (rfl | rfl | rfl | rfl)
    · cases hx
    · have := hshown hx
      exact_mod_cast (by omega : x < 60)
    · cases hx
    · have hseconds : x = n % 60 := by
        simp only [ttlComponent, shownSeconds] at hx
        split at hx
        case isTrue => exact (Option.some.inj hx).symm
        case isFalse => cases hx
      exact_mod_cast (by omega : x < 60)

theorem ttl_round_trip (base : Str) :
    (∀ n, ∃ caps, DURATION_RE.firstMatch (toTtl n) = some caps ∧
      toDuration exact base (toTtl n) = .ok [(base ++ "-ns".toList, n * 10 ^ 9)] ∧
      (∀ t, caps .hours = some t → quantity t < 24) ∧
      (∀ k, k = .minutes ∨ k = .minutes2 ∨ k = .seconds ∨ k = .seconds2 →
        ∀ t, caps k = some t → quantity t < 60)) ∧
    Function.Injective toTtl :=
  ⟨fun n => ⟨ttlCaptures n, toTtl_matched n, toDuration_toTtl base n,
    fun _ hk => (toTtl_bounds n hk).1 rfl, fun _ hk _ ht => (toTtl_bounds n ht).2 hk⟩,
    toTtl_injective⟩

end Isz.Mikrotik
