import Isz.Library.PyNumber
import Isz.Library.Regex
import Mathlib.Algebra.Order.BigOperators.Group.List

namespace Isz.Mikrotik

open PyNumber Regex

inductive Group where
  | weeks
  | days
  | hours
  | minutes
  | seconds
  | minutes2
  | seconds2
  | ms
  | us
  | ns
  deriving DecidableEq, Repr

def digits : Regex Group := many isDecimal 1 none

def fraction9 : Regex Group := seq (set (· == '.')) (many isDecimal 1 (some 9))

def body : Group → Regex Group
  | .weeks | .days | .hours | .minutes | .minutes2 => digits
  | .seconds => seq (many isDecimal 0 none) (opt fraction9)
  | .seconds2 | .ms | .us | .ns => alt digits (seq (many isDecimal 0 none) fraction9)

def suffixed (k : Group) (unit : String) : Regex Group :=
  seq (group k (body k)) (literal unit.toList)

def DURATION_RE : Regex Group :=
  seq (opt (suffixed .weeks "w")) <|
  seq (opt (suffixed .days "d")) <|
  seq (opt (seq (group .hours (body .hours)) (set fun c => c == ':' || c == 'h'))) <|
  seq (alt
    (seq (suffixed .minutes ":") (group .seconds (body .seconds)))
    (seq (opt (suffixed .minutes2 "m")) <|
      seq (opt (suffixed .seconds2 "s")) <|
      seq (opt (suffixed .ms "ms")) <|
      seq (opt (suffixed .us "us")) (opt (suffixed .ns "ns"))))
  stop

section Conversion

variable (py : Interpreter)

def convert : Group → Str → Except PyError Number
  | .weeks, v => do pure (.int ((← int py v) * 7 * 24 * 60 * 60))
  | .days, v => do pure (.int ((← int py v) * 24 * 60 * 60))
  | .hours, v => do pure (.int ((← int py v) * 60 * 60))
  | .minutes, v | .minutes2, v => do pure (.int ((← int py v) * 60))
  | .seconds, v | .seconds2, v => do pure (.float (← float py v))
  | .ms, v => do Number.mul py (.int (← int py v)) (.float (py.round (1 / 10 ^ 3)))
  | .us, v => do Number.mul py (.int (← int py v)) (.float (py.round (1 / 10 ^ 6)))
  | .ns, v => do Number.mul py (.int (← int py v)) (.float (py.round (1 / 10 ^ 9)))

def order : List Group :=
  [.weeks, .days, .hours, .minutes, .minutes2, .seconds, .seconds2, .ms, .us, .ns]

def addGroup (caps : Captures Group) (seconds : Number) (k : Group) : Except PyError Number :=
  match caps k with
  | none | some [] => .ok seconds
  | some v => do seconds.add py (← convert py k v)

def toDuration (base value : Str) : Except PyError (List (Str × Int)) :=
  if value = [] then .error .valueError
  else if value = "never".toList then .ok []
  else
    match DURATION_RE.firstMatch value with
    | none => .error .valueError
    | some caps => do
      let seconds ← order.foldlM (addGroup py caps) (.int 0)
      let nanoseconds ← seconds.mul py (.float (py.round (10 ^ 9)))
      pure [(base ++ "-ns".toList, ← nanoseconds.toInt)]

end Conversion

def unit : Group → ℚ
  | .weeks => 7 * 24 * 60 * 60
  | .days => 24 * 60 * 60
  | .hours => 60 * 60
  | .minutes | .minutes2 => 60
  | .seconds | .seconds2 => 1
  | .ms => 1 / 10 ^ 3
  | .us => 1 / 10 ^ 6
  | .ns => 1 / 10 ^ 9

def component (caps : Captures Group) (k : Group) : ℚ :=
  (caps k).elim 0 fun t => quantity t * unit k

def total (caps : Captures Group) : ℚ := (order.map (component caps)).sum

def IsTruncated (k : Group) : Prop := k = .ms ∨ k = .us ∨ k = .ns

theorem groups_body : ∀ x ∈ DURATION_RE.groups, x.2 = body x.1 := by
  simp [DURATION_RE, suffixed, groups, literal, body, digits, fraction9]

theorem accepts_body {s : Str} {caps : Captures Group}
    (hmatch : DURATION_RE.firstMatch s = some caps) {k : Group} {t : Str}
    (hk : caps k = some t) : (body k).Accepts t := by
  obtain ⟨a, ha, haccepts⟩ := firstMatch_captures hmatch hk
  obtain rfl : a = body k := groups_body (k, a) ha
  exact haccepts

theorem accepts_digits {t : Str} (h : digits.Accepts t) : t ≠ [] ∧ IsDigits t :=
  ⟨List.length_pos_iff.mp h.2.1, h.1⟩

theorem accepts_fraction9 {t : Str} (h : fraction9.Accepts t) :
    ∃ v, t = '.' :: v ∧ v ≠ [] ∧ IsDigits v := by
  obtain ⟨_, v, rfl, ⟨c, hc, rfl⟩, hdigits, hlength, -⟩ := h
  obtain rfl := beq_iff_eq.mp hc
  exact ⟨v, rfl, List.length_pos_iff.mp hlength, hdigits⟩

inductive IsNumeral : Str → Prop
  | digits {t : Str} (hne : t ≠ []) (h : IsDigits t) : IsNumeral t
  | point {u v : Str} (hu : IsDigits u) (hne : v ≠ []) (hv : IsDigits v) : IsNumeral (u ++ '.' :: v)

theorem isNumeral_of_accepts {k : Group} {t : Str} (h : (body k).Accepts t) (hne : t ≠ []) :
    IsNumeral t := by
  have hseconds : (body .seconds).Accepts t → IsNumeral t := by
    rintro ⟨u, v, rfl, ⟨hu, -, -⟩, hv | rfl⟩
    · obtain ⟨v, rfl, hv, hdigits⟩ := accepts_fraction9 hv
      exact .point hu hv hdigits
    · rw [List.append_nil] at hne ⊢
      exact .digits hne hu
  have hfraction : (body .ms).Accepts t → IsNumeral t := by
    rintro (hdigits | ⟨u, v, rfl, ⟨hu, -, -⟩, hv⟩)
    · exact .digits hne (accepts_digits hdigits).2
    · obtain ⟨v, rfl, hv, hdigits⟩ := accepts_fraction9 hv
      exact .point hu hv hdigits
  cases k
  case seconds => exact hseconds h
  case seconds2 | ms | us | ns => exact hfraction h
  all_goals exact .digits hne (accepts_digits h).2

theorem IsNumeral.float {t : Str} (h : IsNumeral t) :
    float exact t = .ok (.finite (quantity t)) := by
  cases h with
  | digits hne h => exact float_digits hne h
  | point hu hne hv => exact float_point (by simpa using fun _ => hne) hu hv

theorem IsNumeral.int {t : Str} (h : IsNumeral t) :
    ('.' ∉ t ∧ ∃ x : Int, int exact t = .ok x ∧ (x : ℚ) = quantity t) ∨
      '.' ∈ t ∧ int exact t = .error .valueError := by
  cases h with
  | digits hne h =>
    refine .inl ⟨digits_no_dot h, _, int_digits hne h, ?_⟩
    rw [quantity_digits h, Int.cast_natCast]
  | point hu hne hv => exact .inr ⟨by simp, int_point hu hv⟩

theorem int_accepts {k : Group} {t : Str} (h : (body k).Accepts t) (hne : t ≠ [])
    (hdot : '.' ∉ t) : ∃ x : Int, int exact t = .ok x ∧ (x : ℚ) = quantity t := by
  rcases (isNumeral_of_accepts h hne).int with ⟨-, hint⟩ | ⟨hmem, -⟩
  · exact hint
  · exact absurd hmem hdot

theorem convert_ok {k : Group} {t : Str} (h : (body k).Accepts t) (hne : t ≠ [])
    (hdot : IsTruncated k → '.' ∉ t) :
    ∃ n, convert exact k t = .ok n ∧ Denotes n (quantity t * unit k) := by
  have hwhole : ∀ m : Int, unit k = m → digits.Accepts t →
      ∃ x : Int, int exact t = .ok x ∧ Denotes (.int (x * m)) (quantity t * unit k) := by
    intro m hm hdigits
    obtain ⟨x, hx, hq⟩ := int_accepts h hne (digits_no_dot (accepts_digits hdigits).2)
    refine ⟨x, hx, ?_⟩
    rw [hm, ← hq]
    exact_mod_cast Denotes.int (x * m)
  have hscaled : IsTruncated k → ∃ n, (do
      Number.mul exact (.int (← int exact t)) (.float (exact.round (unit k)))) = .ok n ∧
        Denotes n (quantity t * unit k) := by
    intro hk
    obtain ⟨x, hx, hq⟩ := int_accepts h hne (hdot hk)
    rw [hx, ← hq]
    exact (Denotes.int x).mul (.float (unit k))
  have hfloat : unit k = 1 → ∃ n, (do pure (Number.float (← float exact t))) = Except.ok n ∧
      Denotes n (quantity t * unit k) := by
    intro hunit
    rw [(isNumeral_of_accepts h hne).float, hunit, mul_one]
    exact ⟨_, rfl, .float _⟩
  cases k
  case weeks =>
    obtain ⟨x, hx, hd⟩ := hwhole (7 * 24 * 60 * 60) (by norm_num [unit]) h
    refine ⟨.int (x * 7 * 24 * 60 * 60), by rw [convert, hx]; rfl, ?_⟩
    rwa [mul_assoc, mul_assoc, mul_assoc]
  case days =>
    obtain ⟨x, hx, hd⟩ := hwhole (24 * 60 * 60) (by norm_num [unit]) h
    refine ⟨.int (x * 24 * 60 * 60), by rw [convert, hx]; rfl, ?_⟩
    rwa [mul_assoc, mul_assoc]
  case hours =>
    obtain ⟨x, hx, hd⟩ := hwhole (60 * 60) (by norm_num [unit]) h
    refine ⟨.int (x * 60 * 60), by rw [convert, hx]; rfl, ?_⟩
    rwa [mul_assoc]
  case minutes | minutes2 =>
    obtain ⟨x, hx, hd⟩ := hwhole 60 (by norm_num [unit]) h
    exact ⟨.int (x * 60), by rw [convert, hx]; rfl, hd⟩
  case seconds | seconds2 => exact hfloat rfl
  case ms => exact hscaled (.inl rfl)
  case us => exact hscaled (.inr (.inl rfl))
  case ns => exact hscaled (.inr (.inr rfl))

theorem convert_point {k : Group} {t : Str} (hk : IsTruncated k) (h : (body k).Accepts t)
    (hdot : '.' ∈ t) : convert exact k t = .error .valueError := by
  have hint : int exact t = .error .valueError := by
    rcases (isNumeral_of_accepts h (List.ne_nil_of_mem hdot)).int with ⟨hmem, -⟩ | ⟨-, hint⟩
    · exact absurd hdot hmem
    · exact hint
  obtain rfl | rfl | rfl := hk <;> rw [convert, hint] <;> rfl

theorem addGroup_ok {caps : Captures Group} {k : Group} {n : Number} {q : ℚ} (hn : Denotes n q)
    (h : ∀ t, caps k = some t → (body k).Accepts t ∧ (IsTruncated k → '.' ∉ t)) :
    ∃ n', addGroup exact caps n k = .ok n' ∧ Denotes n' (q + component caps k) := by
  rw [addGroup, component]
  match hk : caps k with
  | none => exact ⟨n, rfl, by simpa using hn⟩
  | some [] => exact ⟨n, rfl, by simpa [quantity, whole, fraction, numeral] using hn⟩
  | some (c :: t) =>
    obtain ⟨haccepts, hdot⟩ := h (c :: t) hk
    obtain ⟨m, hm, hdenotes⟩ := convert_ok haccepts (List.cons_ne_nil c t) hdot
    dsimp only
    rw [hm]
    exact hn.add hdenotes

theorem addGroups_ok {caps : Captures Group} {l : List Group} {n : Number} {q : ℚ}
    (hn : Denotes n q)
    (h : ∀ k ∈ l, ∀ t, caps k = some t → (body k).Accepts t ∧ (IsTruncated k → '.' ∉ t)) :
    ∃ n', l.foldlM (addGroup exact caps) n = .ok n' ∧
      Denotes n' (q + (l.map (component caps)).sum) := by
  induction l generalizing n q with
  | nil => exact ⟨n, rfl, by simpa using hn⟩
  | cons k l ih =>
    obtain ⟨n₁, hstep, hn₁⟩ := addGroup_ok hn (h k List.mem_cons_self)
    obtain ⟨n₂, hrest, hn₂⟩ := ih hn₁ fun k' hk' => h k' (List.mem_cons_of_mem k hk')
    refine ⟨n₂, ?_, ?_⟩
    · rw [List.foldlM_cons, hstep, Except.ok_bind, hrest]
    · rwa [List.map_cons, List.sum_cons, ← add_assoc]

theorem total_nonneg (caps : Captures Group) : 0 ≤ total caps := by
  refine List.sum_nonneg fun x hx => ?_
  obtain ⟨k, -, rfl⟩ := List.mem_map.mp hx
  rw [component]
  cases caps k with
  | none => exact le_rfl
  | some t =>
    have hunit : 0 ≤ unit k := by cases k <;> norm_num [unit]
    exact mul_nonneg (by rw [quantity]; positivity) hunit

def Integral (caps : Captures Group) : Prop :=
  ∀ k t, IsTruncated k → caps k = some t → '.' ∉ t

theorem toDuration_ok (base : Str) {s : Str} (hempty : s ≠ []) (hnever : s ≠ "never".toList)
    {caps : Captures Group} (hmatch : DURATION_RE.firstMatch s = some caps)
    (hint : Integral caps) :
    toDuration exact base s = .ok [(base ++ "-ns".toList, ⌊10 ^ 9 * total caps⌋)] := by
  obtain ⟨n, hsum, hn⟩ := addGroups_ok (.int 0) fun k (_ : k ∈ order) t hk =>
    ⟨accepts_body hmatch hk, fun htruncated => hint k t htruncated hk⟩
  obtain ⟨m, hmul, hm⟩ := hn.mul (.float (10 ^ 9))
  rw [Int.cast_zero, zero_add, mul_comm] at hm
  have hfloor := hm.toInt (mul_nonneg (by norm_num) (total_nonneg caps))
  rw [toDuration, if_neg hempty, if_neg hnever, hmatch]
  dsimp only
  rw [hsum, Except.ok_bind]
  change n.mul exact (.float (exact.round (10 ^ 9))) >>= _ = _
  rw [show exact.round (10 ^ 9) = .finite (10 ^ 9) from rfl, hmul, Except.ok_bind, hfloor]
  rfl

theorem never_not_matched : DURATION_RE.firstMatch "never".toList = none := by
  rw [firstMatch, show DURATION_RE.run (fun _ => none) "never".toList = [] from rfl]
  rfl

theorem empty_captures : DURATION_RE.firstMatch [] = some fun _ => none := rfl

theorem integral_of_toDuration {base s : Str} (hempty : s ≠ []) {caps : Captures Group}
    (hmatch : DURATION_RE.firstMatch s = some caps) {r : List (Str × Int)}
    (h : toDuration exact base s = .ok r) : Integral caps := by
  intro k t hk hcaps hdot
  have hnever : s ≠ "never".toList := by
    rintro rfl
    rw [never_not_matched] at hmatch
    cases hmatch
  rw [toDuration, if_neg hempty, if_neg hnever, hmatch] at h
  obtain ⟨n, hsum, -⟩ := Except.bind_eq_ok.mp h
  have hmem : k ∈ order := by obtain rfl | rfl | rfl := hk <;> decide
  obtain ⟨n₁, n₂, hstep⟩ := Except.exists_step_of_foldlM hsum hmem
  obtain ⟨c, t, rfl⟩ := List.exists_cons_of_ne_nil (List.ne_nil_of_mem hdot)
  rw [addGroup, hcaps] at hstep
  dsimp only at hstep
  rw [convert_point hk (accepts_body hmatch hcaps) hdot] at hstep
  cases hstep

structure Exact (base s : Str) : Prop where
  rejects : toDuration exact base s = .error .valueError ↔
    s = [] ∨ s ≠ "never".toList ∧ DURATION_RE.firstMatch s = none
  returns : ∀ caps, s ≠ [] → DURATION_RE.firstMatch s = some caps →
    toDuration exact base s = .ok [(base ++ "-ns".toList, ⌊10 ^ 9 * total caps⌋)]

theorem toDuration_exact_iff (base s : Str) :
    Exact base s ↔ ∀ caps, DURATION_RE.firstMatch s = some caps → Integral caps := by
  rcases eq_or_ne s [] with rfl | hempty
  · refine iff_of_true ⟨iff_of_true rfl (.inl rfl), fun _ hne => absurd rfl hne⟩
      fun caps hmatch => ?_
    obtain rfl := Option.some.inj (empty_captures.symm.trans hmatch)
    exact fun k t _ hnone => by cases hnone
  constructor
  · exact fun h caps hmatch => integral_of_toDuration hempty hmatch (h.returns caps hempty hmatch)
  · intro hint
    rcases eq_or_ne s "never".toList with rfl | hnever
    · refine ⟨?_, fun caps _ hmatch => ?_⟩
      · have hok : toDuration exact base "never".toList = .ok [] := rfl
        rw [hok]
        simp
      · rw [never_not_matched] at hmatch
        cases hmatch
    cases hmatch : DURATION_RE.firstMatch s with
    | none =>
      refine ⟨iff_of_true ?_ (.inr ⟨hnever, hmatch⟩), fun caps _ hsome => ?_⟩
      · rw [toDuration, if_neg hempty, if_neg hnever, hmatch]
      · rw [hmatch] at hsome
        cases hsome
    | some caps =>
      have hok := toDuration_ok base hempty hnever hmatch (hint caps hmatch)
      refine ⟨?_, fun caps' _ hsome => ?_⟩
      · rw [hok, hmatch]
        simp [hempty]
      · obtain rfl := Option.some.inj (hmatch.symm.trans hsome)
        exact hok

theorem fraction_of_ms_not_exact : ¬Exact "uptime".toList "1.5ms".toList := by
  intro h
  have herror : toDuration exact "uptime".toList "1.5ms".toList = .error .valueError := by rfl
  obtain hnil | ⟨-, hnone⟩ := h.rejects.mp herror
  · cases hnil
  · cases hnone

end Isz.Mikrotik
