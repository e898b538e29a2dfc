import Isz.Climate.Settling

namespace Isz.Climate

variable {IR : Type}

def advance (c : Component IR) (conv : Conversions) (l : Limits) (settling : Int)
    (s : ClimateIRPower IR) : Event → ClimateIRPower IR
  | .control now call => c.control conv l now call s
  | .power now reading => c.onPower settling now reading s

def Degrees (tempf : ℚ) : Prop := 1 ≤ tempf ∧ tempf ≤ 127

instance (tempf : ℚ) : Decidable (Degrees tempf) := inferInstanceAs (Decidable (_ ∧ _))

def InDegrees (conv : Conversions) : Event → Prop
  | .control _ call => ∀ temp ∈ call.targetTemperature, Degrees (conv.celsiusToFahrenheit temp)
  | .power _ _ => True

def Conversions.Undo (conv : Conversions) : Prop := ∀ n : Int, 0 ≤ n → n ≤ 127 →
  |conv.celsiusToFahrenheit (conv.fahrenheitToCelsius n) - n| < 1

structure Unsent (conv : Conversions) (s : ClimateIRPower IR) : Prop where
  unknown : s.targetTemperatureF = 0
  sent : s.sent = []
  degrees : Degrees (conv.celsiusToFahrenheit s.targetTemperature)

def Limits.Contains (l : Limits) (tempf : Int) : Prop := l.tempfMin ≤ tempf ∧ tempf ≤ l.tempfMax

instance (l : Limits) (tempf : Int) : Decidable (l.Contains tempf) :=
  inferInstanceAs (Decidable (_ ∧ _))

structure Physical (c : Component IR) (l : Limits) (s : ClimateIRPower IR) : Prop where
  counts : ∀ e ∈ s.sent, ¬Quiet c e.1 → (e.2 : Int) ≤ l.tempfMax - l.tempfMin
  tracked : s.targetTemperatureF = 0 ∨ l.Contains s.targetTemperatureF

def target (conv : Conversions) (call : ClimateCall) (s : ClimateIRPower IR) : ℚ :=
  match call.targetTemperature with
  | some temp => conv.fahrenheitToCelsius (truncate (conv.celsiusToFahrenheit temp))
  | none => s.targetTemperature

def wanted (conv : Conversions) (call : ClimateCall) (s : ClimateIRPower IR) : Int :=
  truncate (conv.celsiusToFahrenheit (target conv call s))

def Fits (conv : Conversions) (l : Limits) (s : ClimateIRPower IR) : Event → Prop
  | .control _ call => (requestedMode call s).1 = .cool → l.Contains (wanted conv call s) ∨
      wanted conv call s = 0 ∧ (s.mode = .off ∨ s.targetTemperatureF = 0)
  | .power _ _ => True

def AllFit (c : Component IR) (conv : Conversions) (l : Limits) (settling : Int) :
    ClimateIRPower IR → List Event → Prop :=
  Runs.Each (advance c conv l settling) (Fits conv l)

def StaysPhysical (c : Component IR) (conv : Conversions) (l : Limits) (settling : Int)
    (first : ClimateIRPower IR) (events : List Event) : Prop :=
  ∀ s ∈ events.scanl (advance c conv l settling) first, Physical c l s

def FitsInt8 (conv : Conversions) (celsius : ℚ) : Prop :=
  0 ≤ truncate (conv.celsiusToFahrenheit celsius) ∧
    truncate (conv.celsiusToFahrenheit celsius) ≤ 127

structure Sound (c : Component IR) (conv : Conversions) (l : Limits) (s : ClimateIRPower IR) :
    Prop where
  physical : Physical c l s
  degrees : FitsInt8 conv s.targetTemperature

theorem truncate_degrees {tempf : ℚ} (h : Degrees tempf) :
    1 ≤ truncate tempf ∧ truncate tempf ≤ 127 := by
  have hpos : (0 : ℚ) ≤ tempf := by linarith [h.1]
  rw [truncate, if_pos hpos]
  exact ⟨Int.le_floor.mpr (by exact_mod_cast h.1), by
    exact_mod_cast (Int.floor_le tempf).trans h.2⟩

theorem truncate_near {tempf : ℚ} (hlow : -1 < tempf) (hup : tempf < 128) :
    0 ≤ truncate tempf ∧ truncate tempf ≤ 127 := by
  rw [truncate]
  split
  case isTrue hpos =>
    have hfloor : ⌊tempf⌋ < 128 := Int.floor_lt.mpr (by exact_mod_cast hup)
    exact ⟨Int.floor_nonneg.mpr hpos, by omega⟩
  case isFalse hneg =>
    have hceil : ⌈tempf⌉ ≤ 0 := Int.ceil_le.mpr (by exact_mod_cast (not_le.mp hneg).le)
    have hzero : -1 < ⌈tempf⌉ := Int.lt_ceil.mpr (by exact_mod_cast hlow)
    omega

theorem Conversions.Undo.fitsInt8 {conv : Conversions} (h : conv.Undo) {n : Int}
    (hn : 0 ≤ n ∧ n ≤ 127) : FitsInt8 conv (conv.fahrenheitToCelsius n) := by
  obtain ⟨hbelow, habove⟩ := abs_lt.mp (h n hn.1 hn.2)
  have hlow : (0 : ℚ) ≤ n := by exact_mod_cast hn.1
  have hup : (n : ℚ) ≤ 127 := by exact_mod_cast hn.2
  exact truncate_near (by linarith) (by linarith)

theorem Unsent.sound {c : Component IR} {conv : Conversions} {l : Limits} {s : ClimateIRPower IR}
    (h : Unsent conv s) : Sound c conv l s := by
  obtain ⟨hlow, hup⟩ := truncate_degrees h.degrees
  refine ⟨⟨?_, .inl h.unknown⟩, zero_le_one.trans hlow, hup⟩
  rw [h.sent]
  exact List.forall_mem_nil _

section Counts

variable {c : Component IR} {l : Limits} {s s' : ClimateIRPower IR}

theorem Keeps.physical (h : Keeps c s s') (hs : Physical c l s) : Physical c l s' := by
  obtain ⟨more, hsent, hquiet⟩ := h.sent
  refine ⟨fun e he hloud => ?_, ?_⟩
  · rw [hsent] at he
    obtain hold | hnew := List.mem_append.mp he
    · exact hs.counts e hold hloud
    · exact absurd (hquiet e hnew) hloud
  · obtain heq | hzero := h.tracked
    · rw [heq]
      exact hs.tracked
    · exact .inl hzero

theorem sendIr_counts {cmd : IR} {count : Int}
    (hs : ∀ e ∈ s.sent, ¬Quiet c e.1 → (e.2 : Int) ≤ l.tempfMax - l.tempfMin)
    (hcount : 0 ≤ count ∧ count ≤ l.tempfMax - l.tempfMin) :
    ∀ e ∈ (s.sendIr cmd count).sent, ¬Quiet c e.1 → (e.2 : Int) ≤ l.tempfMax - l.tempfMin := by
  intro e he hloud
  have hl := l.pos
  have hlt := l.lt
  obtain hold | hnew := List.mem_append.mp he
  · exact hs e hold hloud
  · obtain rfl := List.mem_singleton.mp hnew
    simp only [uint8]
    omega

theorem sendSteps_counts {n : Int} (hs : Physical c l s) (hn : l.Contains n) :
    ∀ e ∈ (sendSteps l c.tempUp c.tempDown n s).sent,
      ¬Quiet c e.1 → (e.2 : Int) ≤ l.tempfMax - l.tempfMin := by
  have hl := l.pos
  have hlt := l.lt
  obtain ⟨hmin, hmax⟩ := hn
  obtain ⟨hcounts, htracked⟩ := hs
  rw [Limits.Contains] at htracked
  simp only [sendSteps]
  split_ifs with hpos hmore hless hcooling
  · rw [int32_uint32 (by omega)] at hmore ⊢
    exact sendIr_counts hcounts (by omega)
  · rw [int32_uint32 (by omega)] at hless ⊢
    exact sendIr_counts hcounts (by omega)
  · exact hcounts
  · exact sendIr_counts (sendIr_counts hcounts (by omega)) (by omega)
  · exact sendIr_counts (sendIr_counts hcounts (by omega)) (by omega)

end Counts

structure Obeys (c : Component IR) : Prop where
  mode : ∀ call s, (c.changeMode call s).mode = (requestedMode call s).1
  tracked : ∀ call s, (requestedMode call s).1 = .cool →
    (c.changeMode call s).targetTemperatureF = if s.mode = .off then 0 else s.targetTemperatureF
  sent : ∀ settling now power s, (c.onPower settling now power s).sent = s.sent

theorem frigidaire_obeys : Obeys frigidaire where
  mode call s := by
    simp only [frigidaire, Frigidaire.changeMode]
    split
    case isTrue => rfl
    case isFalse hsame =>
      rw [not_or, not_not] at hsame
      exact hsame.1.symm
  tracked call s hcool := by
    simp only [frigidaire, Frigidaire.changeMode, hcool, Frigidaire.sendMode, Frigidaire.wake]
    split
    case isTrue => split_ifs <;> rfl
    case isFalse hsame =>
      rw [not_or, not_not, not_not] at hsame
      rw [← hsame.1, if_neg (by decide)]
  sent settling now power s := by
    simp only [frigidaire, Frigidaire.onPower]
    split_ifs <;> rfl

theorem kenmore_obeys : Obeys kenmore where
  mode call s := by
    simp only [kenmore, Kenmore.changeMode]
    split
    case isTrue => rfl
    case isFalse hsame =>
      rw [not_or, not_not] at hsame
      exact hsame.1.symm
  tracked call s hcool := by
    simp only [kenmore, Kenmore.changeMode, hcool, Kenmore.sendMode, Kenmore.wake]
    split
    case isTrue => split_ifs <;> rfl
    case isFalse hsame =>
      rw [not_or, not_not, not_not] at hsame
      rw [← hsame.1, if_neg (by decide)]
  sent settling now power s := by
    simp only [kenmore, Kenmore.onPower]
    split_ifs <;> rfl

section Step

variable {c : Component IR} {conv : Conversions} {l : Limits} {settling : Int}
  {s : ClimateIRPower IR}

theorem requestTemperature_sound (hconv : conv.Undo) (hs : Sound c conv l s) {now : Int}
    {call : ClimateCall} (he : InDegrees conv (.control now call)) {s' : ClimateIRPower IR}
    (hkeeps : Keeps c s s') :
    Sound c conv l (requestTemperature conv call s') ∧
      (requestTemperature conv call s').targetTemperature = target conv call s := by
  have hphysical := hkeeps.physical hs.physical
  rw [requestTemperature, target]
  cases htemp : call.targetTemperature with
  | none => exact ⟨⟨hphysical, by rw [hkeeps.target]; exact hs.degrees⟩, hkeeps.target⟩
  | some temp =>
    have hwhole := truncate_degrees (he temp htemp)
    have hbyte : uint8 (truncate (conv.celsiusToFahrenheit temp)) =
        truncate (conv.celsiusToFahrenheit temp) := Int.emod_eq_of_lt (by omega) (by omega)
    simp only [hbyte, and_true]
    exact ⟨⟨hphysical.counts, hphysical.tracked⟩, hconv.fitsInt8 (by omega)⟩

theorem sendSteps_zero (hl : l.tempfMax < 2 * l.tempfMin)
    (htracked : l.Contains s.targetTemperatureF) :
    ¬∀ e ∈ (sendSteps l c.tempUp c.tempDown 0 s).sent,
      ¬Quiet c e.1 → (e.2 : Int) ≤ l.tempfMax - l.tempfMin := by
  intro hcounts
  have hpos := l.pos
  have hlt := l.lt
  obtain ⟨hmin, hmax⟩ := htracked
  have hdelta := int32_uint32 (n := 0 - s.targetTemperatureF) (by omega)
  rw [sendSteps, if_pos (by omega)] at hcounts
  simp only [hdelta] at hcounts
  rw [if_neg (by omega), if_pos (by omega)] at hcounts
  have hcount := hcounts _ (List.mem_append_right _ (List.mem_singleton_self _))
    fun hquiet => hquiet.2 rfl
  simp only [uint8] at hcount
  omega

theorem sendTemperature_physical_iff (hconv : conv.Undo) (hl : l.tempfMax < 2 * l.tempfMin)
    {n : Int} (hs : Sound c conv l s)
    (htarget : truncate (conv.celsiusToFahrenheit s.targetTemperature) = n) :
    (Physical c l (sendTemperature conv l c.tempUp c.tempDown s) ↔
      (s.mode = .cool → l.Contains n ∨ n = 0 ∧ s.targetTemperatureF = 0)) ∧
    FitsInt8 conv (sendTemperature conv l c.tempUp c.tempDown s).targetTemperature := by
  have hn : 0 ≤ n ∧ n ≤ 127 := htarget ▸ hs.degrees
  have hint : int8 n = n := int8_eq (by omega)
  have huint : uint32 n = n := by
    rw [uint32]
    omega
  simp only [sendTemperature, htarget, hint, huint]
  split
  case isTrue hsend =>
    refine ⟨⟨fun h _ => ?_, fun h => ?_⟩, hconv.fitsInt8 hn⟩
    · obtain hzero | hin := h.tracked
      · have hzero : n = 0 := hzero
        subst hzero
        obtain hnone | htracked := hs.physical.tracked
        · exact absurd hnone.symm hsend.2
        · exact absurd h.counts (sendSteps_zero hl htracked)
      · exact .inl hin
    · obtain hin | ⟨hzero, hnone⟩ := h hsend.1
      · exact ⟨sendSteps_counts hs.physical hin, .inr hin⟩
      · exact absurd (hzero.trans hnone.symm) hsend.2
  case isFalse hskip =>
    refine ⟨⟨fun _ hmode => ?_, fun _ => hs.physical⟩, hs.degrees⟩
    have htracked : n = s.targetTemperatureF := by
      by_contra hne
      exact hskip ⟨hmode, hne⟩
    obtain hzero | hin := hs.physical.tracked
    · exact .inr ⟨htracked.trans hzero, hzero⟩
    · exact .inl (htracked ▸ hin)

theorem requestTemperature_mode (conv : Conversions) (call : ClimateCall) (s : ClimateIRPower IR) :
    (requestTemperature conv call s).mode = s.mode ∧
      (requestTemperature conv call s).targetTemperatureF = s.targetTemperatureF := by
  rw [requestTemperature]
  split <;> exact ⟨rfl, rfl⟩

theorem Keeps.physical_iff {s' : ClimateIRPower IR} (h : Keeps c s s')
    (htracked : s'.targetTemperatureF = s.targetTemperatureF) :
    Physical c l s' ↔ Physical c l s := by
  refine ⟨fun hs => ⟨fun e he => hs.counts e ?_, htracked ▸ hs.tracked⟩, h.physical⟩
  obtain ⟨more, hsent, -⟩ := h.sent
  rw [hsent]
  exact List.mem_append_left more he

theorem control_physical_iff (hc : Lawful c) (hobeys : Obeys c) (hconv : conv.Undo)
    (hl : l.tempfMax < 2 * l.tempfMin) (hs : Sound c conv l s) {now : Int} {call : ClimateCall}
    (he : InDegrees conv (.control now call)) :
    (Physical c l (c.control conv l now call s) ↔ Fits conv l s (.control now call)) ∧
      FitsInt8 conv (c.control conv l now call s).targetTemperature := by
  set begun : ClimateIRPower IR := { s with changed := false, sent := [] } with hbegun
  have hbegin : Sound c conv l begun :=
    ⟨⟨List.forall_mem_nil _, hs.physical.tracked⟩, hs.degrees⟩
  obtain ⟨hrequested, htarget⟩ :=
    requestTemperature_sound hconv hbegin he (hc.changeMode call begun)
  obtain ⟨hphysical, hdegrees⟩ :=
    sendTemperature_physical_iff hconv hl hrequested (congrArg _ (congrArg _ htarget))
  obtain ⟨hmode, htracked⟩ := requestTemperature_mode conv call (c.changeMode call begun)
  obtain ⟨hkeeps, -, hkept⟩ := hc.changeFan call (sendTemperature conv l c.tempUp c.tempDown
    (requestTemperature conv call (c.changeMode call begun)))
  obtain ⟨time, hcontrol⟩ := control_eq (c := c) (l := l) conv now call s
  rw [hcontrol]
  refine ⟨?_, hkeeps.target ▸ hdegrees⟩
  rw [hmode, hobeys.mode, htracked] at hphysical
  have hfits : Fits conv l s (.control now call) ↔ ((requestedMode call begun).1 = .cool →
      l.Contains (wanted conv call begun) ∨
        wanted conv call begun = 0 ∧ (c.changeMode call begun).targetTemperatureF = 0) := by
    refine imp_congr_right fun hcool => ?_
    rw [hobeys.tracked call begun hcool, ite_eq_left_iff]
    exact or_congr_right (and_congr_right fun _ => or_iff_not_imp_left)
  refine Iff.trans (Iff.trans ⟨fun h => ?_, fun h => ?_⟩ hphysical) hfits.symm
  · exact (hkeeps.physical_iff hkept).mp ⟨h.counts, h.tracked⟩
  · exact ⟨(hkeeps.physical h).counts, (hkeeps.physical h).tracked⟩

theorem advance_physical_iff (hc : Lawful c) (hobeys : Obeys c) (hconv : conv.Undo)
    (hl : l.tempfMax < 2 * l.tempfMin) (hs : Sound c conv l s) {e : Event}
    (he : InDegrees conv e) :
    (Physical c l (advance c conv l settling s e) ↔ Fits conv l s e) ∧
      FitsInt8 conv (advance c conv l settling s e).targetTemperature := by
  cases e with
  | control now call => exact control_physical_iff hc hobeys hconv hl hs he
  | power now reading =>
    obtain ⟨htarget, htracked⟩ := hc.onPower settling now reading s
    have hsent := hobeys.sent settling now reading s
    refine ⟨⟨fun _ => trivial, fun _ => ⟨?_, ?_⟩⟩, ?_⟩
    · rw [advance, hsent]
      exact hs.physical.counts
    · rw [advance, htracked]
      exact hs.physical.tracked
    · rw [advance, htarget]
      exact hs.degrees

theorem staysPhysical_iff (hc : Lawful c) (hobeys : Obeys c) (hconv : conv.Undo)
    (hl : l.tempfMax < 2 * l.tempfMin) (hs : Sound c conv l s) {events : List Event}
    (hevents : ∀ e ∈ events, InDegrees conv e) :
    StaysPhysical c conv l settling s events ↔ AllFit c conv l settling s events := by
  refine Runs.forall_scanl_iff_each (fun s hs => Sound.physical hs) (fun s hs e he => ?_) hs
  obtain ⟨hphysical, hdegrees⟩ :=
    advance_physical_iff hc hobeys hconv hl hs (hevents e he)
  exact ⟨hphysical, fun h => ⟨h, hdegrees⟩⟩

end Step

theorem steps_physical_iff {conv : Conversions} (hconv : conv.Undo) (settling : Int)
    {events : List Event} (hevents : ∀ e ∈ events, InDegrees conv e) :
    (∀ first, Unsent conv first →
      (StaysPhysical frigidaire conv frigidaireLimits settling first events ↔
        AllFit frigidaire conv frigidaireLimits settling first events)) ∧
    (∀ first, Unsent conv first →
      (StaysPhysical kenmore conv kenmoreLimits settling first events ↔
        AllFit kenmore conv kenmoreLimits settling first events)) :=
  ⟨fun _ hfirst => staysPhysical_iff frigidaire_lawful frigidaire_obeys hconv (by decide)
      hfirst.sound hevents,
    fun _ hfirst => staysPhysical_iff kenmore_lawful kenmore_obeys hconv (by decide)
      hfirst.sound hevents⟩

def roundEven (x : ℚ) : Int :=
  if 2 * (x - ⌊x⌋) < 1 ∨ 2 * (x - ⌊x⌋) = 1 ∧ ⌊x⌋ % 2 = 0 then ⌊x⌋ else ⌊x⌋ + 1

-- the nearest number of 24 binary digits, as a float without subnormals and overflow
def binary32 (x : ℚ) : ℚ :=
  let exponent : Int := (Nat.log2 x.num.natAbs : Int) - Nat.log2 x.den
  let unit : ℚ := if |x| < 2 ^ exponent then 2 ^ (exponent - 24) else 2 ^ (exponent - 23)
  roundEven (x / unit) * unit

def floats : Conversions where
  celsiusToFahrenheit celsius := binary32 (binary32 (celsius * binary32 (9 / 5)) + 32)
  fahrenheitToCelsius fahrenheit := binary32 (binary32 (fahrenheit - 32) / binary32 (9 / 5))

theorem floats_undo : floats.Undo := by
  have hall : ∀ n : Fin 128, |floats.celsiusToFahrenheit (floats.fahrenheitToCelsius
      ((n : Nat) : Int)) - ((n : Nat) : Int)| < 1 := by decide +kernel
  intro n hlow hup
  have hn := hall ⟨n.toNat, by omega⟩
  rwa [Int.toNat_of_nonneg hlow] at hn

def unsent (IR : Type) : ClimateIRPower IR :=
  ⟨.off, .none, none, .off, floats.fahrenheitToCelsius 75, 0, 0, false, []⟩

theorem unsent_unsent (IR : Type) : Unsent floats (unsent IR) := by
  have hdegrees : Degrees (floats.celsiusToFahrenheit (floats.fahrenheitToCelsius 75)) := by
    decide +kernel
  exact ⟨rfl, rfl, hdegrees⟩

def warmCall : ClimateCall := ⟨some .cool, none, some (16019911 / 524288), none⟩

theorem steps_physical_iff_warm :
    StaysPhysical frigidaire floats frigidaireLimits 30000 (unsent _)
        [.control 0 warmCall, .power 9 (some 300)] ∧
      ¬StaysPhysical kenmore floats kenmoreLimits 30000 (unsent _)
        [.control 0 warmCall, .power 9 (some 300)] := by
  have hevents : ∀ e ∈ [Event.control 0 warmCall, .power 9 (some 300)], InDegrees floats e := by
    rw [List.forall_mem_cons, List.forall_mem_singleton]
    refine ⟨fun temp htemp => ?_, trivial⟩
    obtain rfl := Option.mem_some_iff.mp htemp
    decide +kernel
  have hwanted : ∀ IR : Type, wanted floats warmCall (unsent IR) = 87 := by
    intro IR
    exact (by decide +kernel : truncate (floats.celsiusToFahrenheit (floats.fahrenheitToCelsius
      (truncate (floats.celsiusToFahrenheit (16019911 / 524288))))) = 87)
  obtain ⟨hfrigidaire, hkenmore⟩ := steps_physical_iff floats_undo 30000 hevents
  refine ⟨(hfrigidaire _ (unsent_unsent _)).mpr ⟨fun _ => .inl ?_, trivial, trivial⟩, fun h => ?_⟩
  · rw [hwanted]
    decide
  · obtain ⟨hfits, -⟩ := (hkenmore _ (unsent_unsent _)).mp h
    obtain hin | ⟨hzero, -⟩ := hfits rfl
    · rw [hwanted] at hin
      exact absurd hin (by decide)
    · rw [hwanted] at hzero
      exact absurd hzero (by decide)

def hotCall : ClimateCall := ⟨some .cool, none, some (floats.fahrenheitToCelsius 127), none⟩

theorem hotCall_wraps :
    Unsent floats (unsent Frigidaire.IR) ∧ InDegrees floats (.control 0 hotCall) ∧
      (frigidaire.control floats frigidaireLimits 0 hotCall (unsent _)).sent =
        [(.power, 1), (.modeCool, 1), (.tempUp, 30), (.tempDown, 219)] ∧
      (frigidaire.control floats frigidaireLimits 0 hotCall (unsent _)).targetTemperatureF = 127 ∧
      ¬StaysPhysical frigidaire floats frigidaireLimits 30000 (unsent _) [.control 0 hotCall] := by
  have htracked : (frigidaire.control floats frigidaireLimits 0 hotCall
      (unsent _)).targetTemperatureF = 127 := by
    decide +kernel
  refine ⟨unsent_unsent _, ?_, by decide +kernel, htracked, fun h => ?_⟩
  · intro temp htemp
    obtain rfl := Option.mem_some_iff.mp htemp
    decide +kernel
  · have hphysical := h (frigidaire.control floats frigidaireLimits 0 hotCall (unsent _))
      (by simp [advance])
    have := hphysical.tracked
    rw [htracked] at this
    exact absurd this (by decide)

end Isz.Climate
