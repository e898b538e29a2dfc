import Isz.Climate.Setpoint

namespace Isz.Climate

-- the uptime in ms as millis() returns it
def millis (t : Nat) : Int := uint32 t

inductive Since {IR : Type} (c : Component IR) (conv : Conversions) (l : Limits) (settling : Int)
    (t0 : Nat) : ClimateIRPower IR → Prop
  | change (call : ClimateCall) (s : ClimateIRPower IR)
      (h : (c.control conv l (millis t0) call s).changed = true) :
      Since c conv l settling t0 (c.control conv l (millis t0) call s)
  | unchanged {s : ClimateIRPower IR} (now : Int) (call : ClimateCall)
      (h : Since c conv l settling t0 s) (hsame : (c.control conv l now call s).changed = false) :
      Since c conv l settling t0 (c.control conv l now call s)
  | reading {s : ClimateIRPower IR} (now : Int) (power : Option ℚ)
      (h : Since c conv l settling t0 s) :
      Since c conv l settling t0 (c.onPower settling now power s)

def ObservesWindow {IR : Type} (c : Component IR) (conv : Conversions) (l : Limits)
    (t0 settling t : Nat) : Prop :=
  ∀ s, Since c conv l settling t0 s → (updateMode settling (millis t) s = true ↔ settling < t - t0)

theorem updateMode_iff {IR : Type} {t0 settling t : Nat} {s : ClimateIRPower IR}
    (hchange : s.lastChangeTime = millis t0) (ht : t0 ≤ t) (hspan : t - t0 + settling < 2 ^ 32) :
    (updateMode settling (millis t) s = true ↔ settling < t - t0) ↔
      t / 2 ^ 32 = (t0 + settling) / 2 ^ 32 := by
  have hupdate : updateMode settling (millis t) s = true ↔
      (t0 + settling) % 2 ^ 32 < t % 2 ^ 32 := by
    rw [updateMode, decide_eq_true_iff, hchange, millis, millis, uint32, uint32, uint32]
    omega
  rw [hupdate]
  omega

structure KeepsTime {IR : Type} (c : Component IR) : Prop where
  changeMode : ∀ call s, (c.changeMode call s).lastChangeTime = s.lastChangeTime
  changeFan : ∀ call s, (c.changeFan call s).lastChangeTime = s.lastChangeTime
  onPower : ∀ settling now power s,
    (c.onPower settling now power s).lastChangeTime = s.lastChangeTime

section Control

variable {IR : Type} {c : Component IR} {conv : Conversions} {l : Limits} {settling : Int}
  {t0 : Nat}

theorem requestTemperature_time (call : ClimateCall) (s : ClimateIRPower IR) :
    (requestTemperature conv call s).lastChangeTime = s.lastChangeTime := by
  rw [requestTemperature]
  split <;> rfl

theorem sendTemperature_time (l : Limits) (tempUp tempDown : IR) (s : ClimateIRPower IR) :
    (sendTemperature conv l tempUp tempDown s).lastChangeTime = s.lastChangeTime := by
  simp only [sendTemperature, sendSteps]
  repeat' split
  all_goals rfl

theorem stamp_time (now : Int) (s : ClimateIRPower IR) :
    (if s.changed then { s with lastChangeTime := now } else s).lastChangeTime =
      if (if s.changed then { s with lastChangeTime := now } else s).changed then now
      else s.lastChangeTime := by
  cases hchanged : s.changed <;> simp [hchanged]

theorem control_time (hc : KeepsTime c) (now : Int) (call : ClimateCall) (s : ClimateIRPower IR) :
    (c.control conv l now call s).lastChangeTime =
      if (c.control conv l now call s).changed then now else s.lastChangeTime := by
  have hsteps : (c.changeFan call (sendTemperature conv l c.tempUp c.tempDown (requestTemperature
      conv call (c.changeMode call { s with changed := false, sent := [] })))).lastChangeTime =
        s.lastChangeTime := by
    rw [hc.changeFan, sendTemperature_time, requestTemperature_time, hc.changeMode]
  refine (stamp_time now _).trans ?_
  rw [hsteps]
  rfl

theorem Since.time (hc : KeepsTime c) {s : ClimateIRPower IR} (h : Since c conv l settling t0 s) :
    s.lastChangeTime = millis t0 := by
  induction h with
  | change call s hchanged => rw [control_time hc, if_pos hchanged]
  | unchanged now call h hsame ih => rw [control_time hc, hsame, ← ih]; rfl
  | reading now power h ih => rw [hc.onPower, ih]

theorem observesWindow_iff (hc : KeepsTime c) {settling t : Nat}
    (hchange : ∃ call s, (c.control conv l (millis t0) call s).changed = true) (ht : t0 ≤ t)
    (hspan : t - t0 + settling < 2 ^ 32) :
    ObservesWindow c conv l t0 settling t ↔ t / 2 ^ 32 = (t0 + settling) / 2 ^ 32 := by
  constructor
  · intro h
    obtain ⟨call, s, hchanged⟩ := hchange
    have hs : Since c conv l settling t0 (c.control conv l (millis t0) call s) :=
      .change call s hchanged
    exact (updateMode_iff (hs.time hc) ht hspan).mp (h _ hs)
  · intro hperiod s hs
    exact (updateMode_iff (hs.time hc) ht hspan).mpr hperiod

end Control

def WaitsForWindow {IR : Type} (c : Component IR) : Prop :=
  ∀ settling now power s, updateMode settling now s = false →
    c.onPower settling now power s = { s with action := (c.onPower settling now power s).action }

section Frigidaire

theorem frigidaire_waits : WaitsForWindow frigidaire := by
  intro settling now power s h
  simp only [frigidaire, Frigidaire.onPower, h, Bool.false_eq_true, false_and, if_false]
  split_ifs <;> rfl

theorem frigidaire_keepsTime : KeepsTime frigidaire where
  changeMode call s := by
    simp only [frigidaire, Frigidaire.changeMode, Frigidaire.sendMode, Frigidaire.wake]
    repeat' split
    all_goals rfl
  changeFan call s := by
    simp only [frigidaire, Frigidaire.changeFan]
    repeat' split
    all_goals rfl
  onPower settling now power s := by
    simp only [frigidaire, Frigidaire.onPower]
    split_ifs <;> rfl

end Frigidaire

section Kenmore

theorem kenmore_waits : WaitsForWindow kenmore := by
  intro settling now power s h
  simp only [kenmore, Kenmore.onPower, h, Bool.false_eq_true, false_and, if_false]
  split_ifs <;> rfl

theorem kenmore_keepsTime : KeepsTime kenmore where
  changeMode call s := by
    simp only [kenmore, Kenmore.changeMode, Kenmore.sendMode, Kenmore.wake]
    repeat' split
    all_goals rfl
  changeFan call s := by
    simp only [kenmore, Kenmore.changeFan]
    repeat' split
    all_goals rfl
  onPower settling now power s := by
    simp only [kenmore, Kenmore.onPower]
    split_ifs <;> rfl

end Kenmore

theorem settling_window_iff (conv : Conversions) (l : Limits) {t0 settling t : Nat} (ht : t0 ≤ t)
    (hspan : t - t0 + settling < 2 ^ 32) :
    (ObservesWindow frigidaire conv l t0 settling t ↔ t / 2 ^ 32 = (t0 + settling) / 2 ^ 32) ∧
      (ObservesWindow kenmore conv l t0 settling t ↔ t / 2 ^ 32 = (t0 + settling) / 2 ^ 32) :=
  ⟨observesWindow_iff frigidaire_keepsTime
      ⟨⟨none, none, none, some .low⟩, ⟨.off, .none, none, .off, 0, 0, 0, false, []⟩, rfl⟩ ht hspan,
    observesWindow_iff kenmore_keepsTime
      ⟨⟨none, none, none, some .low⟩, ⟨.off, .none, none, .off, 0, 0, 0, false, []⟩, rfl⟩ ht hspan⟩

def frigidaireLimits : Limits := ⟨60, 90, by decide, by decide, by decide⟩

def kenmoreLimits : Limits := ⟨60, 86, by decide, by decide, by decide⟩

theorem settling_window_iff_half_minute :
    ObservesWindow frigidaire rational frigidaireLimits 5000 30000 40000 ∧
      ObservesWindow kenmore rational kenmoreLimits 5000 30000 40000 :=
  ⟨(settling_window_iff rational frigidaireLimits (by decide) (by decide)).1.mpr (by decide),
    (settling_window_iff rational kenmoreLimits (by decide) (by decide)).2.mpr (by decide)⟩

def changedBeforeWrap : ClimateIRPower Frigidaire.IR :=
  frigidaire.control rational frigidaireLimits (millis (2 ^ 32 - 1000))
    ⟨none, none, none, some .low⟩ ⟨.off, .none, none, .off, 0, 0, 0, false, []⟩

theorem window_skipped :
    Since frigidaire rational frigidaireLimits 30000 (2 ^ 32 - 1000) changedBeforeWrap ∧
      updateMode 30000 (millis (2 ^ 32 - 500)) changedBeforeWrap = true ∧
      ¬ObservesWindow frigidaire rational frigidaireLimits (2 ^ 32 - 1000) 30000
        (2 ^ 32 - 500) := by
  have hsince : Since frigidaire rational frigidaireLimits 30000 (2 ^ 32 - 1000)
      changedBeforeWrap :=
    .change _ _ rfl
  have hupdate : updateMode 30000 (millis (2 ^ 32 - 500)) changedBeforeWrap = true := by
    decide +kernel
  refine ⟨hsince, hupdate, fun h => ?_⟩
  exact absurd ((h _ hsince).mp hupdate) (by decide)

end Isz.Climate
