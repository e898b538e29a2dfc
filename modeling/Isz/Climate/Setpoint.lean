import Isz.Climate.Control
import Isz.Library.Runs
import Mathlib.Logic.Function.Iterate
import Mathlib.Tactic.Linarith
import Mathlib.Tactic.Ring

namespace Isz.Climate

open Runs

variable {IR : Type} [DecidableEq IR]

def rational : Conversions where
  celsiusToFahrenheit celsius := celsius * 9 / 5 + 32
  fahrenheitToCelsius fahrenheit := (fahrenheit - 32) * 5 / 9

-- the unit: a press moves its setpoint by one degree, up to the end of the range
def press (c : Component IR) (l : Limits) (cmd : IR) (setpoint : Int) : Int :=
  if cmd = c.tempUp then min (setpoint + 1) l.tempfMax
  else if cmd = c.tempDown then max (setpoint - 1) l.tempfMin
  else setpoint

def receive (c : Component IR) (l : Limits) (setpoint : Int) (sent : List (IR × Nat)) : Int :=
  sent.foldl (fun setpoint e => (press c l e.1)^[e.2] setpoint) setpoint

structure World (IR : Type) where
  ac : ClimateIRPower IR
  setpoint : Int
  requested : ℚ

inductive Event where
  | control (now : Int) (call : ClimateCall)
  | power (now : Int) (reading : Option ℚ)

def step (c : Component IR) (l : Limits) (settling : Int) (w : World IR) : Event → World IR
  | .control now call =>
    let ac := c.control rational l now call w.ac
    { ac := ac
      setpoint := receive c l w.setpoint ac.sent
      requested := call.targetTemperature.getD w.requested }
  | .power now reading => { w with ac := c.onPower settling now reading w.ac }

def Limits.Within (l : Limits) (tempf : ℚ) : Prop := l.tempfMin ≤ tempf ∧ tempf ≤ l.tempfMax

def InRange (l : Limits) : Event → Prop
  | .control _ call => ∀ temp ∈ call.targetTemperature, l.Within (rational.celsiusToFahrenheit temp)
  | .power _ _ => True

structure Initial (l : Limits) (w : World IR) : Prop where
  unknown : w.ac.targetTemperatureF = 0
  setpoint : l.Within w.setpoint
  whole : ∃ n : Int, l.Within n ∧ w.ac.targetTemperature = rational.fahrenheitToCelsius n
  requested : w.requested = w.ac.targetTemperature

def Known (w : World IR) : Prop :=
  w.ac.targetTemperatureF = 0 ∨ w.ac.targetTemperatureF = w.setpoint

def Settled (w : World IR) : Prop :=
  w.setpoint = w.ac.targetTemperatureF ∧
    w.ac.targetTemperatureF = truncate (rational.celsiusToFahrenheit w.requested)

def TracksSetpoint (c : Component IR) (l : Limits) (settling : Int) : Prop :=
  ∀ first : World IR, Initial l first → ∀ w,
    Reachable (fun w e => some (step c l settling w e)) (fun _ e => InRange l e) first w →
    Known w ∧ ∀ now call, InRange l (.control now call) →
      let w' := step c l settling w (.control now call)
      w'.ac.mode = .cool → Settled w'

theorem celsius_fahrenheit (tempf : ℚ) :
    rational.celsiusToFahrenheit (rational.fahrenheitToCelsius tempf) = tempf := by
  rw [rational]
  ring

theorem truncate_intCast (n : Int) : truncate (n : ℚ) = n := by
  simp [truncate]

theorem truncate_within {l : Limits} {tempf : ℚ} (h : l.Within tempf) :
    l.tempfMin ≤ truncate tempf ∧ truncate tempf ≤ l.tempfMax := by
  have hpos : (0 : ℚ) ≤ tempf := by
    have : (0 : ℚ) < l.tempfMin := by exact_mod_cast l.pos
    linarith [h.1]
  rw [truncate, if_pos hpos]
  exact ⟨Int.le_floor.mpr h.1, by exact_mod_cast (Int.floor_le tempf).trans h.2⟩

section Presses

variable {c : Component IR} {l : Limits} {setpoint : Int}

theorem press_up_iterate (n : Nat) (h : setpoint ≤ l.tempfMax) :
    (press c l c.tempUp)^[n] setpoint = min (setpoint + n) l.tempfMax := by
  induction n with
  | zero => simp [h]
  | succ n ih =>
    rw [Function.iterate_succ_apply', ih, press, if_pos rfl]
    push_cast
    omega

theorem press_down_iterate (hdistinct : c.tempUp ≠ c.tempDown) (n : Nat)
    (h : l.tempfMin ≤ setpoint) :
    (press c l c.tempDown)^[n] setpoint = max (setpoint - n) l.tempfMin := by
  induction n with
  | zero => simp [h]
  | succ n ih =>
    rw [Function.iterate_succ_apply', ih, press, if_neg hdistinct.symm, if_pos rfl]
    push_cast
    omega

theorem receive_append (more : List (IR × Nat)) (sent : List (IR × Nat)) :
    receive c l setpoint (sent ++ more) = receive c l (receive c l setpoint sent) more :=
  List.foldl_append

theorem receive_quiet {sent : List (IR × Nat)}
    (h : ∀ e ∈ sent, e.1 ≠ c.tempUp ∧ e.1 ≠ c.tempDown) :
    receive c l setpoint sent = setpoint := by
  induction sent with
  | nil => rfl
  | cons e sent ih =>
    obtain ⟨hup, hdown⟩ := h e List.mem_cons_self
    have hpress : press c l e.1 = id := by
      funext s
      rw [press, if_neg hup, if_neg hdown]
      rfl
    rw [receive, List.foldl_cons, hpress, Function.iterate_id]
    exact ih fun e he => h e (List.mem_cons_of_mem _ he)

theorem receive_up {s : ClimateIRPower IR} (count : Int) (hcount : 0 ≤ count ∧ count < 256)
    (h : receive c l setpoint s.sent ≤ l.tempfMax) :
    receive c l setpoint (s.sendIr c.tempUp count).sent =
      min (receive c l setpoint s.sent + count) l.tempfMax := by
  rw [ClimateIRPower.sendIr, receive_append]
  simp only [receive, List.foldl_cons, List.foldl_nil] at h ⊢
  rw [press_up_iterate _ h, uint8]
  omega

theorem receive_down (hdistinct : c.tempUp ≠ c.tempDown) {s : ClimateIRPower IR} (count : Int)
    (hcount : 0 ≤ count ∧ count < 256) (h : l.tempfMin ≤ receive c l setpoint s.sent) :
    receive c l setpoint (s.sendIr c.tempDown count).sent =
      max (receive c l setpoint s.sent - count) l.tempfMin := by
  rw [ClimateIRPower.sendIr, receive_append]
  simp only [receive, List.foldl_cons, List.foldl_nil] at h ⊢
  rw [press_down_iterate hdistinct _ h, uint8]
  omega

end Presses

theorem int8_eq {n : Int} (h : 0 ≤ n ∧ n < 128) : int8 n = n := by
  rw [int8, Int.bmod_eq_of_le] <;> omega

theorem int32_uint32 {n : Int} (h : -128 < n ∧ n < 128) : int32 (uint32 n) = n := by
  have hpow : (2 : Int) ^ 32 = (2 ^ 32 : Nat) := by norm_num
  rw [int32, uint32, hpow, Int.emod_bmod, Int.bmod_eq_of_le] <;> omega

section Temperature

variable {c : Component IR} {l : Limits} {setpoint n : Int} {s : ClimateIRPower IR}

structure Ready (c : Component IR) (l : Limits) (setpoint n : Int) (s : ClimateIRPower IR) :
    Prop where
  target : s.targetTemperature = rational.fahrenheitToCelsius n
  within : l.tempfMin ≤ n ∧ n ≤ l.tempfMax
  bounded : l.tempfMin ≤ receive c l setpoint s.sent ∧ receive c l setpoint s.sent ≤ l.tempfMax
  known : s.targetTemperatureF = 0 ∨ s.targetTemperatureF = receive c l setpoint s.sent

theorem sendSteps_settles (hdistinct : c.tempUp ≠ c.tempDown) (h : Ready c l setpoint n s) :
    receive c l setpoint (sendSteps l c.tempUp c.tempDown n s).sent = n ∧
      (sendSteps l c.tempUp c.tempDown n s).mode = s.mode := by
  have hl := l.pos
  have hlt := l.lt
  obtain ⟨hlow, hup⟩ := h.within
  obtain ⟨hmin, hmax⟩ := h.bounded
  have hknown := h.known
  simp only [sendSteps]
  split_ifs with hpos hmore hless hcooling
  · rw [int32_uint32 (by omega)] at hmore ⊢
    rw [receive_up _ (by omega) hmax]
    exact ⟨by omega, rfl⟩
  · rw [int32_uint32 (by omega)] at hless ⊢
    rw [receive_down hdistinct _ (by omega) hmin]
    exact ⟨by omega, rfl⟩
  · rw [int32_uint32 (by omega)] at hmore hless
    exact ⟨by omega, rfl⟩
  · have hswept := receive_down hdistinct (l.tempfMax - l.tempfMin) (by omega) hmin
    rw [receive_up _ (by omega) (by omega), hswept]
    exact ⟨by omega, rfl⟩
  · have hswept := receive_up (l.tempfMax - l.tempfMin) (by omega) hmax
    rw [receive_down hdistinct _ (by omega) (by omega), hswept]
    exact ⟨by omega, rfl⟩

theorem sendTemperature_settles (hdistinct : c.tempUp ≠ c.tempDown) (h : Ready c l setpoint n s) :
    let s' := sendTemperature rational l c.tempUp c.tempDown s
    Ready c l setpoint n s' ∧ s'.mode = s.mode ∧
      (s.mode = .cool → receive c l setpoint s'.sent = n ∧ s'.targetTemperatureF = n) := by
  have hl := l.pos
  have hlt := l.lt
  obtain ⟨hlow, hup⟩ := h.within
  obtain ⟨hmin, hmax⟩ := h.bounded
  have htempf : int8 (truncate (rational.celsiusToFahrenheit s.targetTemperature)) = n := by
    rw [h.target, celsius_fahrenheit, truncate_intCast, int8_eq (by omega)]
  have hn : uint32 n = n := by
    rw [uint32]
    omega
  simp only [sendTemperature, htempf, hn]
  split
  case isFalse hskip =>
    refine ⟨h, rfl, fun hmode => ?_⟩
    have hf : n = s.targetTemperatureF := by
      by_contra hne
      exact hskip ⟨hmode, hne⟩
    have := h.known
    omega
  case isTrue hsend =>
    obtain ⟨hsteps, hmode⟩ := sendSteps_settles hdistinct h
    refine ⟨⟨rfl, h.within, ?_, .inr hsteps.symm⟩, hmode, fun _ => ⟨hsteps, rfl⟩⟩
    rw [hsteps]
    exact h.within

end Temperature

def Quiet (c : Component IR) (cmd : IR) : Prop := cmd ≠ c.tempUp ∧ cmd ≠ c.tempDown

structure Keeps (c : Component IR) (s s' : ClimateIRPower IR) : Prop where
  target : s'.targetTemperature = s.targetTemperature
  tracked : s'.targetTemperatureF = s.targetTemperatureF ∨ s'.targetTemperatureF = 0
  sent : ∃ more, s'.sent = s.sent ++ more ∧ ∀ e ∈ more, Quiet c e.1

section Keeps

variable {c : Component IR} {s s' s'' : ClimateIRPower IR}

omit [DecidableEq IR]

theorem Keeps.refl : Keeps c s s := ⟨rfl, .inl rfl, [], by simp, by simp⟩

theorem Keeps.trans (h : Keeps c s s') (h' : Keeps c s' s'') : Keeps c s s'' := by
  obtain ⟨htarget, htracked, more, hsent, hquiet⟩ := h
  obtain ⟨htarget', htracked', more', hsent', hquiet'⟩ := h'
  refine ⟨htarget'.trans htarget, ?_, more ++ more', ?_, ?_⟩
  · rcases htracked' with heq | hzero
    · rw [heq]
      exact htracked
    · exact .inr hzero
  · rw [hsent', hsent, List.append_assoc]
  · intro e he
    rcases List.mem_append.mp he with hmem | hmem
    · exact hquiet e hmem
    · exact hquiet' e hmem

theorem Keeps.send {cmd : IR} (hcmd : Quiet c cmd) (count : Int) :
    Keeps c s (s.sendIr cmd count) := by
  refine ⟨rfl, .inl rfl, _, rfl, ?_⟩
  intro e he
  obtain rfl := List.mem_singleton.mp he
  exact hcmd

theorem Keeps.forget : Keeps c s { s with targetTemperatureF := 0 } :=
  ⟨rfl, .inr rfl, [], by simp, by simp⟩

theorem Keeps.finish (mode : Mode) (preset : Preset) (fanMode : Option FanMode)
    (changed : Bool) : Keeps c s { s with
      mode := mode, preset := preset, fanMode := fanMode, changed := changed } :=
  ⟨rfl, .inl rfl, [], by simp, by simp⟩

end Keeps

structure Lawful (c : Component IR) : Prop where
  distinct : c.tempUp ≠ c.tempDown
  changeMode : ∀ call s, Keeps c s (c.changeMode call s)
  changeFan : ∀ call s, Keeps c s (c.changeFan call s) ∧
    (c.changeFan call s).mode = s.mode ∧
    (c.changeFan call s).targetTemperatureF = s.targetTemperatureF
  onPower : ∀ settling now power s,
    (c.onPower settling now power s).targetTemperature = s.targetTemperature ∧
    (c.onPower settling now power s).targetTemperatureF = s.targetTemperatureF

section Frigidaire

variable (call : ClimateCall) (s : ClimateIRPower Frigidaire.IR)

theorem frigidaire_quiet (cmd : Frigidaire.IR) (h : cmd ≠ .tempUp ∧ cmd ≠ .tempDown) :
    Quiet frigidaire cmd := h

theorem frigidaire_wake : Keeps frigidaire s (Frigidaire.wake s) := by
  simp only [Frigidaire.wake]
  split
  · exact (Keeps.send (frigidaire_quiet .power (by decide)) 1).trans .forget
  · exact .refl

theorem frigidaire_sendMode (newMode : Mode) (newPreset : Preset) :
    Keeps frigidaire s (Frigidaire.sendMode newMode newPreset s) := by
  simp only [Frigidaire.sendMode]
  split
  · exact .send (frigidaire_quiet .modeEsave (by decide)) 1
  · cases newMode with
    | cool => exact .send (frigidaire_quiet .modeCool (by decide)) 1
    | fanOnly => exact (Keeps.send (frigidaire_quiet .modeFan (by decide)) 1).trans .forget
    | off => exact (Keeps.send (frigidaire_quiet .power (by decide)) 1).trans .forget

theorem frigidaire_changeMode : Keeps frigidaire s (Frigidaire.changeMode call s) := by
  simp only [Frigidaire.changeMode]
  split
  · exact ((frigidaire_wake s).trans (frigidaire_sendMode _ _ _)).trans (.finish _ _ _ _)
  · exact .refl

theorem frigidaire_changeFan :
    Keeps frigidaire s (Frigidaire.changeFan call s) ∧
      (Frigidaire.changeFan call s).mode = s.mode ∧
      (Frigidaire.changeFan call s).targetTemperatureF = s.targetTemperatureF := by
  have hdown := frigidaire_quiet .fanDown (by decide)
  have hup := frigidaire_quiet .fanUp (by decide)
  have hauto := frigidaire_quiet .fanAuto (by decide)
  simp only [Frigidaire.changeFan]
  cases call.fanMode with
  | none => exact ⟨.refl, rfl, rfl⟩
  | some fanMode =>
    cases fanMode with
    | auto => exact ⟨((Keeps.send hdown 1).trans (.send hauto 1)).trans (.finish _ _ _ _), rfl, rfl⟩
    | high => exact ⟨(Keeps.send hup 3).trans (.finish _ _ _ _), rfl, rfl⟩
    | medium =>
      exact ⟨((Keeps.send hdown 3).trans (.send hup 1)).trans (.finish _ _ _ _), rfl, rfl⟩
    | low => exact ⟨(Keeps.send hdown 3).trans (.finish _ _ _ _), rfl, rfl⟩
    | on | off | middle | focus | diffuse | quiet => exact ⟨.finish _ _ _ _, rfl, rfl⟩

theorem frigidaire_lawful : Lawful frigidaire where
  distinct := by decide
  changeMode := frigidaire_changeMode
  changeFan := frigidaire_changeFan
  onPower settling now power s := by
    simp only [frigidaire, Frigidaire.onPower]
    split_ifs <;> exact ⟨rfl, rfl⟩

end Frigidaire

section Kenmore

variable (call : ClimateCall) (s : ClimateIRPower Kenmore.IR)

theorem kenmore_sendIf (cmd : Kenmore.IR) (h : cmd ≠ .tempUp ∧ cmd ≠ .tempDown)
    {p : Prop} [Decidable p] {s : ClimateIRPower Kenmore.IR} :
    Keeps kenmore s (if p then s.sendIr cmd 1 else s) := by
  split
  · exact .send (show Quiet kenmore cmd from h) 1
  · exact .refl

theorem kenmore_wake : Keeps kenmore s (Kenmore.wake s) := by
  have hpower : Quiet kenmore .power := ⟨by decide, by decide⟩
  simp only [Kenmore.wake]
  split
  · exact ((Keeps.send hpower 1).trans .forget).trans (.finish _ _ _ _)
  · exact .refl

theorem kenmore_sendMode (newMode : Mode) (newPreset : Preset) :
    Keeps kenmore s (Kenmore.sendMode newMode newPreset s) := by
  have hpower : Quiet kenmore .power := ⟨by decide, by decide⟩
  have hmode := fun p [Decidable p] => kenmore_sendIf .mode (by decide) (p := p) (s := s)
  simp only [Kenmore.sendMode]
  split
  · exact (hmode _).trans (kenmore_sendIf .esave (by decide))
  · cases newMode with
    | cool => exact (hmode _).trans (kenmore_sendIf .esave (by decide))
    | fanOnly => exact (hmode _).trans .forget
    | off => exact ((hmode _).trans (.send hpower 1)).trans .forget

theorem kenmore_changeMode : Keeps kenmore s (Kenmore.changeMode call s) := by
  simp only [Kenmore.changeMode]
  split
  · exact ((kenmore_wake s).trans (kenmore_sendMode _ _ _)).trans (.finish _ _ _ _)
  · exact .refl

theorem kenmore_changeFan :
    Keeps kenmore s (Kenmore.changeFan call s) ∧
      (Kenmore.changeFan call s).mode = s.mode ∧
      (Kenmore.changeFan call s).targetTemperatureF = s.targetTemperatureF := by
  simp only [Kenmore.changeFan]
  cases call.fanMode with
  | none => exact ⟨.refl, rfl, rfl⟩
  | some newFanMode =>
    refine ⟨(kenmore_sendIf .fanSpeed (by decide)).trans (.finish _ _ _ _), ?_, ?_⟩
    · simp only
      split <;> rfl
    · simp only
      split <;> rfl

theorem kenmore_lawful : Lawful kenmore where
  distinct := by decide
  changeMode := kenmore_changeMode
  changeFan := kenmore_changeFan
  onPower settling now power s := by
    simp only [kenmore, Kenmore.onPower]
    split_ifs <;> exact ⟨rfl, rfl⟩

end Kenmore

theorem Keeps.receive_sent {c : Component IR} {l : Limits} {setpoint : Int}
    {s s' : ClimateIRPower IR} (h : Keeps c s s') :
    receive c l setpoint s'.sent = receive c l setpoint s.sent := by
  obtain ⟨more, hsent, hquiet⟩ := h.sent
  rw [hsent, receive_append, receive_quiet hquiet]

theorem Keeps.ready {c : Component IR} {l : Limits} {setpoint n : Int}
    {s s' : ClimateIRPower IR} (h : Keeps c s s') (hready : Ready c l setpoint n s) :
    Ready c l setpoint n s' := by
  obtain ⟨htarget, hwithin, hbounded, hknown⟩ := hready
  rw [← h.receive_sent] at hbounded hknown
  refine ⟨h.target.trans htarget, hwithin, hbounded, ?_⟩
  rcases h.tracked with heq | hzero
  · rw [heq]
    exact hknown
  · exact .inl hzero

theorem requestTemperature_ready {c : Component IR} {l : Limits} {setpoint n : Int}
    {s : ClimateIRPower IR} {call : ClimateCall} {requested : ℚ} (h : Ready c l setpoint n s)
    (hn : n = truncate (rational.celsiusToFahrenheit requested))
    (hcall : ∀ temp ∈ call.targetTemperature, l.Within (rational.celsiusToFahrenheit temp)) :
    Ready c l setpoint
      (truncate (rational.celsiusToFahrenheit (call.targetTemperature.getD requested)))
      (requestTemperature rational call s) := by
  simp only [requestTemperature]
  cases htemp : call.targetTemperature with
  | none => exact hn ▸ h
  | some temp =>
    have hl := l.pos
    have hlt := l.lt
    have hwithin := truncate_within (hcall temp htemp)
    have hbyte : uint8 (truncate (rational.celsiusToFahrenheit temp)) =
        truncate (rational.celsiusToFahrenheit temp) := Int.emod_eq_of_lt (by omega) (by omega)
    refine ⟨?_, hwithin, h.bounded, h.known⟩
    simp only [hbyte, Option.getD_some]

structure Tracked (l : Limits) (w : World IR) : Prop where
  known : Known w
  bounded : l.tempfMin ≤ w.setpoint ∧ w.setpoint ≤ l.tempfMax
  within : l.tempfMin ≤ truncate (rational.celsiusToFahrenheit w.requested) ∧
    truncate (rational.celsiusToFahrenheit w.requested) ≤ l.tempfMax
  target : w.ac.targetTemperature =
    rational.fahrenheitToCelsius (truncate (rational.celsiusToFahrenheit w.requested))

section Runs

variable {c : Component IR} {l : Limits} {settling : Int}

omit [DecidableEq IR] in
theorem control_eq (conv : Conversions) (now : Int) (call : ClimateCall)
    (s : ClimateIRPower IR) : ∃ time, c.control conv l now call s =
      { c.changeFan call (sendTemperature conv l c.tempUp c.tempDown (requestTemperature conv call
          (c.changeMode call { s with changed := false, sent := [] }))) with
        lastChangeTime := time } := by
  simp only [Component.control]
  split
  · exact ⟨_, rfl⟩
  · exact ⟨_, rfl⟩

theorem control_tracked (hc : Lawful c) {w : World IR} (h : Tracked l w) {now : Int}
    {call : ClimateCall} (hcall : InRange l (.control now call)) :
    let w' := step c l settling w (.control now call)
    Tracked l w' ∧ (w'.ac.mode = .cool → Settled w') := by
  have hbegin : Ready c l w.setpoint (truncate (rational.celsiusToFahrenheit w.requested))
      { w.ac with changed := false, sent := [] } :=
    ⟨h.target, h.within, h.bounded, h.known⟩
  have hmode := (hc.changeMode call _).ready hbegin
  have hrequested := requestTemperature_ready hmode rfl hcall
  obtain ⟨hsent, hsame, hcool⟩ := sendTemperature_settles hc.distinct hrequested
  obtain ⟨hkeeps, hfanMode, hfanTracked⟩ := hc.changeFan call _
  have hready := hkeeps.ready hsent
  obtain ⟨time, hcontrol⟩ := control_eq (c := c) (l := l) rational now call w.ac
  simp only [step, hcontrol]
  refine ⟨⟨hready.known, hready.bounded, hready.within, hready.target⟩, fun hmode' => ?_⟩
  have hwas := hsame.symm.trans (hfanMode.symm.trans hmode')
  obtain ⟨hreceived, htracked⟩ := hcool hwas
  have hsettled := hkeeps.receive_sent.trans hreceived
  exact ⟨hsettled.trans (hfanTracked.trans htracked).symm, hfanTracked.trans htracked⟩

theorem power_tracked (hc : Lawful c) {w : World IR} (h : Tracked l w) (now : Int)
    (reading : Option ℚ) : Tracked l (step c l settling w (.power now reading)) := by
  obtain ⟨htarget, htracked⟩ := hc.onPower settling now reading w.ac
  obtain ⟨hknown, hbounded, hwithin, hsame⟩ := h
  refine ⟨?_, hbounded, hwithin, htarget.trans hsame⟩
  rw [Known] at hknown ⊢
  exact htracked ▸ hknown

omit [DecidableEq IR] in
theorem initial_tracked {w : World IR} (h : Initial l w) : Tracked l w := by
  obtain ⟨n, hn, htarget⟩ := h.whole
  have hrequested : truncate (rational.celsiusToFahrenheit w.requested) = n := by
    rw [h.requested, htarget, celsius_fahrenheit, truncate_intCast]
  refine ⟨.inl h.unknown, ?_, ?_, ?_⟩
  · exact ⟨by exact_mod_cast h.setpoint.1, by exact_mod_cast h.setpoint.2⟩
  · rw [hrequested]
    exact ⟨by exact_mod_cast hn.1, by exact_mod_cast hn.2⟩
  · rw [htarget, hrequested]

theorem tracksSetpoint (hc : Lawful c) : TracksSetpoint c l settling := by
  intro first hfirst w hw
  have htracked : Tracked l w := by
    refine hw.invariant (initial_tracked hfirst) fun s e s' hs he hstep => ?_
    obtain rfl := Option.some.inj hstep
    cases e with
    | control now call => exact (control_tracked hc hs he).1
    | power now reading => exact power_tracked hc hs now reading
  exact ⟨htracked.known, fun now call hcall => (control_tracked hc htracked hcall).2⟩

end Runs

theorem setpoint_tracked (l : Limits) (settling : Int) :
    TracksSetpoint frigidaire l settling ∧ TracksSetpoint kenmore l settling :=
  ⟨tracksSetpoint frigidaire_lawful, tracksSetpoint kenmore_lawful⟩

example :
    let off : ClimateIRPower Frigidaire.IR :=
      ⟨.off, .none, none, .off, rational.fahrenheitToCelsius 75, 0, 0, false, []⟩
    let w := step frigidaire ⟨60, 90, by decide, by decide, by decide⟩ 30000
      ⟨off, 82, rational.fahrenheitToCelsius 75⟩ (.control 0 ⟨some .cool, none, some 20, none⟩)
    w.setpoint = 68 ∧
      w.ac.sent = [(.power, 1), (.modeCool, 1), (.tempUp, 30), (.tempDown, 22)] := by
  decide +kernel

end Isz.Climate
