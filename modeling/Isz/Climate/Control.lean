import Mathlib.Data.Rat.Floor

namespace Isz.Climate

inductive Mode where
  | off
  | cool
  | fanOnly
  deriving DecidableEq

inductive Preset where
  | none
  | eco
  deriving DecidableEq

inductive FanMode where
  | on
  | off
  | auto
  | low
  | medium
  | high
  | middle
  | focus
  | diffuse
  | quiet
  deriving DecidableEq

inductive ClimateAction where
  | off
  | cooling
  | idle
  | fan
  deriving DecidableEq

-- the two functions belong to ESPHome
structure Conversions where
  celsiusToFahrenheit : ℚ → ℚ
  fahrenheitToCelsius : ℚ → ℚ

def truncate (x : ℚ) : Int := if 0 ≤ x then ⌊x⌋ else ⌈x⌉

def uint8 (n : Int) : Int := n % 2 ^ 8

def int8 (n : Int) : Int := n.bmod (2 ^ 8)

def uint32 (n : Int) : Int := n % 2 ^ 32

def int32 (n : Int) : Int := n.bmod (2 ^ 32)

structure Limits where
  tempfMin : Int
  tempfMax : Int
  pos : 0 < tempfMin
  le : tempfMin ≤ tempfMax
  lt : tempfMax < 128

structure ClimateCall where
  mode : Option Mode
  preset : Option Preset
  targetTemperature : Option ℚ
  fanMode : Option FanMode

-- `sent` and `changed` belong to one call of control
structure ClimateIRPower (IR : Type) where
  mode : Mode
  preset : Preset
  fanMode : Option FanMode
  action : ClimateAction
  targetTemperature : ℚ
  targetTemperatureF : Int
  lastChangeTime : Int
  changed : Bool
  sent : List (IR × Nat)

namespace ClimateIRPower

variable {IR : Type}

def sendIr (s : ClimateIRPower IR) (cmd : IR) (count : Int) : ClimateIRPower IR :=
  { s with sent := s.sent ++ [(cmd, (uint8 count).toNat)] }

end ClimateIRPower

section Shared

variable {IR : Type}

def requestedMode (call : ClimateCall) (s : ClimateIRPower IR) : Mode × Preset :=
  let (newMode, newPreset) :=
    match call.mode with
    | some mode => (mode, Preset.none)
    | none => (s.mode, s.preset)
  match call.preset with
  | some .eco => (.cool, .eco)
  | some .none => (newMode, .none)
  | none => (newMode, newPreset)

def requestTemperature (conv : Conversions) (call : ClimateCall) (s : ClimateIRPower IR) :
    ClimateIRPower IR :=
  match call.targetTemperature with
  | some temp =>
    { s with
      targetTemperature :=
        conv.fahrenheitToCelsius (uint8 (truncate (conv.celsiusToFahrenheit temp)))
      changed := true }
  | none => s

-- the steps from the tracked setpoint, or a sweep to one end and the steps back from it
def sendSteps (l : Limits) (tempUp tempDown : IR) (tempf : Int) (s : ClimateIRPower IR) :
    ClimateIRPower IR :=
  if 0 < s.targetTemperatureF then
    let tempfDelta := int32 (uint32 (tempf - s.targetTemperatureF))
    if 0 < tempfDelta then s.sendIr tempUp tempfDelta
    else if tempfDelta < 0 then s.sendIr tempDown (-tempfDelta)
    else s
  else if s.action = .cooling then
    (s.sendIr tempDown (l.tempfMax - l.tempfMin)).sendIr tempUp (tempf - l.tempfMin)
  else
    (s.sendIr tempUp (l.tempfMax - l.tempfMin)).sendIr tempDown (l.tempfMax - tempf)

def sendTemperature (conv : Conversions) (l : Limits) (tempUp tempDown : IR)
    (s : ClimateIRPower IR) : ClimateIRPower IR :=
  let tempf := int8 (truncate (conv.celsiusToFahrenheit s.targetTemperature))
  if s.mode = .cool ∧ uint32 tempf ≠ s.targetTemperatureF then
    { sendSteps l tempUp tempDown tempf s with
      targetTemperature := conv.fahrenheitToCelsius tempf
      targetTemperatureF := uint32 tempf
      changed := true }
  else s

-- millis() > last_change_time_ + power_settling_time_
def updateMode (settling now : Int) (s : ClimateIRPower IR) : Bool :=
  uint32 (s.lastChangeTime + settling) < now

end Shared

structure Component (IR : Type) where
  tempUp : IR
  tempDown : IR
  changeMode : ClimateCall → ClimateIRPower IR → ClimateIRPower IR
  changeFan : ClimateCall → ClimateIRPower IR → ClimateIRPower IR
  onPower : Int → Int → Option ℚ → ClimateIRPower IR → ClimateIRPower IR

def Component.control {IR : Type} (c : Component IR) (conv : Conversions) (l : Limits) (now : Int)
    (call : ClimateCall) (s : ClimateIRPower IR) : ClimateIRPower IR :=
  let s := c.changeMode call { s with changed := false, sent := [] }
  let s := requestTemperature conv call s
  let s := sendTemperature conv l c.tempUp c.tempDown s
  let s := c.changeFan call s
  if s.changed then { s with lastChangeTime := now } else s

-- a reading that is not a number fails every comparison
def exceeds (power : Option ℚ) (watts : ℚ) : Bool := power.any fun p => watts < p

def below (power : Option ℚ) (watts : ℚ) : Bool := power.any fun p => p < watts

namespace Frigidaire

inductive IR where
  | fanDown
  | fanUp
  | fanAuto
  | modeEsave
  | modeFan
  | modeCool
  | tempDown
  | tempUp
  | power
  deriving DecidableEq

def wake (s : ClimateIRPower IR) : ClimateIRPower IR :=
  if s.mode = .off then { s.sendIr .power 1 with targetTemperatureF := 0 } else s

def sendMode (newMode : Mode) (newPreset : Preset) (s : ClimateIRPower IR) :
    ClimateIRPower IR :=
  if newPreset = .eco then s.sendIr .modeEsave 1
  else
    match newMode with
    | .cool => s.sendIr .modeCool 1
    | .fanOnly => { s.sendIr .modeFan 1 with targetTemperatureF := 0 }
    | .off => { s.sendIr .power 1 with targetTemperatureF := 0 }

def changeMode (call : ClimateCall) (s : ClimateIRPower IR) : ClimateIRPower IR :=
  let (newMode, newPreset) := requestedMode call s
  if newMode ≠ s.mode ∨ newPreset ≠ s.preset then
    { sendMode newMode newPreset (wake s) with
      mode := newMode
      preset := newPreset
      changed := true }
  else s

def changeFan (call : ClimateCall) (s : ClimateIRPower IR) : ClimateIRPower IR :=
  match call.fanMode with
  | none => s
  | some fanMode =>
    let s :=
      match fanMode with
      | .auto => (s.sendIr .fanDown 1).sendIr .fanAuto 1
      | .high => s.sendIr .fanUp 3
      | .medium => (s.sendIr .fanDown 3).sendIr .fanUp 1
      | .low => s.sendIr .fanDown 3
      | _ => s
    { s with fanMode := some fanMode, changed := true }

def onPower (settling now : Int) (power : Option ℚ) (s : ClimateIRPower IR) :
    ClimateIRPower IR :=
  let update := updateMode settling now s
  if exceeds power 150 then
    { s with action := .cooling, mode := if update then .cool else s.mode }
  else if exceeds power 50 then
    { s with action := .fan, mode := if update ∧ s.mode = .off then .fanOnly else s.mode }
  else if s.mode = .off then { s with action := .off }
  else { s with action := .idle }

end Frigidaire

def frigidaire : Component Frigidaire.IR where
  tempUp := .tempUp
  tempDown := .tempDown
  changeMode := Frigidaire.changeMode
  changeFan := Frigidaire.changeFan
  onPower := Frigidaire.onPower

namespace Kenmore

inductive IR where
  | fanSpeed
  | mode
  | esave
  | tempDown
  | tempUp
  | power
  deriving DecidableEq

-- power restores the last fan or cool state without eco; the source takes it for cool
def wake (s : ClimateIRPower IR) : ClimateIRPower IR :=
  if s.mode = .off then
    { s.sendIr .power 1 with targetTemperatureF := 0, preset := .none, mode := .cool }
  else s

-- one key switches between cool and fan, and one toggles eco
def sendMode (newMode : Mode) (newPreset : Preset) (s : ClimateIRPower IR) :
    ClimateIRPower IR :=
  if newPreset = .eco then
    let s := if s.mode ≠ .cool then s.sendIr .mode 1 else s
    if s.preset ≠ .eco then s.sendIr .esave 1 else s
  else
    match newMode with
    | .cool =>
      let s := if s.mode ≠ .cool then s.sendIr .mode 1 else s
      if s.preset = .eco then s.sendIr .esave 1 else s
    | .fanOnly =>
      let s := if s.mode ≠ .fanOnly then s.sendIr .mode 1 else s
      { s with targetTemperatureF := 0 }
    | .off =>
      let s := if s.mode = .fanOnly then s.sendIr .mode 1 else s
      { s.sendIr .power 1 with targetTemperatureF := 0 }

def changeMode (call : ClimateCall) (s : ClimateIRPower IR) : ClimateIRPower IR :=
  let (newMode, newPreset) := requestedMode call s
  if newMode ≠ s.mode ∨ newPreset ≠ s.preset then
    { sendMode newMode newPreset (wake s) with
      mode := newMode
      preset := newPreset
      changed := true }
  else s

def changeFan (call : ClimateCall) (s : ClimateIRPower IR) : ClimateIRPower IR :=
  match call.fanMode with
  | none => s
  | some newFanMode =>
    let s := if s.fanMode ≠ some newFanMode then s.sendIr .fanSpeed 1 else s
    { s with fanMode := some newFanMode, changed := true }

def onPower (settling now : Int) (power : Option ℚ) (s : ClimateIRPower IR) :
    ClimateIRPower IR :=
  let update := updateMode settling now s
  if exceeds power 150 then
    { s with action := .cooling, mode := if update then .cool else s.mode }
  else if exceeds power 25 then
    { s with
      action := .fan
      mode := if update ∧ s.mode = .off then .fanOnly else s.mode
      fanMode :=
        if update ∧ s.preset ≠ .eco then some (if exceeds power 45 then .high else .low)
        else s.fanMode }
  else if below power 2 then
    { s with
      action := .off
      mode := if update then .off else s.mode
      preset := if update then .none else s.preset }
  else if below power 5 then
    { s with
      action := .idle
      mode := if update then .cool else s.mode
      preset := if update then .eco else s.preset }
  else s

end Kenmore

def kenmore : Component Kenmore.IR where
  tempUp := .tempUp
  tempDown := .tempDown
  changeMode := Kenmore.changeMode
  changeFan := Kenmore.changeFan
  onPower := Kenmore.onPower

end Isz.Climate
