import Isz.Library.Text
import Mathlib.Algebra.Order.Floor.Semiring
import Mathlib.Data.Rat.Floor
import Mathlib.Tactic.NormNum

namespace Isz.Hugoai

structure LightColorValues (Rest : Type) where
  brightness : ℚ
  red : ℚ
  green : ℚ
  blue : ℚ
  rest : Rest
  deriving DecidableEq

structure LightState (Rest : Type) where
  currentValues : LightColorValues Rest
  remoteValues : LightColorValues Rest
  published : Nat

-- parse_hex<uint16_t>, hsv_to_rgb, and what the setters of LightColorValues keep of a value
structure Esphome where
  parseHex : Str → Option Nat
  hsvToRgb : Nat → ℚ → ℚ → ℚ × ℚ × ℚ
  kept : ℚ → ℚ

inductive Fault where
  | outOfRange
  deriving DecidableEq

variable {Rest : Type}

def LightColorValues.rgb (values : LightColorValues Rest) : ℚ × ℚ × ℚ :=
  (values.red, values.green, values.blue)

def LightColorValues.paint (values : LightColorValues Rest) (brightness : ℚ)
    (rgb : ℚ × ℚ × ℚ) : LightColorValues Rest :=
  { values with brightness := brightness, red := rgb.1, green := rgb.2.1, blue := rgb.2.2 }

def LightState.publish (state : LightState Rest) : LightState Rest :=
  { state with published := state.published + 1 }

section Listener

variable (lib : Esphome)

def LightColorValues.set (values : LightColorValues Rest) (brightness : ℚ) (rgb : ℚ × ℚ × ℚ) :
    LightColorValues Rest :=
  values.paint (lib.kept brightness) (lib.kept rgb.1, lib.kept rgb.2.1, lib.kept rgb.2.2)

def update [DecidableEq Rest] (state : LightState Rest) (hue saturation value : Nat) :
    LightState Rest :=
  if state.currentValues ≠ state.remoteValues then state
  else
    let rgb := lib.hsvToRgb hue (saturation / 1000) 1
    if state.remoteValues.rgb = rgb then state
    else
      { state with
        currentValues := state.currentValues.set lib (value / 1000) rgb
        remoteValues := state.remoteValues.set lib (value / 1000) rgb }.publish

end Listener

def hexDigit (c : Char) : Option Nat :=
  if '0' ≤ c ∧ c ≤ '9' then some (c.toNat - '0'.toNat)
  else if 'A' ≤ c ∧ c ≤ 'F' then some (c.toNat - 'A'.toNat + 10)
  else if 'a' ≤ c ∧ c ≤ 'f' then some (c.toNat - 'a'.toNat + 10)
  else none

def hexNumber (s : Str) : Option Nat := (s.mapM hexDigit).map (·.foldl (16 * · + ·) 0)

def group (data : Str) (i : Nat) : Str := (data.drop (4 * i)).take 4

structure Numbers where
  hue : Nat
  saturation : Nat
  value : Nat
  deriving DecidableEq

def numbers (data : Str) : Option Numbers := do
  let hue ← hexNumber (group data 0)
  let saturation ← hexNumber (group data 1)
  let value ← hexNumber (group data 2)
  return ⟨hue, saturation, value⟩

def Numbers.brightness (n : Numbers) : ℚ := n.value / 1000

def Numbers.rgb (lib : Esphome) (n : Numbers) : ℚ × ℚ × ℚ :=
  lib.hsvToRgb n.hue (n.saturation / 1000) 1

structure Kept (lib : Esphome) (n : Numbers) : Prop where
  brightness : lib.kept n.brightness = n.brightness
  red : lib.kept (n.rgb lib).1 = (n.rgb lib).1
  green : lib.kept (n.rgb lib).2.1 = (n.rgb lib).2.1
  blue : lib.kept (n.rgb lib).2.2 = (n.rgb lib).2.2

structure Fits (lib : Esphome) (values : LightColorValues Rest) (data : Str) : Prop where
  offsets : 8 ≤ data.length
  full : ∀ n ∈ numbers data, 12 ≤ data.length →
    if values.rgb = n.rgb lib then values.brightness = n.brightness else Kept lib n
  short : ∀ n ∈ numbers data, 8 < data.length → data.length < 12 →
    values.rgb = n.rgb lib ∨ values.set lib n.brightness (n.rgb lib) = values

section Values

variable {lib : Esphome} {values : LightColorValues Rest}

end Values

section Listener

variable [DecidableEq Rest] {lib : Esphome} {state : LightState Rest} {data : Str}

end Listener

def fmod (x y : ℚ) : ℚ := x - y * ⌊x / y⌋

def hsvToRgb (hue : Nat) (saturation value : ℚ) : ℚ × ℚ × ℚ :=
  let chroma := value * saturation
  let huePrime := fmod (hue / 60) 6
  let intermediate := chroma * (1 - |fmod huePrime 2 - 1|)
  let delta := value - chroma
  let (red, green, blue) :=
    if huePrime < 1 then (chroma, intermediate, 0)
    else if huePrime < 2 then (intermediate, chroma, 0)
    else if huePrime < 3 then (0, chroma, intermediate)
    else if huePrime < 4 then (0, intermediate, chroma)
    else if huePrime < 5 then (intermediate, 0, chroma)
    else (chroma, 0, intermediate)
  (red + delta, green + delta, blue + delta)

end Isz.Hugoai
