import Isz.Library.Dict
import Isz.Mikrotik.Duration

namespace Isz.Mikrotik

open PyNumber

inductive Value where
  | int (x : Int)
  | float (x : PyFloat)
  | bool (b : Bool)
  | str (s : Str)

abbrev Fields := List (Str × Value)

abbrev Tags := List (Str × Str)

-- what a parser returns: a dict, or a list of tags with fields
inductive Parsed where
  | dict (fields : Fields)
  | list (points : List (Tags × Fields))

-- d | e
def union {V : Type} (d e : List (Str × V)) : List (Str × V) :=
  e.foldl (fun d x => assign d x.1 x.2) d

def unpack2 : List Str → Except PyError (Str × Str)
  | [a, b] => .ok (a, b)
  | _ => .error .valueError

def unpack3 : List Str → Except PyError (Str × Str × Str)
  | [a, b, c] => .ok (a, b, c)
  | _ => .error .valueError

-- s.split(c, 1)
def splitOnce (c : Char) (s : Str) : List Str :=
  if c ∈ s then [s.takeWhile (· ≠ c), (s.dropWhile (· ≠ c)).drop 1] else [s]

-- s.split(", ")
def splitCommaSpace : Str → List Str
  | [] => [[]]
  | ',' :: ' ' :: s => [] :: splitCommaSpace s
  | c :: s =>
    match splitCommaSpace s with
    | [] => [[c]]
    | part :: parts => (c :: part) :: parts

section Parsers

variable (py : Interpreter)

def toInt (base value : Str) : Except PyError Fields := do
  pure [(base, .int (← int py value))]

def toIntBaseN (base value : Str) : Except PyError Fields := do
  pure [(base, .int (← intBase0 py value))]

def toTxrx (base value : Str) : Except PyError Fields := do
  let (tx, rx) ← unpack2 (value.splitOn ',')
  pure [("tx-".toList ++ base, .int (← int py tx)), ("rx-".toList ++ base, .int (← int py rx))]

def toBool (base value : Str) : Except PyError Fields :=
  if value = "true".toList then .ok [(base, .bool true)]
  else if value = "false".toList then .ok [(base, .bool false)]
  else .error .valueError

-- int(float(num[:-4]) * scale)
def rateOf (num : Str) (scale : ℚ) : Except PyError Int := do
  let x ← float py (num.take (num.length - 4))
  (← Number.mul py (.float x) (.float (py.round scale))).toInt

def toRate (base value : Str) : Except PyError Fields := do
  if base ≠ "rate".toList ∧ ¬"-rate".toList <:+ base then throw .valueError
  let d := [(base ++ "-name".toList, .str value)]
  let num := value.takeWhile (· ≠ '-')
  let d ← if "Mbps".toList <:+ num then do pure (assign d base (.int (← rateOf py num (10 ^ 6))))
    else pure d
  if "Gbps".toList <:+ num then pure (assign d base (.int (← rateOf py num (10 ^ 9))))
  else pure d

-- what to_channel reads from "20-Ceee" and the like; a ValueError keeps ret as it is
def channelBounds (base bands : Str) (center : Int) : Except PyError Fields := do
  let (width, bands) ← unpack2 (bands.splitOn '-')
  let width ← int py width
  let (before, after) ← unpack2 (bands.splitOn 'C')
  let lower := center - width * before.length - width.fdiv 2
  let upper := center + width * after.length + width.fdiv 2
  pure [(base ++ "-lower-frequency".toList, .int (lower * 1000000)),
    (base ++ "-upper-frequency".toList, .int (upper * 1000000))]

def toChannel (base value : Str) : Except PyError Fields := do
  let freqBandsMode := value.takeWhile (· ≠ '+')
  let (center, bands, _) ← unpack3 (freqBandsMode.splitOn '/')
  let center ← int py center
  let ret := [(base ++ "-name".toList, .str value),
    (base ++ "-center-frequency".toList, .int (center * 1000000))]
  match channelBounds py base bands center with
  | .ok bounds => pure (union ret bounds)
  | .error .valueError => pure ret
  | .error e => throw e

def durationFields (base value : Str) : Except PyError Fields := do
  pure ((← toDuration py base value).map fun (k, x) => (k, .int x))

def toSignal (base value : Str) : Except PyError Fields := do
  let (rssi, rate) ← unpack2 (splitOnce '@' value)
  pure (union (← toInt py base rssi) (← toRate py (base ++ "-rate".toList) rate))

def toStrengthAtRates (base value : Str) : Except PyError (List (Tags × Fields)) :=
  (value.splitOn ',').mapM fun part => do
    let (rssiRate, age) ← unpack2 (part.splitOn ' ')
    let (rssi, rate) ← unpack2 (rssiRate.splitOn '@')
    let fields ← toInt py base rssi
    pure ([("rate".toList, rate)], union fields (← durationFields py (base ++ "-age".toList) age))

def toCurrentTxPowers (base value : Str) : Except PyError (List (Tags × Fields)) :=
  (value.splitOn ',').mapM fun part => do
    let (rate, power) ← unpack2 (part.splitOn ':')
    let (power, _) ← unpack2 (power.splitOn '(')
    pure ([("rate".toList, rate)], ← toInt py base power)

def toExpiresAfter (base value : Str) : Except PyError Fields :=
  match splitCommaSpace value with
  | first :: second :: _ => do
    let expires ← durationFields py (base ++ "-expires-after".toList) second
    pure (union [(base, .str first)] expires)
  | parts => pure (parts.map fun first => (base, .str first))

def toBandwidth (base value : Str) : Except PyError Fields :=
  (["rx".toList, "tx".toList].zip (splitOnce '/' value)).mapM fun (suffix, value) => do
    let x ← if value = "unlimited".toList then pure (-1) else int py value
    pure (base ++ '-' :: suffix, .int x)

def toFloat (base value : Str) : Except PyError Fields :=
  if base ≠ "sfp-supply-voltage".toList then .error .valueError
  else do pure [(base, .float (← float py value))]

def toEthernetRates (base value : Str) : Except PyError Parsed :=
  if value = [] then .ok (.dict [])
  else .ok (.list ((value.splitOn ',').map fun part =>
    ([("link-mode".toList, part)], [(base, .bool true)])))

def toStr (base value : Str) : Except PyError Fields := .ok [(base, .str value)]

def toBridgeId (base value : Str) : Except PyError Fields := do
  let (prio, mac) ← unpack2 (value.splitOn '.')
  pure [(base ++ "-priority".toList, .int (← intBase0 py prio)),
    (base ++ "-mac-address".toList, .str mac)]

end Parsers

-- good, stateEnabled and inBridge are the lambdas of TAGS
inductive ParseFunction where
  | toFloat
  | toInt
  | toDuration
  | toTxrx
  | toBool
  | toRate
  | toIntBaseN
  | toChannel
  | toSignal
  | toStrengthAtRates
  | toCurrentTxPowers
  | toExpiresAfter
  | toBandwidth
  | toEthernetRates
  | toStr
  | toBridgeId
  | good
  | stateEnabled
  | inBridge
  | other (f : Str → Str → Except PyError Parsed)

def ParseFunction.parse (py : Interpreter) (base value : Str) :
    ParseFunction → Except PyError Parsed
  | .toFloat => do pure (.dict (← Mikrotik.toFloat py base value))
  | .toInt => do pure (.dict (← Mikrotik.toInt py base value))
  | .toDuration => do pure (.dict (← durationFields py base value))
  | .toTxrx => do pure (.dict (← Mikrotik.toTxrx py base value))
  | .toBool => do pure (.dict (← Mikrotik.toBool base value))
  | .toRate => do pure (.dict (← Mikrotik.toRate py base value))
  | .toIntBaseN => do pure (.dict (← Mikrotik.toIntBaseN py base value))
  | .toChannel => do pure (.dict (← Mikrotik.toChannel py base value))
  | .toSignal => do pure (.dict (← Mikrotik.toSignal py base value))
  | .toStrengthAtRates => do pure (.list (← Mikrotik.toStrengthAtRates py base value))
  | .toCurrentTxPowers => do pure (.list (← Mikrotik.toCurrentTxPowers py base value))
  | .toExpiresAfter => do pure (.dict (← Mikrotik.toExpiresAfter py base value))
  | .toBandwidth => do pure (.dict (← Mikrotik.toBandwidth py base value))
  | .toEthernetRates => Mikrotik.toEthernetRates base value
  | .toStr => do pure (.dict (← Mikrotik.toStr base value))
  | .toBridgeId => do pure (.dict (← Mikrotik.toBridgeId py base value))
  | .good => .ok (.dict [(base ++ "-good".toList, .bool (value = "good".toList))])
  | .stateEnabled => .ok (.dict [("state-enabled".toList, .bool (value = "enabled".toList))])
  | .inBridge => .ok (.dict [(base ++ "-in-bridge".toList, .bool (value = "in-bridge".toList))])
  | .other f => f base value

def PARSERS : List ParseFunction := [.toFloat, .toInt, .toDuration, .toTxrx, .toBool, .toRate]

end Isz.Mikrotik
