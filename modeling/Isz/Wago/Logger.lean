import Isz.Library.Bufio
import Mathlib.Data.Rat.Init

namespace Isz.Wago

open Bufio

structure Status where
  deviceID : UInt8 × UInt8
  psuAmps : ℚ
  batteryVolts : ℚ
  batteryOutAmps : ℚ
  temperatureDegreesCelsius : ℚ
  outputVolts : ℚ
  psuVolts : ℚ
  batteryInAmps : ℚ
  status : UInt16
  switchPosition : UInt16
  deriving DecidableEq

def Status.zero : Status := ⟨(0, 0), 0, 0, 0, 0, 0, 0, 0, 0, 0⟩

inductive Field where
  | scaled (divisor : Nat) (set : Status → ℚ → Status)
  | word (set : Status → UInt16 → Status)

def tagToField : UInt8 → Option Field
  | 0 => some (.scaled 1000 fun s x => { s with psuAmps := x })
  | 1 => some (.scaled 100 fun s x => { s with batteryVolts := x })
  | 2 => some (.scaled 1000 fun s x => { s with batteryOutAmps := x })
  | 3 => some (.scaled 100 fun s x => { s with temperatureDegreesCelsius := x })
  | 4 => some (.scaled 100 fun s x => { s with outputVolts := x })
  | 5 => some (.scaled 100 fun s x => { s with psuVolts := x })
  | 6 => some (.scaled 1000 fun s x => { s with batteryInAmps := x })
  | 7 => some (.word fun s x => { s with status := x })
  | 8 => some (.word fun s x => { s with switchPosition := x })
  | _ => none

def bigEndian (hi lo : UInt8) : UInt16 := hi.toUInt16 <<< 8 ||| lo.toUInt16

def Field.read (f : Field) (s : Status) (hi lo : UInt8) : Status :=
  match f with
  | .scaled divisor set => set s ((bigEndian hi lo).toInt16.toInt / divisor)
  | .word set => set s (bigEndian hi lo)

inductive ParseError where
  | unknownTag (tag : UInt8)
  | eof
  | unexpectedEof
  deriving DecidableEq

def parseFields : List UInt8 → Status → Except ParseError Status
  | [], s => .ok s
  | tag :: rest, s =>
    match tagToField tag with
    | none => .error (.unknownTag tag)
    | some f =>
      match rest with
      | [] => .error .eof
      | [_] => .error .unexpectedEof
      | hi :: lo :: rest => parseFields rest (f.read s hi lo)

inductive Outcome where
  | failedChecksum
  | failedParse (e : ParseError)
  | reported (s : Status)
  | ignored
  deriving DecidableEq

structure Event where
  packet : List UInt8
  outcome : Outcome
  deriving DecidableEq

inductive Return where
  | nil
  | error (e : Bufio.Error)
  deriving DecidableEq

def checksum (packet : List UInt8) : UInt8 := packet.foldl (fun sum b => sum ^^^ b) 0

def payload (packet : List UInt8) : List UInt8 := (packet.take (packet.length - 1)).drop 6

def process (packet : List UInt8) (packetType : UInt8) (deviceID : UInt8 × UInt8) : Outcome :=
  if checksum packet ≠ 0 then .failedChecksum
  else if packetType = 3 then
    match parseFields (payload packet) .zero with
    | .error e => .failedParse e
    | .ok status => .reported { status with deviceID := deviceID }
  else .ignored

inductive Step (σ ε : Type) where
  | stop (ret : Return)
  | next (event : Option ε) (s : σ)

def run {σ ε : Type} (step : σ → Step σ ε) : Nat → σ → List ε × Option Return
  | 0, _ => ([], none)
  | fuel + 1, s =>
    match step s with
    | .stop ret => ([], some ret)
    | .next event s => (event.toList ++ (run step fuel s).1, (run step fuel s).2)

def visited {σ ε : Type} (step : σ → Step σ ε) : Nat → σ → List σ
  | 0, _ => []
  | fuel + 1, s =>
    s :: match step s with
      | .stop _ => []
      | .next _ s => visited step fuel s

section Runs

variable {σ ε : Type} {step : σ → Step σ ε} {fuel : Nat} {s : σ}

theorem run_stop {ret : Return} (h : step s = .stop ret) :
    run step (fuel + 1) s = ([], some ret) := by
  rw [run, h]

theorem run_next {event : Option ε} {s' : σ} (h : step s = .next event s') :
    run step (fuel + 1) s = (event.toList ++ (run step fuel s').1, (run step fuel s').2) := by
  rw [run, h]

theorem visited_stop {ret : Return} (h : step s = .stop ret) :
    visited step (fuel + 1) s = [s] := by
  rw [visited, h]

theorem visited_next {event : Option ε} {s' : σ} (h : step s = .next event s') :
    visited step (fuel + 1) s = s :: visited step fuel s' := by
  rw [visited, h]

end Runs

inductive Found where
  | stop (ret : Return)
  | skip (b : Reader)
  | header (header : Reader.Slice) (b : Reader)

def headerByte (b : Reader) (header : Reader.Slice) (i : Nat) : UInt8 :=
  b.buf.getD (header.start + i) 0

def findHeader (b : Reader) : Found :=
  match b.readByte with
  | (.error .eof, _) => .stop .nil
  | (.error e, _) => .stop (.error e)
  | (.ok c, b) =>
    if c = 0x55 then
      match b.unreadByte.2.peek 6 with
      | (_, some .eof, _) => .stop .nil
      | (_, some e, _) => .stop (.error e)
      | (header, none, b) =>
        if headerByte b header 0 ≠ 0x55 ∨ headerByte b header 1 ≠ 0xAA then .skip b.readByte.2
        else .header header b
    else .skip b

def packetSize (b : Reader) (header : Reader.Slice) : Nat :=
  header.len + (headerByte b header 5).toNat + 1

-- deviceID is a slice of the reader's array, read only when the packet has been
def readPacket (header : Reader.Slice) (b : Reader) : Step Reader Event :=
  let packetType := headerByte b header 4
  match b.readFull (packetSize b header) with
  | (_, some e, _) => .stop (.error e)
  | (packet, none, b) =>
    let deviceID := (headerByte b header 2, headerByte b header 3)
    .next (some ⟨packet, process packet packetType deviceID⟩) b

def step (b : Reader) : Step Reader Event :=
  match findHeader b with
  | .stop ret => .stop ret
  | .skip b => .next none b
  | .header header b => readPacket header b

def logData (f : Device) : List Event × Option Return :=
  run step (f.stream.length + 1) (newReader 4096 f)

def Outcome.status : Outcome → Option Status
  | .reported s => some s
  | _ => none

def statuses (events : List Event) : List Status := events.filterMap fun e => e.outcome.status

end Isz.Wago
