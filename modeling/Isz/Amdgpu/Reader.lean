import Isz.Amdgpu.Histogram
import Isz.Amdgpu.Layout
import Isz.Library.Runs

namespace Isz.Amdgpu

inductive Error where
  | badHeader
  | badVersion
  | badLength
  | io
  deriving DecidableEq

def revisionOf (header : Header) : Option Revision :=
  match header.formatRevision, header.contentRevision with
  | 1, 0 => some .v1_0
  | 1, 1 => some .v1_1
  | 1, 2 => some .v1_2
  | 1, 3 => some .v1_3
  | 2, 0 => some .v2_0
  | 2, 1 => some .v2_1
  | 2, 2 => some .v2_2
  | 2, 3 => some .v2_3
  | _, _ => none

-- the match on the revision that the macro gives both conversions
def checkRevision (r : Revision) (m : Metrics) : Except Error Metrics :=
  if m.commonHeader.formatRevision = r.format ∧ m.commonHeader.contentRevision = r.content then
    .ok m
  else .error .badVersion

-- TryFrom<&[u8]>
def tryFrom (r : Revision) (buf : List UInt8) : Except Error Metrics :=
  if buf.length < r.size then .error .badLength
  else checkRevision r (readMetrics r (buf.take r.size))

def parseMetrics (buf : List UInt8) : Except Error Metrics :=
  if buf.length < headerSize then .error .badHeader
  else
    let header := readHeader buf
    if header.structureSize ≠ buf.length then .error .badLength
    else
      match revisionOf header with
      | some r => tryFrom r buf
      | none => .error .badVersion

structure File where
  content : List UInt8
  position : Nat

namespace File

-- a read that meets the end of the file has consumed what was left
def readFromIo (f : File) (size : Nat) : Except Error (List UInt8) × File :=
  if f.position + size ≤ f.content.length then
    (.ok ((f.content.drop f.position).take size), { f with position := f.position + size })
  else (.error .io, { f with position := max f.position f.content.length })

def seekStart (f : File) : File := { f with position := 0 }

end File

def tryFromFile (r : Revision) (f : File) : Except Error Metrics × File :=
  match f.seekStart.readFromIo r.size with
  | (.ok buf, f) => (checkRevision r (readMetrics r buf), f)
  | (.error e, f) => (.error e, f)

-- one call of record_weighted; index is none for a field that is no array
structure WeightedValue where
  field : String
  index : Option Nat
  value : Nat
  weight : Nat
  deriving DecidableEq

def Field.Recorded (f : Field) : Prop :=
  f.name ≠ "padding" ∧ f.name ≠ "system_clock_counter" ∧ (f.count = none → f.type ≠ .u8)

instance (f : Field) : Decidable f.Recorded := inferInstanceAs (Decidable (_ ∧ _ ∧ (_ → _)))

def recordCalls (m : Metrics) (weight : Nat) : List WeightedValue :=
  (m.values.filter fun e => e.1.Recorded).flatMap fun (f, values) =>
    match f.count with
    | none => values.map fun value => ⟨f.name, none, value, weight⟩
    | some _ => values.zipIdx.map fun (value, i) => ⟨f.name, some i, value, weight⟩

structure Recorder where
  revision : Revision
  lastSystemClockCounter : Option Nat
  calls : List WeightedValue
  deriving DecidableEq

namespace Recorder

def fresh (r : Revision) : Recorder := ⟨r, none, []⟩

def record (r : Recorder) (m : Metrics) : Except Fault Recorder :=
  match r.lastSystemClockCounter with
  | none => .ok { r with lastSystemClockCounter := some m.systemClockCounter }
  | some last =>
    if last ≤ m.systemClockCounter then
      .ok { r with
        lastSystemClockCounter := some m.systemClockCounter
        calls := r.calls ++ recordCalls m (m.systemClockCounter - last) }
    else .error .overflow

def new (f : File) : Except Error Recorder × File :=
  match f.readFromIo headerSize with
  | (.ok buf, f) =>
    match revisionOf (readHeader buf) with
    | some r => (.ok (fresh r), f)
    | none => (.error .badVersion, f)
  | (.error e, f) => (.error e, f)

end Recorder

inductive Sampled where
  | recorded (r : Recorder) (m : Metrics)
  | failed (e : Error)
  | panicked (fault : Fault)

def Recorder.sample (r : Recorder) (f : File) : Sampled × File :=
  match tryFromFile r.revision f with
  | (.ok m, f) =>
    match r.record m with
    | .ok r => (.recorded r m, f)
    | .error fault => (.panicked fault, f)
  | (.error e, f) => (.failed e, f)

-- the seek position of the file and self.r; the content of the file is given with each call
structure MetricsReader where
  position : Nat
  r : Recorder
  deriving DecidableEq

namespace MetricsReader

def new (content : List UInt8) : Except Error MetricsReader :=
  match Recorder.new ⟨content, 0⟩ with
  | (.ok r, f) => .ok ⟨f.position, r⟩
  | (.error e, _) => .error e

-- none where the call panics
def record (self : MetricsReader) (content : List UInt8) :
    Option (MetricsReader × Except Error Unit) :=
  match self.r.sample ⟨content, self.position⟩ with
  | (.recorded r _, f) => some (⟨f.position, r⟩, .ok ())
  | (.failed _, f) =>
    match Recorder.new f with
    | (.ok r, f) => some (⟨f.position, r⟩, .ok ())
    | (.error e, f) => some (⟨f.position, self.r⟩, .error e)
  | (.panicked _, _) => none

def step (self : MetricsReader) (content : List UInt8) : Option MetricsReader :=
  (self.record content).map Prod.fst

end MetricsReader

end Isz.Amdgpu
