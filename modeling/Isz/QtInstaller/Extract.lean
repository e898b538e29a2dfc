import Isz.Library.Trace
import Isz.QtInstaller.Format

namespace Isz.QtInstaller

open Codec

-- what is read of a file at most, all of it in any case, and where it can be sought
structure Image where
  bytes : List UInt8
  maxOffset : Nat
  maxRead : Nat
  fits : bytes.length ≤ maxOffset
  readable : bytes.length ≤ maxRead

namespace Image

variable (f : Image)

def seek (pos : Int) : Except Error Nat :=
  if 0 ≤ pos ∧ pos ≤ f.maxOffset then .ok pos.toNat else .error .osError

def parse {α : Type} (p : Read α) (bytes : List UInt8) : Except Error α :=
  (p bytes).map Prod.fst

def readAt (pos size : Int) : Except Error (List UInt8) := do
  let start ← f.seek pos
  if size < 0 then .error .valueError
  else parse (readBytes size.toNat) (f.bytes.drop start)

def parseAt {α : Type} (pos size : Int) (p : Read α) : Except Error α := do
  let raw ← f.readAt pos size
  parse p raw

variable {f} {α : Type} {p : Read α} {valid : α → Prop} {encode : α → List UInt8}

theorem seek_ok {pos : Int} {start : Nat} :
    f.seek pos = .ok start ↔ 0 ≤ pos ∧ pos ≤ f.maxOffset ∧ start = pos.toNat := by
  rw [seek]
  split
  case isTrue h => simp [h, eq_comm]
  case isFalse h => simp only [reduceCtorEq, false_iff]; tauto

theorem parse_ok (h : Decodes p valid encode) {bytes : List UInt8} {x : α} :
    parse p bytes = .ok x ↔ valid x ∧ encode x <+: bytes := by
  have hmap : parse p bytes = .ok x ↔ ∃ rest, p bytes = .ok (x, rest) := by
    rw [parse]
    cases p bytes with
    | ok y => simp [Except.map, Prod.ext_iff]
    | error e => simp [Except.map]
  simp only [hmap, h bytes, exists_and_left, List.IsPrefix, eq_comm]

theorem readAt_ok {pos size : Int} {raw : List UInt8} :
    f.readAt pos size = .ok raw ↔ (0 ≤ pos ∧ pos ≤ f.maxOffset) ∧ (raw.length : Int) = size ∧
      raw <+: f.bytes.drop pos.toNat := by
  rw [readAt, Except.bind_eq_ok]
  simp only [seek_ok]
  constructor
  · rintro ⟨start, ⟨hpos, hmax, rfl⟩, hraw⟩
    split at hraw
    case isTrue => cases hraw
    case isFalse hsize =>
      obtain ⟨hlength, hprefix⟩ := (parse_ok (readBytes_decodes _)).mp hraw
      exact ⟨⟨hpos, hmax⟩, by omega, hprefix⟩
  · rintro ⟨⟨hpos, hmax⟩, rfl, hprefix⟩
    refine ⟨pos.toNat, ⟨hpos, hmax, rfl⟩, ?_⟩
    rw [if_neg (by omega)]
    exact (parse_ok (readBytes_decodes _)).mpr ⟨(Int.toNat_natCast _).symm, hprefix⟩

theorem parseAt_ok (h : Decodes p valid encode) (hne : ∀ x, encode x ≠ []) {pos size : Int}
    {x : α} : f.parseAt pos size p = .ok x ↔ valid x ∧ Within f.bytes pos size (encode x) := by
  rw [parseAt, Except.bind_eq_ok]
  simp only [readAt_ok, parse_ok h]
  constructor
  · rintro ⟨raw, ⟨⟨hpos, -⟩, hsize, hraw⟩, hvalid, rest, rfl⟩
    refine ⟨hvalid, rest, at_iff.mpr ⟨hpos, ?_, hraw⟩, hsize⟩
    have hle := hraw.length_le
    have hlength := List.length_pos_of_ne_nil (hne x)
    rw [List.length_append, List.length_drop] at hle
    omega
  · rintro ⟨hvalid, rest, hat, hsize⟩
    obtain ⟨hpos, hle, hprefix⟩ := at_iff.mp hat
    have hfits := f.fits
    exact ⟨_, ⟨⟨hpos, by omega⟩, hsize, hprefix⟩, hvalid, rest, rfl⟩

end Image

def MAGIC : List UInt8 := [0xf8, 0x68, 0xd6, 0x99, 0x1c, 0x0a, 0x63, 0xc2]

def find (sub : List UInt8) : List UInt8 → Option Nat
  | [] => if sub = [] then some 0 else none
  | b :: bytes => if sub <+: b :: bytes then some 0 else (find sub bytes).map (· + 1)

def findMagic (f : Image) : Except Error Int :=
  if f.bytes.length < 1024 * 1024 then .error .osError
  else
    let offset := f.bytes.length - 1024 * 1024
    .ok (match find MAGIC (f.bytes.drop offset) with
      | some n => offset + n
      | none => offset - 1)

structure QtInstallerFramework where
  io : Image
  magicCookieOffset : Int

namespace QtInstallerFramework

variable (root : QtInstallerFramework)

def endOfBinaryContent : Int := root.magicCookieOffset + 8

def header : Except Error Header := do
  let start ← root.io.seek (root.endOfBinaryContent - 32)
  Image.parse readHeader (root.io.bytes.drop start)

def otherStuffSize : Int := 4 * 8

def binaryDescriptorOffset : Int := root.endOfBinaryContent - otherStuffSize

def binaryDescriptor : Except Error BinaryDescriptor :=
  root.io.parseAt root.binaryDescriptorOffset 20 readBinaryDescriptor

def sizeOfSegmentDescriptor (header : Header) : Int := (header.metaResourcesCount + 2) * 16

def segmentsDescriptor (header : Header) : Except Error SegmentsDescriptor :=
  root.io.parseAt (root.binaryDescriptorOffset - sizeOfSegmentDescriptor header)
    (sizeOfSegmentDescriptor header) (readSegmentsDescriptor header.metaResourcesCount)

def endOfExecutable (descriptor : BinaryDescriptor) : Int :=
  root.endOfBinaryContent - descriptor.binaryContentSize

end QtInstallerFramework

def Range.start (r : Range) (endOfExecutable : Int) : Int := endOfExecutable + r.startRead

-- file is the one that a path names, never the installer itself
structure Destination where
  path : Str
  opens : Str → Except Error Unit
  file : Str → Nat
  installer : Nat
  apart : ∀ path, opens path = .ok () → file path ≠ installer

def join (path name : Str) : Str :=
  match name with
  | '/' :: _ => name
  | _ => if path = [] ∨ path.getLast? = some '/' then path ++ name else path ++ '/' :: name

inductive Event where
  | collection (i : Nat) (name : Str)
  | resource (j : Nat) (name : Str) (start size : Int)
  | write (path : Str) (bytes : List UInt8)
  deriving DecidableEq

abbrev Run := Trace Event Error Unit

section Main

variable (f : Image) (extract : Option Destination) (endOfExecutable : Int)

def data (r : Range) : List UInt8 :=
  let rest := f.bytes.drop (r.start endOfExecutable).toNat
  if r.size = -1 then rest else rest.take r.size.toNat

-- open has emptied the file before read raises
def extractResource (destination : Destination) (resource : Resource) : Run := do
  let _ ← Trace.lift (f.seek (resource.segment.start endOfExecutable))
  let path := join destination.path resource.name
  Trace.lift (destination.opens path)
  if resource.segment.size < -1 then do
    Trace.send (.write path [])
    Trace.raise .valueError
  else if f.maxRead < resource.segment.size then do
    Trace.send (.write path [])
    Trace.raise .memoryError
  else Trace.send (.write path (data f endOfExecutable resource.segment))

def visitResource (j : Nat) (resource : Resource) : Run := do
  Trace.send (.resource j resource.name (resource.segment.start endOfExecutable)
    resource.segment.size)
  match extract with
  | some destination => extractResource f endOfExecutable destination resource
  | none => pure ()

def visitCollection (i : Nat) (collection : Collection) : Run := do
  Trace.send (.collection i collection.name)
  let segment ← Trace.lift (f.parseAt (collection.segment.start endOfExecutable)
    collection.segment.size readSegment)
  segment.resources.zipIdx.forM fun resource =>
    visitResource f extract endOfExecutable resource.2 resource.1

end Main

def main (f : Image) (extract : Option Destination) : Run := do
  let magicPos ← Trace.lift (findMagic f)
  let root : QtInstallerFramework := ⟨f, magicPos⟩
  let header ← Trace.lift root.header
  let descriptor ← Trace.lift root.binaryDescriptor
  let segments ← Trace.lift (root.segmentsDescriptor header)
  let endOfExecutable := root.endOfExecutable descriptor
  let range := segments.resourceCollectionsSegment
  let collections ← Trace.lift (f.parseAt (range.start endOfExecutable) range.size readCollections)
  collections.collections.zipIdx.forM fun collection =>
    visitCollection f extract endOfExecutable collection.2 collection.1

end Isz.QtInstaller
