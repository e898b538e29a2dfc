import Isz.Amdgpu.Encoding
import Isz.Library.Codec
import Isz.Library.Text
import Mathlib.Algebra.Ring.Int.Defs

namespace Isz.QtInstaller

open Codec Amdgpu

inductive Error where
  | osError
  | valueError
  | eofError
  | memoryError
  | unicodeDecodeError
  | validationNotEqualError
  deriving DecidableEq

abbrev Read (α : Type) := Reader Error α

section Primitives

def readBytes (n : Nat) : Read (List UInt8) := fun bytes =>
  if n ≤ bytes.length then .ok (bytes.take n, bytes.drop n) else .error .eofError

theorem readBytes_decodes (n : Nat) :
    Decodes (readBytes n) (fun b => b.length = n) fun b => b := by
  intro bytes b rest
  rw [readBytes]
  split
  case isTrue h =>
    rw [Except.ok.injEq, Prod.mk.injEq]
    constructor
    · rintro ⟨rfl, rfl⟩
      exact ⟨List.length_take_of_le h, (List.take_append_drop n bytes).symm⟩
    · rintro ⟨rfl, rfl⟩
      exact ⟨List.take_left, List.drop_left⟩
  case isFalse h =>
    refine iff_of_false (by simp) ?_
    rintro ⟨rfl, rfl⟩
    exact h (by simp)

def contents (tag : List UInt8) : Read Unit := do
  let signature ← readBytes tag.length
  if signature = tag then pure () else throw .validationNotEqualError

theorem littleEndian_lt (bytes : List UInt8) : littleEndian bytes < 256 ^ bytes.length := by
  induction bytes with
  | nil => exact Nat.one_pos
  | cons b bytes ih =>
    have hb := b.toNat_lt
    rw [littleEndian, List.length_cons, Nat.pow_succ']
    omega

theorem toLittleEndian_littleEndian (bytes : List UInt8) :
    toLittleEndian bytes.length (littleEndian bytes) = bytes := by
  induction bytes with
  | nil => rfl
  | cons b bytes ih =>
    have hb := b.toNat_lt
    rw [List.length_cons, toLittleEndian, littleEndian]
    congr 1
    · refine UInt8.toNat_inj.mp ?_
      rw [UInt8.toNat_ofNat']
      omega
    · rw [Nat.add_mul_div_left _ _ (by decide), Nat.div_eq_of_lt hb, Nat.zero_add, ih]

theorem contents_decodes (tag : List UInt8) :
    Decodes (contents tag) (fun _ => True) fun _ => tag := by
  have hcheck : ∀ b, Decodes
      (if b = tag then pure () else throw .validationNotEqualError : Read Unit)
      (fun _ => b = tag) fun _ => [] := by
    intro b
    split
    case isTrue h => exact (Decodes.pure ()).congr (by simp [h]) fun _ _ => rfl
    case isFalse h => exact (Decodes.throw _ _).congr (by simp [h]) fun _ _ => rfl
  refine ((readBytes_decodes tag.length).bind (fun _ => tag) hcheck fun b _ _ h => h.symm).congr
    ?_ ?_
  · simp
  · simp

def readU1 : Read UInt8 := fun
  | [] => .error .eofError
  | b :: rest => .ok (b, rest)

theorem readU1_decodes : Decodes readU1 (fun _ => True) fun b => [b] := by
  intro bytes b rest
  cases bytes with
  | nil => simp [readU1]
  | cons b' bytes => simp [readU1]

def readU8le : Read Nat := do
  let bytes ← readBytes 8
  pure (littleEndian bytes)

def readS8le : Read Int := do
  let v ← readU8le
  pure (if v < 2 ^ 63 then v else v - 2 ^ 64)

def IsU8 (v : Nat) : Prop := v < 2 ^ 64

def IsS8 (v : Int) : Prop := -2 ^ 63 ≤ v ∧ v < 2 ^ 63

def u8le (v : Nat) : List UInt8 := toLittleEndian 8 v

def s8le (v : Int) : List UInt8 := u8le (v % 2 ^ 64).toNat

theorem readU8le_decodes : Decodes readU8le IsU8 u8le := by
  refine ((readBytes_decodes 8).bind u8le (fun b => .pure (littleEndian b)) ?_).congr ?_ ?_
  · rintro b v hb rfl
    rw [u8le, ← hb, toLittleEndian_littleEndian]
  · intro v
    rw [u8le, length_toLittleEndian, IsU8]
    constructor
    · rintro ⟨-, hv⟩
      have hlt := littleEndian_lt (toLittleEndian 8 v)
      rwa [← hv, length_toLittleEndian] at hlt
    · exact fun hv => ⟨rfl, (littleEndian_toLittleEndian hv).symm⟩
  · intro v _
    exact List.append_nil _

theorem readS8le_decodes : Decodes readS8le IsS8 s8le := by
  refine (readU8le_decodes.bind (fun v : Int => (v % 2 ^ 64).toNat) (fun n => .pure _) ?_).congr
    ?_ ?_
  · intro n v hn hv
    rw [IsU8] at hn
    split at hv <;> omega
  · intro v
    rw [IsU8, IsS8]
    split <;> omega
  · intro v _
    exact List.append_nil _

@[simp] theorem length_u8le (v : Nat) : (u8le v).length = 8 := length_toLittleEndian 8 v

@[simp] theorem length_s8le (v : Int) : (s8le v).length = 8 := length_u8le _

def utf8 (s : Str) : List UInt8 := s.flatMap String.utf8EncodeChar

def decodeUtf8 (bytes : List UInt8) : Option Str :=
  bytes.toByteArray.utf8Decode?.map Array.toList

theorem decodeUtf8_eq_some {bytes : List UInt8} {s : Str} :
    decodeUtf8 bytes = some s ↔ bytes = utf8 s := by
  rw [decodeUtf8, Option.map_eq_some_iff]
  constructor
  · rintro ⟨chars, hchars, rfl⟩
    have hsome : bytes.toByteArray.utf8Decode?.isSome := by rw [hchars]; rfl
    have hencode := ByteArray.utf8Encode_get_utf8Decode? (h := hsome)
    rw [Option.get_of_eq_some hsome hchars] at hencode
    exact (List.toByteArray_inj.mp hencode).symm
  · rintro rfl
    exact ⟨_, List.utf8Decode?_utf8Encode, List.toList_toArray⟩

def readString : Read Str := do
  let size ← readU8le
  let value ← readBytes size
  match decodeUtf8 value with
  | some s => pure s
  | none => throw .unicodeDecodeError

def IsString (s : Str) : Prop := IsU8 (utf8 s).length

def string (s : Str) : List UInt8 := u8le (utf8 s).length ++ utf8 s

theorem readString_decodes : Decodes readString IsString string := by
  have hdecode : ∀ value, Decodes (match decodeUtf8 value with
      | some s => pure s
      | none => throw .unicodeDecodeError : Read Str) (fun s => value = utf8 s) fun _ => [] := by
    intro value
    split
    case h_1 s hs =>
      refine (Decodes.pure s).congr (fun s' => ?_) fun _ _ => rfl
      rw [← decodeUtf8_eq_some, hs, Option.some.injEq, eq_comm]
    case h_2 hnone =>
      refine (Decodes.throw _ _).congr (fun s => ?_) fun _ _ => rfl
      rw [← decodeUtf8_eq_some, hnone]
      simp
  refine (readU8le_decodes.bind (fun s => (utf8 s).length) (fun size =>
    (readBytes_decodes size).bind utf8 hdecode fun b s _ h => h.symm) ?_).congr ?_ ?_
  · rintro size s - ⟨hlength, -⟩
    exact hlength
  · exact fun s => and_iff_left ⟨rfl, rfl⟩
  · intro s _
    rw [List.append_nil, string]

end Primitives

section Records

structure Range where
  startRead : Int
  size : Int
  deriving DecidableEq

def readRange : Read Range := do
  let startRead ← readS8le
  let size ← readS8le
  pure ⟨startRead, size⟩

def Range.Valid (r : Range) : Prop := IsS8 r.startRead ∧ IsS8 r.size

def Range.encode (r : Range) : List UInt8 := s8le r.startRead ++ s8le r.size

theorem readRange_decodes : Decodes readRange Range.Valid Range.encode :=
  readS8le_decodes.pair readS8le_decodes Range.startRead Range.size fun _ _ r => by
    cases r
    simp

-- resolve_enum lets a type that it does not know pass
structure Tagged (signature : List UInt8) where
  type : UInt8
  deriving DecidableEq

def readTagged (signature : List UInt8) : Read (Tagged signature) := do
  let type ← readU1
  contents signature
  pure ⟨type⟩

def Tagged.encode {signature : List UInt8} (t : Tagged signature) : List UInt8 :=
  t.type :: signature

theorem readTagged_decodes (signature : List UInt8) :
    Decodes (readTagged signature) (fun _ => True) Tagged.encode :=
  (readU1_decodes.pair (contents_decodes signature) Tagged.type (fun _ => ()) fun _ _ t => by
    cases t
    simp).congr (fun _ => and_iff_left trivial) fun _ _ => rfl

abbrev MarkerIdentifier := Tagged [0x32, 0x02, 0x12]

abbrev CookieIdentifier := Tagged [0x68, 0xD6, 0x99, 0x1C, 0x0A, 0x63, 0xC2]

structure Header where
  metaResourcesCount : Nat
  unkn : List Nat
  cookie : CookieIdentifier
  deriving DecidableEq

def readHeader : Read Header := do
  let metaResourcesCount ← readU8le
  let unkn ← times readU8le 2
  let cookie ← readTagged _
  pure ⟨metaResourcesCount, unkn, cookie⟩

structure Header.Valid (h : Header) : Prop where
  count : IsU8 h.metaResourcesCount
  unkn : h.unkn.length = 2 ∧ ∀ v ∈ h.unkn, IsU8 v

def Header.encode (h : Header) : List UInt8 :=
  u8le h.metaResourcesCount ++ (h.unkn.flatMap u8le ++ h.cookie.encode)

theorem readHeader_decodes : Decodes readHeader Header.Valid Header.encode :=
  (readU8le_decodes.triple (readU8le_decodes.times 2) (readTagged_decodes _)
    Header.metaResourcesCount Header.unkn Header.cookie fun _ _ _ h => by
      cases h
      simp).congr (fun _ => ⟨fun h => ⟨h.1, h.2.1⟩, fun h => ⟨h.count, h.unkn, trivial⟩⟩)
    fun _ _ => rfl

structure BinaryDescriptor where
  resourcesCount : Int
  binaryContentSize : Int
  marker : MarkerIdentifier
  deriving DecidableEq

def readBinaryDescriptor : Read BinaryDescriptor := do
  let resourcesCount ← readS8le
  let binaryContentSize ← readS8le
  let marker ← readTagged _
  pure ⟨resourcesCount, binaryContentSize, marker⟩

structure BinaryDescriptor.Valid (d : BinaryDescriptor) : Prop where
  count : IsS8 d.resourcesCount
  size : IsS8 d.binaryContentSize

def BinaryDescriptor.encode (d : BinaryDescriptor) : List UInt8 :=
  s8le d.resourcesCount ++ (s8le d.binaryContentSize ++ d.marker.encode)

theorem readBinaryDescriptor_decodes :
    Decodes readBinaryDescriptor BinaryDescriptor.Valid BinaryDescriptor.encode :=
  (readS8le_decodes.triple readS8le_decodes (readTagged_decodes _)
    BinaryDescriptor.resourcesCount BinaryDescriptor.binaryContentSize BinaryDescriptor.marker
    fun _ _ _ d => by
      cases d
      simp).congr (fun _ => ⟨fun h => ⟨h.1, h.2.1⟩, fun h => ⟨h.count, h.size, trivial⟩⟩)
    fun _ _ => rfl

structure SegmentsDescriptor where
  resourceCollectionsSegment : Range
  metaResourceSegments : List Range
  operationsSegment : Range
  deriving DecidableEq

def readSegmentsDescriptor (metaResourcesCount : Nat) : Read SegmentsDescriptor := do
  let resourceCollectionsSegment ← readRange
  let metaResourceSegments ← times readRange metaResourcesCount
  let operationsSegment ← readRange
  pure ⟨resourceCollectionsSegment, metaResourceSegments, operationsSegment⟩

structure SegmentsDescriptor.Valid (metaResourcesCount : Nat) (d : SegmentsDescriptor) : Prop where
  collections : d.resourceCollectionsSegment.Valid
  resources : d.metaResourceSegments.length = metaResourcesCount ∧
    ∀ r ∈ d.metaResourceSegments, r.Valid
  operations : d.operationsSegment.Valid

def SegmentsDescriptor.encode (d : SegmentsDescriptor) : List UInt8 :=
  d.resourceCollectionsSegment.encode ++
    (d.metaResourceSegments.flatMap Range.encode ++ d.operationsSegment.encode)

theorem readSegmentsDescriptor_decodes (n : Nat) :
    Decodes (readSegmentsDescriptor n) (SegmentsDescriptor.Valid n) SegmentsDescriptor.encode :=
  (readRange_decodes.triple (readRange_decodes.times n) readRange_decodes
    SegmentsDescriptor.resourceCollectionsSegment SegmentsDescriptor.metaResourceSegments
    SegmentsDescriptor.operationsSegment fun _ _ _ d => by
      cases d
      simp).congr (fun _ => ⟨fun h => ⟨h.1, h.2.1, h.2.2⟩,
        fun h => ⟨h.collections, h.resources, h.operations⟩⟩) fun _ _ => rfl

structure Entry where
  name : Str
  segment : Range
  deriving DecidableEq

def readEntry : Read Entry := do
  let name ← readString
  let segment ← readRange
  pure ⟨name, segment⟩

def Entry.Valid (e : Entry) : Prop := IsString e.name ∧ e.segment.Valid

def Entry.encode (e : Entry) : List UInt8 := string e.name ++ e.segment.encode

theorem readEntry_decodes : Decodes readEntry Entry.Valid Entry.encode :=
  readString_decodes.pair readRange_decodes Entry.name Entry.segment fun _ _ e => by
    cases e
    simp

abbrev Collection := Entry

abbrev Resource := Entry

structure Collections where
  count : Int
  collections : List Collection

-- the range of a negative count is empty
def readCollections : Read Collections := do
  let count ← readS8le
  let collections ← times readEntry count.toNat
  pure ⟨count, collections⟩

def Collections.Valid (c : Collections) : Prop :=
  IsS8 c.count ∧ c.collections.length = c.count.toNat ∧ ∀ e ∈ c.collections, e.Valid

def Collections.encode (c : Collections) : List UInt8 :=
  s8le c.count ++ c.collections.flatMap Entry.encode

theorem readCollections_decodes :
    Decodes readCollections Collections.Valid Collections.encode :=
  readS8le_decodes.counted readEntry_decodes Int.toNat Collections.count Collections.collections
    fun _ _ c => by
      cases c
      simp

structure Segment where
  count : Nat
  resources : List Resource

def readSegment : Read Segment := do
  let count ← readU8le
  let resources ← times readEntry count
  pure ⟨count, resources⟩

def Segment.Valid (s : Segment) : Prop :=
  IsU8 s.count ∧ s.resources.length = s.count ∧ ∀ e ∈ s.resources, e.Valid

def Segment.encode (s : Segment) : List UInt8 := u8le s.count ++ s.resources.flatMap Entry.encode

theorem readSegment_decodes : Decodes readSegment Segment.Valid Segment.encode :=
  readU8le_decodes.counted readEntry_decodes id Segment.count Segment.resources fun _ _ s => by
    cases s
    simp

end Records

end Isz.QtInstaller
