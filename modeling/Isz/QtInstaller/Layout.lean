import Isz.QtInstaller.Extract

namespace Isz.QtInstaller

open Codec

section Events

variable (f : Image) (extract : Option Destination) (endOfExecutable : Int)

def resourceEvents (j : Nat) (resource : Resource) : List Event :=
  .resource j resource.name (resource.segment.start endOfExecutable) resource.segment.size ::
    match extract with
    | some destination => [.write (join destination.path resource.name)
        (data f endOfExecutable resource.segment)]
    | none => []

def collectionEvents (i : Nat) (collection : Collection) (segment : Segment) : List Event :=
  .collection i collection.name :: segment.resources.zipIdx.flatMap fun resource =>
    resourceEvents f extract endOfExecutable resource.2 resource.1

structure Extractable (destination : Destination) (resource : Resource) : Prop where
  start : 0 ≤ resource.segment.start endOfExecutable ∧
    resource.segment.start endOfExecutable ≤ f.maxOffset
  opens : destination.opens (join destination.path resource.name) = .ok ()
  size : -1 ≤ resource.segment.size ∧ resource.segment.size ≤ f.maxRead

variable {f extract endOfExecutable}

theorem extractResource_iff {destination : Destination} {resource : Resource}
    {events : List Event} :
    extractResource f endOfExecutable destination resource = ⟨events, .ok ()⟩ ↔
      Extractable f endOfExecutable destination resource ∧
        events = [.write (join destination.path resource.name)
          (data f endOfExecutable resource.segment)] := by
  rw [extractResource, Trace.lift_bind_eq_ok]
  simp only [Image.seek_ok, Trace.lift_bind_eq_ok]
  constructor
  · rintro ⟨start, ⟨hpos, hmax, -⟩, ⟨⟩, hopens, h⟩
    split at h
    case isTrue =>
      obtain ⟨rest, hraise, -⟩ := Trace.send_bind_eq_ok.mp h
      cases hraise
    case isFalse hsize =>
      split at h
      case isTrue =>
        obtain ⟨rest, hraise, -⟩ := Trace.send_bind_eq_ok.mp h
        cases hraise
      case isFalse hread =>
        cases h
        exact ⟨⟨⟨hpos, hmax⟩, hopens, by omega, by omega⟩, rfl⟩
  · rintro ⟨⟨⟨hpos, hmax⟩, hopens, hsize, hread⟩, rfl⟩
    refine ⟨_, ⟨hpos, hmax, rfl⟩, (), hopens, ?_⟩
    rw [if_neg (by omega), if_neg (by omega)]
    rfl

theorem visitResource_iff {j : Nat} {resource : Resource} {events : List Event} :
    visitResource f extract endOfExecutable j resource = ⟨events, .ok ()⟩ ↔
      (∀ destination ∈ extract, Extractable f endOfExecutable destination resource) ∧
        events = resourceEvents f extract endOfExecutable j resource := by
  unfold visitResource resourceEvents
  rw [Trace.send_bind_eq_ok]
  cases extract with
  | none => simp [eq_comm]
  | some destination =>
    simp only [extractResource_iff, Option.mem_some_iff, forall_eq']
    constructor
    · rintro ⟨rest, ⟨hextractable, rfl⟩, rfl⟩
      exact ⟨hextractable, rfl⟩
    · rintro ⟨hextractable, rfl⟩
      exact ⟨_, ⟨hextractable, rfl⟩, rfl⟩

theorem forall_mem_zipIdx {α : Type} {l : List α} {P : α → Prop} :
    (∀ a ∈ l.zipIdx, P a.1) ↔ ∀ a ∈ l, P a := by
  rw [← List.forall_mem_map (f := Prod.fst), List.zipIdx_map_fst]

theorem visitCollection_iff {i : Nat} {collection : Collection} {events : List Event} :
    visitCollection f extract endOfExecutable i collection = ⟨events, .ok ()⟩ ↔
      ∃ segment : Segment, (segment.Valid ∧
          Within f.bytes (collection.segment.start endOfExecutable) collection.segment.size
            segment.encode) ∧
        (∀ resource ∈ segment.resources, ∀ destination ∈ extract,
          Extractable f endOfExecutable destination resource) ∧
        events = collectionEvents f extract endOfExecutable i collection segment := by
  rw [visitCollection, Trace.send_bind_eq_ok]
  have hne : ∀ s : Segment, s.encode ≠ [] := fun s h => by
    have := congrArg List.length h
    simp [Segment.encode] at this
  simp only [Trace.lift_bind_eq_ok, Image.parseAt_ok readSegment_decodes hne,
    Trace.forM_iff fun _ _ _ => visitResource_iff]
  constructor
  · rintro ⟨_, ⟨segment, hsegment, hall, rfl⟩, rfl⟩
    exact ⟨segment, hsegment, forall_mem_zipIdx.mp hall, rfl⟩
  · rintro ⟨segment, hsegment, hall, rfl⟩
    exact ⟨_, ⟨segment, hsegment, forall_mem_zipIdx.mpr hall, rfl⟩, rfl⟩

end Events

structure Installer where
  magicPos : Int
  header : Header
  descriptor : BinaryDescriptor
  segments : SegmentsDescriptor
  count : Int
  contents : List (Collection × Segment)

namespace Installer

variable (x : Installer)

def endOfBinaryContent : Int := x.magicPos + 8

def endOfExecutable : Int := x.endOfBinaryContent - x.descriptor.binaryContentSize

def index : Collections := ⟨x.count, x.contents.map Prod.fst⟩

def events (f : Image) (extract : Option Destination) : List Event :=
  x.contents.zipIdx.flatMap fun c =>
    collectionEvents f extract x.endOfExecutable c.2 c.1.1 c.1.2

end Installer

-- the first in the last mebibyte; find's -1 is the byte before it
def MagicAt (f : Image) (pos : Int) : Prop :=
  let offset := f.bytes.length - 1024 * 1024
  (∃ n : Nat, pos = offset + n ∧ At f.bytes pos MAGIC ∧
    ∀ m < n, ¬At f.bytes (offset + m) MAGIC) ∨
  pos = offset - 1 ∧ ∀ m : Nat, ¬At f.bytes (offset + m) MAGIC

structure Layout (f : Image) (x : Installer) : Prop where
  large : 1024 * 1024 ≤ f.bytes.length
  magic : MagicAt f x.magicPos
  header : x.header.Valid ∧ At f.bytes (x.endOfBinaryContent - 32) x.header.encode
  descriptor : x.descriptor.Valid ∧ At f.bytes (x.endOfBinaryContent - 32) x.descriptor.encode
  segments : x.segments.Valid x.header.metaResourcesCount ∧
    At f.bytes (x.endOfBinaryContent - 32 - (x.header.metaResourcesCount + 2) * 16)
      x.segments.encode
  index : x.index.Valid ∧ Within f.bytes
    (x.segments.resourceCollectionsSegment.start x.endOfExecutable)
    x.segments.resourceCollectionsSegment.size x.index.encode
  contents : ∀ c ∈ x.contents, c.2.Valid ∧
    Within f.bytes (c.1.segment.start x.endOfExecutable) c.1.segment.size c.2.encode

section Reading

theorem find_eq_some {sub bytes : List UInt8} {n : Nat} :
    find sub bytes = some n ↔ n ≤ bytes.length ∧ sub <+: bytes.drop n ∧
      ∀ m < n, ¬sub <+: bytes.drop m := by
  induction bytes generalizing n with
  | nil =>
    rw [find]
    split
    case isTrue h =>
      subst h
      simp only [Option.some.injEq, List.length_nil, Nat.le_zero, List.nil_prefix,
        not_true_eq_false, imp_false, true_and]
      constructor
      · rintro rfl
        exact ⟨rfl, fun m hm => by cases hm⟩
      · exact fun h => h.1.symm
    case isFalse h => simp [h]
  | cons b bytes ih =>
    rw [find]
    split
    case isTrue h =>
      constructor
      · rintro ⟨⟩
        exact ⟨Nat.zero_le _, h, fun m hm => by cases hm⟩
      · rintro ⟨-, -, hfirst⟩
        cases n with
        | zero => rfl
        | succ n => exact absurd h (hfirst 0 n.succ_pos)
    case isFalse h =>
      cases n with
      | zero => simp [h]
      | succ n =>
        rw [Option.map_eq_some_iff]
        simp only [Nat.add_right_cancel_iff, exists_eq_right, ih, List.length_cons,
          Nat.add_le_add_iff_right, List.drop_succ_cons]
        refine and_congr_right fun _ => and_congr_right fun _ => ⟨fun hfirst m hm => ?_,
          fun hfirst m hm => hfirst (m + 1) (Nat.succ_lt_succ hm)⟩
        cases m with
        | zero => exact h
        | succ m => exact hfirst m (Nat.lt_of_succ_lt_succ hm)

theorem find_eq_none {sub bytes : List UInt8} :
    find sub bytes = none ↔ ∀ m ≤ bytes.length, ¬sub <+: bytes.drop m := by
  induction bytes with
  | nil =>
    rw [find]
    split <;> simp_all
  | cons b bytes ih =>
    rw [find]
    split
    case isTrue h => exact iff_of_false (by simp) fun hnone => hnone 0 (Nat.zero_le _) h
    case isFalse h =>
      rw [Option.map_eq_none_iff, ih]
      constructor
      · intro hnone m hm
        cases m with
        | zero => exact h
        | succ m => exact hnone m (Nat.le_of_succ_le_succ hm)
      · exact fun hnone m hm => hnone (m + 1) (Nat.succ_le_succ hm)

variable {f : Image}

theorem at_magic {offset m : Nat} (h : offset ≤ f.bytes.length) :
    At f.bytes (offset + m : Int) MAGIC ↔ m ≤ (f.bytes.drop offset).length ∧
      MAGIC <+: (f.bytes.drop offset).drop m := by
  rw [at_iff, List.drop_drop, List.length_drop]
  have hnat : ((offset : Int) + m).toNat = offset + m := by omega
  rw [hnat]
  constructor
  · rintro ⟨-, hle, hprefix⟩
    exact ⟨by omega, hprefix⟩
  · rintro ⟨hle, hprefix⟩
    exact ⟨by omega, by omega, hprefix⟩

theorem findMagic_iff {pos : Int} :
    findMagic f = .ok pos ↔ 1024 * 1024 ≤ f.bytes.length ∧ MagicAt f pos := by
  rw [findMagic, MagicAt]
  split
  case isTrue hsmall => exact iff_of_false (by simp) fun h => by omega
  case isFalse hlarge =>
    have hoffset : f.bytes.length - 1024 * 1024 ≤ f.bytes.length := Nat.sub_le _ _
    rw [Except.ok.injEq]
    refine Iff.trans ?_ (and_iff_right (Nat.le_of_not_lt hlarge)).symm
    simp only [at_magic hoffset]
    generalize f.bytes.length - 1024 * 1024 = offset at hoffset
    cases hfind : find MAGIC (f.bytes.drop offset) with
    | some n =>
      obtain ⟨hle, hprefix, hfirst⟩ := find_eq_some.mp hfind
      constructor
      · rintro rfl
        exact .inl ⟨n, rfl, (at_magic hoffset).mpr ⟨hle, hprefix⟩, fun m hm h => hfirst m hm h.2⟩
      · rintro (⟨n', rfl, hat, hfirst'⟩ | ⟨-, hnone⟩)
        · obtain ⟨hle', hprefix'⟩ := (at_magic hoffset).mp hat
          have hsame := find_eq_some.mpr ⟨hle', hprefix', fun m hm h => hfirst' m hm ⟨by omega, h⟩⟩
          rw [hfind] at hsame
          rw [Option.some.inj hsame]
        · exact absurd ⟨hle, hprefix⟩ (hnone n)
    | none =>
      have hnone := find_eq_none.mp hfind
      constructor
      · rintro rfl
        exact .inr ⟨rfl, fun m h => hnone m h.1 h.2⟩
      · rintro (⟨n, rfl, hat, -⟩ | ⟨rfl, -⟩)
        · obtain ⟨hle, hprefix⟩ := (at_magic hoffset).mp hat
          exact absurd hprefix (hnone n hle)
        · rfl

theorem header_iff {root : QtInstallerFramework} {h : Header} :
    root.header = .ok h ↔
      h.Valid ∧ At root.io.bytes (root.endOfBinaryContent - 32) h.encode := by
  rw [QtInstallerFramework.header, Except.bind_eq_ok]
  simp only [Image.seek_ok, Image.parse_ok readHeader_decodes, at_iff]
  have hfits := root.io.fits
  constructor
  · rintro ⟨start, ⟨hpos, -, rfl⟩, hvalid, hprefix⟩
    refine ⟨hvalid, hpos, ?_, hprefix⟩
    have hle := hprefix.length_le
    rw [List.length_drop, Header.encode, List.length_append, length_u8le] at hle
    omega
  · rintro ⟨hvalid, hpos, hle, hprefix⟩
    exact ⟨_, ⟨hpos, by omega, rfl⟩, hvalid, hprefix⟩

theorem length_flatMap_const {α : Type} {l : List α} {g : α → List UInt8} {n : Nat}
    (h : ∀ a, (g a).length = n) : (l.flatMap g).length = l.length * n := by
  rw [List.length_flatMap, List.map_congr_left fun a _ => h a, List.map_const',
    List.sum_replicate_nat]

theorem binaryDescriptor_iff {root : QtInstallerFramework} {d : BinaryDescriptor} :
    root.binaryDescriptor = .ok d ↔
      d.Valid ∧ At root.io.bytes (root.endOfBinaryContent - 32) d.encode := by
  have hlength : ∀ d : BinaryDescriptor, (d.encode.length : Int) = 20 := fun d => by
    simp [BinaryDescriptor.encode, Tagged.encode]
  have hne : ∀ d : BinaryDescriptor, d.encode ≠ [] := fun d h => by
    have := hlength d
    simp [h] at this
  rw [QtInstallerFramework.binaryDescriptor, Image.parseAt_ok readBinaryDescriptor_decodes hne,
    within_iff_at (hlength d)]
  rfl

theorem segmentsDescriptor_iff {root : QtInstallerFramework} {h : Header} {d : SegmentsDescriptor} :
    root.segmentsDescriptor h = .ok d ↔ d.Valid h.metaResourcesCount ∧
      At root.io.bytes (root.endOfBinaryContent - 32 - (h.metaResourcesCount + 2) * 16)
        d.encode := by
  have hrange : ∀ r : Range, r.encode.length = 16 := fun r => by simp [Range.encode]
  have hlength : ∀ d : SegmentsDescriptor,
      d.encode.length = (d.metaResourceSegments.length + 2) * 16 := fun d => by
    rw [SegmentsDescriptor.encode, List.length_append, List.length_append,
      length_flatMap_const hrange, hrange, hrange]
    omega
  have hne : ∀ d : SegmentsDescriptor, d.encode ≠ [] := fun d h => by
    have := hlength d
    rw [h, List.length_nil] at this
    omega
  rw [QtInstallerFramework.segmentsDescriptor,
    Image.parseAt_ok (readSegmentsDescriptor_decodes _) hne]
  refine and_congr_right fun hvalid => within_iff_at ?_
  rw [hlength, hvalid.resources.1, QtInstallerFramework.sizeOfSegmentDescriptor]
  push_cast
  rfl

end Reading

section Main

variable {f : Image} {extract : Option Destination} {events : List Event}

theorem collections_iff {pos size : Int} {c : Collections} :
    f.parseAt pos size readCollections = .ok c ↔ c.Valid ∧ Within f.bytes pos size c.encode :=
  Image.parseAt_ok readCollections_decodes fun c h => by
    have := congrArg List.length h
    simp [Collections.encode] at this

theorem visitCollections_iff {collections : List Collection} {endOfExecutable : Int} {i : Nat} :
    ((collections.zipIdx i).forM fun c => visitCollection f extract endOfExecutable c.2 c.1) =
      ⟨events, .ok ()⟩ ↔
    ∃ contents : List (Collection × Segment), contents.map Prod.fst = collections ∧
      (∀ c ∈ contents, (c.2.Valid ∧ Within f.bytes (c.1.segment.start endOfExecutable)
        c.1.segment.size c.2.encode) ∧ ∀ resource ∈ c.2.resources,
          ∀ destination ∈ extract, Extractable f endOfExecutable destination resource) ∧
      events = (contents.zipIdx i).flatMap fun c =>
        collectionEvents f extract endOfExecutable c.2 c.1.1 c.1.2 := by
  induction collections generalizing i events with
  | nil =>
    constructor
    · rintro ⟨⟩
      exact ⟨[], rfl, fun c hc => (by cases hc), rfl⟩
    · rintro ⟨contents, hmap, -, rfl⟩
      obtain rfl := List.map_eq_nil_iff.mp hmap
      rfl
  | cons c collections ih =>
    have hcons : ((c :: collections).zipIdx i).forM
        (fun c => visitCollection f extract endOfExecutable c.2 c.1) =
        (visitCollection f extract endOfExecutable i c >>= fun _ =>
          (collections.zipIdx (i + 1)).forM fun c =>
            visitCollection f extract endOfExecutable c.2 c.1) := rfl
    rw [hcons, Trace.bind_eq_ok]
    constructor
    · rintro ⟨⟨⟩, hfirst, hrest, rfl⟩
      obtain ⟨segment, hsegment, hextractable, hevents⟩ :=
        visitCollection_iff.mp (Trace.eq_of_ok hfirst)
      obtain ⟨contents, hmap, hall, hevents'⟩ := ih.mp (Trace.eq_of_ok hrest)
      refine ⟨(c, segment) :: contents, by rw [List.map_cons, hmap],
        List.forall_mem_cons.mpr ⟨⟨hsegment, hextractable⟩, hall⟩, ?_⟩
      rw [hevents, hevents']
      rfl
    · rintro ⟨contents, hmap, hall, rfl⟩
      obtain ⟨⟨c', segment⟩, contents, rfl, rfl, hrest'⟩ := List.map_eq_cons_iff.mp hmap
      obtain ⟨⟨hsegment, hextractable⟩, hall⟩ := List.forall_mem_cons.mp hall
      have hfirst := (visitCollection_iff (i := i)).mpr ⟨segment, hsegment, hextractable, rfl⟩
      have hrest := (ih (i := i + 1)).mpr ⟨contents, hrest', hall, rfl⟩
      rw [hfirst, hrest]
      exact ⟨(), rfl, rfl, rfl⟩

theorem main_iff :
    main f extract = ⟨events, .ok ()⟩ ↔ ∃ x : Installer, Layout f x ∧
      (∀ destination ∈ extract, ∀ c ∈ x.contents, ∀ resource ∈ c.2.resources,
        Extractable f x.endOfExecutable destination resource) ∧
      events = x.events f extract := by
  simp only [main, Trace.lift_bind_eq_ok, findMagic_iff, header_iff, binaryDescriptor_iff,
    segmentsDescriptor_iff, collections_iff, visitCollections_iff]
  constructor
  · rintro ⟨magicPos, ⟨hlarge, hmagic⟩, header, hheader, descriptor, hdescriptor, segments,
      hsegments, collections, hcollections, contents, hmap, hcontents, rfl⟩
    refine ⟨⟨magicPos, header, descriptor, segments, collections.count, contents⟩,
      ⟨hlarge, hmagic, hheader, hdescriptor, hsegments, ?_, fun c hc => (hcontents c hc).1⟩,
      fun d hd c hc r hr => (hcontents c hc).2 r hr d hd, rfl⟩
    rw [Installer.index, hmap]
    exact hcollections
  · rintro ⟨x, hlayout, hextractable, rfl⟩
    exact ⟨x.magicPos, ⟨hlayout.large, hlayout.magic⟩, x.header, hlayout.header, x.descriptor,
      hlayout.descriptor, x.segments, hlayout.segments, x.index, hlayout.index, x.contents, rfl,
      fun c hc => ⟨hlayout.contents c hc, fun r hr d hd => hextractable d hd c hc r hr⟩, rfl⟩

end Main

end Isz.QtInstaller
