import Isz.QtInstaller.Layout

namespace Isz.QtInstaller

open Codec

section Files

abbrev Files := Nat → Option (List UInt8)

def written (events : List Event) : List (Str × List UInt8) :=
  events.filterMap fun
    | .write path bytes => some (path, bytes)
    | _ => none

def Destination.after (destination : Destination) (files : Files)
    (writes : List (Str × List UInt8)) : Files :=
  writes.foldl (fun files w => Function.update files (destination.file w.1) (some w.2)) files

variable {destination : Destination} {files : Files} {writes : List (Str × List UInt8)}

theorem after_concat (w : Str × List UInt8) : destination.after files (writes ++ [w]) =
    Function.update (destination.after files writes) (destination.file w.1) (some w.2) := by
  rw [Destination.after, List.foldl_append]
  rfl

theorem after_other {n : Nat} (h : ∀ w ∈ writes, destination.file w.1 ≠ n) :
    destination.after files writes n = files n := by
  induction writes using List.reverseRecOn with
  | nil => rfl
  | append_singleton writes w ih =>
    rw [after_concat, Function.update_of_ne (h w (by simp)).symm]
    exact ih fun w' hw' => h w' (by simp [hw'])

theorem after_agree (h : ∀ w ∈ writes, ∀ w' ∈ writes,
      destination.file w.1 = destination.file w'.1 → w.2 = w'.2) :
    ∀ w ∈ writes, destination.after files writes (destination.file w.1) = some w.2 := by
  induction writes using List.reverseRecOn with
  | nil => exact fun w hw => by cases hw
  | append_singleton writes last ih =>
    intro w hw
    rw [after_concat]
    by_cases hfile : destination.file w.1 = destination.file last.1
    · rw [hfile, Function.update_self, h w hw last (by simp) hfile]
    · rw [Function.update_of_ne hfile]
      rcases List.mem_append.mp hw with hw | hw
      · exact ih (fun w hw w' hw' => h w (by simp [hw]) w' (by simp [hw'])) w hw
      · exact absurd (congrArg (destination.file ∘ Prod.fst) (List.mem_singleton.mp hw)) hfile

variable (destination files writes) in
theorem after_iff :
    (∀ w ∈ writes, destination.after files writes (destination.file w.1) = some w.2) ↔
      ∀ w ∈ writes, ∀ w' ∈ writes, destination.file w.1 = destination.file w'.1 → w.2 = w'.2 := by
  refine ⟨fun h w hw w' hw' hfile => ?_, after_agree⟩
  have hsame := h w hw
  rw [hfile, h w' hw'] at hsame
  exact (Option.some.inj hsame).symm

theorem flatMap_zipIdx {α β : Type} (l : List α) (g : α → List β) (i : Nat) :
    ((l.zipIdx i).flatMap fun a => g a.1) = l.flatMap g := by
  rw [← List.flatMap_map, List.zipIdx_map_fst]

def writeOf (f : Image) (destination : Destination) (endOfExecutable : Int)
    (resource : Resource) : Str × List UInt8 :=
  (join destination.path resource.name, data f endOfExecutable resource.segment)

theorem written_events (f : Image) (destination : Destination) (x : Installer) :
    written (x.events f (some destination)) = x.contents.flatMap fun c =>
      c.2.resources.map (writeOf f destination x.endOfExecutable) := by
  have hcollection : ∀ i collection segment, written (collectionEvents f (some destination)
      x.endOfExecutable i collection segment) =
        segment.resources.map (writeOf f destination x.endOfExecutable) := by
    intro i collection segment
    rw [collectionEvents, written, List.filterMap_cons_none rfl, List.filterMap_flatMap,
      List.map_eq_flatMap]
    exact flatMap_zipIdx _ (fun r => [writeOf f destination x.endOfExecutable r]) 0
  rw [Installer.events, written, List.filterMap_flatMap,
    List.flatMap_congr fun c _ => hcollection c.2 c.1.1 c.1.2]
  exact flatMap_zipIdx x.contents (fun c =>
    c.2.resources.map (writeOf f destination x.endOfExecutable)) 0

end Files

section Pack

abbrev Named (α : Type) := Str × α

def place : Int → List (Named (List UInt8)) → List Entry
  | _, [] => []
  | start, (name, bytes) :: rest =>
    ⟨name, start, bytes.length⟩ :: place (start + bytes.length) rest

def segments : Int → List (Named (List (Named (List UInt8)))) → List (Named Segment)
  | _, [] => []
  | start, (name, resources) :: rest =>
    (name, ⟨resources.length, place start resources⟩) ::
      segments (start + (resources.flatMap Prod.snd).length) rest

structure Package where
  executable : List UInt8
  collections : List (Named (List (Named (List UInt8))))

namespace Package

variable (p : Package)

def resources : List UInt8 := p.collections.flatMap fun c => c.2.flatMap Prod.snd

def packed : List (Named (List UInt8)) :=
  (segments 0 p.collections).map fun s => (s.1, s.2.encode)

def index : Collections :=
  ⟨p.collections.length, place p.resources.length p.packed⟩

def content : List UInt8 := p.resources ++ p.packed.flatMap Prod.snd

def descriptor : SegmentsDescriptor :=
  ⟨⟨p.content.length, p.index.encode.length⟩, [], ⟨0, 0⟩⟩

def binaryContentSize : Nat := (p.content ++ p.index.encode ++ p.descriptor.encode).length + 32

def header : List UInt8 := u8le 0 ++ u8le p.binaryContentSize ++ u8le 0x12023233 ++ MAGIC

def bytes : List UInt8 :=
  p.executable ++ p.content ++ p.index.encode ++ p.descriptor.encode ++ p.header

end Package

section Placed

variable {file : List UInt8} {base : Int}

structure Placed (file : List UInt8) (base : Int) (e : Entry) (w : Named (List UInt8)) :
    Prop where
  name : e.name = w.1
  size : e.segment.size = w.2.length
  start : 0 ≤ e.segment.startRead
  bytes : At file (base + e.segment.startRead) w.2

theorem place_placed {l : List (Named (List UInt8))} {start : Int} (hstart : 0 ≤ start)
    (h : At file (base + start) (l.flatMap Prod.snd)) :
    List.Forall₂ (Placed file base) (place start l) l := by
  induction l generalizing start with
  | nil => exact .nil
  | cons w l ih =>
    rw [List.flatMap_cons] at h
    have hrest := h.right
    rw [Int.add_assoc] at hrest
    exact .cons ⟨rfl, rfl, hstart, h.left⟩ (ih (by omega) hrest)

structure Stored (file : List UInt8) (base : Int) (s : Named Segment)
    (c : Named (List (Named (List UInt8)))) : Prop where
  name : s.1 = c.1
  count : s.2.resources.length = s.2.count
  resources : List.Forall₂ (Placed file base) s.2.resources c.2

theorem length_place (start : Int) (l : List (Named (List UInt8))) :
    (place start l).length = l.length := by
  induction l generalizing start with
  | nil => rfl
  | cons w l ih => rw [place, List.length_cons, List.length_cons, ih]

theorem segments_stored {l : List (Named (List (Named (List UInt8))))} {start : Int}
    (hstart : 0 ≤ start) (h : At file (base + start) (l.flatMap fun c => c.2.flatMap Prod.snd)) :
    List.Forall₂ (Stored file base) (segments start l) l := by
  induction l generalizing start with
  | nil => exact .nil
  | cons c l ih =>
    rw [List.flatMap_cons] at h
    have hrest := h.right
    rw [Int.add_assoc] at hrest
    exact .cons ⟨rfl, length_place _ _, place_placed hstart h.left⟩ (ih (by omega) hrest)

theorem Placed.data_eq {f : Image} {e : Entry} {w : Named (List UInt8)}
    (h : Placed f.bytes base e w) : data f base e.segment = w.2 := by
  obtain ⟨hpos, hle, hprefix⟩ := at_iff.mp h.bytes
  have hsize := h.size
  rw [data, if_neg (by omega), hsize, Int.toNat_natCast]
  exact (List.prefix_iff_eq_take.mp hprefix).symm

theorem Placed.extractable {f : Image} {e : Entry} {w : Named (List UInt8)}
    (h : Placed f.bytes base e w) {destination : Destination}
    (hopens : destination.opens (join destination.path w.1) = .ok ()) :
    Extractable f base destination e := by
  obtain ⟨hpos, hle⟩ := h.bytes.bounds
  have hfits := f.fits
  have hreadable := f.readable
  have hstart := h.start
  have hsize := h.size
  refine ⟨⟨hpos, ?_⟩, by rw [h.name]; exact hopens, by omega, by omega⟩
  rw [Range.start]
  omega

variable (hsize : file.length < 2 ^ 63) (hbase : 0 ≤ base)
include hsize hbase

theorem Placed.range_valid {e : Entry} {w : Named (List UInt8)} (h : Placed file base e w) :
    e.segment.Valid := by
  obtain ⟨-, hle⟩ := h.bytes.bounds
  have hstart := h.start
  have hlength := h.size
  rw [Range.Valid, IsS8, IsS8]
  omega

omit hbase in
theorem valid_of_at {e : Entry} {l : List Entry} {pos : Int} (hrange : e.segment.Valid)
    (he : e ∈ l) (h : At file pos (l.flatMap Entry.encode)) : e.Valid := by
  obtain ⟨before, after, rfl⟩ := List.append_of_mem he
  rw [List.flatMap_append, List.flatMap_cons] at h
  obtain ⟨hpos, hle⟩ := h.right.left.left.right.bounds
  refine ⟨?_, hrange⟩
  rw [IsString, IsU8]
  omega

end Placed

section Recovers

variable {p : Package} {trailer : List UInt8} {f : Image}

structure Parts (p : Package) (f : Image) : Prop where
  resources : At f.bytes p.executable.length p.resources
  packed : At f.bytes (p.executable.length + p.resources.length) (p.packed.flatMap Prod.snd)
  index : At f.bytes (p.executable.length + p.content.length) p.index.encode
  descriptor : At f.bytes ((p.bytes.length : Int) - 64) p.descriptor.encode
  header : At f.bytes ((p.bytes.length : Int) - 32) p.header
  size : (p.bytes.length : Int) = p.executable.length + p.binaryContentSize

theorem length_descriptor : p.descriptor.encode.length = 32 := by
  simp [SegmentsDescriptor.encode, Package.descriptor, Range.encode]

theorem length_header : p.header.length = 32 := by
  simp [Package.header, MAGIC]

theorem parts (hbytes : f.bytes = p.bytes ++ trailer) : Parts p f := by
  have hall : At f.bytes 0 p.bytes := ⟨[], trailer, hbytes, rfl⟩
  have hlength : p.bytes.length = p.executable.length + p.content.length +
      p.index.encode.length + 64 := by
    simp only [Package.bytes, List.length_append, length_descriptor, length_header]
  have hsize : p.binaryContentSize = p.content.length + p.index.encode.length + 64 := by
    simp only [Package.binaryContentSize, List.length_append, length_descriptor]
  have hcontent := hall.left.left.left.right
  have hindex := hall.left.left.right
  have hdescriptor := hall.left.right
  have hheader := hall.right
  rw [Int.zero_add] at hcontent hindex hdescriptor hheader
  refine ⟨hcontent.left, hcontent.right, ?_, ?_, ?_, by omega⟩
  · rwa [List.length_append, Int.natCast_add] at hindex
  · convert hdescriptor using 1
    simp only [List.length_append]
    omega
  · convert hheader using 1
    simp only [List.length_append, length_descriptor]
    omega

theorem length_le_flatMap {α : Type} {encode : α → List UInt8} (h : ∀ x, 1 ≤ (encode x).length)
    (l : List α) : l.length ≤ (l.flatMap encode).length := by
  induction l with
  | nil => exact Nat.zero_le _
  | cons x l ih =>
    have hx := h x
    rw [List.length_cons, List.flatMap_cons, List.length_append]
    omega

theorem isS8_natCast {n : Nat} (h : n < 2 ^ 63) : IsS8 n := by
  rw [IsS8]
  omega

theorem length_entry (e : Entry) : 1 ≤ e.encode.length := by
  rw [Entry.encode, string, List.length_append, List.length_append, length_u8le]
  omega

theorem s8le_natCast {n : Nat} (h : n < 2 ^ 63) : s8le n = u8le n := by
  rw [s8le]
  congr 1
  omega

theorem map_eq_of_forall₂ {α β γ : Type} {R : α → β → Prop} {l : List α} {l' : List β}
    {g : α → γ} {g' : β → γ} (h : List.Forall₂ R l l') (hR : ∀ a b, R a b → g a = g' b) :
    l.map g = l'.map g' := by
  induction h with
  | nil => rfl
  | cons hab _ ih => rw [List.map_cons, List.map_cons, hR _ _ hab, ih]

theorem forall₂_left {α β : Type} {R : α → β → Prop} {l : List α} {l' : List β}
    (h : List.Forall₂ R l l') : ∀ a ∈ l, ∃ b ∈ l', R a b := by
  induction h with
  | nil => exact fun a ha => by cases ha
  | cons hab _ ih =>
    refine List.forall_mem_cons.mpr ⟨⟨_, List.mem_cons_self, hab⟩, fun a ha => ?_⟩
    obtain ⟨b, hb, hab⟩ := ih a ha
    exact ⟨b, List.mem_cons_of_mem _ hb, hab⟩

def Package.installer (p : Package) : Installer where
  magicPos := p.bytes.length - 8
  header := ⟨0, [p.binaryContentSize, 0x12023233], ⟨0xf8⟩⟩
  descriptor := ⟨0, p.binaryContentSize, ⟨0x33⟩⟩
  segments := p.descriptor
  count := p.collections.length
  contents := (p.index.collections.zip (segments 0 p.collections)).map fun c => (c.1, c.2.2)

theorem length_segments (start : Int) (l : List (Named (List (Named (List UInt8))))) :
    (segments start l).length = l.length := by
  induction l generalizing start with
  | nil => rfl
  | cons c l ih => rw [segments, List.length_cons, List.length_cons, ih]

theorem length_index : p.index.collections.length = (segments 0 p.collections).length := by
  rw [Package.index, length_place, Package.packed, List.length_map]

theorem installer_index : p.installer.index = p.index := by
  rw [Installer.index, Package.installer]
  congr 1
  rw [List.map_map]
  exact List.map_fst_zip length_index.le

theorem installer_segments : p.installer.contents.map Prod.snd =
    (segments 0 p.collections).map Prod.snd := by
  have hsnd := List.map_snd_zip (length_index (p := p)).ge
  conv_rhs => rw [← hsnd, List.map_map]
  exact List.map_map

variable (hparts : Parts p f)
include hparts

theorem installer_endOfExecutable : p.installer.endOfExecutable = p.executable.length := by
  have hsize := hparts.size
  change (p.bytes.length : Int) - 8 + 8 - p.binaryContentSize = _
  omega

theorem segments_at : List.Forall₂ (Stored f.bytes p.executable.length) (segments 0 p.collections)
    p.collections :=
  segments_stored le_rfl (by
    rw [Int.add_zero]
    exact hparts.resources)

theorem index_at : List.Forall₂ (fun e s => Placed f.bytes p.executable.length e (s.1, s.2.encode))
    p.index.collections (segments 0 p.collections) := by
  have hplaced := place_placed (Int.natCast_nonneg _) hparts.packed
  exact List.forall₂_map_right_iff.mp hplaced

theorem contents_at {c : Collection × Segment} (hc : c ∈ p.installer.contents) :
    ∃ s ∈ segments 0 p.collections, c.2 = s.2 ∧
      Placed f.bytes p.executable.length c.1 (s.1, s.2.encode) := by
  obtain ⟨⟨e, s⟩, hmem, rfl⟩ := List.mem_map.mp hc
  exact ⟨s, (List.of_mem_zip hmem).2, rfl, List.forall₂_zip (index_at hparts) hmem⟩

variable (hsize : f.bytes.length < 2 ^ 63)
include hsize

omit hparts in
theorem entries_valid (l : List Entry) {ws : List (Named (List UInt8))} {pos : Int}
    (hplaced : List.Forall₂ (Placed f.bytes p.executable.length) l ws)
    (h : At f.bytes pos (l.flatMap Entry.encode)) :
    l.length < 2 ^ 63 ∧ ∀ e ∈ l, e.Valid := by
  constructor
  · have hcount := length_le_flatMap length_entry l
    obtain ⟨hpos, hle⟩ := h.bounds
    omega
  · intro e he
    obtain ⟨w, -, hw⟩ := forall₂_left hplaced e he
    exact valid_of_at hsize (hw.range_valid hsize (Int.natCast_nonneg _)) he h

theorem segment_valid {s : Named Segment} (hs : s ∈ segments 0 p.collections) {pos : Int}
    (h : At f.bytes pos s.2.encode) : s.2.Valid := by
  obtain ⟨c, -, hstored⟩ := forall₂_left (segments_at hparts) s hs
  obtain ⟨hcount, hvalid⟩ := entries_valid hsize _ hstored.resources h.right
  refine ⟨?_, hstored.count, hvalid⟩
  rw [IsU8, ← hstored.count]
  omega

theorem size_lt : p.binaryContentSize < 2 ^ 63 := by
  have hbytes := hparts.size
  have hheader := hparts.header.bounds
  rw [length_header] at hheader
  omega

omit hparts hsize in
theorem header_eq (h : p.binaryContentSize < 2 ^ 63) :
    p.header = p.installer.descriptor.encode ++ ([0, 0, 0, 0] ++ MAGIC) := by
  have hzero : s8le 0 = u8le 0 := rfl
  have hmarker : u8le 0x12023233 = [0x33, 0x32, 0x02, 0x12] ++ [0, 0, 0, 0] := by decide
  rw [Package.header, hmarker, BinaryDescriptor.encode, Package.installer, s8le_natCast h, hzero]
  simp [Tagged.encode]

theorem installer_layout (hlarge : 1024 * 1024 ≤ f.bytes.length)
    (hmagic : MagicAt f (p.bytes.length - 8)) : Layout f p.installer where
  large := hlarge
  magic := hmagic
  header := by
    have hcontent := size_lt hparts hsize
    have hunkn : ∀ v ∈ [p.binaryContentSize, 0x12023233], IsU8 v := by
      simp only [List.forall_mem_cons, IsU8]
      exact ⟨by omega, by decide, fun v hv => by cases hv⟩
    refine ⟨⟨Nat.two_pow_pos 64, rfl, hunkn⟩, ?_⟩
    convert hparts.header using 1
    · exact (congrArg (· - 32) (Int.sub_add_cancel _ 8))
    · simp [Package.installer, Header.encode, Package.header, Tagged.encode, MAGIC]
  descriptor := by
    have hcontent := size_lt hparts hsize
    have hheader := hparts.header
    rw [header_eq hcontent] at hheader
    refine ⟨⟨isS8_natCast (Nat.two_pow_pos 63), isS8_natCast hcontent⟩, ?_⟩
    convert hheader.left using 1
    exact congrArg (· - 32) (Int.sub_add_cancel _ 8)
  segments := by
    obtain ⟨hpos, hle⟩ := hparts.index.bounds
    have hzero : IsS8 0 := isS8_natCast (Nat.two_pow_pos 63)
    refine ⟨⟨⟨isS8_natCast (by omega), isS8_natCast (by omega)⟩,
      ⟨rfl, fun r hr => by cases hr⟩, ⟨hzero, hzero⟩⟩, ?_⟩
    convert hparts.descriptor using 1
    · change (p.bytes.length : Int) - 8 + 8 - 32 - ((0 : Nat) + 2) * 16 = _
      omega
    · rfl
  index := by
    rw [installer_index, installer_endOfExecutable hparts]
    obtain ⟨hcount, hvalid⟩ := entries_valid hsize p.index.collections
      (place_placed (Int.natCast_nonneg _) hparts.packed) hparts.index.right
    have hlength : p.index.collections.length = p.collections.length := by
      rw [length_index, length_segments]
    exact ⟨⟨isS8_natCast (hlength ▸ hcount), hlength.trans (Int.toNat_natCast _).symm, hvalid⟩,
      (within_iff_at rfl).mpr hparts.index⟩
  contents := fun c hc => by
    obtain ⟨s, hs, heq, hplaced⟩ := contents_at hparts hc
    rw [heq, installer_endOfExecutable hparts]
    exact ⟨segment_valid hparts hsize hs hplaced.bytes,
      (within_iff_at hplaced.size.symm).mpr hplaced.bytes⟩

omit hsize in
theorem installer_written (destination : Destination) :
    written (p.installer.events f (some destination)) = p.collections.flatMap fun c =>
      c.2.map fun r => (join destination.path r.1, r.2) := by
  have hflatMap : ∀ g : Segment → List (Str × List UInt8),
      p.installer.contents.flatMap (fun c => g c.2) =
        (segments 0 p.collections).flatMap fun s => g s.2 := fun g => by
    rw [← List.flatMap_map, installer_segments, List.flatMap_map]
  rw [written_events, hflatMap fun s => s.resources.map _, installer_endOfExecutable hparts,
    List.flatMap_def, List.flatMap_def]
  refine congrArg _ (map_eq_of_forall₂ (segments_at hparts) fun s c hstored => ?_)
  refine map_eq_of_forall₂ hstored.resources fun e w hplaced => ?_
  rw [writeOf, hplaced.name, hplaced.data_eq]

omit hsize in
theorem installer_extractable {destination : Destination}
    (hopens : ∀ c ∈ p.collections, ∀ r ∈ c.2,
      destination.opens (join destination.path r.1) = .ok ()) :
    ∀ c ∈ p.installer.contents, ∀ resource ∈ c.2.resources,
      Extractable f p.installer.endOfExecutable destination resource := by
  intro c hc resource hresource
  obtain ⟨s, hs, heq, -⟩ := contents_at hparts hc
  rw [heq] at hresource
  obtain ⟨c', hc', hstored⟩ := forall₂_left (segments_at hparts) s hs
  obtain ⟨w, hw, hplaced⟩ := forall₂_left hstored.resources resource hresource
  rw [installer_endOfExecutable hparts]
  exact hplaced.extractable (hopens c' hc' w hw)

end Recovers

theorem recovers {p : Package} {trailer : List UInt8} {f : Image}
    (hbytes : f.bytes = p.bytes ++ trailer) (hsize : f.bytes.length < 2 ^ 63)
    (hlarge : 1024 * 1024 ≤ f.bytes.length) (hmagic : MagicAt f (p.bytes.length - 8))
    {destination : Destination} (hopens : ∀ c ∈ p.collections, ∀ r ∈ c.2,
      destination.opens (join destination.path r.1) = .ok ()) (files : Files) :
    let run := main f (some destination)
    let after := destination.after files (written run.sent)
    let file := fun r : Named (List UInt8) => destination.file (join destination.path r.1)
    run.result = .ok () ∧
    ((∀ c ∈ p.collections, ∀ r ∈ c.2, after (file r) = some r.2) ↔
      ∀ c ∈ p.collections, ∀ r ∈ c.2, ∀ c' ∈ p.collections, ∀ r' ∈ c'.2,
        file r = file r' → r.2 = r'.2) ∧
    ∀ n, (∀ c ∈ p.collections, ∀ r ∈ c.2, file r ≠ n) → after n = files n := by
  have hparts := parts hbytes
  have hextractable := installer_extractable hparts hopens
  have hmain : main f (some destination) = ⟨p.installer.events f (some destination), .ok ()⟩ :=
    main_iff.mpr ⟨p.installer, installer_layout hparts hsize hlarge hmagic,
      fun d hd => (Option.mem_some_iff.mp hd) ▸ hextractable, rfl⟩
  intro run after file
  have hafter : after = destination.after files (p.collections.flatMap fun c =>
      c.2.map fun r => (join destination.path r.1, r.2)) := by
    have hsent : run.sent = p.installer.events f (some destination) := congrArg Trace.sent hmain
    rw [← installer_written hparts, ← hsent]
  have hmem : ∀ P : Str × List UInt8 → Prop, (∀ w ∈ p.collections.flatMap fun c =>
      c.2.map fun r => (join destination.path r.1, r.2), P w) ↔
        ∀ c ∈ p.collections, ∀ r ∈ c.2, P (join destination.path r.1, r.2) := fun P => by
    simp only [List.forall_mem_flatMap, List.forall_mem_map]
  refine ⟨congrArg Trace.result hmain, ?_, fun n hn => ?_⟩
  · have hiff := after_iff destination files (p.collections.flatMap fun c =>
      c.2.map fun r => (join destination.path r.1, r.2))
    rw [← hafter] at hiff
    simpa only [hmem] using hiff
  · rw [hafter]
    exact after_other ((hmem _).mpr hn)

theorem magicAt_of_not_mem {f : Image} {front trailer : List UInt8}
    (hbytes : f.bytes = front ++ MAGIC ++ trailer) (hlarge : 1024 * 1024 ≤ f.bytes.length)
    (hwithin : trailer.length + 8 ≤ 1024 * 1024) (hfront : 0xf8 ∉ front) :
    MagicAt f front.length := by
  have hlength : f.bytes.length = front.length + 8 + trailer.length := by
    rw [hbytes, List.length_append, List.length_append]
    rfl
  refine .inl ⟨front.length - (f.bytes.length - 1024 * 1024), by omega,
    ⟨front, trailer, hbytes, rfl⟩, fun m hm h => hfront ?_⟩
  obtain ⟨before, after, heq, hpos⟩ := h
  have hbefore : before ++ [0xf8] <+: f.bytes := by
    rw [heq, MAGIC]
    simp
  have hall : front <+: f.bytes := by
    rw [hbytes]
    simp
  have hprefix := List.prefix_of_prefix_length_le hbefore hall <| by
    rw [List.length_append, List.length_singleton]
    omega
  exact hprefix.subset (by simp)

section Small

def smallPackage (n : Nat) : Package where
  executable := List.replicate n 0
  collections := [(['c'], [(['a'], [1, 2, 3])])]

def smallImage (n : Nat) : Image :=
  ⟨(smallPackage n).bytes, (smallPackage n).bytes.length, (smallPackage n).bytes.length, le_rfl,
    le_rfl⟩

def smallTail : List UInt8 :=
  (smallPackage 0).content ++ (smallPackage 0).index.encode ++ (smallPackage 0).descriptor.encode ++
    (u8le 0 ++ u8le (smallPackage 0).binaryContentSize ++ u8le 0x12023233)

def workingDirectory : Destination := ⟨['.'], fun _ => .ok (), fun _ => 1, 0, fun _ _ => by decide⟩

theorem smallImage_bytes (n : Nat) :
    (smallImage n).bytes = (List.replicate n 0 ++ smallTail) ++ MAGIC ++ [] := by
  change (smallPackage n).bytes = _
  rw [Package.bytes, Package.header, smallTail]
  simp only [List.append_assoc, List.append_nil]
  rfl

theorem smallTail_facts : smallTail.length = 125 ∧ 0xf8 ∉ smallTail := by
  decide +kernel

theorem length_smallImage (n : Nat) : (smallImage n).bytes.length = n + 133 := by
  have hcookie : MAGIC.length = 8 := rfl
  rw [smallImage_bytes, List.length_append, List.length_append, List.length_append,
    smallTail_facts.1, hcookie, List.length_replicate, List.length_nil]

theorem smallImage_magic {n : Nat} (h : 1024 * 1024 ≤ n) :
    MagicAt (smallImage n) ((smallPackage n).bytes.length - 8) := by
  have hlength := length_smallImage n
  have hfront : 0xf8 ∉ List.replicate n 0 ++ smallTail := by
    rw [List.mem_append]
    rintro (hmem | hmem)
    · exact absurd (List.eq_of_mem_replicate hmem) (by decide)
    · exact smallTail_facts.2 hmem
  convert magicAt_of_not_mem (smallImage_bytes n) (by omega) (by decide) hfront using 1
  change ((smallImage n).bytes.length : Int) - 8 = _
  rw [hlength, List.length_append, smallTail_facts.1, List.length_replicate]
  omega

theorem recovers_small : workingDirectory.after (fun _ => none)
    (written (main (smallImage (1024 * 1024)) (some workingDirectory)).sent)
      (workingDirectory.file ['.', '/', 'a']) = some [1, 2, 3] := by
  have hpacked : (smallImage (1024 * 1024)).bytes = (smallPackage (1024 * 1024)).bytes ++ [] :=
    (List.append_nil _).symm
  have hlength := length_smallImage (1024 * 1024)
  refine (recovers hpacked (by omega) (by omega) (smallImage_magic le_rfl)
    (fun c _ r _ => rfl) _).2.1.mpr ?_ (['c'], [(['a'], [1, 2, 3])]) (List.mem_singleton_self _)
    (['a'], [1, 2, 3]) (List.mem_singleton_self _)
  intro c hc r hr c' hc' r' hr' _
  obtain rfl := List.mem_singleton.mp hc
  obtain rfl := List.mem_singleton.mp hc'
  rw [List.mem_singleton.mp hr, List.mem_singleton.mp hr']

end Small

end Pack

end Isz.QtInstaller
