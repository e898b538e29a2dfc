import Isz.Amdgpu.Encoding
import Isz.Amdgpu.Parsing

namespace Isz.Amdgpu.Ctypes

inductive Shape where
  | one
  | times (count : Nat)
  | bits (width : Nat)
  deriving DecidableEq

-- an element of _fields_
structure Descriptor where
  name : String
  type : IntType
  shape : Shape
  deriving DecidableEq

def each (type : IntType) (names : List String) : List Descriptor :=
  names.map fun name => ⟨name, type, .one⟩

def numHbmInstances : Nat := 4

def gpuMetricsV1_0 : List Descriptor :=
  each .u64 ["system_clock_counter"] ++
  each .u16 [
    "temperature_edge", "temperature_hotspot", "temperature_mem", "temperature_vrgfx",
    "temperature_vrsoc", "temperature_vrmem", "average_gfx_activity", "average_umc_activity",
    "average_mm_activity", "average_socket_power"] ++
  each .u32 ["energy_accumulator"] ++
  each .u16 [
    "average_gfxclk_frequency", "average_socclk_frequency", "average_uclk_frequency",
    "average_vclk0_frequency", "average_dclk0_frequency", "average_vclk1_frequency",
    "average_dclk1_frequency", "current_gfxclk", "current_socclk", "current_uclk",
    "current_vclk0", "current_dclk0", "current_vclk1", "current_dclk1"] ++
  each .u32 ["throttle_status"] ++
  each .u16 ["current_fan_speed"] ++
  each .u8 ["pcie_link_width", "pcie_link_speed"]

def gpuMetricsV1_1 : List Descriptor :=
  each .u16 [
    "temperature_edge", "temperature_hotspot", "temperature_mem", "temperature_vrgfx",
    "temperature_vrsoc", "temperature_vrmem", "average_gfx_activity", "average_umc_activity",
    "average_mm_activity", "average_socket_power"] ++
  each .u64 ["energy_accumulator", "system_clock_counter"] ++
  each .u16 [
    "average_gfxclk_frequency", "average_socclk_frequency", "average_uclk_frequency",
    "average_vclk0_frequency", "average_dclk0_frequency", "average_vclk1_frequency",
    "average_dclk1_frequency", "current_gfxclk", "current_socclk", "current_uclk",
    "current_vclk0", "current_dclk0", "current_vclk1", "current_dclk1"] ++
  each .u32 ["throttle_status"] ++
  each .u16 ["current_fan_speed", "pcie_link_width", "pcie_link_speed", "padding"] ++
  each .u32 ["gfx_activity_acc", "mem_activity_acc"] ++
  [⟨"temperature_hbm", .u16, .bits numHbmInstances⟩]

def gpuMetricsV1_2 : List Descriptor :=
  each .u16 [
    "temperature_edge", "temperature_hotspot", "temperature_mem", "temperature_vrgfx",
    "temperature_vrsoc", "temperature_vrmem", "average_gfx_activity", "average_umc_activity",
    "average_mm_activity", "average_socket_power"] ++
  each .u64 ["energy_accumulator", "system_clock_counter"] ++
  each .u16 [
    "average_gfxclk_frequency", "average_socclk_frequency", "average_uclk_frequency",
    "average_vclk0_frequency", "average_dclk0_frequency", "average_vclk1_frequency",
    "average_dclk1_frequency", "current_gfxclk", "current_socclk", "current_uclk",
    "current_vclk0", "current_dclk0", "current_vclk1", "current_dclk1"] ++
  each .u32 ["throttle_status"] ++
  each .u16 ["current_fan_speed", "pcie_link_width", "pcie_link_speed", "padding"] ++
  each .u32 ["gfx_activity_acc", "mem_activity_acc"] ++
  [⟨"temperature_hbm", .u16, .times numHbmInstances⟩] ++
  each .u64 ["firmware_timestamp"]

def gpuMetricsV1_3 : List Descriptor :=
  each .u16 [
    "temperature_edge", "temperature_hotspot", "temperature_mem", "temperature_vrgfx",
    "temperature_vrsoc", "temperature_vrmem", "average_gfx_activity", "average_umc_activity",
    "average_mm_activity", "average_socket_power"] ++
  each .u64 ["energy_accumulator", "system_clock_counter"] ++
  each .u16 [
    "average_gfxclk_frequency", "average_socclk_frequency", "average_uclk_frequency",
    "average_vclk0_frequency", "average_dclk0_frequency", "average_vclk1_frequency",
    "average_dclk1_frequency", "current_gfxclk", "current_socclk", "current_uclk",
    "current_vclk0", "current_dclk0", "current_vclk1", "current_dclk1"] ++
  each .u32 ["throttle_status"] ++
  each .u16 ["current_fan_speed", "pcie_link_width", "pcie_link_speed", "padding"] ++
  each .u32 ["gfx_activity_acc", "mem_activity_acc"] ++
  [⟨"temperature_hbm", .u16, .times numHbmInstances⟩] ++
  each .u64 ["firmware_timestamp"] ++
  each .u16 ["voltage_soc", "voltage_gfx", "voltage_mem", "padding1"] ++
  each .u64 ["indep_throttle_status"]

def gpuMetricsV2_0 : List Descriptor :=
  each .u64 ["system_clock_counter"] ++
  each .u16 ["temperature_gfx", "temperature_soc"] ++
  [⟨"temperature_core", .u16, .times 8⟩] ++
  [⟨"temperature_l3", .u16, .times 2⟩] ++
  each .u16 [
    "average_gfx_activity", "average_mm_activity", "average_socket_power", "average_cpu_power",
    "average_soc_power", "average_gfx_power"] ++
  [⟨"average_core_power", .u16, .times 8⟩] ++
  each .u16 [
    "average_gfxclk_frequency", "average_socclk_frequency", "average_uclk_frequency",
    "average_fclk_frequency", "average_vclk_frequency", "average_dclk_frequency",
    "current_gfxclk", "current_socclk", "current_uclk", "current_fclk", "current_vclk",
    "current_dclk"] ++
  [⟨"current_coreclk", .u16, .times 8⟩] ++
  [⟨"current_l3clk", .u16, .times 2⟩] ++
  each .u32 ["throttle_status"] ++
  each .u16 ["fan_pwm", "padding"]

def gpuMetricsV2_1 : List Descriptor :=
  each .u16 ["temperature_gfx", "temperature_soc"] ++
  [⟨"temperature_core", .u16, .times 8⟩] ++
  [⟨"temperature_l3", .u16, .times 2⟩] ++
  each .u16 ["average_gfx_activity", "average_mm_activity"] ++
  each .u64 ["system_clock_counter"] ++
  each .u16 [
    "average_socket_power", "average_cpu_power", "average_soc_power", "average_gfx_power"] ++
  [⟨"average_core_power", .u16, .times 8⟩] ++
  each .u16 [
    "average_gfxclk_frequency", "average_socclk_frequency", "average_uclk_frequency",
    "average_fclk_frequency", "average_vclk_frequency", "average_dclk_frequency",
    "current_gfxclk", "current_socclk", "current_uclk", "current_fclk", "current_vclk",
    "current_dclk"] ++
  [⟨"current_coreclk", .u16, .times 8⟩] ++
  [⟨"current_l3clk", .u16, .times 2⟩] ++
  each .u32 ["throttle_status"] ++
  each .u16 ["fan_pwm"] ++
  [⟨"padding", .u16, .times 3⟩]

def gpuMetricsV2_2 : List Descriptor :=
  each .u16 ["temperature_gfx", "temperature_soc"] ++
  [⟨"temperature_core", .u16, .times 8⟩] ++
  [⟨"temperature_l3", .u16, .times 2⟩] ++
  each .u16 ["average_gfx_activity", "average_mm_activity"] ++
  each .u64 ["system_clock_counter"] ++
  each .u16 [
    "average_socket_power", "average_cpu_power", "average_soc_power", "average_gfx_power"] ++
  [⟨"average_core_power", .u16, .times 8⟩] ++
  each .u16 [
    "average_gfxclk_frequency", "average_socclk_frequency", "average_uclk_frequency",
    "average_fclk_frequency", "average_vclk_frequency", "average_dclk_frequency",
    "current_gfxclk", "current_socclk", "current_uclk", "current_fclk", "current_vclk",
    "current_dclk"] ++
  [⟨"current_coreclk", .u16, .times 8⟩] ++
  [⟨"current_l3clk", .u16, .times 2⟩] ++
  each .u32 ["throttle_status"] ++
  each .u16 ["fan_pwm"] ++
  [⟨"padding", .u16, .times 3⟩] ++
  each .u64 ["indep_throttle_status"]

def formats : List ((Nat × Nat) × List Descriptor) := [
  ((1, 0), gpuMetricsV1_0),
  ((1, 1), gpuMetricsV1_1),
  ((1, 2), gpuMetricsV1_2),
  ((1, 3), gpuMetricsV1_3),
  ((2, 0), gpuMetricsV2_0),
  ((2, 1), gpuMetricsV2_1),
  ((2, 2), gpuMetricsV2_2)]

def Descriptor.storage (d : Descriptor) : Field where
  name := d.name
  type := d.type
  count := match d.shape with
    | .one => none
    | .times count => some count
    | .bits _ => none

def sizeof (cls : List Descriptor) : Nat :=
  alignUp (fieldsEnd headerSize (cls.map Descriptor.storage))
    (alignment (cls.map Descriptor.storage))

inductive Value where
  | int (value : Nat)
  | array (values : List Nat)
  deriving DecidableEq

-- a bit field of a subclass of c_uint16 is read as an instance of it, the whole integer
def Descriptor.getattr (d : Descriptor) (data : List UInt8) (offset : Nat) : Value :=
  match d.shape with
  | .one | .bits _ => .int ((readField data offset d.storage).headD 0)
  | .times _ => .array (readField data offset d.storage)

structure BaseStructure where
  commonHeader : Header
  fields : List (String × Value)
  deriving DecidableEq

inductive Fault where
  | bufferTooSmall (length size : Nat)
  | unexpectedDataLength (length expected : Nat)
  | keyError (key : Nat × Nat)
  deriving DecidableEq

def fromBufferCopy (cls : List Descriptor) (data : List UInt8) : Except Fault BaseStructure :=
  if data.length < sizeof cls then .error (.bufferTooSmall data.length (sizeof cls))
  else .ok {
    commonHeader := readHeader data
    fields := ((offsets headerSize (cls.map Descriptor.storage)).zip cls).map fun (offset, d) =>
      (d.name, d.getattr data offset) }

def parseStruct (data : List UInt8) : Except Fault BaseStructure :=
  let copied := data.take headerSize
  if copied.length < headerSize then .error (.bufferTooSmall copied.length headerSize)
  else
    let header := readHeader copied
    if header.structureSize ≠ data.length then
      .error (.unexpectedDataLength data.length header.structureSize)
    else match formats.lookup (header.formatRevision, header.contentRevision) with
      | some cls => fromBufferCopy cls data
      | none => .error (.keyError (header.formatRevision, header.contentRevision))

def Descriptor.ofField (f : Field) : Descriptor where
  name := f.name
  type := f.type
  shape := match f.count with
    | none => .one
    | some count => .times count

def value {f : Field} (a : Assigned f) : Value :=
  match f.count with
  | none => .int (a.values.headD 0)
  | some _ => .array a.values

def assigned (a : Assignment) (r : Revision) : BaseStructure where
  commonHeader := ⟨r.size, r.format, r.content⟩
  fields := r.fields.map fun f => (f.name, value (a f))

@[simp] theorem storage_ofField (f : Field) : (Descriptor.ofField f).storage = f := by
  obtain ⟨name, type, count⟩ := f
  cases count <;> rfl

theorem getattr_ofField {f : Field} {a : Assigned f} {data : List UInt8} {offset : Nat}
    (h : readField data offset f = a.values) :
    (Descriptor.ofField f).getattr data offset = value a := by
  rw [Descriptor.getattr, storage_ofField, h, value, Descriptor.ofField]
  cases f.count <;> rfl

variable (a : Assignment) (pad : Nat → UInt8) {r : Revision}

theorem parseStruct_eq {cls : List Descriptor}
    (hcls : formats.lookup (r.format, r.content) = some cls) :
    parseStruct (encode a pad r) = fromBufferCopy cls (encode a pad r) := by
  have hlength := length_encode a pad r
  have hheader : readHeader ((encode a pad r).take headerSize) = ⟨r.size, r.format, r.content⟩ := by
    rw [readHeader_take le_rfl, readHeader_encode]
  have hcopied : ¬((encode a pad r).take headerSize).length < headerSize := by
    rw [List.length_take, hlength]
    exact not_lt.mpr (le_min le_rfl (headerSize_le_size r))
  simp only [parseStruct, hheader, hlength, hcls, ne_eq, not_true_eq_false, if_false]
  rw [if_neg hcopied]

theorem fields_ofFields :
    ((offsets headerSize r.fields).zip (r.fields.map Descriptor.ofField)).map (fun (offset, d) =>
        (d.name, d.getattr (encode a pad r) offset)) =
      r.fields.map fun f => (f.name, value (a f)) := by
  have hread : ((offsets headerSize r.fields).zip r.fields).map (fun p =>
      (p.2, readField (encode a pad r) p.1 p.2)) = r.fields.map fun f => (f, (a f).values) :=
    congrArg Metrics.values (readMetrics_encode a pad r)
  have hfields := congrArg (List.map Prod.fst) hread
  rw [List.map_map, List.map_map] at hfields
  have hvalues : ∀ p ∈ (offsets headerSize r.fields).zip r.fields,
      readField (encode a pad r) p.1 p.2 = (a p.2).values := by
    rintro ⟨offset, f⟩ hp
    have hmem : (f, readField (encode a pad r) offset f) ∈
        r.fields.map fun f => (f, (a f).values) := by
      rw [← hread]
      exact List.mem_map.mpr ⟨_, hp, rfl⟩
    obtain ⟨f', -, heq⟩ := List.mem_map.mp hmem
    obtain ⟨rfl, heq⟩ := Prod.mk.inj heq
    exact heq.symm
  have hzip : ((offsets headerSize r.fields).zip r.fields).map Prod.snd = r.fields :=
    hfields.trans (List.map_id _)
  rw [List.zip_map_right, List.map_map]
  conv_rhs => rw [← hzip, List.map_map]
  exact List.map_congr_left fun p hp => congrArg (p.2.name, ·) (getattr_ofField (hvalues p hp))

theorem fromBufferCopy_ofFields :
    fromBufferCopy (r.fields.map Descriptor.ofField) (encode a pad r) = .ok (assigned a r) := by
  have hstorage : (r.fields.map Descriptor.ofField).map Descriptor.storage = r.fields := by
    rw [List.map_map]
    exact (List.map_congr_left fun f _ => storage_ofField f).trans (List.map_id _)
  have hsize : ¬(encode a pad r).length < sizeof (r.fields.map Descriptor.ofField) := by
    rw [length_encode, sizeof, hstorage]
    exact lt_irrefl _
  rw [fromBufferCopy, if_neg hsize, hstorage, fields_ofFields, readHeader_encode, assigned]

theorem formats_lookup (h : (formats.lookup (r.format, r.content)).isSome) (hne : r ≠ .v1_1) :
    formats.lookup (r.format, r.content) = some (r.fields.map Descriptor.ofField) := by
  cases r with
  | v1_1 => exact absurd rfl hne
  | v2_3 => cases h
  | v1_0 | v1_2 | v1_3 | v2_0 | v2_1 | v2_2 => decide +kernel

theorem bitField_ne (data : List UInt8) (a : Assignment) :
    fromBufferCopy gpuMetricsV1_1 data ≠ .ok (assigned a .v1_1) := by
  have hlast : ((offsets headerSize (gpuMetricsV1_1.map Descriptor.storage)).zip
      gpuMetricsV1_1).getLast? = some (88, ⟨"temperature_hbm", .u16, .bits 4⟩) := by
    decide +kernel
  have hfield : (Revision.fields .v1_1).getLast? = some ⟨"temperature_hbm", .u16, some 4⟩ := by
    decide +kernel
  intro h
  rw [fromBufferCopy] at h
  split at h
  · cases h
  · have hfields := congrArg BaseStructure.fields (Except.ok.inj h)
    have hlasts := congrArg List.getLast? hfields
    simp only [assigned, List.getLast?_map, hlast, hfield, Option.map_some, Option.some.injEq,
      Prod.mk.injEq, true_and] at hlasts
    cases hlasts

theorem decodes_iff (a : Assignment) (pad : Nat → UInt8) (r : Revision)
    (h : (formats.lookup (r.format, r.content)).isSome) :
    parseStruct (encode a pad r) = .ok (assigned a r) ↔ r ≠ .v1_1 := by
  constructor
  · rintro hparse rfl
    rw [parseStruct_eq a pad rfl] at hparse
    exact bitField_ne _ a hparse
  · intro hne
    rw [parseStruct_eq a pad (formats_lookup h hne), fromBufferCopy_ofFields]

def zeros : Assignment := fun f => ⟨List.replicate f.length 0, List.length_replicate, fun v hv => by
  rw [List.eq_of_mem_replicate hv]
  exact Nat.pow_pos (by decide)⟩

theorem decodes_iff_v1_0 :
    parseStruct (encode zeros (fun _ => 255) .v1_0) = .ok (assigned zeros .v1_0) :=
  (decodes_iff zeros (fun _ => 255) .v1_0 rfl).mpr (by decide)

theorem temperature_hbm_bitField :
    ¬∀ (r : Revision), (formats.lookup (r.format, r.content)).isSome →
      ∀ a pad, parseStruct (encode a pad r) = .ok (assigned a r) := by
  intro h
  have hparse := h .v1_1 rfl zeros fun _ => 0
  rw [parseStruct_eq zeros _ rfl] at hparse
  exact bitField_ne _ zeros hparse

end Isz.Amdgpu.Ctypes
