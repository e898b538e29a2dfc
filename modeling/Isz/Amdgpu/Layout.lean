import Mathlib.Data.Nat.Basic

namespace Isz.Amdgpu

inductive IntType where
  | u8
  | u16
  | u32
  | u64
  deriving DecidableEq

def IntType.size : IntType → Nat
  | .u8 => 1
  | .u16 => 2
  | .u32 => 4
  | .u64 => 8

-- count is none for a single integer
structure Field where
  name : String
  type : IntType
  count : Option Nat
  deriving DecidableEq

def Field.length (f : Field) : Nat := f.count.getD 1

def scalars (type : IntType) (names : List String) : List Field :=
  names.map fun name => ⟨name, type, none⟩

def array (type : IntType) (name : String) (count : Nat) : List Field :=
  [⟨name, type, some count⟩]

def gpuMetricsV1_0 : List Field :=
  scalars .u64 ["system_clock_counter"] ++
  scalars .u16 [
    "temperature_edge", "temperature_hotspot", "temperature_mem", "temperature_vrgfx",
    "temperature_vrsoc", "temperature_vrmem", "average_gfx_activity", "average_umc_activity",
    "average_mm_activity", "average_socket_power"] ++
  scalars .u32 ["energy_accumulator"] ++
  scalars .u16 [
    "average_gfxclk_frequency", "average_socclk_frequency", "average_uclk_frequency",
    "average_vclk0_frequency", "average_dclk0_frequency", "average_vclk1_frequency",
    "average_dclk1_frequency", "current_gfxclk", "current_socclk", "current_uclk",
    "current_vclk0", "current_dclk0", "current_vclk1", "current_dclk1"] ++
  scalars .u32 ["throttle_status"] ++
  scalars .u16 ["current_fan_speed"] ++
  scalars .u8 ["pcie_link_width", "pcie_link_speed"]

def gpuMetricsV1_1 : List Field :=
  scalars .u16 [
    "temperature_edge", "temperature_hotspot", "temperature_mem", "temperature_vrgfx",
    "temperature_vrsoc", "temperature_vrmem", "average_gfx_activity", "average_umc_activity",
    "average_mm_activity", "average_socket_power"] ++
  scalars .u64 ["energy_accumulator", "system_clock_counter"] ++
  scalars .u16 [
    "average_gfxclk_frequency", "average_socclk_frequency", "average_uclk_frequency",
    "average_vclk0_frequency", "average_dclk0_frequency", "average_vclk1_frequency",
    "average_dclk1_frequency", "current_gfxclk", "current_socclk", "current_uclk",
    "current_vclk0", "current_dclk0", "current_vclk1", "current_dclk1"] ++
  scalars .u32 ["throttle_status"] ++
  scalars .u16 ["current_fan_speed", "pcie_link_width", "pcie_link_speed", "padding"] ++
  scalars .u32 ["gfx_activity_acc", "mem_activity_acc"] ++
  array .u16 "temperature_hbm" 4

def gpuMetricsV1_2 : List Field :=
  scalars .u16 [
    "temperature_edge", "temperature_hotspot", "temperature_mem", "temperature_vrgfx",
    "temperature_vrsoc", "temperature_vrmem", "average_gfx_activity", "average_umc_activity",
    "average_mm_activity", "average_socket_power"] ++
  scalars .u64 ["energy_accumulator", "system_clock_counter"] ++
  scalars .u16 [
    "average_gfxclk_frequency", "average_socclk_frequency", "average_uclk_frequency",
    "average_vclk0_frequency", "average_dclk0_frequency", "average_vclk1_frequency",
    "average_dclk1_frequency", "current_gfxclk", "current_socclk", "current_uclk",
    "current_vclk0", "current_dclk0", "current_vclk1", "current_dclk1"] ++
  scalars .u32 ["throttle_status"] ++
  scalars .u16 ["current_fan_speed", "pcie_link_width", "pcie_link_speed", "padding"] ++
  scalars .u32 ["gfx_activity_acc", "mem_activity_acc"] ++
  array .u16 "temperature_hbm" 4 ++
  scalars .u64 ["firmware_timestamp"]

def gpuMetricsV1_3 : List Field :=
  scalars .u16 [
    "temperature_edge", "temperature_hotspot", "temperature_mem", "temperature_vrgfx",
    "temperature_vrsoc", "temperature_vrmem", "average_gfx_activity", "average_umc_activity",
    "average_mm_activity", "average_socket_power"] ++
  scalars .u64 ["energy_accumulator", "system_clock_counter"] ++
  scalars .u16 [
    "average_gfxclk_frequency", "average_socclk_frequency", "average_uclk_frequency",
    "average_vclk0_frequency", "average_dclk0_frequency", "average_vclk1_frequency",
    "average_dclk1_frequency", "current_gfxclk", "current_socclk", "current_uclk",
    "current_vclk0", "current_dclk0", "current_vclk1", "current_dclk1"] ++
  scalars .u32 ["throttle_status"] ++
  scalars .u16 ["current_fan_speed", "pcie_link_width", "pcie_link_speed", "padding"] ++
  scalars .u32 ["gfx_activity_acc", "mem_activity_acc"] ++
  array .u16 "temperature_hbm" 4 ++
  scalars .u64 ["firmware_timestamp"] ++
  scalars .u16 ["voltage_soc", "voltage_gfx", "voltage_mem", "padding1"] ++
  scalars .u64 ["indep_throttle_status"]

def gpuMetricsV2_0 : List Field :=
  scalars .u64 ["system_clock_counter"] ++
  scalars .u16 ["temperature_gfx", "temperature_soc"] ++
  array .u16 "temperature_core" 8 ++
  array .u16 "temperature_l3" 2 ++
  scalars .u16 [
    "average_gfx_activity", "average_mm_activity", "average_socket_power", "average_cpu_power",
    "average_soc_power", "average_gfx_power"] ++
  array .u16 "average_core_power" 8 ++
  scalars .u16 [
    "average_gfxclk_frequency", "average_socclk_frequency", "average_uclk_frequency",
    "average_fclk_frequency", "average_vclk_frequency", "average_dclk_frequency",
    "current_gfxclk", "current_socclk", "current_uclk", "current_fclk", "current_vclk",
    "current_dclk"] ++
  array .u16 "current_coreclk" 8 ++
  array .u16 "current_l3clk" 2 ++
  scalars .u32 ["throttle_status"] ++
  scalars .u16 ["fan_pwm", "padding"]

def gpuMetricsV2_1 : List Field :=
  scalars .u16 ["temperature_gfx", "temperature_soc"] ++
  array .u16 "temperature_core" 8 ++
  array .u16 "temperature_l3" 2 ++
  scalars .u16 ["average_gfx_activity", "average_mm_activity"] ++
  scalars .u64 ["system_clock_counter"] ++
  scalars .u16 [
    "average_socket_power", "average_cpu_power", "average_soc_power", "average_gfx_power"] ++
  array .u16 "average_core_power" 8 ++
  scalars .u16 [
    "average_gfxclk_frequency", "average_socclk_frequency", "average_uclk_frequency",
    "average_fclk_frequency", "average_vclk_frequency", "average_dclk_frequency",
    "current_gfxclk", "current_socclk", "current_uclk", "current_fclk", "current_vclk",
    "current_dclk"] ++
  array .u16 "current_coreclk" 8 ++
  array .u16 "current_l3clk" 2 ++
  scalars .u32 ["throttle_status"] ++
  scalars .u16 ["fan_pwm"] ++
  array .u16 "padding" 3

def gpuMetricsV2_2 : List Field :=
  scalars .u16 ["temperature_gfx", "temperature_soc"] ++
  array .u16 "temperature_core" 8 ++
  array .u16 "temperature_l3" 2 ++
  scalars .u16 ["average_gfx_activity", "average_mm_activity"] ++
  scalars .u64 ["system_clock_counter"] ++
  scalars .u16 [
    "average_socket_power", "average_cpu_power", "average_soc_power", "average_gfx_power"] ++
  array .u16 "average_core_power" 8 ++
  scalars .u16 [
    "average_gfxclk_frequency", "average_socclk_frequency", "average_uclk_frequency",
    "average_fclk_frequency", "average_vclk_frequency", "average_dclk_frequency",
    "current_gfxclk", "current_socclk", "current_uclk", "current_fclk", "current_vclk",
    "current_dclk"] ++
  array .u16 "current_coreclk" 8 ++
  array .u16 "current_l3clk" 2 ++
  scalars .u32 ["throttle_status"] ++
  scalars .u16 ["fan_pwm"] ++
  array .u16 "padding" 3 ++
  scalars .u64 ["indep_throttle_status"]

def gpuMetricsV2_3 : List Field :=
  scalars .u16 ["temperature_gfx", "temperature_soc"] ++
  array .u16 "temperature_core" 8 ++
  array .u16 "temperature_l3" 2 ++
  scalars .u16 ["average_gfx_activity", "average_mm_activity"] ++
  scalars .u64 ["system_clock_counter"] ++
  scalars .u16 [
    "average_socket_power", "average_cpu_power", "average_soc_power", "average_gfx_power"] ++
  array .u16 "average_core_power" 8 ++
  scalars .u16 [
    "average_gfxclk_frequency", "average_socclk_frequency", "average_uclk_frequency",
    "average_fclk_frequency", "average_vclk_frequency", "average_dclk_frequency",
    "current_gfxclk", "current_socclk", "current_uclk", "current_fclk", "current_vclk",
    "current_dclk"] ++
  array .u16 "current_coreclk" 8 ++
  array .u16 "current_l3clk" 2 ++
  scalars .u32 ["throttle_status"] ++
  scalars .u16 ["fan_pwm"] ++
  array .u16 "padding" 3 ++
  scalars .u64 ["indep_throttle_status"] ++
  scalars .u16 ["average_temperature_gfx", "average_temperature_soc"] ++
  array .u16 "average_temperature_core" 8 ++
  array .u16 "average_temperature_l3" 2

inductive Revision where
  | v1_0
  | v1_1
  | v1_2
  | v1_3
  | v2_0
  | v2_1
  | v2_2
  | v2_3
  deriving DecidableEq

namespace Revision

def format : Revision → Nat
  | v1_0 | v1_1 | v1_2 | v1_3 => 1
  | v2_0 | v2_1 | v2_2 | v2_3 => 2

def content : Revision → Nat
  | v1_0 | v2_0 => 0
  | v1_1 | v2_1 => 1
  | v1_2 | v2_2 => 2
  | v1_3 | v2_3 => 3

def fields : Revision → List Field
  | v1_0 => gpuMetricsV1_0
  | v1_1 => gpuMetricsV1_1
  | v1_2 => gpuMetricsV1_2
  | v1_3 => gpuMetricsV1_3
  | v2_0 => gpuMetricsV2_0
  | v2_1 => gpuMetricsV2_1
  | v2_2 => gpuMetricsV2_2
  | v2_3 => gpuMetricsV2_3

end Revision

-- repr(C): each field at a multiple of its type's size, the whole a multiple of the largest
def alignUp (n size : Nat) : Nat := (n + size - 1) / size * size

def headerSize : Nat := 4

def offsets : Nat → List Field → List Nat
  | _, [] => []
  | start, f :: fields =>
    let offset := alignUp start f.type.size
    offset :: offsets (offset + f.type.size * f.length) fields

def fieldsEnd : Nat → List Field → Nat
  | start, [] => start
  | start, f :: fields =>
    fieldsEnd (alignUp start f.type.size + f.type.size * f.length) fields

def alignment (fields : List Field) : Nat := fields.foldl (fun a f => max a f.type.size) 2

def Revision.size (r : Revision) : Nat :=
  alignUp (fieldsEnd headerSize r.fields) (alignment r.fields)

example : [Revision.v1_0, .v1_1, .v1_2, .v1_3, .v2_0, .v2_1, .v2_2, .v2_3].map Revision.size =
    [80, 96, 104, 120, 120, 120, 128, 152] := by
  decide +kernel

structure Header where
  structureSize : Nat
  formatRevision : Nat
  contentRevision : Nat
  deriving DecidableEq

def littleEndian : List UInt8 → Nat
  | [] => 0
  | b :: bytes => b.toNat + 256 * littleEndian bytes

def readHeader (buf : List UInt8) : Header where
  structureSize := littleEndian (buf.take 2)
  formatRevision := littleEndian ((buf.drop 2).take 1)
  contentRevision := littleEndian ((buf.drop 3).take 1)

structure Metrics where
  revision : Revision
  commonHeader : Header
  values : List (Field × List Nat)
  deriving DecidableEq

def readField (buf : List UInt8) (offset : Nat) (f : Field) : List Nat :=
  (List.range f.length).map fun i =>
    littleEndian ((buf.drop (offset + f.type.size * i)).take f.type.size)

def readMetrics (r : Revision) (buf : List UInt8) : Metrics where
  revision := r
  commonHeader := readHeader buf
  values := ((offsets headerSize r.fields).zip r.fields).map fun (offset, f) =>
    (f, readField buf offset f)

def Metrics.systemClockCounter (m : Metrics) : Nat :=
  ((m.values.find? fun e => e.1.name = "system_clock_counter").bind fun e => e.2.head?).getD 0

theorem IntType.size_pos (t : IntType) : 0 < t.size := by
  cases t <;> decide

theorem le_alignUp (n : Nat) {size : Nat} (hsize : 0 < size) : n ≤ alignUp n size := by
  rw [alignUp]
  have hdiv := Nat.div_add_mod (n + size - 1) size
  have hmod := Nat.mod_lt (n + size - 1) hsize
  rw [Nat.mul_comm] at hdiv
  omega

theorem start_le_fieldsEnd (start : Nat) (fields : List Field) :
    start ≤ fieldsEnd start fields := by
  induction fields generalizing start with
  | nil => exact Nat.le_refl _
  | cons f fields ih =>
    have halign := le_alignUp start f.type.size_pos
    have hrest := ih (alignUp start f.type.size + f.type.size * f.length)
    rw [fieldsEnd]
    omega

theorem offset_within {start : Nat} {fields : List Field} {offset : Nat} {f : Field}
    (h : (offset, f) ∈ (offsets start fields).zip fields) :
    start ≤ offset ∧ offset + f.type.size * f.length ≤ fieldsEnd start fields := by
  induction fields generalizing start with
  | nil => cases h
  | cons f' fields ih =>
    have halign := le_alignUp start f'.type.size_pos
    rw [offsets, List.zip_cons_cons] at h
    rw [fieldsEnd]
    rcases List.mem_cons.mp h with heq | hmem
    · obtain ⟨rfl, rfl⟩ := Prod.mk.inj heq
      exact ⟨halign, start_le_fieldsEnd _ _⟩
    · obtain ⟨hlow, hup⟩ := ih hmem
      exact ⟨by omega, hup⟩

theorem fieldsEnd_le_size (r : Revision) : fieldsEnd headerSize r.fields ≤ r.size := by
  have hpos : 0 < alignment r.fields := by
    cases r <;> decide
  exact le_alignUp _ hpos

theorem headerSize_le_size (r : Revision) : headerSize ≤ r.size :=
  Nat.le_trans (start_le_fieldsEnd _ _) (fieldsEnd_le_size r)

end Isz.Amdgpu
