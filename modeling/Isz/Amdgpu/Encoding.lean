import Isz.Amdgpu.Layout
import Mathlib.Algebra.Group.Nat.Defs
import Mathlib.Data.List.Range

namespace Isz.Amdgpu

def toLittleEndian : Nat → Nat → List UInt8
  | 0, _ => []
  | size + 1, v => UInt8.ofNat v :: toLittleEndian size (v / 256)

@[simp] theorem length_toLittleEndian (size v : Nat) : (toLittleEndian size v).length = size := by
  induction size generalizing v with
  | zero => rfl
  | succ size ih => rw [toLittleEndian, List.length_cons, ih]

theorem littleEndian_toLittleEndian {size v : Nat} (h : v < 256 ^ size) :
    littleEndian (toLittleEndian size v) = v := by
  induction size generalizing v with
  | zero =>
    obtain rfl : v = 0 := Nat.lt_one_iff.mp h
    rfl
  | succ size ih =>
    have hnext : v / 256 < 256 ^ size := Nat.div_lt_of_lt_mul (by rwa [Nat.pow_succ'] at h)
    rw [toLittleEndian, littleEndian, ih hnext, UInt8.toNat_ofNat']
    exact Nat.mod_add_div v 256

structure Assigned (f : Field) where
  values : List Nat
  length_eq : values.length = f.length
  bounded : ∀ v ∈ values, v < 256 ^ f.type.size

abbrev Assignment := (f : Field) → Assigned f

def Assigned.bytes {f : Field} (a : Assigned f) : List UInt8 :=
  a.values.flatMap (toLittleEndian f.type.size)

def padding (pad : Nat → UInt8) (start stop : Nat) : List UInt8 :=
  (List.range' start (stop - start)).map pad

variable (a : Assignment) (pad : Nat → UInt8)

def encodeFields : Nat → List Field → List UInt8
  | _, [] => []
  | start, f :: fields =>
    let offset := alignUp start f.type.size
    padding pad start offset ++ (a f).bytes ++
      encodeFields (offset + f.type.size * f.length) fields

def encode (r : Revision) : List UInt8 :=
  toLittleEndian 2 r.size ++ toLittleEndian 1 r.format ++ toLittleEndian 1 r.content ++
    encodeFields a pad headerSize r.fields ++
    padding pad (fieldsEnd headerSize r.fields) r.size

theorem length_padding {start stop : Nat} (h : start ≤ stop) :
    start + (padding pad start stop).length = stop := by
  rw [padding, List.length_map, List.length_range']
  omega

theorem length_bytes {f : Field} (a : Assigned f) :
    a.bytes.length = f.type.size * f.length := by
  rw [Assigned.bytes, List.length_flatMap, List.map_congr_left fun v _ => length_toLittleEndian _ v,
    List.map_const', List.sum_replicate_nat, a.length_eq, Nat.mul_comm]

theorem length_encodeFields (start : Nat) (fields : List Field) :
    start + (encodeFields a pad start fields).length = fieldsEnd start fields := by
  induction fields generalizing start with
  | nil => rfl
  | cons f fields ih =>
    have hpadding := length_padding pad (le_alignUp start f.type.size_pos)
    have hrest := ih (alignUp start f.type.size + f.type.size * f.length)
    rw [encodeFields, fieldsEnd, List.length_append, List.length_append, length_bytes]
    omega

theorem length_encode (r : Revision) : (encode a pad r).length = r.size := by
  have hfields := length_encodeFields a pad headerSize r.fields
  have hpadding := length_padding pad (fieldsEnd_le_size r)
  rw [encode, List.length_append, List.length_append, List.length_append, List.length_append,
    length_toLittleEndian, length_toLittleEndian, length_toLittleEndian]
  have hheader : headerSize = 4 := rfl
  omega

theorem map_slices {size : Nat} {values : List Nat} (h : ∀ v ∈ values, v < 256 ^ size)
    (post : List UInt8) :
    (List.range values.length).map (fun i => littleEndian
      (((values.flatMap (toLittleEndian size) ++ post).drop (size * i)).take size)) = values := by
  induction values with
  | nil => rfl
  | cons v values ih =>
    have hfirst : littleEndian (((toLittleEndian size v ++
        (values.flatMap (toLittleEndian size) ++ post)).drop (size * 0)).take size) = v := by
      rw [Nat.mul_zero, List.drop_zero, List.take_left' (length_toLittleEndian size v),
        littleEndian_toLittleEndian (h v List.mem_cons_self)]
    have hnext : ∀ i, (toLittleEndian size v ++
        (values.flatMap (toLittleEndian size) ++ post)).drop (size * (i + 1)) =
          (values.flatMap (toLittleEndian size) ++ post).drop (size * i) := by
      intro i
      rw [Nat.mul_succ, Nat.add_comm, ← List.drop_drop,
        List.drop_left' (length_toLittleEndian size v)]
    rw [List.length_cons, List.range_succ_eq_map, List.map_cons, List.map_map, List.flatMap_cons,
      List.append_assoc, hfirst]
    refine congrArg (v :: ·) ?_
    simp only [Function.comp_def, Nat.succ_eq_add_one, hnext]
    exact ih fun w hw => h w (List.mem_cons_of_mem _ hw)

theorem readField_bytes {f : Field} (a : Assigned f) (pre post : List UInt8) :
    readField (pre ++ a.bytes ++ post) pre.length f = a.values := by
  rw [readField, ← a.length_eq]
  conv_rhs => rw [← map_slices a.bounded post]
  refine List.map_congr_left fun i _ => ?_
  rw [List.append_assoc, ← List.drop_drop, List.drop_left]
  rfl

theorem readFields_encode {start : Nat} (fields : List Field) {pre : List UInt8}
    (hpre : pre.length = start) (post : List UInt8) :
    ((offsets start fields).zip fields).map (fun (offset, f) =>
        (f, readField (pre ++ encodeFields a pad start fields ++ post) offset f)) =
      fields.map fun f => (f, (a f).values) := by
  induction fields generalizing start pre with
  | nil => rfl
  | cons f fields ih =>
    have halign := length_padding pad (le_alignUp start f.type.size_pos)
    have hoffset : (pre ++ padding pad start (alignUp start f.type.size)).length =
        alignUp start f.type.size := by
      rw [List.length_append, hpre, halign]
    have hnext : (pre ++ padding pad start (alignUp start f.type.size) ++ (a f).bytes).length =
        alignUp start f.type.size + f.type.size * f.length := by
      rw [List.length_append, hoffset, length_bytes]
    have hhead := readField_bytes (a f) (pre ++ padding pad start (alignUp start f.type.size))
      (encodeFields a pad (alignUp start f.type.size + f.type.size * f.length) fields ++ post)
    have htail := ih hnext
    rw [hoffset] at hhead
    simp only [List.append_assoc] at hhead htail
    simp only [offsets, encodeFields, List.zip_cons_cons, List.map_cons, List.append_assoc]
    rw [hhead, htail]

theorem readHeader_append {size format content : Nat} (hsize : size < 256 ^ 2)
    (hformat : format < 256 ^ 1) (hcontent : content < 256 ^ 1) (rest : List UInt8) :
    readHeader (toLittleEndian 2 size ++ (toLittleEndian 1 format ++
      (toLittleEndian 1 content ++ rest))) = ⟨size, format, content⟩ := by
  have hsecond : ∀ bytes : List UInt8, (toLittleEndian 2 size ++ bytes).drop 2 = bytes :=
    fun bytes => List.drop_left' (length_toLittleEndian 2 size)
  have hthird : ∀ bytes : List UInt8, (toLittleEndian 2 size ++ (toLittleEndian 1 format ++
      bytes)).drop 3 = bytes := by
    intro bytes
    rw [← List.drop_drop (i := 1) (j := 2), hsecond]
    exact List.drop_left' (length_toLittleEndian 1 format)
  rw [readHeader, hsecond, hthird, List.take_left' (length_toLittleEndian 2 size),
    List.take_left' (length_toLittleEndian 1 format),
    List.take_left' (length_toLittleEndian 1 content), littleEndian_toLittleEndian hsize,
    littleEndian_toLittleEndian hformat, littleEndian_toLittleEndian hcontent]

theorem readHeader_encode (r : Revision) :
    readHeader (encode a pad r) = ⟨r.size, r.format, r.content⟩ := by
  have hsize : r.size < 256 ^ 2 := by cases r <;> decide +kernel
  have hformat : r.format < 256 ^ 1 := by cases r <;> decide
  have hcontent : r.content < 256 ^ 1 := by cases r <;> decide
  simp only [encode, List.append_assoc]
  exact readHeader_append hsize hformat hcontent _

theorem readMetrics_encode (r : Revision) :
    readMetrics r (encode a pad r) =
      ⟨r, ⟨r.size, r.format, r.content⟩, r.fields.map fun f => (f, (a f).values)⟩ := by
  have hheader : (toLittleEndian 2 r.size ++ toLittleEndian 1 r.format ++
      toLittleEndian 1 r.content).length = headerSize := rfl
  have hvalues := readFields_encode a pad r.fields hheader
    (padding pad (fieldsEnd headerSize r.fields) r.size)
  rw [readMetrics, readHeader_encode]
  exact congrArg (Metrics.mk r _) hvalues

end Isz.Amdgpu
