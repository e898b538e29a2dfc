import Isz.Wago.Framing

namespace Isz.Wago

open Bufio

structure Packet where
  deviceID : UInt8 × UInt8
  packetType : UInt8
  size : UInt8
  payload : List UInt8
  check : UInt8
  length_payload : payload.length = size.toNat
  checksum_bytes : checksum (0x55 :: 0xAA :: deviceID.1 :: deviceID.2 :: packetType :: size ::
    (payload ++ [check])) = 0

def Packet.bytes (p : Packet) : List UInt8 :=
  0x55 :: 0xAA :: p.deviceID.1 :: p.deviceID.2 :: p.packetType :: p.size ::
    (p.payload ++ [p.check])

theorem Packet.length_bytes (p : Packet) : p.bytes.length = 6 + p.size.toNat + 1 := by
  simp only [bytes, List.length_cons, List.length_append, List.length_nil, p.length_payload]
  omega

abbrev Noise := { bytes : List UInt8 // ¬ [0x55, 0xAA] <:+: bytes }

def layout (lead : Noise) (segments : List (Packet × Noise)) : List UInt8 :=
  lead.1 ++ segments.flatMap fun (p, noise) => p.bytes ++ noise.1

section Scanning

variable {fuel : Nat} {rest : List UInt8}

theorem run_packet (p : Packet) : run scan (fuel + 1) (p.bytes ++ rest) =
    (p.bytes :: (run scan fuel rest).1, (run scan fuel rest).2) := by
  have hlength : (p.bytes ++ rest).length = 6 + p.size.toNat + 1 + rest.length := by
    rw [List.length_append, p.length_bytes]
  have hscan : scan (p.bytes ++ rest) = .next (some p.bytes) rest := by
    have hsize : (p.bytes ++ rest).getD 5 0 = p.size := rfl
    have hsecond : (p.bytes ++ rest).getD 1 0 = 0xAA := rfl
    have hunfold : scan (p.bytes ++ rest) =
        if (p.bytes ++ rest).length < 6 then .stop .nil
        else if (p.bytes ++ rest).getD 1 0 ≠ 0xAA then .next none ((p.bytes ++ rest).drop 1)
        else
          let n := 6 + ((p.bytes ++ rest).getD 5 0).toNat + 1
          if (p.bytes ++ rest).length < n then .stop (.error .unexpectedEof)
          else .next (some ((p.bytes ++ rest).take n)) ((p.bytes ++ rest).drop n) := rfl
    rw [hunfold, if_neg (by omega), if_neg (not_not.mpr hsecond)]
    simp only [hsize]
    rw [if_neg (by omega), List.take_left' p.length_bytes, List.drop_left' p.length_bytes]
  exact run_next hscan

theorem nosync_tail {c : UInt8} {noise : List UInt8} (h : ¬ [0x55, 0xAA] <:+: c :: noise) :
    ¬ [0x55, 0xAA] <:+: noise := fun hin => h (List.infix_cons hin)

theorem nosync_second {noise : List UInt8} (h : ¬ [0x55, 0xAA] <:+: (0x55 : UInt8) :: noise)
    (hrest : ∀ c ∈ rest.head?, c = 0x55) :
    ((0x55 : UInt8) :: noise ++ rest).getD 1 0 ≠ 0xAA := by
  cases noise with
  | nil =>
    cases rest with
    | nil => decide
    | cons c rest =>
      obtain rfl := hrest c rfl
      exact (by decide : (0x55 : UInt8) ≠ 0xAA)
  | cons c noise =>
    rintro (rfl : c = 0xAA)
    exact h ⟨[], noise, rfl⟩

theorem scan_noise {c : UInt8} {noise : List UInt8} (h : ¬ [0x55, 0xAA] <:+: c :: noise)
    (hrest : ∀ c ∈ rest.head?, c = 0x55) :
    (c = 0x55 ∧ (c :: noise ++ rest).length < 6 ∧ scan (c :: noise ++ rest) = .stop .nil) ∨
      scan (c :: noise ++ rest) = .next none (noise ++ rest) := by
  rw [List.cons_append, scan]
  by_cases hc : c = 0x55
  · subst hc
    rw [if_pos rfl]
    by_cases hshort : (0x55 :: (noise ++ rest)).length < 6
    · exact .inl ⟨rfl, hshort, if_pos hshort⟩
    · right
      rw [if_neg hshort]
      exact if_pos (nosync_second h hrest)
  · rw [if_neg hc]
    exact .inr rfl

theorem run_noise (noise : Noise) (hrest : ∀ c ∈ rest.head?, c = 0x55) (hlong : 6 ≤ rest.length) :
    run scan (noise.1.length + fuel) (noise.1 ++ rest) = run scan fuel rest := by
  obtain ⟨noise, h⟩ := noise
  induction noise with
  | nil => rw [List.length_nil, Nat.zero_add, List.nil_append]
  | cons c noise ih =>
    have hstep : scan (c :: noise ++ rest) = .next none (noise ++ rest) := by
      rcases scan_noise h hrest with ⟨-, hshort, -⟩ | hstep
      · rw [List.length_append] at hshort
        omega
      · exact hstep
    rw [List.length_cons, Nat.add_right_comm, run_next hstep]
    exact ih (nosync_tail h)

theorem run_tail (noise : Noise) (hfuel : noise.1.length < fuel) :
    run scan fuel noise.1 = ([], some .nil) := by
  obtain ⟨noise, h⟩ := noise
  induction noise generalizing fuel with
  | nil =>
    obtain ⟨fuel, rfl⟩ := Nat.exists_eq_add_of_lt hfuel
    rfl
  | cons c noise ih =>
    obtain ⟨fuel, rfl⟩ : ∃ m, fuel = m + 1 := ⟨fuel - 1, by omega⟩
    have hcase : (c = 0x55 ∧ (c :: noise ++ []).length < 6 ∧ scan (c :: noise ++ []) = .stop .nil) ∨
        scan (c :: noise ++ []) = .next none (noise ++ []) := scan_noise h nofun
    rw [List.append_nil, List.append_nil] at hcase
    rcases hcase with ⟨-, -, hstep⟩ | hstep
    · exact run_stop hstep
    · rw [run_next hstep]
      exact ih (nosync_tail h) (Nat.lt_of_succ_lt_succ hfuel)

theorem run_layout (lead : Noise) (segments : List (Packet × Noise))
    (hfuel : (layout lead segments).length < fuel) :
    run scan fuel (layout lead segments) = (segments.map fun s => s.1.bytes, some .nil) := by
  induction segments generalizing lead fuel with
  | nil =>
    rw [layout, List.flatMap_nil, List.append_nil] at hfuel ⊢
    exact run_tail lead hfuel
  | cons s segments ih =>
    obtain ⟨p, noise⟩ := s
    have hlayout : layout lead ((p, noise) :: segments) =
        lead.1 ++ (p.bytes ++ layout noise segments) := by
      rw [layout, layout, List.flatMap_cons, List.append_assoc]
    have hpacket := p.length_bytes
    rw [hlayout, List.length_append, List.length_append] at hfuel
    obtain ⟨m, rfl⟩ : ∃ m, fuel = lead.1.length + (m + 1) :=
      ⟨fuel - lead.1.length - 1, by omega⟩
    rw [hlayout, run_noise lead (by rintro c ⟨⟩; rfl) (by rw [List.length_append]; omega),
      run_packet, ih noise (by omega)]
    rfl

end Scanning

theorem process_failedChecksum {packet : List UInt8} {packetType : UInt8} {id : UInt8 × UInt8}
    (h : process packet packetType id = .failedChecksum) : checksum packet ≠ 0 := by
  rw [process] at h
  split_ifs at h with hsum
  · exact hsum
  · split at h <;> cases h

theorem logData_frames (f : Device) (lead : Noise) (segments : List (Packet × Noise))
    (h : f.stream = layout lead segments) :
    (logData f).1.map Event.packet = segments.map (fun s => s.1.bytes) ∧
      (∀ e ∈ (logData f).1, e.outcome ≠ .failedChecksum) ∧ (logData f).2 = some .nil := by
  obtain ⟨hpackets, hret, hprocessed⟩ := logData_scan f
  have hframes := run_layout lead segments (Nat.lt_succ_self _)
  rw [frames, h, hframes] at hpackets hret
  simp only at hpackets
  refine ⟨hpackets, ?_, hret⟩
  intro e he hfailed
  obtain ⟨id, houtcome⟩ := hprocessed e he
  have hmem : e.packet ∈ segments.map (fun s => s.1.bytes) := by
    rw [← hpackets]
    exact List.mem_map_of_mem he
  obtain ⟨⟨p, noise⟩, -, hp⟩ := List.mem_map.mp hmem
  refine process_failedChecksum (houtcome.symm.trans hfailed) ?_
  rw [← hp]
  exact p.checksum_bytes

def statusPacket : Packet := ⟨(1, 2), 3, 3, [7, 0x18, 0x80], 0x63, by decide, by decide⟩

theorem logData_frames_stray : (logData ⟨[⟨[0, 0x55, 0x55], by decide⟩,
    ⟨[0xAA, 1, 2, 3, 3, 7, 0x18, 0x80, 0x63, 0x55], by decide⟩]⟩).1.map Event.packet =
      [statusPacket.bytes] :=
  (logData_frames _ ⟨[0, 0x55], by decide⟩ [(statusPacket, ⟨[0x55], by decide⟩)] rfl).1

end Isz.Wago
