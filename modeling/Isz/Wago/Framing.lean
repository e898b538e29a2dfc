import Isz.Wago.Logger

namespace Isz.Wago

open Bufio

def scan : List UInt8 → Step (List UInt8) (List UInt8)
  | [] => .stop .nil
  | c :: rest =>
    if c = 0x55 then
      if (c :: rest).length < 6 then .stop .nil
      else if (c :: rest).getD 1 0 ≠ 0xAA then .next none rest
      else
        let n := 6 + ((c :: rest).getD 5 0).toNat + 1
        if (c :: rest).length < n then .stop (.error .unexpectedEof)
        else .next (some ((c :: rest).take n)) ((c :: rest).drop n)
    else .next none rest

def frames (bytes : List UInt8) : List (List UInt8) × Option Return :=
  run scan (bytes.length + 1) bytes

structure Ready (b : Reader) : Prop where
  valid : b.Valid
  size : b.buf.length = 4096

theorem ready_newReader (d : Device) : Ready (newReader 4096 d) :=
  ⟨⟨Nat.le_refl 0, Nat.zero_le _, nofun⟩, List.length_replicate⟩

theorem pending_newReader (d : Device) : (newReader 4096 d).pending = d.stream := by
  rw [Reader.pending, Reader.buffered, newReader, slice_self, List.nil_append]

section Turn

variable {b : Reader} (h : Ready b)
include h

theorem findHeader_nil (hp : b.pending = []) : findHeader b = .stop .nil := by
  rcases Reader.readByte_spec h.valid (by rw [h.size]; omega) with
    ⟨-, b', hread⟩ | ⟨c, b', -, -, hpending, -⟩
  · rw [findHeader, hread]
  · rw [hp] at hpending
    cases hpending

theorem readByte_cons {c : UInt8} {rest : List UInt8} (hp : b.pending = c :: rest) : ∃ b',
    b.readByte = (.ok c, b') ∧ Ready b' ∧ b'.pending = rest ∧ 0 < b'.r ∧
      b'.lastByte = some c := by
  rcases Reader.readByte_spec h.valid (by rw [h.size]; omega) with
    ⟨hnil, -⟩ | ⟨c', b', hread, hvalid, hpending, hlength, hr, hlast⟩
  · rw [hp] at hnil
    cases hnil
  · rw [hp] at hpending
    obtain ⟨rfl, rfl⟩ := List.cons.inj hpending
    exact ⟨b', hread, ⟨hvalid, hlength.trans h.size⟩, rfl, hr, hlast⟩

theorem findHeader_noise {c : UInt8} {rest : List UInt8} (hp : b.pending = c :: rest)
    (hc : c ≠ 0x55) : ∃ b', findHeader b = .skip b' ∧ Ready b' ∧ b'.pending = rest := by
  obtain ⟨b', hread, hready, hpending, -, -⟩ := readByte_cons h hp
  refine ⟨b', ?_, hready, hpending⟩
  rw [findHeader, hread]
  exact if_neg hc

theorem headerByte_pending {j : Nat} (hj : j < b.w - b.r) :
    headerByte b ⟨b.r, 6⟩ j = b.pending.getD j 0 := Reader.getD_pending h.valid hj

theorem findHeader_sync {rest : List UInt8} (hp : b.pending = 0x55 :: rest) :
    b.pending.length < 6 ∧ findHeader b = .stop .nil ∨
    6 ≤ b.pending.length ∧ b.pending.getD 1 0 ≠ 0xAA ∧
      (∃ b', findHeader b = .skip b' ∧ Ready b' ∧ b'.pending = rest) ∨
    6 ≤ b.pending.length ∧ b.pending.getD 1 0 = 0xAA ∧
      ∃ b', findHeader b = .header ⟨b'.r, 6⟩ b' ∧ Ready b' ∧ b'.pending = b.pending ∧
        6 ≤ b'.w - b'.r := by
  obtain ⟨b₁, hread, hready, hrest, hr, hlast⟩ := readByte_cons h hp
  obtain ⟨b₂, hunread, hvalid, hpending, hlength⟩ := Reader.unreadByte_spec hready.valid hr hlast
  have hsame : b₂.pending = b.pending := by rw [hpending, hrest, hp]
  have hsize : b₂.buf.length = 4096 := hlength.trans hready.size
  rcases Reader.peek_spec hvalid (by rw [hsize]; omega : 6 ≤ b₂.buf.length) with
    ⟨hlong, b₃, hpeek, hvalid', hpending', hlength', hbuffered⟩ | ⟨hshort, s, b₃, hpeek⟩
  · rw [hsame] at hlong hpending'
    have hready' : Ready b₃ := ⟨hvalid', hlength'.trans hsize⟩
    have hfirst : headerByte b₃ ⟨b₃.r, 6⟩ 0 = 0x55 := by
      rw [headerByte_pending hready' (by omega), hpending', hp]
      rfl
    have hsecond : headerByte b₃ ⟨b₃.r, 6⟩ 1 = b.pending.getD 1 0 := by
      rw [headerByte_pending hready' (by omega), hpending']
    have hfound : findHeader b = if b.pending.getD 1 0 ≠ 0xAA then .skip b₃.readByte.2
        else .header ⟨b₃.r, 6⟩ b₃ := by
      rw [findHeader, hread]
      simp only [hunread, hpeek, hfirst, hsecond, if_true, ne_eq, not_true, false_or]
    right
    by_cases hc : b.pending.getD 1 0 = 0xAA
    · right
      rw [hfound, if_neg (not_not.mpr hc)]
      exact ⟨hlong, hc, b₃, rfl, hready', hpending', hbuffered⟩
    · left
      obtain ⟨b₄, hread', hready'', hpending'', -, -⟩ := readByte_cons hready' (hpending'.trans hp)
      rw [hfound, if_pos hc, hread']
      exact ⟨hlong, hc, b₄, rfl, hready'', hpending''⟩
  · left
    rw [hsame] at hshort
    refine ⟨hshort, ?_⟩
    rw [findHeader, hread]
    simp only [hunread, hpeek, if_true]

def cellAfter (b : Reader) (packet : List UInt8) (j : Nat) : UInt8 :=
  (((b.refillsFor packet.length).filterMap (·[b.r + j]?)).getLast?).getD (packet.getD j 0)

def typeOf (packet : List UInt8) : UInt8 := packet.getD 4 0

omit h in
theorem getD_take {bytes : List UInt8} {n j : Nat} (hj : j < n) :
    (bytes.take n).getD j 0 = bytes.getD j 0 := by
  rw [List.getD_eq_getElem?_getD, List.getElem?_take_of_lt hj, ← List.getD_eq_getElem?_getD]

theorem packetSize_pending (hheader : 6 ≤ b.w - b.r) :
    packetSize b ⟨b.r, 6⟩ = 6 + (b.pending.getD 5 0).toNat + 1 := by
  rw [packetSize, headerByte_pending h (by omega)]

theorem readPacket_spec (hheader : 6 ≤ b.w - b.r) {n : Nat} (hn : packetSize b ⟨b.r, 6⟩ = n) :
    b.pending.length < n ∧ readPacket ⟨b.r, 6⟩ b = .stop (.error .unexpectedEof) ∨
    n ≤ b.pending.length ∧ ∃ packet b', packet = b.pending.take n ∧ readPacket ⟨b.r, 6⟩ b =
      .next (some ⟨packet, process packet (typeOf packet)
        (cellAfter b packet 2, cellAfter b packet 3)⟩) b' ∧
      Ready b' ∧ b'.pending = b.pending.drop n := by
  have hsize := packetSize_pending h hheader
  have hbyte := UInt8.toNat_lt (b.pending.getD 5 0)
  have htype := headerByte_pending h (by omega : 4 < b.w - b.r)
  rcases Reader.readFull_spec h.valid (by rw [h.size]; omega : n < b.buf.length) with
    ⟨hlong, b', hread, hvalid, hpending, hlength, hbuf⟩ | ⟨hshort, data, b', hread⟩
  · right
    set packet := b.pending.take n with hpacket
    have hlen : packet.length = n := by rw [hpacket, List.length_take, Nat.min_eq_left hlong]
    have hcell {j : Nat} (hj : j < 6) :
        headerByte b' ⟨b.r, 6⟩ j = cellAfter b packet j := by
      rw [headerByte, hbuf, Reader.getD_afterRefills, Reader.getD_pending h.valid (by omega),
        cellAfter, hlen, hpacket, getD_take (by omega)]
    refine ⟨hlong, packet, b', rfl, ?_, ⟨hvalid, hlength.trans h.size⟩, hpending⟩
    rw [readPacket, hn, hread]
    simp only [htype, hcell (by omega : 2 < 6), hcell (by omega : 3 < 6)]
    rw [typeOf, hpacket, getD_take (by omega)]
  · left
    have hnil : b.pending ≠ [] := by
      intro hnil
      have hlen := Reader.length_buffered h.valid
      rw [Reader.pending, List.append_eq_nil_iff] at hnil
      rw [hnil.1, List.length_nil] at hlen
      omega
    refine ⟨hshort, ?_⟩
    rw [readPacket, hn, hread, if_neg hnil]

end Turn

def Unfinished (b : Reader) : Prop :=
  ∀ header b', findHeader b = .header header b' → b'.pending.length < packetSize b' header

inductive Turn (b : Reader) : Step (List UInt8) (List UInt8) → Prop where
  | stop {ret : Return} (hstep : step b = .stop ret) (hend : Unfinished b) : Turn b (.stop ret)
  | skip {b' : Reader} (hstep : step b = .next none b') (hend : Unfinished b) (hready : Ready b') :
      Turn b (.next none b'.pending)
  | frame {b₁ b' : Reader} {packet : List UInt8} (hfound : findHeader b = .header ⟨b₁.r, 6⟩ b₁)
      (hlong : packetSize b₁ ⟨b₁.r, 6⟩ ≤ b₁.pending.length)
      (hpacket : packet = b₁.pending.take (packetSize b₁ ⟨b₁.r, 6⟩))
      (hstep : step b = .next (some ⟨packet, process packet (typeOf packet)
        (cellAfter b₁ packet 2, cellAfter b₁ packet 3)⟩) b') (hready : Ready b') :
      Turn b (.next (some packet) b'.pending)

theorem turn_scan {b : Reader} (h : Ready b) : Turn b (scan b.pending) := by
  have hunfinished {found : Found} (hfound : findHeader b = found)
      (hne : ∀ header b', found ≠ .header header b') : Unfinished b := by
    intro header b' hheader
    exact absurd (hfound.symm.trans hheader) (hne header b')
  cases hp : b.pending with
  | nil =>
    have hfound := findHeader_nil h hp
    exact .stop (by rw [step, hfound]) (hunfinished hfound fun _ _ h => by cases h)
  | cons c rest =>
    rw [scan]
    by_cases hc : c = 0x55
    · subst hc
      rw [if_pos rfl, ← hp]
      rcases findHeader_sync h hp with ⟨hshort, hfound⟩ |
        ⟨hlong, hsecond, b', hfound, hready, hrest⟩ |
        ⟨hlong, hsecond, b₁, hfound, hready, hsame, hheader⟩
      · rw [if_pos hshort]
        exact .stop (by rw [step, hfound]) (hunfinished hfound fun _ _ h => by cases h)
      · rw [if_neg (Nat.not_lt.mpr hlong), if_pos hsecond, ← hrest]
        exact .skip (by rw [step, hfound]) (hunfinished hfound fun _ _ h => by cases h) hready
      · have hsize := packetSize_pending hready hheader
        rw [if_neg (Nat.not_lt.mpr hlong), if_neg (not_not.mpr hsecond), ← hsame]
        simp only [← hsize]
        rcases readPacket_spec hready hheader rfl with
          ⟨hshort, hread⟩ | ⟨hwhole, packet, b', hpacket, hread, hready', hrest⟩
        · rw [if_pos hshort]
          refine .stop (by rw [step, hfound]; exact hread) ?_
          intro header b' hheader'
          obtain ⟨rfl, rfl⟩ := Found.header.inj (hfound.symm.trans hheader')
          exact hshort
        · rw [if_neg (Nat.not_lt.mpr hwhole), ← hpacket, ← hrest]
          exact .frame hfound hwhole hpacket (by rw [step, hfound]; exact hread) hready'
    · obtain ⟨b', hfound, hready, rfl⟩ := findHeader_noise h hp hc
      rw [if_neg hc]
      exact .skip (by rw [step, hfound]) (hunfinished hfound fun _ _ h => by cases h) hready

def Processed (e : Event) : Prop :=
  ∃ deviceID, e.outcome = process e.packet (typeOf e.packet) deviceID

theorem run_scan {b : Reader} (h : Ready b) (fuel : Nat) :
    (run step fuel b).1.map Event.packet = (run scan fuel b.pending).1 ∧
      (run step fuel b).2 = (run scan fuel b.pending).2 ∧
      ∀ e ∈ (run step fuel b).1, Processed e := by
  induction fuel generalizing b with
  | zero => exact ⟨rfl, rfl, fun _ he => absurd he List.not_mem_nil⟩
  | succ fuel ih =>
    have hturn := turn_scan h
    generalize hscan : scan b.pending = turn at hturn
    cases hturn with
    | stop hstep hend =>
      rw [run_stop hstep, run_stop hscan]
      exact ⟨rfl, rfl, fun _ he => absurd he List.not_mem_nil⟩
    | skip hstep hend hready =>
      rw [run_next hstep, run_next hscan]
      exact ih hready
    | frame hfound hlong hpacket hstep hready =>
      obtain ⟨hpackets, hret, hprocessed⟩ := ih hready
      rw [run_next hstep, run_next hscan]
      refine ⟨congrArg (_ :: ·) hpackets, hret, ?_⟩
      intro e he
      rcases List.mem_cons.mp he with rfl | he
      · exact ⟨_, rfl⟩
      · exact hprocessed e he

theorem logData_scan (f : Device) :
    (logData f).1.map Event.packet = (frames f.stream).1 ∧ (logData f).2 = (frames f.stream).2 ∧
      ∀ e ∈ (logData f).1, Processed e := by
  have hrun := run_scan (ready_newReader f) (f.stream.length + 1)
  rwa [pending_newReader] at hrun

theorem scan_consumes {bytes rest : List UInt8} {event : Option (List UInt8)}
    (h : scan bytes = .next event rest) : rest.length < bytes.length := by
  cases bytes with
  | nil => cases h
  | cons c bytes =>
    rw [scan] at h
    rw [List.length_cons]
    split_ifs at h with hc hshort hsecond
    · cases h
      exact Nat.lt_add_one _
    · simp only at h
      split_ifs at h
      cases h
      rw [List.length_drop, List.length_cons]
      omega
    · cases h
      exact Nat.lt_add_one _

theorem run_scan_returns {bytes : List UInt8} {fuel : Nat} (h : bytes.length < fuel) :
    (run scan fuel bytes).2 ≠ none := by
  induction fuel generalizing bytes with
  | zero => cases h
  | succ fuel ih =>
    cases hscan : scan bytes with
    | stop ret =>
      rw [run_stop hscan]
      exact nofun
    | next event rest =>
      have hless := scan_consumes hscan
      rw [run_next hscan]
      exact ih (by omega)

theorem logData_returns (f : Device) : (logData f).2 ≠ none := by
  rw [(logData_scan f).2.1]
  exact run_scan_returns (Nat.lt_succ_self _)

end Isz.Wago
