import Isz.Wago.Framing

namespace Isz.Wago

open Bufio

def Reports (packet : List UInt8) : Prop :=
  checksum packet = 0 ∧ typeOf packet = 3 ∧ (parseFields (payload packet) .zero).isOk = true

instance (packet : List UInt8) : Decidable (Reports packet) :=
  inferInstanceAs (Decidable (_ ∧ _ ∧ _))

def ownID (packet : List UInt8) : UInt8 × UInt8 := (packet.getD 2 0, packet.getD 3 0)

def Genuine (e : Event) : Prop := ∀ s ∈ e.outcome.status, s.deviceID = ownID e.packet

instance (e : Event) : Decidable (Genuine e) := inferInstanceAs (Decidable (∀ s ∈ _, _))

theorem process_reports {packet : List UInt8} (h : Reports packet) : ∃ s : Status, ∀ id,
    process packet (typeOf packet) id = .reported { s with deviceID := id } := by
  obtain ⟨hsum, htype, hparse⟩ := h
  cases hfields : parseFields (payload packet) .zero with
  | error e =>
    rw [hfields] at hparse
    cases hparse
  | ok s =>
    refine ⟨s, fun id => ?_⟩
    rw [process, if_neg (not_not.mpr hsum), if_pos htype, hfields]

theorem process_silent {packet : List UInt8} (h : ¬Reports packet) (id : UInt8 × UInt8) :
    (process packet (typeOf packet) id).status = none := by
  rw [process]
  split_ifs with hsum htype
  · rfl
  · cases hfields : parseFields (payload packet) .zero with
    | error e => rfl
    | ok s => exact absurd ⟨not_not.mp hsum, htype, by rw [hfields]; rfl⟩ h
  · rfl

theorem genuine_process {packet : List UInt8} {id : UInt8 × UInt8} :
    Genuine ⟨packet, process packet (typeOf packet) id⟩ ↔ (Reports packet → id = ownID packet) := by
  by_cases h : Reports packet
  · obtain ⟨s, hs⟩ := process_reports h
    rw [Genuine, hs id]
    constructor
    · intro hgenuine _
      exact hgenuine _ rfl
    · rintro hid _ ⟨⟩
      exact hid h
  · rw [Genuine, process_silent h id]
    exact ⟨fun _ hr => absurd hr h, fun _ _ hs => nomatch hs⟩

theorem status_of_genuine {e : Event} (hprocessed : Processed e) (h : Genuine e) :
    e.outcome.status = (process e.packet (typeOf e.packet) (ownID e.packet)).status := by
  obtain ⟨packet, outcome⟩ := e
  obtain ⟨id, hid⟩ := hprocessed
  simp only at hid
  subst hid
  by_cases hreports : Reports packet
  · rw [genuine_process.mp h hreports]
  · rw [process_silent hreports, process_silent hreports]

def Spares (b : Reader) (header : Reader.Slice) : Prop :=
  let n := packetSize b header
  n ≤ b.pending.length → Reports (b.pending.take n) → ∀ j ∈ [2, 3],
    ∀ x ∈ ((b.refillsFor n).filterMap (·[header.start + j]?)).getLast?, x = b.pending.getD j 0

instance (b : Reader) (header : Reader.Slice) : Decidable (Spares b header) :=
  inferInstanceAs (Decidable (_ → _ → _))

theorem spares_of_buffered {b : Reader} {header : Reader.Slice}
    (h : packetSize b header ≤ b.buffered.length) : Spares b header := by
  intro hlong hreports j hj x hx
  have hnone : b.refillsFor (packetSize b header) = [] := by
    rw [Reader.refillsFor, Nat.sub_eq_zero_of_le h]
    cases packetSize b header <;> rfl
  rw [hnone] at hx
  cases hx

def Found.Spared : Found → Prop
  | .header slice b => Spares b slice
  | _ => True

instance : DecidablePred Found.Spared
  | .header slice b => inferInstanceAs (Decidable (Spares b slice))
  | .stop _ => .isTrue trivial
  | .skip _ => .isTrue trivial

def Spared (f : Device) : Prop :=
  ∀ b ∈ visited step (f.stream.length + 1) (newReader 4096 f), (findHeader b).Spared

instance (f : Device) : Decidable (Spared f) := inferInstanceAs (Decidable (∀ b ∈ _, _))

theorem spared_of_unfinished {b : Reader} (h : Unfinished b) : (findHeader b).Spared := by
  cases hfound : findHeader b with
  | stop ret => trivial
  | skip b' => trivial
  | header header b' =>
    intro hlong
    exact absurd (h header b' hfound) (Nat.not_lt.mpr hlong)

theorem spares_iff {b : Reader} {packet : List UInt8}
    (hlong : packetSize b ⟨b.r, 6⟩ ≤ b.pending.length)
    (hpacket : packet = b.pending.take (packetSize b ⟨b.r, 6⟩)) :
    Spares b ⟨b.r, 6⟩ ↔
      (Reports packet → (cellAfter b packet 2, cellAfter b packet 3) = ownID packet) := by
  have hlength : packet.length = packetSize b ⟨b.r, 6⟩ := by
    rw [hpacket, List.length_take, Nat.min_eq_left hlong]
  have hbyte {j : Nat} (hj : j < 6) : b.pending.getD j 0 = packet.getD j 0 := by
    have hsize : 6 < packetSize b ⟨b.r, 6⟩ := by
      rw [packetSize]
      exact Nat.lt_succ_of_le (Nat.le_add_right 6 _)
    rw [hpacket, getD_take (Nat.lt_trans hj hsize)]
  have hcell {j : Nat} (hj : j < 6) : cellAfter b packet j = packet.getD j 0 ↔
      ∀ x ∈ ((b.refillsFor (packetSize b ⟨b.r, 6⟩)).filterMap (·[b.r + j]?)).getLast?,
        x = b.pending.getD j 0 := by
    rw [cellAfter, hlength, hbyte hj]
    cases ((b.refillsFor (packetSize b ⟨b.r, 6⟩)).filterMap (·[b.r + j]?)).getLast? with
    | none =>
      constructor
      · rintro - _ ⟨⟩
      · exact fun _ => rfl
    | some x =>
      constructor
      · rintro h _ ⟨⟩
        exact h
      · exact fun h => h x rfl
  rw [Spares, ← hpacket]
  simp only [hlong, forall_const, ownID, Prod.mk.injEq, List.forall_mem_cons,
    List.not_mem_nil, false_implies, and_true, hcell (by omega : 2 < 6),
    hcell (by omega : 3 < 6)]

theorem genuine_run {b : Reader} (h : Ready b) (fuel : Nat) :
    (∀ e ∈ (run step fuel b).1, Genuine e) ↔
      ∀ s ∈ visited step fuel b, (findHeader s).Spared := by
  induction fuel generalizing b with
  | zero =>
    exact ⟨fun _ _ hs => absurd hs List.not_mem_nil, fun _ _ he => absurd he List.not_mem_nil⟩
  | succ fuel ih =>
    have hturn := turn_scan h
    generalize scan b.pending = turn at hturn
    cases hturn with
    | stop hstep hend =>
      rw [run_stop hstep, visited_stop hstep, List.forall_mem_singleton]
      exact ⟨fun _ => spared_of_unfinished hend, fun _ _ he => absurd he List.not_mem_nil⟩
    | skip hstep hend hready =>
      rw [run_next hstep, visited_next hstep, List.forall_mem_cons, ← ih hready]
      exact ⟨fun hrun => ⟨spared_of_unfinished hend, hrun⟩, fun hrun => hrun.2⟩
    | frame hfound hlong hpacket hstep hready =>
      rw [run_next hstep, visited_next hstep, List.forall_mem_cons, ← ih hready, hfound]
      show (∀ e ∈ _ :: _, Genuine e) ↔ Spares _ _ ∧ _
      rw [List.forall_mem_cons, genuine_process, spares_iff hlong hpacket]
      exact Iff.rfl

theorem genuine_logData (f : Device) : (∀ e ∈ (logData f).1, Genuine e) ↔ Spared f :=
  genuine_run (ready_newReader f) _

theorem statuses_of_genuine {f : Device} (h : ∀ e ∈ (logData f).1, Genuine e) :
    statuses (logData f).1 = (frames f.stream).1.filterMap fun packet =>
      (process packet (typeOf packet) (ownID packet)).status := by
  obtain ⟨hpackets, -, hprocessed⟩ := logData_scan f
  rw [statuses, ← hpackets, List.filterMap_map]
  refine List.filterMap_congr fun e he => ?_
  exact status_of_genuine (hprocessed e he) (h e he)

theorem statuses_chunking_iff {f g : Device} (h : f.stream = g.stream) :
    (statuses (logData f).1 = statuses (logData g).1 ∧
      (∀ e ∈ (logData f).1, Genuine e) ∧ ∀ e ∈ (logData g).1, Genuine e) ↔
    Spared f ∧ Spared g := by
  rw [genuine_logData, genuine_logData]
  constructor
  · rintro ⟨-, hspared⟩
    exact hspared
  · rintro ⟨hf, hg⟩
    refine ⟨?_, hf, hg⟩
    rw [statuses_of_genuine ((genuine_logData f).mpr hf),
      statuses_of_genuine ((genuine_logData g).mpr hg), h]

def wholePacket : Device :=
  ⟨[⟨[0x55, 0xAA, 1, 2, 3, 3, 7, 0x18, 0x80, 0x63], by decide⟩]⟩

def splitPacket : Device :=
  ⟨[⟨[0x55, 0xAA, 1, 2, 3, 3], by decide⟩, ⟨[7, 0x18, 0x80, 0x63], by decide⟩]⟩

def trickledPacket : Device :=
  ⟨[⟨[0x55, 0xAA, 1, 2, 3, 3], by decide⟩, ⟨[7, 0x18], by decide⟩, ⟨[0x80, 0x63], by decide⟩]⟩

theorem statuses_chunking_trickled :
    statuses (logData wholePacket).1 = statuses (logData trickledPacket).1 :=
  ((statuses_chunking_iff (f := wholePacket) (g := trickledPacket) rfl).mpr
    (by decide +kernel)).1

theorem splitPacket_misnamed :
    wholePacket.stream = splitPacket.stream ∧
      statuses (logData wholePacket).1 ≠ statuses (logData splitPacket).1 ∧
      ¬ ∀ e ∈ (logData splitPacket).1, Genuine e := by
  decide +kernel

end Isz.Wago
