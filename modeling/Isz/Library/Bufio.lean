import Mathlib.Data.List.Basic
import Mathlib.Data.List.TakeDrop

namespace Bufio

inductive Error where
  | eof
  | unexpectedEof
  | bufferFull
  | invalidUnreadByte
  | noProgress
  deriving DecidableEq

abbrev Chunk := { bytes : List UInt8 // bytes ≠ [] }

-- what an io.Reader still returns: its chunks, then io.EOF
structure Device where
  chunks : List Chunk
  deriving DecidableEq

namespace Device

def stream (d : Device) : List UInt8 := d.chunks.flatMap Subtype.val

def read (d : Device) (n : Nat) : List UInt8 × Option Error × Device :=
  match d.chunks with
  | [] => ([], some .eof, d)
  | c :: rest =>
    if h : c.1.length ≤ n then (c.1, none, ⟨rest⟩)
    else (c.1.take n, none, ⟨⟨c.1.drop n, by simpa using h⟩ :: rest⟩)

theorem read_cases (d : Device) {n : Nat} (hn : 0 < n) :
    d.stream = [] ∧ d.chunks = [] ∧ d.read n = ([], some .eof, d) ∨
    ∃ data d', d.read n = (data, none, d') ∧ data ≠ [] ∧ data.length ≤ n ∧
      d.stream = data ++ d'.stream := by
  obtain ⟨chunks⟩ := d
  cases chunks with
  | nil => exact .inl ⟨rfl, rfl, rfl⟩
  | cons c rest =>
    right
    by_cases h : c.1.length ≤ n
    · exact ⟨c.1, ⟨rest⟩, by simp [read, h], c.2, h, List.flatMap_cons⟩
    · refine ⟨c.1.take n, ⟨⟨c.1.drop n, by simpa using h⟩ :: rest⟩, by simp [read, h], ?_,
        List.length_take_le n _, ?_⟩
      · intro htake
        rw [List.take_eq_nil_iff] at htake
        rcases htake with h0 | h0
        · omega
        · exact c.2 h0
      · rw [stream, stream, List.flatMap_cons, List.flatMap_cons, ← List.append_assoc,
          List.take_append_drop]

end Device

def overwrite (buf : List UInt8) (at' : Nat) (data : List UInt8) : List UInt8 :=
  buf.take at' ++ data ++ buf.drop (at' + data.length)

def slice (buf : List UInt8) (lo hi : Nat) : List UInt8 := (buf.drop lo).take (hi - lo)

section Cells

variable {buf data : List UInt8} {at' lo hi q : Nat}

theorem length_overwrite (h : at' + data.length ≤ buf.length) :
    (overwrite buf at' data).length = buf.length := by
  simp only [overwrite, List.length_append, List.length_take, List.length_drop]
  omega

theorem slice_self (buf : List UInt8) (lo : Nat) : slice buf lo lo = [] := by
  rw [slice, Nat.sub_self, List.take_zero]

theorem length_slice (h : hi ≤ buf.length) : (slice buf lo hi).length = hi - lo := by
  rw [slice, List.length_take, List.length_drop]
  omega

theorem drop_slice (n : Nat) :
    (slice buf lo hi).drop n = slice buf (lo + n) hi := by
  rw [slice, slice, List.drop_take, List.drop_drop, Nat.sub_sub]

theorem slice_overwrite_at (buf data : List UInt8) (h : at' ≤ buf.length) :
    slice (overwrite buf at' data) 0 (at' + data.length) = slice buf 0 at' ++ data := by
  have hlen : (buf.take at' ++ data).length = at' + data.length := by
    rw [List.length_append, List.length_take, Nat.min_eq_left h]
  rw [slice, slice, overwrite, List.drop_zero, List.drop_zero, Nat.sub_zero, Nat.sub_zero, ← hlen,
    List.take_left]

theorem slice_cons (h : lo < hi) (hbuf : lo < buf.length) :
    slice buf lo hi = buf.getD lo 0 :: slice buf (lo + 1) hi := by
  have hlen : hi - lo = (hi - (lo + 1)) + 1 := by omega
  rw [slice, slice, List.drop_eq_getElem_cons hbuf, hlen, List.take_succ_cons,
    List.getD_eq_getElem?_getD, List.getElem?_eq_getElem hbuf, Option.getD_some]

theorem getD_overwrite_zero (q : Nat) :
    (overwrite buf 0 data).getD q 0 = data.getD q (buf.getD q 0) := by
  rw [overwrite, List.take_zero, List.nil_append, Nat.zero_add]
  simp only [List.getD_eq_getElem?_getD]
  rcases Nat.lt_or_ge q data.length with h | h
  · rw [List.getElem?_append_left h, List.getElem?_eq_getElem h, Option.getD_some,
      Option.getD_some]
  · rw [List.getElem?_append_right h, List.getElem?_eq_none h, Option.getD_none,
      List.getElem?_drop, Nat.add_sub_cancel' h]

end Cells

structure Reader where
  buf : List UInt8
  r : Nat
  w : Nat
  err : Option Error
  lastByte : Option UInt8
  device : Device
  deriving DecidableEq

def newReader (size : Nat) (device : Device) : Reader :=
  ⟨List.replicate size 0, 0, 0, none, none, device⟩

namespace Reader

def buffered (b : Reader) : List UInt8 := slice b.buf b.r b.w

def pending (b : Reader) : List UInt8 := b.buffered ++ b.device.stream

def slide (b : Reader) : Reader :=
  if 0 < b.r then { b with buf := overwrite b.buf 0 b.buffered, w := b.w - b.r, r := 0 } else b

def extend (b : Reader) (data : List UInt8) (err : Option Error) (device : Device) : Reader :=
  { b with buf := overwrite b.buf b.w data, w := b.w + data.length, err := err, device := device }

-- the device returns no empty chunk, so the retry of an empty read is never taken
def fill (b : Reader) : Reader :=
  match b.slide.device.read (b.slide.buf.length - b.slide.w) with
  | (data, err, device) => b.slide.extend data err device

def peekLoop : Nat → Nat → Reader → Reader
  | 0, _, b => b
  | fuel + 1, n, b =>
    if b.w - b.r < n ∧ b.w - b.r < b.buf.length ∧ b.err = none then peekLoop fuel n b.fill else b

structure Slice where
  start : Nat
  len : Nat
  deriving DecidableEq

def bytes (b : Reader) (s : Slice) : List UInt8 := (b.buf.drop s.start).take s.len

def peek (b : Reader) (n : Nat) : Slice × Option Error × Reader :=
  let b := peekLoop n n { b with lastByte := none }
  if b.buf.length < n then (⟨b.r, b.w - b.r⟩, some .bufferFull, b)
  else if b.w - b.r < n then
    (⟨b.r, b.w - b.r⟩, some (b.err.getD .bufferFull), { b with err := none })
  else (⟨b.r, n⟩, none, b)

def readByteLoop : Nat → Reader → Except Error UInt8 × Reader
  | 0, b => (.error .noProgress, b)
  | fuel + 1, b =>
    if b.r = b.w then
      match b.err with
      | some e => (.error e, { b with err := none })
      | none => readByteLoop fuel b.fill
    else
      let c := b.buf.getD b.r 0
      (.ok c, { b with r := b.r + 1, lastByte := some c })

def readByte (b : Reader) : Except Error UInt8 × Reader := readByteLoop 2 b

def unreadByte (b : Reader) : Option Error × Reader :=
  match b.lastByte with
  | none => (some .invalidUnreadByte, b)
  | some c =>
    if b.r = 0 ∧ 0 < b.w then (some .invalidUnreadByte, b)
    else if 0 < b.r then
      (none, { b with r := b.r - 1, buf := b.buf.set (b.r - 1) c, lastByte := none })
    else (none, { b with w := 1, buf := b.buf.set 0 c, lastByte := none })

def copyOut (b : Reader) (n : Nat) : List UInt8 × Reader :=
  let data := b.buffered.take n
  (data, { b with
    r := b.r + data.length
    lastByte := some (b.buf.getD (b.r + data.length - 1) 0) })

def reload (b : Reader) (data : List UInt8) (err : Option Error) (device : Device) : Reader :=
  { b with
    buf := overwrite b.buf 0 data, r := 0, w := data.length, err := err, device := device }

def read (b : Reader) (n : Nat) : List UInt8 × Option Error × Reader :=
  if n = 0 then
    if b.r < b.w then ([], none, b) else ([], b.err, { b with err := none })
  else if b.r = b.w then
    match b.err with
    | some e => ([], some e, { b with err := none })
    | none =>
      if b.buf.length ≤ n then
        let (data, err, device) := b.device.read n
        (data, err, { b with
          device := device
          lastByte := if data = [] then b.lastByte else data.getLast? })
      else
        match b.device.read b.buf.length with
        | (data, err, device) =>
          if data = [] then ([], err, b.reload data none device)
          else
            let (out, b) := (b.reload data err device).copyOut n
            (out, none, b)
  else
    let (out, b) := b.copyOut n
    (out, none, b)

def readFullLoop : Nat → Nat → List UInt8 → Reader → List UInt8 × Option Error × Reader
  | 0, _, acc, b => (acc, none, b)
  | fuel + 1, n, acc, b =>
    if n ≤ acc.length then (acc, none, b)
    else
      match b.read (n - acc.length) with
      | (data, some e, b) => (acc ++ data, some e, b)
      | (data, none, b) => readFullLoop fuel n (acc ++ data) b

def readFull (b : Reader) (n : Nat) : List UInt8 × Option Error × Reader :=
  match readFullLoop n n [] b with
  | (data, err, b) =>
    if n ≤ data.length then (data, none, b)
    else if data ≠ [] ∧ err = some .eof then (data, some .unexpectedEof, b)
    else (data, err, b)

structure Valid (b : Reader) : Prop where
  le : b.r ≤ b.w
  bound : b.w ≤ b.buf.length
  ended : ∀ e, b.err = some e → e = .eof ∧ b.device.stream = []

section Specs

variable {b : Reader} (h : b.Valid)
include h

theorem length_buffered : b.buffered.length = b.w - b.r := length_slice h.bound

theorem slide_spec : b.slide.r = 0 ∧ b.slide.w = b.w - b.r ∧ b.slide.buffered = b.buffered ∧
    b.slide.buf.length = b.buf.length ∧ b.slide.device = b.device := by
  have hle := h.le
  have hbound := h.bound
  have hlen := length_buffered h
  by_cases hr : 0 < b.r
  · have hcopy := slice_overwrite_at b.buf b.buffered (Nat.zero_le _)
    rw [slice_self, List.nil_append, Nat.zero_add, hlen] at hcopy
    rw [slide, if_pos hr]
    exact ⟨rfl, rfl, hcopy, length_overwrite (by omega), rfl⟩
  · rw [slide, if_neg hr]
    exact ⟨by omega, by omega, rfl, rfl, rfl⟩

omit h in
theorem buffered_extend {data : List UInt8} {err : Option Error} {d : Device} (hr : b.r = 0)
    (hbound : b.w ≤ b.buf.length) : (b.extend data err d).buffered = b.buffered ++ data := by
  have hcopy := slice_overwrite_at b.buf data hbound
  rw [buffered, buffered, hr, ← hcopy]
  exact congrArg (fun r => slice _ r _) hr

theorem fill_spec (hroom : b.w - b.r < b.buf.length) :
    b.fill.Valid ∧ b.fill.pending = b.pending ∧ b.fill.buf.length = b.buf.length ∧
      (b.fill.err = some .eof ∨ b.fill.err = none ∧ b.w - b.r < b.fill.w - b.fill.r) := by
  obtain ⟨hr, hw, hbuffered, hlength, hdevice⟩ := slide_spec h
  have hspace : 0 < b.slide.buf.length - b.slide.w := by omega
  have hwhole {data : List UInt8} {err : Option Error} {d : Device} :
      (b.slide.extend data err d).buffered = b.buffered ++ data := by
    rw [buffered_extend hr (by omega), hbuffered]
  have hsame {data : List UInt8} {err : Option Error} {d : Device}
      (hle : data.length ≤ b.slide.buf.length - b.slide.w) :
      (b.slide.extend data err d).buf.length = b.buf.length := by
    rw [← hlength]
    exact length_overwrite (by omega)
  rw [fill]
  rcases b.slide.device.read_cases hspace with ⟨hend, -, hread⟩ | ⟨data, d', hread, hne, hle, hs⟩
  · rw [hread]
    rw [hdevice] at hend
    refine ⟨⟨?_, ?_, ?_⟩, ?_, hsame (Nat.zero_le _), .inl rfl⟩
    · exact Nat.le_trans (Nat.le_of_eq hr) (Nat.zero_le _)
    · rw [hsame (Nat.zero_le _)]
      exact Nat.le_of_lt (hw ▸ hroom)
    · rintro e ⟨⟩
      exact ⟨rfl, hdevice ▸ hend⟩
    · rw [pending, pending, hwhole, List.append_nil, hend]
      exact congrArg (b.buffered ++ ·) (hdevice ▸ hend)
  · rw [hread]
    rw [hdevice] at hs
    refine ⟨⟨?_, ?_, ?_⟩, ?_, hsame hle, .inr ⟨rfl, ?_⟩⟩
    · exact Nat.le_trans (Nat.le_of_eq hr) (Nat.zero_le _)
    · rw [hsame hle]
      show b.slide.w + data.length ≤ b.buf.length
      omega
    · rintro e ⟨⟩
    · rw [pending, pending, hwhole, List.append_assoc, hs]
      rfl
    · have hpos := List.length_pos_iff.mpr hne
      show b.w - b.r < b.slide.w + data.length - b.slide.r
      omega

theorem peekLoop_spec (fuel n : Nat) (hn : n ≤ b.buf.length)
    (hfuel : b.err = some .eof ∨ n ≤ b.w - b.r + fuel) :
    (peekLoop fuel n b).Valid ∧ (peekLoop fuel n b).pending = b.pending ∧
      (peekLoop fuel n b).buf.length = b.buf.length ∧
      (n ≤ (peekLoop fuel n b).w - (peekLoop fuel n b).r ∨
        (peekLoop fuel n b).err = some .eof) := by
  induction fuel generalizing b with
  | zero => exact ⟨h, rfl, rfl, hfuel.symm⟩
  | succ fuel ih =>
    rw [peekLoop]
    split
    · rename_i hc
      obtain ⟨hvalid, hpending, hlength, hfill⟩ := fill_spec h hc.2.1
      have hfuel' : b.fill.err = some .eof ∨ n ≤ b.fill.w - b.fill.r + fuel := by
        rcases hfuel with herr | hfuel
        · rw [hc.2.2] at herr
          cases herr
        · rcases hfill with herr | ⟨-, hmore⟩
          · exact .inl herr
          · exact .inr (by omega)
      obtain ⟨h1, h2, h3, h4⟩ := ih hvalid (by omega) hfuel'
      exact ⟨h1, h2.trans hpending, h3.trans hlength, h4⟩
    · rename_i hc
      refine ⟨h, rfl, rfl, ?_⟩
      cases herr : b.err with
      | none => exact .inl (by simp only [herr, and_true] at hc; omega)
      | some e => exact .inr (by rw [(h.ended e herr).1])

theorem pending_of_ended (herr : b.err = some .eof) : b.pending = b.buffered := by
  rw [pending, (h.ended _ herr).2, List.append_nil]

theorem peek_spec {n : Nat} (hn : n ≤ b.buf.length) :
    n ≤ b.pending.length ∧ (∃ b', b.peek n = (⟨b'.r, n⟩, none, b') ∧ b'.Valid ∧
      b'.pending = b.pending ∧ b'.buf.length = b.buf.length ∧ n ≤ b'.w - b'.r) ∨
    b.pending.length < n ∧ ∃ s b', b.peek n = (s, some .eof, b') := by
  have hstart : ({ b with lastByte := none } : Reader).Valid := ⟨h.le, h.bound, h.ended⟩
  obtain ⟨hvalid, hpending, hlength, hloop⟩ :=
    peekLoop_spec hstart n n hn (.inr (by omega))
  set b' := peekLoop n n { b with lastByte := none } with hb'
  have hbuffered := length_buffered hvalid
  have hsize : ¬ b'.buf.length < n := by
    rw [hlength]
    exact Nat.not_lt.mpr hn
  by_cases hc : b'.w - b'.r < n
  · right
    have herr : b'.err = some .eof := hloop.resolve_left (by omega)
    constructor
    · rw [show b.pending = b'.pending from hpending.symm, pending_of_ended hvalid herr]
      omega
    · refine ⟨⟨b'.r, b'.w - b'.r⟩, { b' with err := none }, ?_⟩
      simp only [peek, ← hb', if_neg hsize, if_pos hc, herr, Option.getD_some]
  · left
    constructor
    · rw [show b.pending = b'.pending from hpending.symm, pending, List.length_append]
      omega
    · refine ⟨b', ?_, hvalid, hpending, hlength, Nat.not_lt.mp hc⟩
      simp only [peek, ← hb', if_neg hsize, if_neg hc]

theorem pending_eq_cons (hlt : b.r < b.w) :
    b.pending = b.buf.getD b.r 0 :: (slice b.buf (b.r + 1) b.w ++ b.device.stream) := by
  have hbound := h.bound
  rw [pending, buffered, slice_cons hlt (by omega), List.cons_append]

theorem readByteLoop_some (fuel : Nat) (hlt : b.r < b.w) : ∃ b',
    readByteLoop (fuel + 1) b = (.ok (b.buf.getD b.r 0), b') ∧ b'.Valid ∧
      b.pending = b.buf.getD b.r 0 :: b'.pending ∧ b'.buf = b.buf ∧ b'.r = b.r + 1 ∧
      b'.lastByte = some (b.buf.getD b.r 0) := by
  refine ⟨{ b with r := b.r + 1, lastByte := some (b.buf.getD b.r 0) }, ?_,
    ⟨hlt, h.bound, h.ended⟩, pending_eq_cons h hlt, rfl, rfl, rfl⟩
  rw [readByteLoop, if_neg (Nat.ne_of_lt hlt)]

theorem readByte_spec (hsize : 0 < b.buf.length) :
    b.pending = [] ∧ (∃ b', b.readByte = (.error .eof, b')) ∨
    ∃ c b', b.readByte = (.ok c, b') ∧ b'.Valid ∧ b.pending = c :: b'.pending ∧
      b'.buf.length = b.buf.length ∧ 0 < b'.r ∧ b'.lastByte = some c := by
  rcases Nat.lt_or_eq_of_le h.le with hlt | heq
  · right
    obtain ⟨b', hread, hvalid, hpending, hbuf, hr, hlast⟩ := readByteLoop_some h 1 hlt
    exact ⟨_, b', hread, hvalid, hpending, by rw [hbuf], by omega, hlast⟩
  · have hempty : b.buffered = [] := by rw [buffered, heq, slice_self]
    cases herr : b.err with
    | some e =>
      obtain ⟨rfl, hend⟩ := h.ended e herr
      left
      refine ⟨by rw [pending, hempty, hend]; rfl, { b with err := none }, ?_⟩
      rw [readByte, readByteLoop, if_pos heq]
      simp only [herr]
    | none =>
      obtain ⟨hvalid, hpending, hlength, hfill⟩ := fill_spec h (by omega)
      have hread : b.readByte = readByteLoop 1 b.fill := by
        rw [readByte, readByteLoop, if_pos heq]
        simp only [herr]
      rcases Nat.lt_or_eq_of_le hvalid.le with hlt | heq'
      · right
        obtain ⟨b', hread', hvalid', hpending', hbuf, hr, hlast⟩ :=
          readByteLoop_some hvalid 0 hlt
        exact ⟨_, b', hread.trans hread', hvalid', by rw [← hpending, hpending'],
          by rw [hbuf, hlength], by omega, hlast⟩
      · left
        have herr' : b.fill.err = some .eof := by
          rcases hfill with herr' | ⟨-, hmore⟩
          · exact herr'
          · omega
        refine ⟨?_, { b.fill with err := none }, ?_⟩
        · rw [← hpending, pending_of_ended hvalid herr', buffered, heq', slice_self]
        · rw [hread, readByteLoop, if_pos heq']
          simp only [herr']

theorem unreadByte_spec {c : UInt8} (hr : 0 < b.r) (hlast : b.lastByte = some c) : ∃ b',
    b.unreadByte = (none, b') ∧ b'.Valid ∧ b'.pending = c :: b.pending ∧
      b'.buf.length = b.buf.length := by
  have hle := h.le
  have hbound := h.bound
  set b' : Reader := { b with r := b.r - 1, buf := b.buf.set (b.r - 1) c, lastByte := none }
    with hb'
  have hlength : b'.buf.length = b.buf.length := List.length_set
  have hvalid : b'.Valid := ⟨Nat.le_trans (Nat.sub_le _ _) hle, hlength ▸ hbound, h.ended⟩
  have hlt : b'.r < b'.w := Nat.lt_of_lt_of_le (Nat.sub_lt hr Nat.one_pos) hle
  have hhead : b'.buf.getD b'.r 0 = c := by
    have hin : b.r - 1 < b.buf.length := by omega
    show (b.buf.set (b.r - 1) c).getD (b.r - 1) 0 = c
    rw [List.getD_eq_getElem?_getD, List.getElem?_set_self hin, Option.getD_some]
  have htail : slice b'.buf (b'.r + 1) b'.w = b.buffered := by
    show slice (b.buf.set (b.r - 1) c) (b.r - 1 + 1) b.w = slice b.buf b.r b.w
    rw [Nat.sub_add_cancel hr, slice, slice, List.drop_set_of_lt (by omega)]
  refine ⟨b', ?_, hvalid, ?_, hlength⟩
  · simp only [unreadByte, hlast]
    rw [if_neg (by omega), if_pos hr]
  · rw [pending_eq_cons hvalid hlt, hhead, htail]
    rfl

theorem getD_pending {j : Nat} (hj : j < b.w - b.r) :
    b.buf.getD (b.r + j) 0 = b.pending.getD j 0 := by
  have hlen : j < b.buffered.length := by rwa [length_buffered h]
  simp only [List.getD_eq_getElem?_getD]
  rw [pending, List.getElem?_append_left hlen, buffered, slice,
    List.getElem?_take_of_lt hj, List.getElem?_drop]

theorem copyOut_spec {n : Nat} : ∃ b', b.copyOut n = (b.buffered.take n, b') ∧ b'.Valid ∧
    b'.buffered = b.buffered.drop n ∧ b'.buf = b.buf ∧ b'.device = b.device := by
  have hlen := length_buffered h
  have hle := h.le
  have hr : b.r + (b.buffered.take n).length ≤ b.w := by
    rw [List.length_take]
    omega
  refine ⟨_, rfl, ⟨hr, h.bound, h.ended⟩, ?_, rfl, rfl⟩
  show slice b.buf (b.r + (b.buffered.take n).length) b.w = b.buffered.drop n
  rw [← drop_slice, List.length_take]
  rcases Nat.le_total n b.buffered.length with hn | hn
  · rw [Nat.min_eq_left hn, buffered]
  · rw [Nat.min_eq_right hn, List.drop_eq_nil_of_le hn]
    exact List.drop_eq_nil_of_le (Nat.le_refl _)

end Specs

def refills (size : Nat) : Nat → Nat → Device → List (List UInt8)
  | 0, _, _ => []
  | fuel + 1, need, d =>
    if need = 0 then []
    else
      match d.read size with
      | (data, none, d) => data :: refills size fuel (need - data.length) d
      | (_, some _, _) => []

theorem refills_fuel {size f g need : Nat} (hsize : 0 < size) {d : Device} (hf : need ≤ f)
    (hg : need ≤ g) : refills size f need d = refills size g need d := by
  induction f generalizing g need d with
  | zero =>
    obtain rfl := Nat.le_zero.mp hf
    cases g <;> rfl
  | succ f ih =>
    cases g with
    | zero =>
      obtain rfl := Nat.le_zero.mp hg
      rfl
    | succ g =>
      rw [refills, refills]
      split
      · rfl
      · rcases d.read_cases hsize with ⟨-, -, hread⟩ | ⟨data, d', hread, hne, -, -⟩
        · rw [hread]
        · have hpos := List.length_pos_iff.mpr hne
          rw [hread]
          exact congrArg (data :: ·) (ih (by omega) (by omega))

def refillsFor (b : Reader) (n : Nat) : List (List UInt8) :=
  refills b.buf.length n (n - b.buffered.length) b.device

def afterRefills (buf : List UInt8) (chunks : List (List UInt8)) : List UInt8 :=
  chunks.foldl (fun buf data => overwrite buf 0 data) buf

theorem refillsFor_copied {r b : Reader} {n : Nat} (hsize : n < r.buf.length)
    (hbuffered : b.buffered = r.buffered.drop n) (hbuf : b.buf = r.buf)
    (hdevice : b.device = r.device) :
    b.refillsFor (n - (r.buffered.take n).length) = r.refillsFor n := by
  have hneed : n - (r.buffered.take n).length - b.buffered.length = n - r.buffered.length := by
    rw [hbuffered, List.length_drop, List.length_take]
    omega
  rw [refillsFor, refillsFor, hbuf, hdevice, hneed]
  refine refills_fuel (by omega) ?_ (Nat.sub_le _ _)
  rw [List.length_take]
  omega

section Read

variable {b : Reader} (h : b.Valid) {n : Nat} (hsize : n < b.buf.length)
include h hsize

theorem read_buffered (hn : 0 < n) (hlt : b.r < b.w) :
    ∃ b', b.read n = (b.buffered.take n, none, b') ∧ b.buffered.take n ≠ [] ∧ b'.Valid ∧
      b.pending = b.buffered.take n ++ b'.pending ∧ b'.buf = b.buf ∧
      b.refillsFor n = b'.refillsFor (n - (b.buffered.take n).length) := by
  obtain ⟨b', hcopy, hvalid, hbuffered, hbuf, hdevice⟩ := copyOut_spec (n := n) h
  have hlen := length_buffered h
  refine ⟨b', ?_, ?_, hvalid, ?_, hbuf, (refillsFor_copied hsize hbuffered hbuf hdevice).symm⟩
  · rw [read, if_neg (Nat.ne_of_gt hn), if_neg (Nat.ne_of_lt hlt), hcopy]
  · intro hnil
    rw [List.take_eq_nil_iff] at hnil
    rcases hnil with h0 | h0
    · omega
    · rw [h0] at hlen
      exact absurd hlen (by simp; omega)
  · rw [pending, pending, hbuffered, hdevice, ← List.append_assoc, List.take_append_drop]

omit h in
theorem read_refilled (hn : 0 < n) (heq : b.r = b.w) {data : List UInt8} {d' : Device}
    (herr : b.err = none) (hdev : b.device.read b.buf.length = (data, none, d')) (hne : data ≠ [])
    (hle : data.length ≤ b.buf.length) (hs : b.device.stream = data ++ d'.stream) :
    ∃ b', b.read n = (data.take n, none, b') ∧ b'.Valid ∧
      b.pending = data.take n ++ b'.pending ∧ b'.buf.length = b.buf.length ∧
      b'.buf = overwrite b.buf 0 data ∧
      b.refillsFor n = data :: b'.refillsFor (n - (data.take n).length) := by
  have hempty : b.buffered = [] := by rw [buffered, heq, slice_self]
  have hpos : 0 < b.buf.length := by omega
  have hdata := List.length_pos_iff.mpr hne
  have hlength : (b.reload data none d').buf.length = b.buf.length :=
    length_overwrite (by omega)
  have hvalid : (b.reload data none d').Valid := ⟨Nat.zero_le _, by rwa [hlength], nofun⟩
  have hloaded : (b.reload data none d').buffered = data := by
    have hcopy := slice_overwrite_at b.buf data (Nat.zero_le _)
    rw [slice_self, List.nil_append, Nat.zero_add] at hcopy
    exact hcopy
  obtain ⟨b', hcopy, hvalid', hbuffered, hbuf, hdevice⟩ := copyOut_spec (n := n) hvalid
  have hrefills := refillsFor_copied (hlength ▸ hsize) hbuffered hbuf hdevice
  rw [hloaded] at hcopy hbuffered hrefills
  refine ⟨b', ?_, hvalid', ?_, by rw [hbuf, hlength], hbuf, ?_⟩
  · rw [read, if_neg (Nat.ne_of_gt hn), if_pos heq]
    simp only [herr]
    rw [if_neg (Nat.not_le.mpr hsize), hdev]
    simp only [if_neg hne, hcopy]
  · rw [pending, hempty, List.nil_append, hs, pending, hbuffered, hdevice, ← List.append_assoc,
      List.take_append_drop]
    rfl
  · obtain ⟨m, rfl⟩ : ∃ m, n = m + 1 := ⟨n - 1, by omega⟩
    rw [hrefills, refillsFor, refillsFor, hempty, hloaded, hlength, refills, if_neg (by simp),
      hdev]
    exact congrArg (data :: ·) (refills_fuel hpos (by simp; omega) (Nat.sub_le _ _))

omit h in
theorem read_ended (hn : 0 < n) (heq : b.r = b.w) {data : List UInt8} {err : Option Error}
    {d' : Device} (herr : b.err = none) (hdev : b.device.read b.buf.length = (data, err, d'))
    (hnil : data = []) : b.read n = ([], err, b.reload data none d') := by
  rw [read, if_neg (Nat.ne_of_gt hn), if_pos heq]
  simp only [herr]
  rw [if_neg (Nat.not_le.mpr hsize), hdev]
  simp only [if_pos hnil]

theorem read_spec (hn : 0 < n) :
    b.pending = [] ∧ (∃ b', b.read n = ([], some .eof, b')) ∨
    ∃ data b' chunks, b.read n = (data, none, b') ∧ data ≠ [] ∧ data.length ≤ n ∧ b'.Valid ∧
      b.pending = data ++ b'.pending ∧ b'.buf.length = b.buf.length ∧
      b'.buf = afterRefills b.buf chunks ∧
      b.refillsFor n = chunks ++ b'.refillsFor (n - data.length) := by
  rcases Nat.lt_or_eq_of_le h.le with hlt | heq
  · right
    obtain ⟨b', hread, hne, hvalid, hpending, hbuf, hrefills⟩ := read_buffered h hsize hn hlt
    exact ⟨_, b', [], hread, hne, List.length_take_le _ _, hvalid, hpending, by rw [hbuf], hbuf,
      hrefills⟩
  · have hempty : b.buffered = [] := by rw [buffered, heq, slice_self]
    cases herr : b.err with
    | some e =>
      obtain ⟨rfl, hend⟩ := h.ended e herr
      left
      refine ⟨by rw [pending, hempty, hend]; rfl, { b with err := none }, ?_⟩
      rw [read, if_neg (Nat.ne_of_gt hn), if_pos heq]
      simp only [herr]
    | none =>
      have hpos : 0 < b.buf.length := by omega
      rcases b.device.read_cases hpos with ⟨hend, -, hdev⟩ | ⟨data, d', hdev, hne, hle, hs⟩
      · left
        refine ⟨by rw [pending, hempty, hend]; rfl, _, read_ended hsize hn heq herr hdev rfl⟩
      · right
        obtain ⟨b', hread, hvalid, hpending, hlength, hbuf, hrefills⟩ :=
          read_refilled hsize hn heq herr hdev hne hle hs
        have htake : data.take n ≠ [] := by
          rw [ne_eq, List.take_eq_nil_iff, not_or]
          exact ⟨Nat.ne_of_gt hn, hne⟩
        exact ⟨_, b', [data], hread, htake, List.length_take_le _ _, hvalid, hpending, hlength,
          hbuf, hrefills⟩

omit hsize in
theorem readFullLoop_done {fuel : Nat} {acc : List UInt8} (hacc : n ≤ acc.length) : ∃ b',
    readFullLoop fuel n acc b = (acc ++ b.pending.take (n - acc.length), none, b') ∧ b'.Valid ∧
      b'.pending = b.pending.drop (n - acc.length) ∧ b'.buf.length = b.buf.length ∧
      b'.buf = afterRefills b.buf (b.refillsFor (n - acc.length)) := by
  have hzero : n - acc.length = 0 := Nat.sub_eq_zero_of_le hacc
  rw [hzero, List.take_zero, List.append_nil]
  refine ⟨b, ?_, h, rfl, rfl, rfl⟩
  cases fuel with
  | zero => rfl
  | succ fuel => rw [readFullLoop, if_pos hacc]

theorem readFullLoop_spec (fuel : Nat) (acc : List UInt8) (hfuel : n ≤ acc.length + fuel) :
    n - acc.length ≤ b.pending.length ∧ (∃ b',
      readFullLoop fuel n acc b = (acc ++ b.pending.take (n - acc.length), none, b') ∧ b'.Valid ∧
        b'.pending = b.pending.drop (n - acc.length) ∧ b'.buf.length = b.buf.length ∧
        b'.buf = afterRefills b.buf (b.refillsFor (n - acc.length))) ∨
    b.pending.length < n - acc.length ∧
      ∃ b', readFullLoop fuel n acc b = (acc ++ b.pending, some .eof, b') := by
  induction fuel generalizing acc b with
  | zero => exact .inl ⟨by omega, readFullLoop_done h hfuel⟩
  | succ fuel ih =>
    by_cases hacc : n ≤ acc.length
    · exact .inl ⟨by omega, readFullLoop_done h hacc⟩
    · rw [readFullLoop, if_neg hacc]
      have hneed : 0 < n - acc.length := by omega
      rcases read_spec h (by omega) hneed with ⟨hend, b', hread⟩ |
        ⟨data, b', chunks, hread, hne, hle, hvalid, hpending, hlength, hbuf, hrefills⟩
      · right
        refine ⟨?_, b', ?_⟩
        · rw [hend, List.length_nil]
          omega
        · rw [hread, hend]
      · have hpos := List.length_pos_iff.mpr hne
        have hrest : n - (acc ++ data).length = n - acc.length - data.length := by
          rw [List.length_append, Nat.sub_sub]
        have hlen : b.pending.length = data.length + b'.pending.length := by
          rw [hpending, List.length_append]
        rw [hread]
        have hfuel' : n ≤ (acc ++ data).length + fuel := by
          rw [List.length_append]
          omega
        rcases ih hvalid (by omega) (acc ++ data) hfuel' with
          ⟨henough, b'', hloop, hvalid', hpending', hlength', hbuf'⟩ | ⟨hshort, b'', hloop⟩
        · left
          refine ⟨by omega, b'', ?_, hvalid', ?_, hlength'.trans hlength, ?_⟩
          · rw [hrest, List.append_assoc] at hloop
            rw [hpending, List.take_append, List.take_of_length_le hle]
            exact hloop
          · rw [hpending', hrest, hpending, List.drop_append, List.drop_eq_nil_of_le hle]
            rfl
          · rw [hbuf', hbuf, hrest, hrefills, afterRefills, afterRefills, afterRefills,
              List.foldl_append]
        · right
          refine ⟨by omega, b'', ?_⟩
          rw [hpending, ← List.append_assoc]
          exact hloop

theorem readFull_spec :
    n ≤ b.pending.length ∧ (∃ b', b.readFull n = (b.pending.take n, none, b') ∧ b'.Valid ∧
      b'.pending = b.pending.drop n ∧ b'.buf.length = b.buf.length ∧
      b'.buf = afterRefills b.buf (b.refillsFor n)) ∨
    b.pending.length < n ∧ ∃ data b', b.readFull n =
      (data, some (if b.pending = [] then .eof else .unexpectedEof), b') := by
  rcases readFullLoop_spec h hsize n [] (by omega) with
    ⟨henough, b', hloop, hvalid, hpending, hlength, hbuf⟩ | ⟨hshort, b', hloop⟩
  · left
    refine ⟨henough, b', ?_, hvalid, hpending, hlength, hbuf⟩
    have hlen : n ≤ (b.pending.take n).length := by
      rw [List.length_take]
      exact Nat.le_min.mpr ⟨Nat.le_refl n, henough⟩
    rw [readFull, hloop]
    exact if_pos hlen
  · right
    refine ⟨hshort, b.pending, b', ?_⟩
    rw [readFull, hloop]
    simp only [List.nil_append]
    rw [if_neg (show ¬ n ≤ b.pending.length from Nat.not_le.mpr hshort)]
    by_cases hnil : b.pending = []
    · rw [if_neg (fun hc => hc.1 hnil), if_pos hnil]
    · rw [if_pos ⟨hnil, trivial⟩, if_neg hnil]

end Read

theorem getD_afterRefills (buf : List UInt8) (chunks : List (List UInt8)) (q : Nat) :
    (afterRefills buf chunks).getD q 0 =
      ((chunks.filterMap (·[q]?)).getLast?).getD (buf.getD q 0) := by
  induction chunks generalizing buf with
  | nil => rfl
  | cons data chunks ih =>
    have hcell : (overwrite buf 0 data).getD q 0 = (data[q]?).getD (buf.getD q 0) := by
      rw [getD_overwrite_zero, List.getD_eq_getElem?_getD]
    rw [afterRefills, List.foldl_cons, ← afterRefills, ih, hcell, List.filterMap_cons]
    cases data[q]? with
    | none => rfl
    | some x =>
      rw [List.getLast?_cons, Option.getD_some, Option.getD_some]

end Reader

end Bufio
