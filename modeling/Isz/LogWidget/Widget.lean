import Isz.Library.Except
import Isz.Library.Runs
import Isz.LogWidget.Message

namespace Isz.LogWidget

open Runs

abbrev Line := List UInt8

inductive Abort where
  | lengthError
  | text (fault : Fault)

structure Widget where
  lines : List Line
  maxLines : Int

def Widget.init : Widget := ⟨[], 10⟩

-- size_t is as wide as unsigned int
def toSize (n : Int) : Nat := (n % 2 ^ 32).toNat

-- as many strings as PTRDIFF_MAX bytes hold
def maxSize : Nat := (2 ^ 31 - 1) / 24

def resize (lines : List Line) (n : Nat) : Except Abort (List Line) :=
  if n ≤ lines.length then .ok (lines.take n)
  else if maxSize < n then .error .lengthError
  else .ok (lines ++ List.replicate (n - lines.length) [])

structure Entry where
  now : Option ESPTime
  millis : UInt32
  message : Message

def Widget.trim (widget : Widget) : Except Abort Widget :=
  if toSize widget.maxLines ≤ widget.lines.length then do
    let lines ← resize widget.lines (toSize (widget.maxLines - 1))
    pure { widget with lines }
  else pure widget

def Widget.callback (signed : Bool) (widget : Widget) (entry : Entry) : Except Abort Widget := do
  let widget ← widget.trim
  let s ← (line signed entry.now entry.millis entry.message).mapError Abort.text
  pure { widget with lines := s :: widget.lines }

structure Area where
  x1 : Int
  y1 : Int
  height : Int
  lineHeight : Int
  nonneg : 0 ≤ height
  int : height < 2 ^ 31
  positive : 1 ≤ lineHeight

def printed (area : Area) : Int → List Line → List (Int × Int × Line)
  | _, [] => []
  | yAt, line :: lines =>
    if yAt > area.y1 + area.height then []
    else (area.x1, yAt, line) :: printed area (yAt + area.lineHeight) lines

def Widget.draw (widget : Widget) (area : Area) : Widget × List (Int × Int × Line) :=
  ({ widget with maxLines := area.height.tdiv area.lineHeight },
    printed area area.y1 widget.lines)

inductive Event where
  | draw (area : Area)
  | log (entry : Entry)

def Widget.step (signed : Bool) (widget : Widget) : Event → Except Abort Widget
  | .draw area => .ok (widget.draw area).1
  | .log entry => widget.callback signed entry

def run (signed : Bool) (events : List Event) : Except Abort Widget :=
  events.foldlM (Widget.step signed) Widget.init

def Entry.text (entry : Entry) : Line :=
  (timestamp entry.now entry.millis ++ plain entry.message.bytes).take 200

def Event.text : Event → Option Line
  | .draw _ => none
  | .log entry => some entry.text

def Entry.Ends (entry : Entry) : Prop :=
  ¬(Dangling entry.message.bytes ∧
    (timestamp entry.now entry.millis ++ plain entry.message.bytes).length < 200)

structure Kept (signed : Bool) (before : List Event) (entry : Entry) (widget widget' : Widget) :
    Prop where
  found : run signed before = .ok widget
  argument : toSize widget.maxLines ≤ widget.lines.length → 0 ≤ widget.maxLines - 1
  left : widget.callback signed entry = .ok widget'
  bound : (widget'.lines.length : Int) ≤ max 1 widget'.maxLines
  newest : ∃ older, widget'.lines = entry.text :: older ∧
    older <+: (before.filterMap Event.text).reverse

def KeptAt (signed : Bool) (before : List Event) : Event → Prop
  | .draw _ => True
  | .log entry => ∃ widget widget', Kept signed before entry widget widget'

def StaysKept (signed : Bool) : List Event → Prop := AtEach (KeptAt signed)

def Event.Shows : Event → Prop
  | .draw area => area.lineHeight ≤ area.height
  | .log _ => True

def Fits (before : List Event) : Event → Prop
  | .draw _ => True
  | .log entry => (∀ e ∈ before.getLast?, e.Shows) ∧ entry.Ends

def EachFits : List Event → Prop := AtEach Fits

theorem printed_eq (area : Area) (k : Nat) (lines : List Line) :
    printed area (area.y1 + k * area.lineHeight) lines =
      (lines.take ((area.height.tdiv area.lineHeight).toNat + 1 - k)).mapIdx fun i line =>
        (area.x1, area.y1 + (k + i : Nat) * area.lineHeight, line) := by
  induction lines generalizing k with
  | nil => simp [printed]
  | cons line lines ih =>
    have hbelow : area.y1 + k * area.lineHeight > area.y1 + area.height ↔
        (area.height.tdiv area.lineHeight).toNat + 1 - k = 0 := by
      rw [Int.tdiv_eq_ediv_of_nonneg area.nonneg, gt_iff_lt, Int.add_lt_add_iff_left,
        ← Int.ediv_lt_iff_lt_mul area.positive]
      have := Int.ediv_nonneg area.nonneg (le_trans (by decide) area.positive)
      omega
    rw [printed]
    split
    case isTrue h => rw [hbelow.mp h, List.take_zero, List.mapIdx_nil]
    case isFalse h =>
      have hnext : area.y1 + k * area.lineHeight + area.lineHeight =
          area.y1 + (k + 1 : Nat) * area.lineHeight := by
        rw [Nat.cast_add, Nat.cast_one, add_mul, one_mul, add_assoc]
      have hleft : (area.height.tdiv area.lineHeight).toNat + 1 - k =
          (area.height.tdiv area.lineHeight).toNat + 1 - (k + 1) + 1 := by
        have := mt hbelow.mpr h
        omega
      rw [hleft, List.take_succ_cons, List.mapIdx_cons, hnext, ih]
      simp only [Nat.add_zero, Nat.add_assoc, Nat.add_comm 1]

theorem draw_prints (widget : Widget) (area : Area) :
    (widget.draw area).2 =
      (widget.lines.take ((widget.draw area).1.maxLines.toNat + 1)).mapIdx fun i line =>
        (area.x1, area.y1 + i * area.lineHeight, line) := by
  simpa [Widget.draw] using printed_eq area 0 widget.lines

theorem line_eq (signed : Bool) (entry : Entry) :
    line signed entry.now entry.millis entry.message =
      outcome (timestamp entry.now entry.millis) entry.message.bytes := by
  rw [line, Message.memory,
    strip_eq signed entry.message.noNul (timestamp_length entry.now entry.millis)]

theorem line_of_ends (signed : Bool) {entry : Entry} (h : entry.Ends) :
    line signed entry.now entry.millis entry.message = .ok entry.text := by
  rw [line_eq, outcome, if_neg h, Entry.text]

theorem ends_of_line {signed : Bool} {entry : Entry} {s : Line}
    (h : line signed entry.now entry.millis entry.message = .ok s) : entry.Ends := by
  intro hfault
  rw [line_eq, outcome, if_pos hfault] at h
  cases h

structure Sound (signed : Bool) (events : List Event) (widget : Widget) : Prop where
  found : run signed events = .ok widget
  short : widget.lines.length < 2 ^ 31
  int : widget.maxLines < 2 ^ 31
  nonneg : 0 ≤ widget.maxLines
  room : 1 ≤ widget.maxLines ↔ ∀ e ∈ events.getLast?, e.Shows
  older : widget.lines <+: (events.filterMap Event.text).reverse

theorem run_concat (signed : Bool) (events : List Event) (e : Event) :
    run signed (events ++ [e]) = run signed events >>= fun widget => widget.step signed e := by
  rw [run, List.foldlM_append, run]
  simp only [List.foldlM_cons, List.foldlM_nil, bind_pure]

theorem sound_init (signed : Bool) : Sound signed [] .init where
  found := rfl
  short := by decide
  int := by decide
  nonneg := by decide
  room := iff_of_true (by decide) (by simp)
  older := List.prefix_rfl

theorem toSize_eq {n : Int} (hn : 0 ≤ n) (hint : n < 2 ^ 31) : toSize n = n.toNat := by
  rw [toSize, Int.emod_eq_of_lt hn (by omega)]

variable {signed : Bool} {events : List Event} {widget : Widget}

theorem Sound.draw (h : Sound signed events widget) (area : Area) :
    Sound signed (events ++ [.draw area]) (widget.draw area).1 where
  found := by
    rw [run_concat, h.found]
    rfl
  short := h.short
  int := by
    refine lt_of_le_of_lt ?_ area.int
    exact Int.tdiv_le_self _ area.nonneg
  nonneg := Int.tdiv_nonneg area.nonneg (le_trans (by decide) area.positive)
  room := by
    have hdiv : 1 ≤ area.height / area.lineHeight ↔ area.lineHeight ≤ area.height := by
      rw [Int.le_ediv_iff_mul_le area.positive, one_mul]
    simpa [Widget.draw, Int.tdiv_eq_ediv_of_nonneg area.nonneg, Event.Shows] using hdiv
  older := by simpa [Widget.draw, Event.text, List.filterMap_cons] using h.older

theorem Sound.trim (h : Sound signed events widget) (hroom : 1 ≤ widget.maxLines) :
    widget.trim = .ok { widget with lines := widget.lines.take (widget.maxLines.toNat - 1) } := by
  have hsize := toSize_eq h.nonneg h.int
  have hless := toSize_eq (n := widget.maxLines - 1) (by omega) (lt_trans (by omega) h.int)
  rw [Widget.trim, hsize, hless, Int.pred_toNat]
  split
  case isTrue hfull =>
    rw [resize, if_pos (by omega)]
    rfl
  case isFalse hfree =>
    rw [List.take_of_length_le (by omega)]
    rfl

theorem Sound.callback (h : Sound signed events widget) (hroom : 1 ≤ widget.maxLines)
    {entry : Entry} (hends : entry.Ends) :
    widget.callback signed entry = .ok { widget with
      lines := entry.text :: widget.lines.take (widget.maxLines.toNat - 1) } := by
  rw [Widget.callback, h.trim hroom, Except.ok_bind, line_of_ends signed hends]
  rfl

theorem Sound.log (h : Sound signed events widget) (hroom : 1 ≤ widget.maxLines)
    {entry : Entry} (hends : entry.Ends) :
    Sound signed (events ++ [.log entry]) { widget with
      lines := entry.text :: widget.lines.take (widget.maxLines.toNat - 1) } where
  found := by
    rw [run_concat, h.found]
    exact h.callback hroom hends
  short := by
    have hint := h.int
    simp only [List.length_cons, List.length_take]
    omega
  int := h.int
  nonneg := h.nonneg
  room := iff_of_true hroom (by simp [Event.Shows])
  older := by
    have hprefix := (List.take_prefix (widget.maxLines.toNat - 1) widget.lines).trans h.older
    simpa [Event.text] using hprefix

theorem Sound.kept (h : Sound signed events widget) (hroom : 1 ≤ widget.maxLines)
    {entry : Entry} (hends : entry.Ends) :
    Kept signed events entry widget { widget with
      lines := entry.text :: widget.lines.take (widget.maxLines.toNat - 1) } where
  found := h.found
  argument := fun _ => by omega
  left := h.callback hroom hends
  bound := by
    simp only [List.length_cons, List.length_take]
    omega
  newest := ⟨_, rfl, (List.take_prefix _ _).trans h.older⟩

theorem Sound.kept_iff (h : Sound signed events widget) (entry : Entry) :
    (∃ found left, Kept signed events entry found left) ↔
      1 ≤ widget.maxLines ∧ entry.Ends := by
  constructor
  · rintro ⟨found, left, hkept⟩
    obtain rfl := Except.ok.inj (hkept.found.symm.trans h.found)
    obtain ⟨trimmed, -, hrest⟩ := Except.bind_eq_ok.mp hkept.left
    obtain ⟨s, hs, -⟩ := Except.bind_eq_ok.mp hrest
    have hsize := toSize_eq h.nonneg h.int
    have hargument := hkept.argument
    refine ⟨by_contra fun hzero => ?_, ?_⟩
    · have := hargument (by omega)
      omega
    · cases hline : line signed entry.now entry.millis entry.message with
      | ok text => exact ends_of_line hline
      | error fault =>
        rw [hline] at hs
        cases hs
  · rintro ⟨hroom, hends⟩
    exact ⟨_, _, h.kept hroom hends⟩

theorem staysKept_iff (signed : Bool) (events : List Event) :
    StaysKept signed events ↔ EachFits events := by
  refine atEach_iff (fun events => ∃ widget, Sound signed events widget)
    ⟨_, sound_init signed⟩ (fun before e h => ?_) events
  obtain ⟨widget, h⟩ := h
  cases e with
  | draw area => exact ⟨Iff.rfl, fun _ => ⟨_, h.draw area⟩⟩
  | log entry =>
    have hfits : Fits before (.log entry) ↔ 1 ≤ widget.maxLines ∧ entry.Ends :=
      and_congr_left' h.room.symm
    rw [hfits]
    exact ⟨h.kept_iff entry, fun ⟨hroom, hends⟩ => ⟨_, h.log hroom hends⟩⟩

theorem resize_to_minus_one :
    run false [.draw ⟨0, 0, 0, 1, by decide, by decide, by decide⟩,
        .log ⟨none, 0, ⟨[0x61], by decide⟩⟩] = .error .lengthError ∧
      ¬∀ signed events, StaysKept signed events := by
  have hrun : run false [.draw ⟨0, 0, 0, 1, by decide, by decide, by decide⟩,
      .log ⟨none, 0, ⟨[0x61], by decide⟩⟩] = .error .lengthError := rfl
  refine ⟨hrun, fun h => ?_⟩
  obtain ⟨widget, widget', hkept⟩ := h false _ [.draw ⟨0, 0, 0, 1, by decide, by decide, by decide⟩]
    (.log ⟨none, 0, ⟨[0x61], by decide⟩⟩) List.prefix_rfl
  have hleft := run_concat false [.draw ⟨0, 0, 0, 1, by decide, by decide, by decide⟩]
    (.log ⟨none, 0, ⟨[0x61], by decide⟩⟩)
  rw [hkept.found] at hleft
  cases hrun.symm.trans (hleft.trans hkept.left)

end Isz.LogWidget
