import Mathlib.Data.List.Basic
import Mathlib.Data.UInt

namespace Isz.LogWidget

structure Message where
  bytes : List UInt8
  noNul : 0 ∉ bytes

-- what may be read: the message and its terminator
def Message.memory (message : Message) : List UInt8 := message.bytes ++ [0]

inductive Fault where
  | pastTerminator
  deriving DecidableEq

def ascii (s : String) : List UInt8 := s.toList.map fun c => c.toNat.toUInt8

-- %0*d
def digits (width n : Nat) : List UInt8 :=
  ((Nat.toDigits 10 n).map fun c => c.toNat.toUInt8).leftpad width 48

structure ESPTime where
  hour : UInt8
  minute : UInt8
  second : UInt8

-- now is time_->now() where there is a clock and it is valid
def timestamp (now : Option ESPTime) (millis : UInt32) : List UInt8 :=
  match now with
  | some now => ascii "[" ++ digits 2 now.hour.toNat ++ ascii ":" ++ digits 2 now.minute.toNat ++
      ascii ":" ++ digits 2 now.second.toNat ++ ascii "]"
  | none => ascii "[" ++ digits 0 (millis.toNat / 1000) ++ ascii "." ++
      digits 3 (millis.toNat % 1000) ++ ascii "s]"

-- a char may be signed or not
def asChar (signed : Bool) (b : UInt8) : Int :=
  if signed ∧ 128 ≤ b then b.toNat - 256 else b.toNat

def skipParameters (signed : Bool) : List UInt8 → Except Fault (List UInt8)
  | [] => .error .pastTerminator
  | b :: message =>
    if b ≠ 0 ∧ (asChar signed b < 0x40 ∨ asChar signed b > 0x7E) then
      skipParameters signed message
    else .ok (b :: message)

theorem skipParameters_length {signed : Bool} {message rest : List UInt8}
    (h : skipParameters signed message = .ok rest) : rest.length ≤ message.length := by
  induction message with
  | nil => cases h
  | cons b message ih =>
    rw [skipParameters] at h
    split at h
    case isTrue => exact (ih h).trans (Nat.le_succ _)
    case isFalse =>
      obtain rfl := Except.ok.inj h
      exact le_rfl

def strip (signed : Bool) (s : List UInt8) : List UInt8 → Except Fault (List UInt8)
  | [] => .error .pastTerminator
  | c :: message =>
    if c = 0 then .ok s
    else if c = 0x1B then
      match message with
      | [] => .error .pastTerminator
      | b :: message =>
        if b = 0x5B then
          match _h : skipParameters signed message with
          | .error fault => .error fault
          | .ok [] => .error .pastTerminator
          | .ok (f :: rest) => strip signed s (if f ≠ 0 then rest else f :: rest)
        else strip signed s message
    else if 200 ≤ (s ++ [c]).length then .ok (s ++ [c])
    else strip signed (s ++ [c]) message
termination_by message => message.length
decreasing_by
  · have := skipParameters_length _h
    rw [List.length_cons] at this
    split <;> grind
  · grind
  · grind

def line (signed : Bool) (now : Option ESPTime) (millis : UInt32) (message : Message) :
    Except Fault (List UInt8) :=
  strip signed (timestamp now millis) message.memory

inductive Token where
  | byte (b : UInt8)
  | sequence (params : List UInt8) (last : Option UInt8)
  | escape (next : Option UInt8)
  deriving DecidableEq

def Token.bytes : Token → List UInt8
  | .byte b => [b]
  | .sequence params last => 0x1B :: 0x5B :: params ++ last.toList
  | .escape next => 0x1B :: next.toList

def Token.text : Token → List UInt8
  | .byte b => [b]
  | _ => []

inductive Mode where
  | text
  | escape
  | sequence (params : List UInt8)

def Mode.bytes : Mode → List UInt8
  | .text => []
  | .escape => [0x1B]
  | .sequence params => 0x1B :: 0x5B :: params

def final (b : UInt8) : Bool := 0x40 ≤ b && b ≤ 0x7E

def tokens : Mode → List UInt8 → List Token
  | .text, [] => []
  | .escape, [] => [.escape none]
  | .sequence params, [] => [.sequence params none]
  | .text, b :: m => if b = 0x1B then tokens .escape m else .byte b :: tokens .text m
  | .escape, b :: m =>
    if b = 0x5B then tokens (.sequence []) m else .escape (some b) :: tokens .text m
  | .sequence params, b :: m =>
    if final b then .sequence params (some b) :: tokens .text m
    else tokens (.sequence (params ++ [b])) m

theorem tokens_bytes (mode : Mode) (m : List UInt8) :
    (tokens mode m).flatMap Token.bytes = mode.bytes ++ m := by
  induction m generalizing mode with
  | nil => cases mode <;> simp [tokens, Token.bytes, Mode.bytes]
  | cons b m ih =>
    cases mode with
    | text =>
      rw [tokens]
      split
      case isTrue h => rw [ih, h]; rfl
      case isFalse => rw [List.flatMap_cons, ih]; rfl
    | escape =>
      rw [tokens]
      split
      case isTrue h => rw [ih, h]; rfl
      case isFalse => rw [List.flatMap_cons, ih]; rfl
    | sequence params =>
      rw [tokens]
      split
      case isTrue => rw [List.flatMap_cons, ih]; simp [Token.bytes, Mode.bytes]
      case isFalse => rw [ih]; simp [Mode.bytes]

def plain (m : List UInt8) : List UInt8 := (tokens .text m).flatMap Token.text

def Dangling (m : List UInt8) : Prop := Token.escape none ∈ tokens .text m

instance (m : List UInt8) : Decidable (Dangling m) := inferInstanceAs (Decidable (_ ∈ _))

theorem skipped_iff (signed : Bool) {b : UInt8} (h : b ≠ 0) :
    (b ≠ 0 ∧ (asChar signed b < 0x40 ∨ asChar signed b > 0x7E)) ↔ final b = false := by
  have hlt : b.toNat < 256 := b.toNat_lt
  simp only [ne_eq, h, not_false_eq_true, true_and, asChar, final, UInt8.le_iff_toNat_le,
    UInt8.reduceToNat, Bool.and_eq_false_iff, decide_eq_false_iff_not]
  split <;> omega

theorem skipParameters_eq (signed : Bool) {m : List UInt8} (hm : 0 ∉ m) :
    skipParameters signed (m ++ [0]) = .ok (m.dropWhile (fun b => !final b) ++ [0]) := by
  induction m with
  | nil => rfl
  | cons b m ih =>
    rw [List.mem_cons, not_or] at hm
    rw [List.cons_append, skipParameters, List.dropWhile_cons]
    cases hfinal : final b with
    | false => rw [if_pos ((skipped_iff signed (Ne.symm hm.1)).mpr hfinal), ih hm.2]; rfl
    | true =>
      rw [if_neg fun hskip => ?_]
      · rfl
      · rw [(skipped_iff signed (Ne.symm hm.1)).mp hskip] at hfinal
        cases hfinal

theorem tokens_sequence (params m : List UInt8) :
    tokens (.sequence params) m = match m.dropWhile (fun b => !final b) with
      | [] => [.sequence (params ++ m) none]
      | b :: rest =>
        .sequence (params ++ m.takeWhile fun b => !final b) (some b) :: tokens .text rest := by
  induction m generalizing params with
  | nil => simp [tokens]
  | cons b m ih =>
    rw [tokens, List.dropWhile_cons, List.takeWhile_cons]
    cases final b with
    | true => simp
    | false =>
      rw [if_neg Bool.false_ne_true, ih]
      simp

def outcome (s m : List UInt8) : Except Fault (List UInt8) :=
  if Dangling m ∧ (s ++ plain m).length < 200 then .error .pastTerminator
  else .ok ((s ++ plain m).take 200)

section Outcome

variable {s m : List UInt8} {b : UInt8}

theorem outcome_nil (hs : s.length < 200) : outcome s [] = .ok s := by
  have hplain : plain [] = [] := rfl
  rw [outcome, if_neg fun h => List.not_mem_nil h.1, hplain, List.append_nil,
    List.take_of_length_le hs.le]

theorem outcome_dangling (hs : s.length < 200) : outcome s [0x1B] = .error .pastTerminator := by
  have hplain : plain [0x1B] = [] := rfl
  have hdangling : Dangling [0x1B] := List.mem_singleton_self _
  rw [outcome, hplain, List.append_nil, if_pos ⟨hdangling, hs⟩]

theorem outcome_pair (hb : b ≠ 0x5B) : outcome s (0x1B :: b :: m) = outcome s m := by
  have htokens : tokens .text (0x1B :: b :: m) = .escape (some b) :: tokens .text m := by
    rw [tokens, if_pos rfl, tokens, if_neg hb]
  simp [outcome, plain, Dangling, htokens, Token.text]

theorem outcome_sequence (hs : s.length < 200) :
    outcome s (0x1B :: 0x5B :: m) = outcome s (m.dropWhile fun b => !final b).tail := by
  have htokens := tokens_sequence [] m
  have hescape : tokens .text (0x1B :: 0x5B :: m) = tokens (.sequence []) m := rfl
  cases hrest : m.dropWhile fun b => !final b with
  | nil =>
    rw [hrest] at htokens
    rw [List.tail_nil, outcome_nil hs]
    simp [outcome, plain, Dangling, hescape, htokens, Token.text, List.take_of_length_le hs.le]
  | cons f rest =>
    rw [hrest] at htokens
    simp [outcome, plain, Dangling, hescape, htokens, Token.text]

theorem outcome_byte (hs : s.length < 200) (hb : b ≠ 0x1B) :
    outcome s (b :: m) =
      if 200 ≤ (s ++ [b]).length then .ok (s ++ [b]) else outcome (s ++ [b]) m := by
  have htokens : tokens .text (b :: m) = .byte b :: tokens .text m := by
    rw [tokens, if_neg hb]
  have hplain : s ++ plain (b :: m) = s ++ [b] ++ plain m := by
    simp [plain, htokens, Token.text]
  have hdangling : Dangling (b :: m) ↔ Dangling m := by
    simp [Dangling, htokens]
  by_cases hfull : 200 ≤ (s ++ [b]).length
  · have hlength : (s ++ [b]).length = 200 := by
      rw [List.length_append, List.length_singleton] at hfull ⊢
      omega
    have hlong : ¬(Dangling (b :: m) ∧ (s ++ plain (b :: m)).length < 200) := by
      rw [hplain, List.length_append, hlength]
      omega
    rw [if_pos hfull, outcome, if_neg hlong, hplain, List.take_left' hlength]
  · rw [if_neg hfull]
    simp only [outcome, hplain, hdangling]

end Outcome

section Strip

variable (signed : Bool) (s : List UInt8) {message m : List UInt8} {b : UInt8}

theorem strip_nul : strip signed s (0 :: message) = .ok s := by
  rw [strip.eq_def]
  rfl

theorem strip_byte (hnul : b ≠ 0) (hb : b ≠ 0x1B) :
    strip signed s (b :: message) =
      if 200 ≤ (s ++ [b]).length then .ok (s ++ [b]) else strip signed (s ++ [b]) message := by
  rw [strip.eq_def]
  dsimp only
  rw [if_neg hnul, if_neg hb]

theorem strip_pair (hb : b ≠ 0x5B) :
    strip signed s (0x1B :: b :: message) = strip signed s message := by
  rw [strip.eq_def]
  dsimp only
  rw [if_neg (by decide), if_pos rfl, if_neg hb]

theorem strip_dangling : strip signed s [0x1B, 0] = .error .pastTerminator := by
  rw [strip_pair signed s (by decide), strip]

theorem strip_sequence (hm : 0 ∉ m) :
    strip signed s (0x1B :: 0x5B :: (m ++ [0])) =
      strip signed s ((m.dropWhile fun b => !final b).tail ++ [0]) := by
  rw [strip.eq_def]
  dsimp only
  rw [if_neg (by decide), if_pos rfl, if_pos rfl, skipParameters_eq signed hm]
  have hsubset := (m.dropWhile_suffix fun b => !final b).subset
  cases hrest : m.dropWhile fun b => !final b with
  | nil => rfl
  | cons f rest =>
    rw [hrest] at hsubset
    have hf : f ≠ 0 := fun hzero => hm (hsubset (hzero ▸ List.mem_cons_self))
    dsimp only [List.cons_append, List.tail_cons]
    rw [if_pos hf]

end Strip

theorem strip_eq (signed : Bool) {m : List UInt8} (hm : 0 ∉ m) {s : List UInt8}
    (hs : s.length < 200) : strip signed s (m ++ [0]) = outcome s m := by
  induction hlength : m.length using Nat.strong_induction_on generalizing m s with
  | _ n ih =>
    subst hlength
    cases m with
    | nil => rw [List.nil_append, strip_nul, outcome_nil hs]
    | cons b m =>
      rw [List.mem_cons, not_or] at hm
      obtain ⟨hb, hm⟩ := hm
      by_cases hescape : b = 0x1B
      · subst hescape
        cases m with
        | nil => exact (strip_dangling signed s).trans (outcome_dangling hs).symm
        | cons c m =>
          rw [List.mem_cons, not_or] at hm
          by_cases hbracket : c = 0x5B
          · subst hbracket
            have hsuffix := (List.tail_suffix _).trans (m.dropWhile_suffix fun b => !final b)
            have hlength := hsuffix.length_le
            refine (strip_sequence signed s hm.2).trans ?_
            rw [outcome_sequence hs]
            refine ih _ ?_ (fun hzero => hm.2 (hsuffix.subset hzero)) hs rfl
            simp only [List.length_cons]
            omega
          · refine (strip_pair signed s hbracket).trans ?_
            rw [outcome_pair hbracket]
            exact ih m.length (by simp only [List.length_cons]; omega) hm.2 hs rfl
      · refine (strip_byte signed s (Ne.symm hb) hescape).trans ?_
        rw [outcome_byte hs hescape]
        split
        case isTrue => rfl
        case isFalse hroom => exact ih m.length (Nat.lt_succ_self _) hm (not_le.mp hroom) rfl

theorem digits_length_le {width n k : Nat} (hwidth : width ≤ k) (hk : 0 < k) (hn : n < 10 ^ k) :
    (digits width n).length ≤ k := by
  rw [digits, List.length_leftpad, List.length_map]
  exact max_le hwidth ((Nat.length_toDigits_le_iff (by decide) hk).mpr hn)

theorem timestamp_length (now : Option ESPTime) (millis : UInt32) :
    (timestamp now millis).length < 200 := by
  cases now with
  | none =>
    have hmillis := millis.toNat_lt
    have hseconds : (digits 0 (millis.toNat / 1000)).length ≤ 7 :=
      digits_length_le (by decide) (by decide) (by omega)
    have hrest : (digits 3 (millis.toNat % 1000)).length ≤ 3 :=
      digits_length_le (by decide) (by decide) (by omega)
    simp [timestamp, ascii]
    omega
  | some now =>
    have htwo : ∀ b : UInt8, (digits 2 b.toNat).length ≤ 3 := fun b =>
      digits_length_le (by decide) (by decide) (b.toNat_lt.trans (by decide))
    have hhour := htwo now.hour
    have hminute := htwo now.minute
    have hsecond := htwo now.second
    simp [timestamp, ascii]
    omega

theorem line_iff (signed : Bool) (now : Option ESPTime) (millis : UInt32) (message : Message) :
    line signed now millis message =
        .ok ((timestamp now millis ++ plain message.bytes).take 200) ↔
      ¬(Dangling message.bytes ∧
        (timestamp now millis ++ plain message.bytes).length < 200) := by
  rw [line, Message.memory, strip_eq signed message.noNul (timestamp_length now millis), outcome]
  split
  case isTrue h => exact ⟨nofun, fun hnot => absurd h hnot⟩
  case isFalse h => exact ⟨fun _ => h, fun _ => rfl⟩

theorem line_past_terminator :
    line false none 0 ⟨[0x61, 0x1B], by decide⟩ = .error .pastTerminator ∧
      ¬∀ signed now millis message, line signed now millis message =
        .ok ((timestamp now millis ++ plain message.bytes).take 200) := by
  have hfault : line false none 0 ⟨[0x61, 0x1B], by decide⟩ = .error .pastTerminator := by
    rw [line, Message.memory, strip_eq false (by decide) (timestamp_length none 0)]
    decide
  refine ⟨hfault, fun h => ?_⟩
  cases hfault.symm.trans (h false none 0 ⟨[0x61, 0x1B], by decide⟩)

end Isz.LogWidget
