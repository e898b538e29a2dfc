import Isz.Library.Except
import Mathlib.Data.List.Flatten

namespace Codec

variable {ε α β γ : Type}

abbrev Reader (ε α : Type) := StateT (List UInt8) (Except ε) α

-- p takes the encoding of a valid value, and nothing else, off the front of any input
def Decodes (p : Reader ε α) (valid : α → Prop) (encode : α → List UInt8) : Prop :=
  ∀ bytes x rest, p bytes = .ok (x, rest) ↔ valid x ∧ bytes = encode x ++ rest

section Rules

variable {p : Reader ε α} {valid valid' : α → Prop} {encode encode' : α → List UInt8}

theorem Decodes.congr (h : Decodes p valid encode) (hvalid : ∀ x, valid x ↔ valid' x)
    (hencode : ∀ x, valid x → encode x = encode' x) : Decodes p valid' encode' := by
  intro bytes x rest
  rw [h, ← hvalid]
  exact and_congr_right fun hx => by rw [hencode x hx]

theorem Decodes.pure (a : α) : Decodes (pure a : Reader ε α) (fun x => x = a) fun _ => [] := by
  intro bytes x rest
  change (Except.ok (a, bytes) : Except ε _) = _ ↔ _
  rw [Except.ok.injEq, Prod.mk.injEq, List.nil_append, eq_comm]

theorem Decodes.throw (e : ε) (encode : α → List UInt8) :
    Decodes (throw e : Reader ε α) (fun _ => False) encode := by
  intro bytes x rest
  change (Except.error e : Except ε _) = _ ↔ _
  simp

theorem Decodes.bind {q : α → Reader ε γ} {valid₂ : α → γ → Prop} {encode₂ : α → γ → List UInt8}
    (key : γ → α) (hp : Decodes p valid encode) (hq : ∀ a, Decodes (q a) (valid₂ a) (encode₂ a))
    (hkey : ∀ a c, valid a → valid₂ a c → key c = a) :
    Decodes (p >>= q) (fun c => valid (key c) ∧ valid₂ (key c) c)
      fun c => encode (key c) ++ encode₂ (key c) c := by
  intro bytes c rest
  change (p bytes >>= fun x => q x.1 x.2) = _ ↔ _
  rw [Except.bind_eq_ok]
  constructor
  · rintro ⟨⟨a, rest'⟩, hfirst, hsecond⟩
    obtain ⟨hvalid, rfl⟩ := (hp _ _ _).mp hfirst
    obtain ⟨hvalid₂, rfl⟩ := (hq a _ _ _).mp hsecond
    obtain rfl := hkey a c hvalid hvalid₂
    exact ⟨⟨hvalid, hvalid₂⟩, (List.append_assoc ..).symm⟩
  · rintro ⟨⟨hvalid, hvalid₂⟩, rfl⟩
    refine ⟨(key c, encode₂ (key c) c ++ rest), (hp _ _ _).mpr ⟨hvalid, ?_⟩,
      (hq _ _ _ _).mpr ⟨hvalid₂, rfl⟩⟩
    rw [List.append_assoc]

section Records

variable {δ : Type} {q : Reader ε β} {valid₂ : β → Prop} {encode₂ : β → List UInt8}
  {r : Reader ε γ} {valid₃ : γ → Prop} {encode₃ : γ → List UInt8}

theorem Decodes.pair (hp : Decodes p valid encode) (hq : Decodes q valid₂ encode₂)
    {make : α → β → δ} (fst : δ → α) (snd : δ → β)
    (hmake : ∀ a b d, d = make a b ↔ fst d = a ∧ snd d = b) :
    Decodes (do let a ← p; let b ← q; Pure.pure (make a b))
      (fun d => valid (fst d) ∧ valid₂ (snd d)) fun d => encode (fst d) ++ encode₂ (snd d) := by
  have hsnd := fun a => hq.bind snd (fun b => .pure (make a b)) fun b d _ hd =>
    ((hmake a b d).mp hd).2
  refine (hp.bind fst hsnd fun a d _ hd => ((hmake a _ d).mp hd.2).1).congr ?_ ?_
  · exact fun d => and_congr_right fun _ => and_iff_left ((hmake _ _ d).mpr ⟨rfl, rfl⟩)
  · intro d _
    rw [List.append_nil]

theorem Decodes.triple (hp : Decodes p valid encode) (hq : Decodes q valid₂ encode₂)
    (hr : Decodes r valid₃ encode₃) {make : α → β → γ → δ} (fst : δ → α) (snd : δ → β)
    (trd : δ → γ) (hmake : ∀ a b c d, d = make a b c ↔ fst d = a ∧ snd d = b ∧ trd d = c) :
    Decodes (do let a ← p; let b ← q; let c ← r; Pure.pure (make a b c))
      (fun d => valid (fst d) ∧ valid₂ (snd d) ∧ valid₃ (trd d))
      fun d => encode (fst d) ++ (encode₂ (snd d) ++ encode₃ (trd d)) := by
  have htrd := fun a b => hr.bind trd (fun c => .pure (make a b c)) fun c d _ hd =>
    ((hmake a b c d).mp hd).2.2
  have hsnd := fun a => hq.bind snd (htrd a) fun b d _ hd => ((hmake a b _ d).mp hd.2).2.1
  refine (hp.bind fst hsnd fun a d _ hd => ((hmake a _ _ d).mp hd.2.2).1).congr ?_ ?_
  · exact fun d => and_congr_right fun _ => and_congr_right fun _ =>
      and_iff_left ((hmake _ _ _ d).mpr ⟨rfl, rfl, rfl⟩)
  · intro d _
    rw [List.append_nil]

end Records

def times (p : Reader ε α) : Nat → Reader ε (List α)
  | 0 => Pure.pure []
  | n + 1 => do
    let x ← p
    let xs ← times p n
    Pure.pure (x :: xs)

theorem Decodes.times (h : Decodes p valid encode) (n : Nat) :
    Decodes (times p n) (fun xs => xs.length = n ∧ ∀ x ∈ xs, valid x) fun xs =>
      xs.flatMap encode := by
  induction n with
  | zero =>
    refine (Decodes.pure []).congr (fun xs => ?_) fun xs hxs => by rw [hxs]; rfl
    constructor
    · rintro rfl
      exact ⟨rfl, fun x hx => by cases hx⟩
    · exact fun hxs => List.length_eq_zero_iff.mp hxs.1
  | succ n ih =>
    intro bytes xs rest
    rw [Codec.times]
    change (p bytes >>= fun x => (Codec.times p n >>= fun xs => Pure.pure (x.1 :: xs)) x.2) = _ ↔ _
    rw [Except.bind_eq_ok]
    constructor
    · rintro ⟨⟨x, rest'⟩, hx, htail⟩
      change (Codec.times p n rest' >>= fun y => Except.ok (x :: y.1, y.2)) = _ at htail
      obtain ⟨⟨tail, rest''⟩, htimes, heq⟩ := Except.bind_eq_ok.mp htail
      obtain ⟨rfl, rfl⟩ := Prod.mk.inj (Except.ok.inj heq)
      obtain ⟨hvalid, rfl⟩ := (h _ _ _).mp hx
      obtain ⟨⟨hlength, hall⟩, rfl⟩ := (ih _ _ _).mp htimes
      refine ⟨⟨by rw [List.length_cons, hlength], List.forall_mem_cons.mpr ⟨hvalid, hall⟩⟩, ?_⟩
      simp
    · rintro ⟨⟨hlength, hall⟩, rfl⟩
      cases xs with
      | nil => cases hlength
      | cons x xs =>
        obtain ⟨hvalid, hall⟩ := List.forall_mem_cons.mp hall
        refine ⟨(x, xs.flatMap encode ++ rest), (h _ _ _).mpr ⟨hvalid, ?_⟩, ?_⟩
        · simp
        · change (Codec.times p n _ >>= fun y => Except.ok (x :: y.1, y.2)) = _
          rw [(ih _ _ _).mpr ⟨⟨Nat.succ.inj hlength, hall⟩, rfl⟩]
          rfl

theorem Decodes.counted {κ : Type} {count : Reader ε κ} {valid₁ : κ → Prop}
    {encode₁ : κ → List UInt8} (hcount : Decodes count valid₁ encode₁) (hp : Decodes p valid encode)
    (size : κ → Nat) {make : κ → List α → β} (fst : β → κ) (snd : β → List α)
    (hmake : ∀ k xs b, b = make k xs ↔ fst b = k ∧ snd b = xs) :
    Decodes (do let k ← count; let xs ← Codec.times p (size k); Pure.pure (make k xs))
      (fun b => valid₁ (fst b) ∧ (snd b).length = size (fst b) ∧ ∀ x ∈ snd b, valid x)
      fun b => encode₁ (fst b) ++ (snd b).flatMap encode := by
  have hsnd := fun k => (hp.times (size k)).bind snd (fun xs => .pure (make k xs))
    fun xs b _ hb => ((hmake k xs b).mp hb).2
  refine (hcount.bind fst hsnd fun k b _ hb => ((hmake k _ b).mp hb.2).1).congr ?_ ?_
  · exact fun b => and_congr_right fun _ => and_iff_left ((hmake _ _ b).mpr ⟨rfl, rfl⟩)
  · intro b _
    rw [List.append_nil]

end Rules

def At (file : List UInt8) (pos : Int) (bytes : List UInt8) : Prop :=
  ∃ before after, file = before ++ bytes ++ after ∧ (before.length : Int) = pos

theorem at_iff {file bytes : List UInt8} {pos : Int} :
    At file pos bytes ↔ 0 ≤ pos ∧ pos ≤ file.length ∧ bytes <+: file.drop pos.toNat := by
  constructor
  · rintro ⟨before, after, rfl, rfl⟩
    refine ⟨by omega, ?_, after, ?_⟩
    · rw [List.length_append, List.length_append]
      omega
    · rw [Int.toNat_natCast, List.append_assoc, List.drop_left]
  · rintro ⟨hpos, hle, after, h⟩
    refine ⟨file.take pos.toNat, after, ?_, ?_⟩
    · rw [List.append_assoc, h, List.take_append_drop]
    · rw [List.length_take_of_le (by omega)]
      omega

theorem At.left {file bytes bytes' : List UInt8} {pos : Int} (h : At file pos (bytes ++ bytes')) :
    At file pos bytes := by
  obtain ⟨before, after, rfl, hpos⟩ := h
  exact ⟨before, bytes' ++ after, by simp, hpos⟩

theorem At.right {file bytes bytes' : List UInt8} {pos : Int} (h : At file pos (bytes ++ bytes')) :
    At file (pos + bytes.length) bytes' := by
  obtain ⟨before, after, rfl, rfl⟩ := h
  exact ⟨before ++ bytes, after, by simp, by simp⟩

theorem At.bounds {file bytes : List UInt8} {pos : Int} (h : At file pos bytes) :
    0 ≤ pos ∧ pos + bytes.length ≤ file.length := by
  obtain ⟨before, after, rfl, rfl⟩ := h
  simp only [List.length_append]
  omega

def Within (file : List UInt8) (pos size : Int) (bytes : List UInt8) : Prop :=
  ∃ rest, At file pos (bytes ++ rest) ∧ ((bytes ++ rest).length : Int) = size

theorem within_iff_at {file bytes : List UInt8} {pos size : Int} (h : (bytes.length : Int) = size) :
    Within file pos size bytes ↔ At file pos bytes := by
  constructor
  · rintro ⟨rest, hat, hsize⟩
    obtain rfl : rest = [] := List.length_eq_zero_iff.mp (by
      rw [List.length_append] at hsize
      omega)
    rwa [List.append_nil] at hat
  · exact fun hat => ⟨[], by rwa [List.append_nil], by rwa [List.append_nil]⟩

end Codec
