import Mathlib.Logic.Function.Basic
import Mathlib.Data.List.Basic

-- names and what they stand for; a descriptor keeps its inode when the name goes
structure FileSystem (Path : Type) where
  inode : Path → Option Nat
  content : Nat → List UInt8
  next : Nat

namespace FileSystem

variable {Path : Type}

def empty : FileSystem Path := ⟨fun _ => none, fun _ => [], 0⟩

structure Descriptor where
  inode : Nat
  offset : Nat

def Exists (fs : FileSystem Path) (p : Path) : Prop := (fs.inode p).isSome

instance (fs : FileSystem Path) (p : Path) : Decidable (fs.Exists p) :=
  inferInstanceAs (Decidable (_ = _))

def writeAt (content data : List UInt8) (offset : Nat) : List UInt8 :=
  content.take offset ++ List.replicate (offset - content.length) 0 ++ data ++
    content.drop (offset + data.length)

def write (fs : FileSystem Path) (fd : Descriptor) (data : List UInt8) :
    Descriptor × FileSystem Path :=
  let written := writeAt (fs.content fd.inode) data fd.offset
  (⟨fd.inode, fd.offset + data.length⟩,
    { fs with content := Function.update fs.content fd.inode written })

variable [DecidableEq Path]

-- O_CREAT and O_TRUNC, for a name that its directory can take
def create (fs : FileSystem Path) (p : Path) : Descriptor × FileSystem Path :=
  match fs.inode p with
  | some n => (⟨n, 0⟩, { fs with content := Function.update fs.content n [] })
  | none => (⟨fs.next, 0⟩,
      { inode := Function.update fs.inode p (some fs.next)
        content := Function.update fs.content fs.next []
        next := fs.next + 1 })

def rename (fs : FileSystem Path) (old new : Path) : Option (FileSystem Path) :=
  (fs.inode old).map fun n =>
    { fs with inode := Function.update (Function.update fs.inode old none) new (some n) }

structure Sound (fs : FileSystem Path) : Prop where
  injective : ∀ p q n, fs.inode p = some n → fs.inode q = some n → p = q
  lt_next : ∀ p n, fs.inode p = some n → n < fs.next

omit [DecidableEq Path] in
theorem sound_empty : (empty : FileSystem Path).Sound where
  injective := fun p q n h => by cases h
  lt_next := fun p n h => by cases h

theorem writeAt_length (content data : List UInt8) :
    writeAt content data content.length = content ++ data := by
  simp [writeAt]

section Write

variable {fs : FileSystem Path} {fd : Descriptor} {data : List UInt8}

omit [DecidableEq Path] in
variable (data) in
theorem write_content_self (h : fd.offset = (fs.content fd.inode).length) :
    (fs.write fd data).2.content fd.inode = fs.content fd.inode ++ data := by
  rw [write]
  dsimp only
  rw [Function.update_self, h, writeAt_length]

omit [DecidableEq Path] in
theorem write_content_other {n : Nat} (h : n ≠ fd.inode) :
    (fs.write fd data).2.content n = fs.content n :=
  Function.update_of_ne h _ _

end Write

section Create

variable {fs : FileSystem Path} {p : Path}

variable (fs p) in
theorem create_self : (fs.create p).2.inode p = some (fs.create p).1.inode ∧
    (fs.create p).2.content (fs.create p).1.inode = [] ∧ (fs.create p).1.offset = 0 := by
  rw [create]
  split
  case h_1 n hn => exact ⟨hn, Function.update_self .., rfl⟩
  case h_2 => exact ⟨Function.update_self .., Function.update_self .., rfl⟩

theorem create_inode {q : Path} (h : q ≠ p) : (fs.create p).2.inode q = fs.inode q := by
  rw [create]
  split
  · rfl
  · exact Function.update_of_ne h _ _

theorem create_content (hsound : fs.Sound) {q : Path} {n : Nat} (h : q ≠ p)
    (hq : fs.inode q = some n) : (fs.create p).2.content n = fs.content n := by
  rw [create]
  split
  case h_1 n' hn' =>
    refine Function.update_of_ne ?_ _ _
    rintro rfl
    exact h (hsound.injective q p n hq hn')
  case h_2 => exact Function.update_of_ne (Nat.ne_of_lt (hsound.lt_next q n hq)) _ _

theorem create_sound (hsound : fs.Sound) : (fs.create p).2.Sound := by
  rw [create]
  split
  case h_1 => exact ⟨hsound.injective, hsound.lt_next⟩
  case h_2 =>
    have hold : ∀ q n, q ≠ p →
        Function.update fs.inode p (some fs.next) q = some n → fs.inode q = some n := by
      intro q n hq h
      rwa [Function.update_of_ne hq] at h
    have hnew : ∀ n, Function.update fs.inode p (some fs.next) p = some n → n = fs.next := by
      intro n h
      rw [Function.update_self] at h
      exact (Option.some.inj h).symm
    constructor
    · intro q q' n hq hq'
      by_cases h : q = p <;> by_cases h' : q' = p
      · rw [h, h']
      · subst h
        obtain rfl := hnew n hq
        exact absurd (hsound.lt_next q' _ (hold q' _ h' hq')) (Nat.lt_irrefl _)
      · subst h'
        obtain rfl := hnew n hq'
        exact absurd (hsound.lt_next q _ (hold q _ h hq)) (Nat.lt_irrefl _)
      · exact hsound.injective q q' n (hold q n h hq) (hold q' n h' hq')
    · intro q n hq
      by_cases h : q = p
      · subst h
        obtain rfl := hnew n hq
        exact Nat.lt_succ_self _
      · exact Nat.lt_succ_of_lt (hsound.lt_next q n (hold q n h hq))

end Create

section Rename

variable {fs fs' : FileSystem Path} {old new : Path}

theorem rename_eq (h : fs.rename old new = some fs') :
    ∃ n, fs.inode old = some n ∧ fs'.content = fs.content ∧ fs'.next = fs.next ∧
      fs'.inode = Function.update (Function.update fs.inode old none) new (some n) := by
  obtain ⟨n, hn, rfl⟩ := Option.map_eq_some_iff.mp h
  exact ⟨n, hn, rfl, rfl, rfl⟩

theorem rename_inode (h : fs.rename old new = some fs') {q : Path} (hold : q ≠ old)
    (hnew : q ≠ new) : fs'.inode q = fs.inode q := by
  obtain ⟨n, -, -, -, hinode⟩ := rename_eq h
  rw [hinode, Function.update_of_ne hnew, Function.update_of_ne hold]

theorem rename_new (h : fs.rename old new = some fs') : fs'.inode new = fs.inode old := by
  obtain ⟨n, hn, -, -, hinode⟩ := rename_eq h
  rw [hinode, Function.update_self, hn]

theorem rename_sound (hsound : fs.Sound) (h : fs.rename old new = some fs') : fs'.Sound := by
  obtain ⟨n, hn, -, hnext, hinode⟩ := rename_eq h
  have hcases : ∀ q m, fs'.inode q = some m →
      q = new ∧ m = n ∨ q ≠ new ∧ q ≠ old ∧ fs.inode q = some m := by
    intro q m hq
    rw [hinode] at hq
    by_cases heq : q = new
    · subst heq
      rw [Function.update_self] at hq
      exact .inl ⟨rfl, (Option.some.inj hq).symm⟩
    · rw [Function.update_of_ne heq] at hq
      by_cases heq' : q = old
      · subst heq'
        rw [Function.update_self] at hq
        cases hq
      · rw [Function.update_of_ne heq'] at hq
        exact .inr ⟨heq, heq', hq⟩
  constructor
  · intro q q' m hq hq'
    rcases hcases q m hq with ⟨rfl, rfl⟩ | ⟨-, hold, hq⟩
    · rcases hcases q' m hq' with ⟨rfl, -⟩ | ⟨-, hold', hq'⟩
      · rfl
      · exact absurd (hsound.injective q' old m hq' hn) hold'
    · rcases hcases q' m hq' with ⟨rfl, rfl⟩ | ⟨-, -, hq'⟩
      · exact absurd (hsound.injective q old m hq hn) hold
      · exact hsound.injective q q' m hq hq'
  · intro q m hq
    rw [hnext]
    rcases hcases q m hq with ⟨-, rfl⟩ | ⟨-, -, hq⟩
    · exact hsound.lt_next old m hn
    · exact hsound.lt_next q m hq

end Rename

end FileSystem
