import Isz.Library.Lexer

namespace Condition

open Lexer

-- three-valued logic, `none` for null
def both : Option Bool → Option Bool → Option Bool
  | some false, _ => some false
  | _, some false => some false
  | some true, some true => some true
  | _, _ => none

def either : Option Bool → Option Bool → Option Bool
  | some true, _ => some true
  | _, some true => some true
  | some false, some false => some false
  | _, _ => none

def all (l : List (Option Bool)) : Option Bool := l.foldr both (some true)

def any (l : List (Option Bool)) : Option Bool := l.foldr either (some false)

theorem both_eq_true {a b : Option Bool} :
    both a b = some true ↔ a = some true ∧ b = some true := by
  cases a with
  | none => cases b with
    | none => simp [both]
    | some b => cases b <;> simp [both]
  | some a => cases a <;> cases b with
    | none => simp [both]
    | some b => cases b <;> simp [both]

theorem either_eq_true {a b : Option Bool} :
    either a b = some true ↔ a = some true ∨ b = some true := by
  cases a with
  | none => cases b with
    | none => simp [either]
    | some b => cases b <;> simp [either]
  | some a => cases a <;> cases b with
    | none => simp [either]
    | some b => cases b <;> simp [either]

theorem all_eq_true {l : List (Option Bool)} : all l = some true ↔ ∀ a ∈ l, a = some true := by
  induction l with
  | nil => simp [all]
  | cons a l ih => rw [all, List.foldr_cons, both_eq_true, ← all, ih, List.forall_mem_cons]

theorem any_eq_true {l : List (Option Bool)} : any l = some true ↔ some true ∈ l := by
  induction l with
  | nil => simp [any]
  | cons a l ih =>
    rw [any, List.foldr_cons, either_eq_true, ← any, ih, List.mem_cons, eq_comm]

theorem all_singleton (a : Option Bool) : all [a] = a := by
  cases a with
  | none => rfl
  | some a => cases a <;> rfl

theorem any_singleton (a : Option Bool) : any [a] = a := by
  cases a with
  | none => rfl
  | some a => cases a <;> rfl

def or : Token := .word "or".toList

def and : Token := .word "and".toList

variable {ρ : Type} (atom : List Token → Option (ρ → Option Bool))

def conjunction (ts : List Token) : Option (ρ → Option Bool) :=
  ((ts.splitOn and).mapM atom).map fun fs r => all (fs.map (· r))

-- a condition without parentheses: `and` binds more tightly than `or`
def read (ts : List Token) : Option (ρ → Option Bool) :=
  ((ts.splitOn or).mapM (conjunction atom)).map fun fs r => any (fs.map (· r))

def Simple (ts : List Token) : Prop := or ∉ ts ∧ and ∉ ts

variable {atom}

theorem conjunction_simple {ts : List Token} (h : Simple ts) : conjunction atom ts = atom ts := by
  rw [conjunction, List.splitOn_eq_singleton h.2]
  cases hatom : atom ts <;> simp [hatom, all_singleton]

theorem mapM_congr {α β : Type} {f g : α → Option β} {l : List α} (h : ∀ a ∈ l, f a = g a) :
    l.mapM f = l.mapM g := by
  induction l with
  | nil => rfl
  | cons a l ih =>
    rw [List.forall_mem_cons] at h
    rw [List.mapM_cons, List.mapM_cons, h.1, ih h.2]

theorem exists_of_mem_mapM {α β : Type} {f : α → Option β} {l : List α} {bs : List β} {b : β}
    (h : l.mapM f = some bs) (hb : b ∈ bs) : ∃ a ∈ l, f a = some b := by
  induction l generalizing bs with
  | nil =>
    cases h
    cases hb
  | cons a l ih =>
    rw [List.mapM_cons] at h
    obtain ⟨c, hc, h⟩ := Option.bind_eq_some_iff.mp h
    obtain ⟨cs, hcs, h⟩ := Option.bind_eq_some_iff.mp h
    cases h
    obtain rfl | hb := List.mem_cons.mp hb
    · exact ⟨a, List.mem_cons_self, hc⟩
    · obtain ⟨a', ha', hf⟩ := ih hcs hb
      exact ⟨a', List.mem_cons_of_mem a ha', hf⟩

theorem ne_nil_of_mapM {α β : Type} {f : α → Option β} {a : α} {l : List α} {bs : List β}
    (h : (a :: l).mapM f = some bs) : bs ≠ [] := by
  rw [List.mapM_cons] at h
  obtain ⟨c, -, h⟩ := Option.bind_eq_some_iff.mp h
  obtain ⟨cs, -, h⟩ := Option.bind_eq_some_iff.mp h
  cases h
  exact List.cons_ne_nil c cs

theorem read_or {parts : List (List Token)} (hne : parts ≠ []) (h : ∀ p ∈ parts, Simple p) :
    read atom ([or].intercalate parts) =
      (parts.mapM atom).map fun fs r => any (fs.map (· r)) := by
  rw [read, List.splitOn_intercalate or (fun p hp => (h p hp).1) hne]
  congr 1
  exact mapM_congr fun p hp => conjunction_simple (h p hp)

theorem mem_intercalate {t sep : Token} {parts : List (List Token)}
    (ht : t ∈ [sep].intercalate parts) : t = sep ∨ ∃ p ∈ parts, t ∈ p := by
  induction parts with
  | nil => simp [List.intercalate] at ht
  | cons p parts ih =>
    cases parts with
    | nil => exact .inr ⟨p, List.mem_cons_self, by simpa [List.intercalate] using ht⟩
    | cons q parts =>
      simp only [List.intercalate, List.intersperse, List.flatten_cons, List.mem_append,
        List.mem_singleton] at ht ih
      obtain hp | hsep | hrest := ht
      · exact .inr ⟨p, List.mem_cons_self, hp⟩
      · exact .inl hsep
      · obtain hsep | ⟨q', hq', htq'⟩ := ih hrest
        · exact .inl hsep
        · exact .inr ⟨q', List.mem_cons_of_mem p hq', htq'⟩

theorem read_and {parts : List (List Token)} (hne : parts ≠ []) (h : ∀ p ∈ parts, Simple p) :
    read atom ([and].intercalate parts) =
      (parts.mapM atom).map fun fs r => all (fs.map (· r)) := by
  have hor : or ∉ [and].intercalate parts := fun hmem => by
    obtain heq | ⟨p, hp, hin⟩ := mem_intercalate hmem
    · exact absurd heq (by decide)
    · exact (h p hp).1 hin
  rw [read, List.splitOn_eq_singleton hor, List.mapM_cons, List.mapM_nil, conjunction,
    List.splitOn_intercalate and (fun p hp => (h p hp).2) hne]
  cases parts.mapM atom <;> simp [any_singleton]

inductive Join where
  | any
  | all

def Join.word : Join → Token
  | any => or
  | all => and

def Join.combine : Join → List (Option Bool) → Option Bool
  | any => Condition.any
  | all => Condition.all

theorem read_join (j : Join) {parts : List (List Token)} (hne : parts ≠ [])
    (h : ∀ p ∈ parts, Simple p) :
    read atom ([j.word].intercalate parts) =
      (parts.mapM atom).map fun fs r => j.combine (fs.map (· r)) := by
  cases j with
  | any => exact read_or hne h
  | all => exact read_and hne h

theorem read_map (j : Join) {α : Type} {g : α → List Token} {f : α → ρ → Option Bool} {l : List α}
    (hne : l ≠ []) (hsimple : ∀ a ∈ l, Simple (g a)) (hatom : ∀ a ∈ l, atom (g a) = some (f a)) :
    read atom ([j.word].intercalate (l.map g)) =
      some fun r => j.combine (l.map fun a => f a r) := by
  have hatoms : (l.map g).mapM atom = some (l.map f) := by
    rw [List.mapM_map]
    exact (mapM_congr hatom).trans List.mapM_pure
  rw [read_join j (fun h => hne (List.map_eq_nil_iff.mp h)) (List.forall_mem_map.mpr hsimple),
    hatoms, Option.map_some]
  simp [Function.comp_def]

end Condition
