import Mathlib.Data.List.DropRight
import Mathlib.Data.String.Basic

abbrev Str := List Char

-- one instance by name, whatever else a module imports
instance : LawfulBEq Str := inferInstance

def concatStringsSep (sep : Str) (l : List Str) : Str := sep.intercalate l

theorem intercalate_cons {α : Type} (sep a : List α) (l : List (List α)) :
    sep.intercalate (a :: l) = a ++ l.flatMap (sep ++ ·) := by
  induction l generalizing a with
  | nil => simp [List.intercalate]
  | cons b l ih =>
    have := ih b
    simp only [List.intercalate, List.intersperse, List.flatten_cons] at this ⊢
    rw [this, List.flatMap_cons, List.append_assoc]

theorem intercalate_concat (sep : Str) {l : List Str} (hl : l ≠ []) (last : Str) :
    concatStringsSep sep (l ++ [last]) = concatStringsSep sep l ++ (sep ++ last) := by
  induction l with
  | nil => exact absurd rfl hl
  | cons a l ih =>
    cases l with
    | nil => simp [concatStringsSep, List.intercalate]
    | cons b l =>
      have := ih (by simp)
      simp only [concatStringsSep, List.intercalate, List.cons_append, List.intersperse,
        List.flatten_cons] at this ⊢
      simp [this]

theorem eq_of_append_cons {c : Char} {a a' b b' : Str} (ha : c ∉ a) (ha' : c ∉ a')
    (h : a ++ c :: b = a' ++ c :: b') : a = a' ∧ b = b' := by
  induction a generalizing a' with
  | nil =>
    cases a' with
    | nil => simpa using h
    | cons x a' =>
      simp only [List.nil_append, List.cons_append, List.cons.injEq] at h
      simp [h.1] at ha'
  | cons x a ih =>
    cases a' with
    | nil =>
      simp only [List.nil_append, List.cons_append, List.cons.injEq] at h
      simp [h.1] at ha
    | cons x' a' =>
      simp only [List.cons_append, List.cons.injEq] at h
      simp only [List.mem_cons, not_or] at ha ha'
      obtain ⟨rfl, rfl⟩ := ih ha.2 ha'.2 h.2
      exact ⟨by rw [h.1], rfl⟩

theorem eq_of_append_cons_right {c : Char} {a a' b b' : Str} (hb : c ∉ b) (hb' : c ∉ b')
    (h : a ++ c :: b = a' ++ c :: b') : a = a' ∧ b = b' := by
  have hrev : b.reverse ++ c :: a.reverse = b'.reverse ++ c :: a'.reverse := by
    simpa using congrArg List.reverse h
  obtain ⟨h1, h2⟩ := eq_of_append_cons (by simpa using hb) (by simpa using hb') hrev
  exact ⟨List.reverse_injective h2, List.reverse_injective h1⟩

def splitFields (sep : Char) (s : Str) : List Str :=
  if (s.splitOn sep).getLast? = some [] then (s.splitOn sep).dropLast else s.splitOn sep

theorem splitFields_append_cons (sep : Char) (a b : Str) :
    splitFields sep (a ++ sep :: b) = a.splitOn sep ++ splitFields sep b := by
  have hsplit := List.splitOn_append_cons_self (a := sep) a b
  have hne := List.splitOn_ne_nil sep b
  rw [splitFields, splitFields, hsplit, List.getLast?_append_of_ne_nil _ hne]
  split
  · rw [List.dropLast_append_of_ne_nil hne]
  · rfl

theorem mem_splitOn_of_mem_splitFields {sep : Char} {s p : Str} (h : p ∈ splitFields sep s) :
    p ∈ s.splitOn sep := by
  rw [splitFields] at h
  split at h
  · exact List.dropLast_subset _ h
  · exact h

theorem mem_splitFields_concatStringsSep {sep : Char} {l : List Str} {s p : Str} (hs : s ∈ l)
    (hp : p ∈ splitFields sep s) : p ∈ splitFields sep (concatStringsSep [sep] l) := by
  induction l with
  | nil => cases hs
  | cons first l ih =>
    cases l with
    | nil =>
      obtain rfl := List.mem_singleton.mp hs
      simpa [concatStringsSep, List.intercalate] using hp
    | cons second l =>
      have hjoin : concatStringsSep [sep] (first :: second :: l) =
          first ++ sep :: concatStringsSep [sep] (second :: l) := rfl
      rw [hjoin, splitFields_append_cons, List.mem_append]
      rcases List.mem_cons.mp hs with rfl | hlater
      · exact .inl (mem_splitOn_of_mem_splitFields hp)
      · exact .inr (ih hlater)
