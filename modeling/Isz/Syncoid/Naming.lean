import Isz.Syncoid.Delegation
import Mathlib.Data.List.Nodup

namespace Isz.Syncoid

def suffixed (name : Str) (i : Nat) : Str := name ++ '-' :: Nat.toDigits 10 i

def AllowUnit.attributes (u : AllowUnit) : Str × List Str × List Str :=
  (u.dataset, u.commands, u.permissions)

def Unambiguous (names : List Str) : Prop :=
  ∀ k ∈ names, 1 < names.count k → ∀ i, 1 ≤ i → i ≤ names.count k →
    names.count (suffixed k i) ≠ 1

def renamed (elements : List AllowUnit) : List AllowUnit :=
  if elements.length = 1 then elements
  else (elements.zipIdx 1).map fun (e, i) => { e with name := suffixed e.name i }

def newNames (k : Str) (n : Nat) : List Str :=
  if n = 1 then [k] else (List.range' 1 n).map (suffixed k)

theorem suffixed_inj {k k' : Str} {i i' : Nat} (h : suffixed k i = suffixed k' i') :
    k = k' ∧ i = i' := by
  have hdash : ∀ n, '-' ∉ Nat.toDigits 10 n := fun n hmem =>
    absurd (Nat.isDigit_of_mem_toDigits (by decide) (by decide) hmem) (by decide)
  obtain ⟨rfl, hdigits⟩ := eq_of_append_cons_right (hdash i) (hdash i') h
  refine ⟨rfl, ?_⟩
  rw [← Nat.ofDigitChars_ten_toDigits (n := i), hdigits, Nat.ofDigitChars_ten_toDigits]

theorem dedupeNames_eq (units : List AllowUnit) :
    dedupeNames units = (AttrSet.names (units.map AllowUnit.name)).flatMap fun k =>
      renamed (units.filter fun u => u.name = k) := by
  simp only [dedupeNames, AttrSet.attrValues, AttrSet.mapAttrs, AttrSet.groupBy, List.map_map,
    List.flatMap_def]
  rfl

theorem map_attributes_renamed (elements : List AllowUnit) :
    (renamed elements).map AllowUnit.attributes = elements.map AllowUnit.attributes := by
  simp only [renamed]
  split
  case isTrue => rfl
  case isFalse =>
    conv_rhs => rw [← List.zipIdx_map_fst 1 elements]
    rw [List.map_map, List.map_map]
    rfl

theorem map_name_renamed {elements : List AllowUnit} {k : Str}
    (hname : ∀ u ∈ elements, u.name = k) :
    (renamed elements).map AllowUnit.name = newNames k elements.length := by
  simp only [renamed, newNames]
  split
  case isTrue hone =>
    obtain ⟨u, rfl⟩ := List.length_eq_one_iff.mp hone
    rw [List.map_singleton, hname u List.mem_cons_self]
  case isFalse =>
    rw [← List.zipIdx_map_snd 1 elements, List.map_map, List.map_map]
    refine List.map_congr_left fun p hp => ?_
    simp only [Function.comp_apply, hname p.1 (List.fst_mem_of_mem_zipIdx hp)]

theorem dedupeNames_attributes (units : List AllowUnit) :
    ((dedupeNames units).map AllowUnit.attributes).Perm (units.map AllowUnit.attributes) := by
  rw [dedupeNames_eq, List.map_flatMap]
  simp only [map_attributes_renamed, ← List.map_flatMap]
  exact (AttrSet.names_flatMap_perm AllowUnit.name units).map _

theorem dedupeNames_length (units : List AllowUnit) :
    (dedupeNames units).length = units.length := by
  simpa using (dedupeNames_attributes units).length_eq

theorem dedupeNames_names (units : List AllowUnit) :
    (dedupeNames units).map AllowUnit.name =
      (AttrSet.names (units.map AllowUnit.name)).flatMap fun k =>
        newNames k ((units.map AllowUnit.name).count k) := by
  rw [dedupeNames_eq, List.map_flatMap]
  refine List.flatMap_congr fun k _ => ?_
  have hname : ∀ u ∈ units.filter fun u => u.name = k, u.name = k := fun u hu => by
    simpa using (List.mem_filter.mp hu).2
  rw [map_name_renamed hname, ← List.countP_eq_length_filter, List.count_eq_countP,
    List.countP_map]
  congr 2
  funext u
  simp [Bool.beq_eq_decide_eq]

theorem mem_newNames {k : Str} {n : Nat} {x : Str} :
    x ∈ newNames k n ↔
      (n = 1 ∧ x = k) ∨ (n ≠ 1 ∧ ∃ i, 1 ≤ i ∧ i ≤ n ∧ x = suffixed k i) := by
  simp only [newNames]
  split
  case isTrue hone => simp [hone]
  case isFalse hone =>
    simp only [List.mem_map, List.mem_range'_1, hone, false_and, not_false_eq_true, true_and,
      false_or, ne_eq]
    constructor
    · rintro ⟨i, hi, rfl⟩
      exact ⟨i, hi.1, by omega, rfl⟩
    · rintro ⟨i, hlow, hup, rfl⟩
      exact ⟨i, ⟨hlow, by omega⟩, rfl⟩

theorem nodup_newNames (k : Str) (n : Nat) : (newNames k n).Nodup := by
  simp only [newNames]
  split
  · exact List.nodup_singleton k
  · have hrange : (List.range' 1 n).Nodup := List.nodup_range'
    exact hrange.map fun i i' h => (suffixed_inj h).2

theorem newNames_disjoint {names : List Str} (h : Unambiguous names) {k k' : Str}
    (hk : k ∈ names) (hk' : k' ∈ names) (hne : k ≠ k') :
    (newNames k (names.count k)).Disjoint (newNames k' (names.count k')) := by
  have hcount := List.count_pos_iff.mpr hk
  have hcount' := List.count_pos_iff.mpr hk'
  intro x hx hx'
  rcases mem_newNames.mp hx with ⟨hone, rfl⟩ | ⟨hmany, i, hlow, hup, rfl⟩
  · rcases mem_newNames.mp hx' with ⟨-, rfl⟩ | ⟨hmany, i, hlow, hup, heq⟩
    · exact hne rfl
    · exact h k' hk' (by omega) i hlow hup (heq ▸ hone)
  · rcases mem_newNames.mp hx' with ⟨hone, heq⟩ | ⟨-, i', -, -, heq⟩
    · exact h k hk (by omega) i hlow hup (heq ▸ hone)
    · exact hne (suffixed_inj heq).1

theorem nodup_newNames_iff (names : List Str) :
    ((AttrSet.names names).flatMap fun k => newNames k (names.count k)).Nodup ↔
      Unambiguous names := by
  rw [List.nodup_flatMap]
  constructor
  · rintro ⟨-, hdisjoint⟩ k hk hmany i hlow hup hone
    have hmem : suffixed k i ∈ names := List.count_pos_iff.mp (by omega)
    have hne : k ≠ suffixed k i := fun h => by
      rw [← h] at hone
      omega
    have hsymm : Std.Symm (Function.onFun List.Disjoint fun k => newNames k (names.count k)) :=
      ⟨fun a b hab => hab.symm⟩
    have hpair := hdisjoint.forall (AttrSet.mem_names.mpr hk) (AttrSet.mem_names.mpr hmem) hne
    exact hpair (mem_newNames.mpr (.inr ⟨by omega, i, hlow, hup, rfl⟩))
      (mem_newNames.mpr (.inl ⟨hone, rfl⟩))
  · intro h
    refine ⟨fun k _ => nodup_newNames k _, ?_⟩
    refine List.Pairwise.imp_of_mem (fun hk hk' hne => ?_) (AttrSet.nodup_names names)
    exact newNames_disjoint h (AttrSet.mem_names.mp hk) (AttrSet.mem_names.mp hk') hne

theorem dedupeNames_nodup_iff (units : List AllowUnit) :
    ((dedupeNames units).map AllowUnit.name).Nodup ↔ Unambiguous (units.map AllowUnit.name) := by
  rw [dedupeNames_names, nodup_newNames_iff]

theorem allowUnits_perm_iff (commands : AttrSet Command) :
    (allowUnits commands).attrValues.Perm (allowCommands commands) ↔
      Unambiguous ((groups commands).map fun g => (allowUnit g).name) := by
  rw [allowUnits, AttrSet.attrValues_listToAttrs_perm, allowCommands, dedupeNames_nodup_iff,
    List.map_map]
  rfl

theorem unit_names_unique_iff (units : List AllowUnit) (commands : AttrSet Command) :
    (dedupeNames units).length = units.length ∧
    ((dedupeNames units).map AllowUnit.attributes).Perm (units.map AllowUnit.attributes) ∧
    (((dedupeNames units).map AllowUnit.name).Nodup ↔
      Unambiguous (units.map AllowUnit.name)) ∧
    ((allowUnits commands).attrValues.Perm (allowCommands commands) ↔
      Unambiguous ((groups commands).map fun g => (allowUnit g).name)) :=
  ⟨dedupeNames_length units, dedupeNames_attributes units, dedupeNames_nodup_iff units,
    allowUnits_perm_iff commands⟩

def numberedCommands : AttrSet Command where
  entries := [
    ("a".toList, ⟨"pool".toList, "u@h:x".toList, ["send".toList], []⟩),
    ("b".toList, ⟨"pool".toList, "u@h:y".toList, ["hold".toList], []⟩),
    ("c".toList, ⟨"pool/1".toList, "u@h:z".toList, ["send".toList], []⟩)]
  sorted := by decide

theorem numberedCommands_lose_unit :
    ¬((allowCommands numberedCommands).map AllowUnit.name).Nodup ∧
      (allowCommands numberedCommands).length = 3 ∧
      (allowUnits numberedCommands).attrValues.length = 2 := by
  decide

end Isz.Syncoid
