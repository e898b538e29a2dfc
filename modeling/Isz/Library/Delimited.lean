import Mathlib.Data.List.Infix

namespace Delimited

variable {α : Type}

structure Framing (sep s : List α) (pieces : List (List α)) (rest : List α) : Prop where
  whole : s = pieces.flatMap (· ++ sep) ++ rest
  leftmost : ∀ p ∈ pieces, ¬sep <:+: (p ++ sep).dropLast
  rest : ¬sep <:+: rest

section

variable {sep s s' t p p' r r' : List α} {pieces pieces' : List (List α)}

theorem leftmost_length_le (hp : ¬sep <:+: (p ++ sep).dropLast)
    (h : p ++ sep ++ r = p' ++ sep ++ r') : p.length ≤ p'.length := by
  by_contra hlt
  rw [not_le] at hlt
  have hstart : p' ++ sep <+: (p ++ sep).dropLast := by
    refine List.prefix_of_prefix_length_le (h ▸ List.prefix_append _ r')
      ((List.dropLast_prefix _).trans (List.prefix_append _ r)) ?_
    simp only [List.length_dropLast, List.length_append]
    omega
  exact hp ((List.suffix_append p' sep).isInfix.trans hstart.isInfix)

theorem leftmost_unique (hp : ¬sep <:+: (p ++ sep).dropLast)
    (hp' : ¬sep <:+: (p' ++ sep).dropLast) (h : p ++ sep ++ r = p' ++ sep ++ r') :
    p = p' ∧ r = r' := by
  have hlength : p.length = p'.length :=
    le_antisymm (leftmost_length_le hp h) (leftmost_length_le hp' h.symm)
  rw [List.append_assoc, List.append_assoc] at h
  obtain ⟨hpieces, hrest⟩ := List.append_inj h hlength
  exact ⟨hpieces, List.append_cancel_left hrest⟩

theorem Framing.rest_self (h : ¬sep <:+: s) : Framing sep s [] s := ⟨rfl, nofun, h⟩

theorem Framing.piece (hp : ¬sep <:+: (p ++ sep).dropLast) (h : Framing sep s pieces r) :
    Framing sep (p ++ sep ++ s) (p :: pieces) r where
  whole := by rw [h.whole, List.flatMap_cons, List.append_assoc, List.append_assoc,
    List.append_assoc]
  leftmost := List.forall_mem_cons.mpr ⟨hp, h.leftmost⟩
  rest := h.rest

theorem Framing.append (h : Framing sep s pieces r) (h' : Framing sep (r ++ t) pieces' r') :
    Framing sep (s ++ t) (pieces ++ pieces') r' where
  whole := by
    rw [h.whole, List.append_assoc, h'.whole, List.flatMap_append, List.append_assoc]
  leftmost := List.forall_mem_append.mpr ⟨h.leftmost, h'.leftmost⟩
  rest := h'.rest

theorem Framing.unique (h : Framing sep s pieces r) (h' : Framing sep s pieces' r') :
    pieces = pieces' ∧ r = r' := by
  induction pieces generalizing s pieces' with
  | nil =>
    cases pieces' with
    | nil => exact ⟨rfl, h.whole.symm.trans h'.whole⟩
    | cons p' pieces' =>
      refine absurd ?_ h.rest
      rw [← show s = r from h.whole, h'.whole, List.flatMap_cons, List.append_assoc,
        List.append_assoc]
      exact ⟨p', _, by rw [List.append_assoc]⟩
  | cons p pieces ih =>
    have hwhole := h.whole
    rw [List.flatMap_cons, List.append_assoc] at hwhole
    cases pieces' with
    | nil =>
      refine absurd ?_ h'.rest
      rw [← show s = r' from h'.whole, hwhole, List.append_assoc]
      exact ⟨p, _, by rw [List.append_assoc]⟩
    | cons p' pieces' =>
      have hwhole' := h'.whole
      rw [List.flatMap_cons, List.append_assoc] at hwhole'
      obtain ⟨rfl, hrest⟩ := leftmost_unique (h.leftmost p List.mem_cons_self)
        (h'.leftmost p' List.mem_cons_self) (hwhole.symm.trans hwhole')
      obtain ⟨rfl, rfl⟩ := ih ⟨rfl, fun q hq => h.leftmost q (List.mem_cons_of_mem _ hq), h.rest⟩
        ⟨hrest, fun q hq => h'.leftmost q (List.mem_cons_of_mem _ hq), h'.rest⟩
      exact ⟨rfl, rfl⟩

end

section Partition

variable [DecidableEq α] (sep : List α)

def partition : List α → Option (List α × List α)
  | [] => none
  | a :: l =>
    if sep <+: a :: l then some ([], (a :: l).drop sep.length)
    else (partition l).map (Prod.map (a :: ·) id)

variable {sep} (hsep : sep ≠ [])

include hsep

theorem partition_none {l : List α} (h : partition sep l = none) : ¬sep <:+: l := by
  induction l with
  | nil => exact fun hsub => hsep (List.infix_nil.mp hsub)
  | cons a l ih =>
    rw [partition] at h
    split at h
    case isTrue => cases h
    case isFalse hstart =>
      rw [List.infix_cons_iff, not_or]
      exact ⟨hstart, ih (Option.map_eq_none_iff.mp h)⟩

theorem partition_some {l p r : List α} (h : partition sep l = some (p, r)) :
    l = p ++ sep ++ r ∧ ¬sep <:+: (p ++ sep).dropLast := by
  induction l generalizing p with
  | nil => cases h
  | cons a l ih =>
    rw [partition] at h
    split at h
    case isTrue hstart =>
      obtain ⟨rfl, rfl⟩ := Prod.mk.inj (Option.some.inj h)
      refine ⟨by rw [List.nil_append, List.prefix_iff_eq_append.mp hstart], fun hsub => ?_⟩
      have hlength := hsub.length_le
      rw [List.nil_append, List.length_dropLast] at hlength
      have := List.length_pos_iff.mpr hsep
      omega
    case isFalse hstart =>
      obtain ⟨⟨q, r'⟩, hq, hpair⟩ := Option.map_eq_some_iff.mp h
      obtain ⟨rfl, rfl⟩ := Prod.mk.inj hpair
      obtain ⟨rfl, hleftmost⟩ := ih hq
      refine ⟨rfl, ?_⟩
      have hne : q ++ sep ≠ [] := by simp [hsep]
      rw [List.cons_append, List.dropLast_cons_of_ne_nil hne, List.infix_cons_iff, not_or]
      refine ⟨fun hp => hstart (hp.trans ?_), hleftmost⟩
      exact (List.cons_prefix_cons.mpr ⟨rfl, (List.dropLast_prefix _).trans
        (List.prefix_append _ _)⟩)

theorem partition_rest_lt {l p r : List α} (h : partition sep l = some (p, r)) :
    r.length < l.length := by
  obtain ⟨rfl, -⟩ := partition_some hsep h
  have := List.length_pos_iff.mpr hsep
  simp only [List.length_append]
  omega

end Partition

end Delimited
