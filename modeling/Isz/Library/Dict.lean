import Mathlib.Data.Finmap

namespace Finmap

variable {α : Type} {β : α → Type} [DecidableEq α]

def keep (p : (a : α) → β a → Bool) (s : Finmap β) : Finmap β where
  entries := s.entries.filter fun e => p e.1 e.2
  nodupKeys := Multiset.nodup_keys.mp (Multiset.nodup_of_le
    (Multiset.map_le_map (Multiset.filter_le _ _)) s.nodupKeys.nodup_keys)

theorem lookup_keep (p : (a : α) → β a → Bool) (s : Finmap β) (a : α) :
    (s.keep p).lookup a = (s.lookup a).filter (p a) := by
  ext b
  rw [← Option.mem_def, mem_lookup_iff, Option.filter_eq_some_iff, ← Option.mem_def,
    mem_lookup_iff]
  exact Multiset.mem_filter

end Finmap

-- a dict in insertion order: a key that is assigned again keeps its place
def assign {K V : Type} [DecidableEq K] : List (K × V) → K → V → List (K × V)
  | [], key, value => [(key, value)]
  | (key', value') :: rest, key, value =>
    if key' = key then (key, value) :: rest else (key', value') :: assign rest key value

theorem assign_of_notMem {K V : Type} [DecidableEq K] {d : List (K × V)} {key : K} (value : V)
    (h : key ∉ d.map Prod.fst) : assign d key value = d ++ [(key, value)] := by
  induction d with
  | nil => rfl
  | cons e d ih =>
    rw [List.map_cons, List.mem_cons, not_or] at h
    rw [assign, if_neg (Ne.symm h.1), ih h.2, List.cons_append]

theorem foldl_assign_distinct {K V : Type} [DecidableEq K] {d l : List (K × V)}
    (h : ((d ++ l).map Prod.fst).Nodup) : l.foldl (fun d x => assign d x.1 x.2) d = d ++ l := by
  induction l generalizing d with
  | nil => exact (List.append_nil d).symm
  | cons e l ih =>
    have hnew : e.1 ∉ d.map Prod.fst := by
      rw [List.map_append, List.map_cons, List.nodup_middle, List.nodup_cons] at h
      exact fun hin => h.1 (List.mem_append_left _ hin)
    rw [List.foldl_cons, assign_of_notMem e.2 hnew, ih (by simpa using h)]
    simp

theorem map_assign {K V W : Type} [DecidableEq K] (f : V → W) (d : List (K × V)) (key : K)
    (value : V) : (assign d key value).map (fun e => (e.1, f e.2)) =
      assign (d.map fun e => (e.1, f e.2)) key (f value) := by
  induction d with
  | nil => rfl
  | cons e d ih =>
    simp only [assign, List.map_cons]
    split
    · rfl
    · rw [List.map_cons, ih]

theorem mem_assign {K V : Type} [DecidableEq K] {d : List (K × V)} {key : K} {value : V}
    {e : K × V} (h : e ∈ assign d key value) : e ∈ d ∨ e = (key, value) := by
  induction d with
  | nil => exact .inr (List.mem_singleton.mp h)
  | cons e' d ih =>
    simp only [assign] at h
    split at h
    · rcases List.mem_cons.mp h with rfl | hmem
      · exact .inr rfl
      · exact .inl (List.mem_cons_of_mem _ hmem)
    · rcases List.mem_cons.mp h with rfl | hmem
      · exact .inl List.mem_cons_self
      · exact (ih hmem).imp_left (List.mem_cons_of_mem _)

section Find

variable {K V : Type} [DecidableEq K] {p : K → Bool}

theorem mem_foldl_assign {l : List (K × V)} {e : K × V}
    (h : e ∈ l.foldl (fun d x => assign d x.1 x.2) []) : e ∈ l := by
  induction l using List.reverseRecOn with
  | nil => exact h
  | append_singleton l x ih =>
    rw [List.foldl_append, List.foldl_cons, List.foldl_nil] at h
    obtain hold | rfl := mem_assign h
    · exact List.mem_append_left _ (ih hold)
    · exact List.mem_append_right _ List.mem_cons_self

theorem find?_assign_of_neg (d : List (K × V)) {key : K} (value : V) (hkey : p key = false) :
    (assign d key value).find? (fun e => p e.1) = d.find? fun e => p e.1 := by
  induction d with
  | nil => simp [assign, hkey]
  | cons e d ih =>
    rw [assign]
    split
    case isTrue heq => simp [heq, hkey]
    case isFalse => rw [List.find?_cons, List.find?_cons, ih]

theorem find?_assign_of_pos {d : List (K × V)} {key : K} (value : V) (hkey : p key = true)
    (hd : ∀ e ∈ d, p e.1 = true → e.1 = key) :
    (assign d key value).find? (fun e => p e.1) = some (key, value) := by
  induction d with
  | nil => simp [assign, hkey]
  | cons e d ih =>
    rw [List.forall_mem_cons] at hd
    rw [assign]
    split
    case isTrue => simp [hkey]
    case isFalse hne =>
      have hfirst : p e.1 = false := Bool.eq_false_iff.mpr (mt hd.1 hne)
      rw [List.find?_cons, hfirst]
      exact ih hd.2

theorem find?_foldl_assign {l : List (K × V)}
    (h : ∀ e ∈ l, ∀ e' ∈ l, p e.1 = true → p e'.1 = true → e.1 = e'.1) :
    (l.foldl (fun d x => assign d x.1 x.2) []).find? (fun e => p e.1) =
      (l.filter fun e => p e.1).getLast? := by
  induction l using List.reverseRecOn with
  | nil => rfl
  | append_singleton l x ih =>
    rw [List.foldl_append, List.foldl_cons, List.foldl_nil, List.filter_append]
    cases hx : p x.1 with
    | false =>
      rw [find?_assign_of_neg _ _ hx, List.filter_cons_of_neg (by simp [hx]), List.filter_nil,
        List.append_nil]
      exact ih fun e he e' he' => h e (List.mem_append_left _ he) e' (List.mem_append_left _ he')
    | true =>
      have hlast : [x].filter (fun e => p e.1) = [x] := List.filter_cons_of_pos hx
      rw [find?_assign_of_pos x.2 hx, hlast, List.getLast?_concat]
      exact fun e he hp => h e (List.mem_append_left _ (mem_foldl_assign he)) x
        (List.mem_append_right _ List.mem_cons_self) hp hx

end Find

section Lookup

variable {K V : Type} [DecidableEq K] [BEq K] [LawfulBEq K]

theorem lookup_assign_self (d : List (K × V)) (key : K) (value : V) :
    (assign d key value).lookup key = some value := by
  induction d with
  | nil => simp [assign]
  | cons e d ih =>
    simp only [assign]
    split
    case isTrue => simp
    case isFalse hne =>
      rw [List.lookup_cons, beq_false_of_ne (Ne.symm hne)]
      exact ih

theorem lookup_assign_of_ne (d : List (K × V)) {key other : K} (value : V) (hne : other ≠ key) :
    (assign d key value).lookup other = d.lookup other := by
  induction d with
  | nil => simp [assign, List.lookup_cons, beq_false_of_ne hne]
  | cons e d ih =>
    simp only [assign]
    split
    case isTrue heq => rw [List.lookup_cons, List.lookup_cons, heq, beq_false_of_ne hne]
    case isFalse => rw [List.lookup_cons, List.lookup_cons, ih]

omit [BEq K] [LawfulBEq K] in
theorem map_fst_assign_nodup {d : List (K × V)} (hd : (d.map Prod.fst).Nodup) (key : K)
    (value : V) : ((assign d key value).map Prod.fst).Nodup := by
  induction d with
  | nil => simp [assign]
  | cons e d ih =>
    obtain ⟨hhead, htail⟩ := List.nodup_cons.mp hd
    simp only [assign]
    split
    case isTrue heq => exact List.nodup_cons.mpr ⟨heq ▸ hhead, htail⟩
    case isFalse hne =>
      refine List.nodup_cons.mpr ⟨fun hmem => ?_, ih htail⟩
      obtain ⟨e', he', heq⟩ := List.mem_map.mp hmem
      rcases mem_assign he' with hold | rfl
      · exact hhead (heq ▸ List.mem_map_of_mem hold)
      · exact hne heq.symm

omit [DecidableEq K] in
theorem lookup_of_mem {d : List (K × V)} (hd : (d.map Prod.fst).Nodup) {key : K} {value : V}
    (h : (key, value) ∈ d) : d.lookup key = some value := by
  induction d with
  | nil => cases h
  | cons e d ih =>
    obtain ⟨hhead, htail⟩ := List.nodup_cons.mp hd
    rcases List.mem_cons.mp h with rfl | hmem
    · rw [List.lookup_cons, beq_self_eq_true]
    · have hne : key ≠ e.1 := fun heq => hhead (heq ▸ List.mem_map_of_mem (f := Prod.fst) hmem)
      rw [List.lookup_cons, beq_false_of_ne hne]
      exact ih htail hmem

theorem lookup_filter {d : List (K × V)} (hd : (d.map Prod.fst).Nodup) (p : K × V → Bool)
    (key : K) : (d.filter p).lookup key = (d.lookup key).filter fun value => p (key, value) := by
  induction d with
  | nil => rfl
  | cons e d ih =>
    obtain ⟨hhead, htail⟩ := List.nodup_cons.mp hd
    obtain ⟨key', value⟩ := e
    rw [List.lookup_cons, List.filter_cons]
    by_cases hkey : key = key'
    · subst hkey
      have hnone : d.lookup key = none := by
        rw [List.lookup_eq_none_iff]
        intro e he
        exact bne_iff_ne.mpr fun h => hhead (List.mem_map.mpr ⟨e, he, h.symm⟩)
      cases hp : p (key, value) with
      | true => simp [Option.filter, hp]
      | false => simp [Option.filter, hp, ih htail, hnone]
    · rw [beq_false_of_ne hkey, ← ih htail]
      split
      · rw [List.lookup_cons, beq_false_of_ne hkey]
      · rfl

omit [DecidableEq K] [BEq K] [LawfulBEq K] in
theorem nodup_map_fst_filter {d : List (K × V)} (hd : (d.map Prod.fst).Nodup) (p : K × V → Bool) :
    ((d.filter p).map Prod.fst).Nodup :=
  hd.sublist (List.filter_sublist.map _)

omit [DecidableEq K] [LawfulBEq K] in
theorem lookup_mapM {W : Type} {f : V → Option W} {d : List (K × V)} {d' : List (K × W)}
    (h : (d.mapM fun e => (f e.2).map fun value => (e.1, value)) = some d') (key : K) :
    d'.lookup key = (d.lookup key).bind f ∧ d'.map Prod.fst = d.map Prod.fst := by
  induction d generalizing d' with
  | nil =>
    obtain rfl := Option.some.inj h
    exact ⟨rfl, rfl⟩
  | cons e d ih =>
    rw [List.mapM_cons] at h
    obtain ⟨e', he, hrest⟩ := Option.bind_eq_some_iff.mp h
    obtain ⟨rest, hmap, heq⟩ := Option.bind_eq_some_iff.mp hrest
    obtain ⟨value, hvalue, rfl⟩ := Option.map_eq_some_iff.mp he
    obtain rfl := Option.some.inj heq
    obtain ⟨hlookup, hkeys⟩ := ih hmap
    refine ⟨?_, by simp [hkeys]⟩
    rw [List.lookup_cons, List.lookup_cons]
    split
    · exact hvalue.symm
    · exact hlookup

end Lookup
