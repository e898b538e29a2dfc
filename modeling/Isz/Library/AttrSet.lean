import Isz.Library.Text
import Mathlib.Data.List.Sort
import Mathlib.Data.List.Lex
import Mathlib.Data.List.Dedup
import Mathlib.Data.String.Basic

structure AttrSet (α : Type) where
  entries : List (Str × α)
  sorted : (entries.map Prod.fst).Pairwise (· < ·)

namespace AttrSet

variable {α β : Type}

def get? (s : AttrSet α) (name : Str) : Option α :=
  (s.entries.find? fun entry => entry.1 = name).map Prod.snd

def attrValues (s : AttrSet α) : List α := s.entries.map Prod.snd

def mapAttrsToList (f : Str → α → β) (s : AttrSet α) : List β :=
  s.entries.map fun entry => f entry.1 entry.2

def mapAttrs (f : Str → α → β) (s : AttrSet α) : AttrSet β where
  entries := s.entries.map fun entry => (entry.1, f entry.1 entry.2)
  sorted := by simpa [List.map_map, Function.comp_def] using s.sorted

def names (keys : List Str) : List Str := keys.dedup.insertionSort (· ≤ ·)

theorem mem_names {keys : List Str} {k : Str} : k ∈ names keys ↔ k ∈ keys := by
  rw [names, List.mem_insertionSort, List.mem_dedup]

theorem names_sorted (keys : List Str) : (names keys).Pairwise (· < ·) := by
  have hle : (names keys).Pairwise (· ≤ ·) := List.pairwise_insertionSort _ _
  have hnodup : (names keys).Nodup :=
    (List.perm_insertionSort _ _).nodup_iff.mpr (List.nodup_dedup _)
  exact hle.imp₂ (fun _ _ hab hne => lt_of_le_of_ne hab hne) hnodup

def groupBy (f : α → Str) (l : List α) : AttrSet (List α) where
  entries := (names (l.map f)).map fun k => (k, l.filter fun a => f a = k)
  sorted := by simpa [List.map_map, Function.comp_def] using names_sorted (l.map f)

theorem map_fst_filterMap (g : Str → Option α) (keys : List Str) :
    (keys.filterMap fun k => (g k).map fun a => (k, a)).map Prod.fst =
      keys.filter fun k => (g k).isSome := by
  induction keys with
  | nil => rfl
  | cons k keys ih => cases hk : g k <;> simp [hk, ih]

def listToAttrs (name : α → Str) (l : List α) : AttrSet α where
  entries := (names (l.map name)).filterMap fun k =>
    (l.find? fun a => name a = k).map fun a => (k, a)
  sorted := by
    rw [map_fst_filterMap]
    exact (names_sorted (l.map name)).filter _

theorem get?_eq_some {s : AttrSet α} {name : Str} {a : α} :
    s.get? name = some a ↔ (name, a) ∈ s.entries := by
  obtain ⟨entries, sorted⟩ := s
  simp only [get?]
  induction entries with
  | nil => simp
  | cons entry entries ih =>
    obtain ⟨k, b⟩ := entry
    simp only [List.map_cons, List.pairwise_cons] at sorted
    have htail := ih sorted.2
    by_cases hk : k = name
    · subst hk
      have hnot : (k, a) ∉ entries := fun hmem =>
        (sorted.1 k (List.mem_map_of_mem hmem)).ne rfl
      simp [hnot, eq_comm]
    · have hk' : ¬name = k := fun h => hk h.symm
      simpa [hk, hk'] using htail

theorem mem_groupBy {f : α → Str} {l : List α} {k : Str} {as : List α} :
    (k, as) ∈ (groupBy f l).entries ↔ k ∈ l.map f ∧ as = l.filter fun a => f a = k := by
  simp only [groupBy, List.mem_map, mem_names, Prod.mk.injEq]
  constructor
  · rintro ⟨k', hk', rfl, rfl⟩
    exact ⟨hk', rfl⟩
  · rintro ⟨hk, rfl⟩
    exact ⟨k, hk, rfl, rfl⟩

theorem get?_groupBy {f : α → Str} {l : List α} {k : Str} :
    (groupBy f l).get? k = if k ∈ l.map f then some (l.filter fun a => f a = k) else none := by
  split
  case isTrue h => exact get?_eq_some.mpr (mem_groupBy.mpr ⟨h, rfl⟩)
  case isFalse h =>
    rw [Option.eq_none_iff_forall_ne_some]
    intro as heq
    exact h (mem_groupBy.mp (get?_eq_some.mp heq)).1

theorem get?_mapAttrs {f : Str → α → β} {s : AttrSet α} {k : Str} :
    (s.mapAttrs f).get? k = (s.get? k).map (f k) := by
  obtain ⟨entries, sorted⟩ := s
  simp only [get?, mapAttrs, List.find?_map, Option.map_map]
  cases hfind : entries.find? fun entry => entry.1 = k with
  | none => simpa [Function.comp_def] using hfind
  | some entry =>
    have hname : entry.1 = k := by simpa using List.find?_some hfind
    simp [Function.comp_def, hfind, hname]

theorem get?_listToAttrs {name : α → Str} {l : List α} (hnodup : (l.map name).Nodup) {k : Str}
    {a : α} : (listToAttrs name l).get? k = some a ↔ a ∈ l ∧ name a = k := by
  rw [get?_eq_some, listToAttrs]
  simp only [List.mem_filterMap, Option.map_eq_some_iff, Prod.mk.injEq, mem_names]
  constructor
  · rintro ⟨k', -, b, hfind, rfl, rfl⟩
    exact ⟨List.mem_of_find?_eq_some hfind, by simpa using List.find?_some hfind⟩
  · rintro ⟨ha, rfl⟩
    refine ⟨name a, List.mem_map_of_mem ha, a, ?_, rfl, rfl⟩
    cases hfind : l.find? fun b => name b = name a with
    | none => simpa using List.find?_eq_none.mp hfind a ha
    | some b =>
      have hb := List.mem_of_find?_eq_some hfind
      have hname : name b = name a := by simpa using List.find?_some hfind
      rw [List.inj_on_of_nodup_map hnodup hb ha hname]

theorem mem_attrValues {s : AttrSet α} {a : α} : a ∈ s.attrValues ↔ ∃ k, s.get? k = some a := by
  simp only [attrValues, List.mem_map, get?_eq_some]
  constructor
  · rintro ⟨⟨k, _⟩, hentry, rfl⟩
    exact ⟨k, hentry⟩
  · rintro ⟨k, hentry⟩
    exact ⟨(k, a), hentry, rfl⟩

theorem of_get?_listToAttrs {name : α → Str} {l : List α} {k : Str} {a : α}
    (h : (listToAttrs name l).get? k = some a) : a ∈ l := by
  obtain ⟨k', -, hfind⟩ := List.mem_filterMap.mp (get?_eq_some.mp h)
  obtain ⟨b, hb, heq⟩ := Option.map_eq_some_iff.mp hfind
  obtain ⟨-, rfl⟩ := Prod.mk.inj heq
  exact List.mem_of_find?_eq_some hb

theorem filter_flatMap_perm (f : α → Str) (l : List α) {keys : List Str} (hnodup : keys.Nodup) :
    (keys.flatMap fun k => l.filter fun a => f a = k).Perm (l.filter fun a => f a ∈ keys) := by
  induction keys with
  | nil => simp
  | cons k keys ih =>
    obtain ⟨hk, hkeys⟩ := List.nodup_cons.mp hnodup
    have hsplit := List.filter_append_perm (fun a => decide (f a = k))
      (l.filter fun a => f a ∈ k :: keys)
    rw [List.filter_filter, List.filter_filter] at hsplit
    have hhead : (l.filter fun a => decide (f a = k) && decide (f a ∈ k :: keys)) =
        l.filter fun a => f a = k :=
      List.filter_congr fun a _ => by simp +contextual
    have htail : (l.filter fun a => (!decide (f a = k)) && decide (f a ∈ k :: keys)) =
        l.filter fun a => f a ∈ keys :=
      List.filter_congr fun a _ => by
        by_cases ha : f a = k
        · simp [ha, hk]
        · simp [ha]
    rw [hhead, htail] at hsplit
    rw [List.flatMap_cons]
    exact ((ih hkeys).append_left _).trans hsplit

theorem nodup_names (keys : List Str) : (names keys).Nodup :=
  (names_sorted keys).imp fun h => h.ne

theorem names_flatMap_perm (f : α → Str) (l : List α) :
    ((names (l.map f)).flatMap fun k => l.filter fun a => f a = k).Perm l := by
  refine (filter_flatMap_perm f l (nodup_names _)).trans ?_
  rw [List.filter_eq_self.mpr fun a ha => ?_]
  exact decide_eq_true (mem_names.mpr (List.mem_map_of_mem ha))

theorem attrValues_listToAttrs_perm {name : α → Str} {l : List α} :
    (listToAttrs name l).attrValues.Perm l ↔ (l.map name).Nodup := by
  have hkeys : (listToAttrs name l).attrValues.map name =
      (listToAttrs name l).entries.map Prod.fst := by
    rw [attrValues, List.map_map]
    refine List.map_congr_left fun entry hentry => ?_
    obtain ⟨k, -, hfind⟩ := List.mem_filterMap.mp hentry
    obtain ⟨a, ha, rfl⟩ := Option.map_eq_some_iff.mp hfind
    simpa using List.find?_some ha
  have hnodup : ((listToAttrs name l).attrValues.map name).Nodup := by
    rw [hkeys]
    exact (listToAttrs name l).sorted.imp fun h => h.ne
  constructor
  · intro hperm
    exact (hperm.map name).nodup_iff.mp hnodup
  · intro hl
    refine (List.perm_ext_iff_of_nodup hnodup.of_map hl.of_map).mpr fun a => ?_
    rw [mem_attrValues]
    constructor
    · rintro ⟨k, hk⟩
      exact of_get?_listToAttrs hk
    · intro ha
      exact ⟨name a, (get?_listToAttrs hl).mpr ⟨ha, rfl⟩⟩

theorem get?_listToAttrs_eq (name : α → Str) (l : List α) (k : Str) :
    (listToAttrs name l).get? k = l.find? fun a => name a = k := by
  ext a
  rw [get?_eq_some, listToAttrs]
  simp only [List.mem_filterMap, Option.map_eq_some_iff, Prod.mk.injEq, mem_names, List.mem_map]
  constructor
  · rintro ⟨k', -, b, hfind, rfl, rfl⟩
    exact hfind
  · intro hfind
    have hname : name a = k := of_decide_eq_true (List.find?_eq_some_iff_append.mp hfind).1
    exact ⟨k, ⟨a, List.mem_of_find?_eq_some hfind, hname⟩, a, hfind, rfl, rfl⟩

-- s // t
def update (s t : AttrSet α) : AttrSet α :=
  (listToAttrs Prod.fst (t.entries ++ s.entries)).mapAttrs fun _ entry => entry.2

theorem get?_update (s t : AttrSet α) (k : Str) :
    (s.update t).get? k = (t.get? k).or (s.get? k) := by
  rw [update, get?_mapAttrs, get?_listToAttrs_eq, List.find?_append, Option.map_or]
  rfl

def empty : AttrSet α := ⟨[], List.Pairwise.nil⟩

def concatMapAttrs (f : Str → α → AttrSet β) (s : AttrSet α) : AttrSet β :=
  s.entries.foldl (fun acc entry => acc.update (f entry.1 entry.2)) empty

theorem get?_concatMapAttrs (f : Str → α → AttrSet β) (s : AttrSet α) (k : Str) :
    (concatMapAttrs f s).get? k =
      (s.entries.filterMap fun entry => (f entry.1 entry.2).get? k).getLast? := by
  have hfold : ∀ (entries : List (Str × α)) (acc : AttrSet β),
      (entries.foldl (fun acc entry => acc.update (f entry.1 entry.2)) acc).get? k =
        (entries.filterMap fun entry => (f entry.1 entry.2).get? k).getLast?.or (acc.get? k) := by
    intro entries
    induction entries with
    | nil => intro acc; rfl
    | cons entry entries ih =>
      intro acc
      rw [List.foldl_cons, ih, get?_update]
      cases hk : (f entry.1 entry.2).get? k with
      | none => simp [hk]
      | some b => cases h : (entries.filterMap fun entry => (f entry.1 entry.2).get? k).getLast? <;>
          simp_all [List.getLast?_cons]
  rw [concatMapAttrs, hfold]
  exact Option.or_none

theorem ext_get? {s t : AttrSet α} (h : ∀ k, s.get? k = t.get? k) : s = t := by
  have hmem : ∀ entry, entry ∈ s.entries ↔ entry ∈ t.entries := by
    rintro ⟨k, a⟩
    rw [← get?_eq_some, ← get?_eq_some, h]
  have hnodup : ∀ u : AttrSet α, u.entries.Nodup := fun u =>
    List.Nodup.of_map Prod.fst (u.sorted.imp fun hlt => hlt.ne)
  have hperm := (List.perm_ext_iff_of_nodup (hnodup s) (hnodup t)).mpr hmem
  have hentries : s.entries = t.entries := by
    refine hperm.eq_of_pairwise ?_ (List.pairwise_map.mp s.sorted) (List.pairwise_map.mp t.sorted)
    intro entry entry' _ _ hlt hlt'
    exact absurd hlt' hlt.asymm
  obtain ⟨entries, _⟩ := s
  obtain ⟨entries', _⟩ := t
  obtain rfl : entries = entries' := hentries
  rfl

def filterAttrs (p : Str → α → Bool) (s : AttrSet α) : AttrSet α where
  entries := s.entries.filter fun entry => p entry.1 entry.2
  sorted := s.sorted.sublist (List.filter_sublist.map Prod.fst)

theorem get?_filterAttrs (p : Str → α → Bool) (s : AttrSet α) (k : Str) :
    (s.filterAttrs p).get? k = (s.get? k).filter (p k) := by
  ext a
  rw [get?_eq_some, Option.filter_eq_some_iff, get?_eq_some]
  exact List.mem_filter

def removeAttr (key : Str) : AttrSet α → AttrSet α := filterAttrs fun k _ => k ≠ key

theorem get?_removeAttr (key : Str) (s : AttrSet α) (k : Str) :
    (s.removeAttr key).get? k = if k = key then none else s.get? k := by
  rw [removeAttr, get?_filterAttrs]
  split
  case isTrue heq => cases s.get? k <;> simp [heq]
  case isFalse hne => cases s.get? k <;> simp [hne]

def insert (key : Str) (a : α) (s : AttrSet α) : AttrSet α :=
  s.update ⟨[(key, a)], List.pairwise_singleton _ _⟩

theorem get?_insert (key : Str) (a : α) (s : AttrSet α) (k : Str) :
    (s.insert key a).get? k = if k = key then some a else s.get? k := by
  rw [insert, get?_update]
  by_cases hk : k = key
  · subst hk
    simp [get?]
  · have hk' : ¬key = k := fun heq => hk heq.symm
    simp [get?, hk, hk']

def mapKeys (f : Str → Str) (s : AttrSet α) : AttrSet α :=
  (listToAttrs Prod.fst (s.entries.map fun entry => (f entry.1, entry.2)).reverse).mapAttrs
    fun _ entry => entry.2

theorem get?_mapKeys (f : Str → Str) (s : AttrSet α) (k : Str) :
    (s.mapKeys f).get? k =
      ((s.entries.filter fun entry => f entry.1 = k).getLast?).map Prod.snd := by
  rw [mapKeys, get?_mapAttrs, get?_listToAttrs_eq, ← List.map_reverse, List.find?_map,
    ← List.head?_filter, List.filter_reverse, List.head?_reverse, Option.map_map]
  rfl

theorem get?_mapKeys_of_last {f : Str → Str} {s : AttrSet α} {k key : Str} {a : α}
    (hkey : s.get? key = some a) (hf : f key = k)
    (hlast : ∀ k' a', s.get? k' = some a' → f k' = k → k' ≤ key) :
    (s.mapKeys f).get? k = some a := by
  have hmem : (key, a) ∈ s.entries.filter fun entry => f entry.1 = k :=
    List.mem_filter.mpr ⟨get?_eq_some.mp hkey, decide_eq_true hf⟩
  have hsorted : (s.entries.filter fun entry => f entry.1 = k).Pairwise fun entry entry' =>
      entry.1 < entry'.1 := (List.pairwise_map.mp s.sorted).filter _
  rw [get?_mapKeys]
  obtain ⟨⟨k', a'⟩, hend⟩ := Option.ne_none_iff_exists'.mp
    (mt List.getLast?_eq_none_iff.mp (List.ne_nil_of_mem hmem))
  obtain ⟨front, hfront⟩ := List.getLast?_eq_some_iff.mp hend
  have hle : k' ≤ key := by
    obtain ⟨hentry, hname⟩ := List.mem_filter.mp (List.mem_of_getLast? hend)
    exact hlast k' a' (get?_eq_some.mpr hentry) (of_decide_eq_true hname)
  rw [hfront] at hmem hsorted
  rw [hend]
  rcases List.mem_append.mp hmem with hbefore | hlast
  · have hlt := (List.pairwise_append.mp hsorted).2.2 _ hbefore _ (List.mem_singleton_self _)
    exact absurd hle hlt.not_ge
  · rw [← List.mem_singleton.mp hlast]
    rfl

theorem get?_mapKeys_of_inj {f : Str → Str} {s : AttrSet α} {k : Str}
    (hinj : ∀ k' a, s.get? k' = some a → f k' = f k → k' = k) :
    (s.mapKeys f).get? (f k) = s.get? k := by
  cases hk : s.get? k with
  | some a => exact get?_mapKeys_of_last hk rfl fun k' a' hk' hf => (hinj k' a' hk' hf).le
  | none =>
    have hnone : (s.entries.filter fun entry => f entry.1 = f k) = [] := by
      refine List.filter_eq_nil_iff.mpr fun entry hentry hf => ?_
      have hget : s.get? entry.1 = some entry.2 := get?_eq_some.mpr hentry
      rw [hinj _ _ hget (of_decide_eq_true hf), hk] at hget
      cases hget
    rw [get?_mapKeys, hnone]
    rfl

end AttrSet
