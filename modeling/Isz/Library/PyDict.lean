import Isz.Library.Dict

structure PyDict (K V : Type) where
  items : List (K × V)
  distinct : (items.map Prod.fst).Nodup

namespace PyDict

variable {K V : Type} [DecidableEq K]

def empty : PyDict K V := ⟨[], List.nodup_nil⟩

def keys (d : PyDict K V) : List K := d.items.map Prod.fst

def get? (d : PyDict K V) (k : K) : Option V := d.items.lookup k

def insert (d : PyDict K V) (k : K) (v : V) : PyDict K V :=
  ⟨assign d.items k v, map_fst_assign_nodup d.distinct k v⟩

-- d | e
def union (d e : PyDict K V) : PyDict K V := e.items.foldl (fun d x => d.insert x.1 x.2) d

def filter (d : PyDict K V) (p : K × V → Bool) : PyDict K V :=
  ⟨d.items.filter p, nodup_map_fst_filter d.distinct p⟩

structure KeyError (K : Type) where
  key : K

-- d[k]
def getItem (d : PyDict K V) (k : K) : Except (KeyError K) V :=
  match d.get? k with
  | some v => .ok v
  | none => .error ⟨k⟩

-- del d[k]
def delItem (d : PyDict K V) (k : K) : Except (KeyError K) (PyDict K V) :=
  if (d.get? k).isSome then .ok (d.filter fun e => e.1 ≠ k) else .error ⟨k⟩

theorem get?_empty (k : K) : (empty : PyDict K V).get? k = none := rfl

theorem get?_insert (d : PyDict K V) (k k' : K) (v : V) :
    (d.insert k v).get? k' = if k' = k then some v else d.get? k' := by
  split
  case isTrue heq =>
    rw [heq]
    exact lookup_assign_self d.items k v
  case isFalse hne => exact lookup_assign_of_ne d.items v hne

theorem get?_filter (d : PyDict K V) (p : K × V → Bool) (k : K) :
    (d.filter p).get? k = (d.get? k).filter fun v => p (k, v) :=
  lookup_filter d.distinct p k

theorem getItem_eq {d : PyDict K V} {k : K} {v : V} (h : d.get? k = some v) :
    d.getItem k = .ok v := by
  rw [getItem, h]

theorem getItem_missing {d : PyDict K V} {k : K} (h : d.get? k = none) :
    d.getItem k = .error ⟨k⟩ := by
  rw [getItem, h]

theorem get?_delItem {d d' : PyDict K V} {k : K} (h : d.delItem k = .ok d') (k' : K) :
    d'.get? k' = if k' = k then none else d.get? k' := by
  rw [delItem] at h
  split at h
  case isTrue =>
    obtain rfl := Except.ok.inj h
    rw [get?_filter]
    by_cases hk : k' = k
    · rw [if_pos hk, Option.filter_eq_none_iff]
      simp [hk]
    · rw [if_neg hk]
      cases d.get? k' with
      | none => rfl
      | some v => simp [Option.filter_some, hk]
  case isFalse => cases h

theorem delItem_ok {d : PyDict K V} {k : K} {v : V} (h : d.get? k = some v) :
    ∃ d', d.delItem k = .ok d' := by
  rw [delItem, h]
  exact ⟨_, rfl⟩

theorem get?_cons {k' : K} {v : V} {items : List (K × V)}
    (h : (((k', v) :: items).map Prod.fst).Nodup) (k : K) :
    get? ⟨(k', v) :: items, h⟩ k =
      if k = k' then some v else get? ⟨items, (List.nodup_cons.mp h).2⟩ k := by
  rw [get?, List.lookup_cons]
  by_cases hk : k = k'
  · rw [beq_iff_eq.mpr hk, if_pos hk]
  · rw [beq_false_of_ne hk, if_neg hk]
    rfl

theorem mem_items {d : PyDict K V} {k : K} {v : V} : (k, v) ∈ d.items ↔ d.get? k = some v := by
  obtain ⟨items, hdistinct⟩ := d
  induction items with
  | nil => simp [get?]
  | cons x items ih =>
    obtain ⟨k', v'⟩ := x
    obtain ⟨hhead, htail⟩ := List.nodup_cons.mp hdistinct
    rw [get?_cons, List.mem_cons]
    by_cases hk : k = k'
    · subst hk
      have hnot : (k, v) ∉ items := fun hmem => hhead (List.mem_map.mpr ⟨(k, v), hmem, rfl⟩)
      simp [hnot, eq_comm]
    · rw [if_neg hk, ← ih htail]
      simp [hk]

theorem mem_keys {d : PyDict K V} {k : K} : k ∈ d.keys ↔ (d.get? k).isSome := by
  rw [keys, List.mem_map, Option.isSome_iff_exists]
  constructor
  · rintro ⟨⟨_, v⟩, hmem, rfl⟩
    exact ⟨v, mem_items.mp hmem⟩
  · rintro ⟨v, hv⟩
    exact ⟨(k, v), mem_items.mpr hv, rfl⟩

theorem get?_union (d e : PyDict K V) (k : K) : (d.union e).get? k = (e.get? k).or (d.get? k) := by
  obtain ⟨items, hdistinct⟩ := e
  rw [union]
  induction items generalizing d with
  | nil => rfl
  | cons x items ih =>
    obtain ⟨k', v⟩ := x
    obtain ⟨hhead, htail⟩ := List.nodup_cons.mp hdistinct
    rw [List.foldl_cons, ih _ htail, get?_insert, get?_cons]
    by_cases hk : k = k'
    · subst hk
      have hnone : get? ⟨items, htail⟩ k = none := by
        rw [← Option.not_isSome_iff_eq_none, ← mem_keys]
        exact hhead
      rw [if_pos rfl, if_pos rfl, hnone, Option.none_or, Option.some_or]
    · rw [if_neg hk, if_neg hk]

def map {W : Type} (f : V → W) (d : PyDict K V) : PyDict K W where
  items := d.items.map fun x => (x.1, f x.2)
  distinct := by
    rw [List.map_map]
    exact d.distinct

theorem get?_map {W : Type} (f : V → W) (d : PyDict K V) (k : K) :
    (d.map f).get? k = (d.get? k).map f := by
  obtain ⟨items, distinct⟩ := d
  simp only [map, get?]
  clear distinct
  induction items with
  | nil => rfl
  | cons item items ih =>
    rw [List.map_cons, List.lookup_cons, List.lookup_cons, ih]
    cases h : k == item.1 <;> rfl

omit [DecidableEq K] in
theorem eq_of_items {d e : PyDict K V} (h : d.items = e.items) : d = e := by
  cases d
  cases e
  congr

theorem map_insert {W : Type} (f : V → W) (d : PyDict K V) (k : K) (v : V) :
    (d.insert k v).map f = (d.map f).insert k (f v) :=
  eq_of_items (map_assign f d.items k v)

theorem getItem_map {W : Type} (f : V → W) (d : PyDict K V) (k : K) :
    (d.map f).getItem k = (d.getItem k).map f := by
  rw [getItem, getItem, get?_map]
  cases d.get? k <;> rfl

theorem delItem_map {W : Type} (f : V → W) (d : PyDict K V) (k : K) :
    (d.map f).delItem k = (d.delItem k).map (map f) := by
  rw [delItem, delItem, get?_map, Option.isSome_map]
  split
  · exact congrArg Except.ok (eq_of_items List.filter_map)
  · rfl

end PyDict
