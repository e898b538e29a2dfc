import Isz.Library.PyDict
import Isz.Mikrotik.Parsers

namespace Isz.Mikrotik

open PyNumber

abbrev Entry := PyDict Str Str

abbrev FieldTypes := PyDict Str (Option ParseFunction)

def idKey : Str := "id".toList

-- attached is r is not None; tagProps in the order in which the frozenset is iterated
structure Request where
  fieldTypes : FieldTypes
  tagProps : List Str
  attached : Bool
  proplist : Option (Finset Str)

structure Resource extends Request where
  monitor : Option Request

section Prepare

variable (py : Interpreter)

def firstParser (k v : Str) : List ParseFunction → Except PyError (Option ParseFunction)
  | [] => .ok none
  | p :: ps =>
    match p.parse py k v with
    | .ok _ => .ok (some p)
    | .error .valueError => firstParser k v ps
    | .error e => .error e

def detectParser (self : Request) (k v : Str) : Except PyError (Option ParseFunction) :=
  if k ∈ self.tagProps ∨ k = idKey then .ok none
  else
    match self.fieldTypes.get? k with
    | some none => .ok none
    | some (some p) => do
      let _ ← p.parse py k v
      pure (some p)
    | none => firstParser py k v PARSERS

def addParser (propParsers : FieldTypes) (k : Str) : Option ParseFunction → FieldTypes
  | some p => propParsers.insert k (some p)
  | none => propParsers

def detectParsers (self : Request) (entry : Entry) : Except PyError FieldTypes :=
  entry.items.foldlM (fun propParsers x => do
    pure (addParser propParsers x.1 (← detectParser py self x.1 x.2))) .empty

def detectAll (self : Request) (fieldParsers : FieldTypes) (entries : List Entry) :
    Except PyError FieldTypes :=
  entries.foldlM (fun fieldParsers entry => do
    pure (fieldParsers.union (← detectParsers py self entry))) fieldParsers

def explicitTypes (self : Request) : FieldTypes := self.fieldTypes.filter fun x => x.2.isSome

def withoutTags (self : Request) (fieldParsers : FieldTypes) : FieldTypes :=
  fieldParsers.filter fun x => x.1 ∉ self.tagProps

def dotId : Str := ".id".toList

def hasId (entries : List Entry) : Prop := ∃ entry ∈ entries, (entry.get? idKey).isSome

instance (entries : List Entry) : Decidable (hasId entries) :=
  inferInstanceAs (Decidable (∃ entry ∈ entries, (entry.get? idKey).isSome))

def Resource.prepare (self : Resource) (entries replies : List Entry) :
    Resource × Option PyError :=
  let fetched := { self with attached := true }
  match detectAll py self.toRequest (explicitTypes self.toRequest) entries with
  | .error e => (fetched, some e)
  | .ok fieldParsers =>
    let proplist := insert dotId ((self.tagProps ++ fieldParsers.keys).toFinset.erase idKey)
    let prepared := { fetched with
      fieldTypes := withoutTags self.toRequest fieldParsers
      proplist := some proplist }
    match self.monitor with
    | none => (prepared, none)
    | some monitor =>
      if hasId entries then
        match detectAll py monitor .empty replies with
        | .error e => (prepared, some e)
        | .ok monitorFieldParsers =>
          let types := withoutTags self.toRequest monitorFieldParsers
          ({ prepared with monitor := some { monitor with
              fieldTypes := types
              attached := true
              proplist := some (insert dotId types.keys.toFinset) } }, none)
      else (prepared, none)

def found (self : Request) (k v : Str) : Option ParseFunction :=
  match detectParser py self k v with
  | .ok o => o
  | .error _ => none

def Readable (self : Request) (entry : Entry) : Prop :=
  ∀ k v, entry.get? k = some v → ∃ o, detectParser py self k v = .ok o

def chosen (self : Request) (entries : List Entry) (k : Str) : Option ParseFunction :=
  (entries.filterMap fun entry => (entry.get? k).bind (found py self k)).getLast?

theorem get?_addParser (d : FieldTypes) (k k' : Str) (o : Option ParseFunction) :
    (addParser d k o).get? k' = if k' = k then (o.map some).or (d.get? k') else d.get? k' := by
  cases o with
  | none => simp [addParser]
  | some p => rw [addParser, PyDict.get?_insert, Option.map_some, Option.some_or]

theorem get?_foldl_addParser (o : Str → Str → Option ParseFunction) (entry : Entry)
    (d : FieldTypes) (k : Str) :
    (entry.items.foldl (fun d x => addParser d x.1 (o x.1 x.2)) d).get? k =
      (((entry.get? k).bind (o k)).map some).or (d.get? k) := by
  obtain ⟨items, hdistinct⟩ := entry
  induction items generalizing d with
  | nil => rfl
  | cons x items ih =>
    obtain ⟨k', v⟩ := x
    obtain ⟨hhead, htail⟩ := List.nodup_cons.mp hdistinct
    rw [List.foldl_cons, ih _ htail, PyDict.get?_cons, get?_addParser]
    by_cases hk : k = k'
    · subst hk
      have hnone : PyDict.get? ⟨items, htail⟩ k = none := by
        rw [← Option.not_isSome_iff_eq_none, ← PyDict.mem_keys]
        exact hhead
      rw [hnone, if_pos rfl, if_pos rfl]
      rfl
    · rw [if_neg hk, if_neg hk]

def detected (self : Request) (entry : Entry) : FieldTypes :=
  entry.items.foldl (fun d x => addParser d x.1 (found py self x.1 x.2)) .empty

theorem detectParsers_ok {self : Request} {entry : Entry} (h : Readable py self entry) :
    detectParsers py self entry = .ok (detected py self entry) := by
  refine Except.foldlM_ok (fun d x hx => ?_) PyDict.empty
  obtain ⟨o, ho⟩ := h x.1 x.2 (PyDict.mem_items.mp hx)
  rw [found, ho]
  rfl

theorem detectParsers_error {self : Request} {entry : Entry} (h : ¬Readable py self entry) :
    ∃ e, detectParsers py self entry = .error e := by
  simp only [Readable, not_forall] at h
  obtain ⟨k, v, hget, hnot⟩ := h
  refine Except.foldlM_error ⟨(k, v), PyDict.mem_items.mpr hget, fun d => ?_⟩ PyDict.empty
  cases hparse : detectParser py self k v with
  | ok o => exact absurd ⟨o, hparse⟩ hnot
  | error e => exact ⟨e, rfl⟩

theorem detectAll_ok {self : Request} {entries : List Entry}
    (h : ∀ entry ∈ entries, Readable py self entry) (init : FieldTypes) :
    detectAll py self init entries =
      .ok (entries.foldl (fun d entry => d.union (detected py self entry)) init) :=
  Except.foldlM_ok (fun d entry hentry => by rw [detectParsers_ok py (h entry hentry)]; rfl) init

theorem detectAll_error {self : Request} {entries : List Entry}
    (h : ∃ entry ∈ entries, ¬Readable py self entry) (init : FieldTypes) :
    ∃ e, detectAll py self init entries = .error e := by
  obtain ⟨entry, hentry, hnot⟩ := h
  obtain ⟨e, he⟩ := detectParsers_error py hnot
  exact Except.foldlM_error ⟨entry, hentry, fun d => ⟨e, by rw [he]; rfl⟩⟩ init

theorem get?_foldl_union (self : Request) (entries : List Entry) (init : FieldTypes) (k : Str) :
    (entries.foldl (fun d entry => d.union (detected py self entry)) init).get? k =
      ((chosen py self entries k).map some).or (init.get? k) := by
  induction entries using List.reverseRecOn with
  | nil => rfl
  | append_singleton entries entry ih =>
    rw [List.foldl_append, List.foldl_cons, List.foldl_nil, PyDict.get?_union, ih, detected,
      get?_foldl_addParser, PyDict.get?_empty, Option.or_none, chosen, chosen,
      List.filterMap_append, ← Option.or_assoc]
    congr 1
    cases h : (entry.get? k).bind (found py self k) with
    | none => simp [h]
    | some p => simp [h]

theorem prepare_unreadable {self : Resource} {entries : List Entry} (replies : List Entry)
    (h : ∃ entry ∈ entries, ¬Readable py self.toRequest entry) :
    (self.prepare py entries replies).1 = { self with attached := true } ∧
      (self.prepare py entries replies).2 ≠ none := by
  obtain ⟨e, he⟩ := detectAll_error py h (explicitTypes self.toRequest)
  rw [Resource.prepare, he]
  exact ⟨rfl, Option.some_ne_none e⟩

def fieldParsers (self : Request) (entries : List Entry) : FieldTypes :=
  entries.foldl (fun d entry => d.union (detected py self entry)) (explicitTypes self)

theorem prepare_readable {self : Resource} {entries : List Entry} (replies : List Entry)
    (h : ∀ entry ∈ entries, Readable py self.toRequest entry) :
    (self.prepare py entries replies).1.fieldTypes =
        withoutTags self.toRequest (fieldParsers py self.toRequest entries) ∧
      (self.prepare py entries replies).1.proplist = some (insert dotId ((self.tagProps ++
        (fieldParsers py self.toRequest entries).keys).toFinset.erase idKey)) := by
  rw [Resource.prepare, detectAll_ok py h, ← fieldParsers]
  dsimp only
  split
  case h_1 => exact ⟨rfl, rfl⟩
  case h_2 =>
    split
    case isTrue =>
      split <;> exact ⟨rfl, rfl⟩
    case isFalse => exact ⟨rfl, rfl⟩

def monitorParsers (self : Resource) (monitor : Request) (replies : List Entry) : FieldTypes :=
  withoutTags self.toRequest
    (replies.foldl (fun d reply => d.union (detected py monitor reply)) .empty)

theorem prepare_monitor_readable {self : Resource} {entries replies : List Entry}
    (h : ∀ entry ∈ entries, Readable py self.toRequest entry) {monitor : Request}
    (hmonitor : self.monitor = some monitor) (hids : hasId entries)
    (hreplies : ∀ reply ∈ replies, Readable py monitor reply) :
    (self.prepare py entries replies).2 = none ∧
      (self.prepare py entries replies).1.monitor = some { monitor with
        fieldTypes := monitorParsers py self monitor replies
        attached := true
        proplist := some (insert dotId
          (monitorParsers py self monitor replies).keys.toFinset) } := by
  rw [Resource.prepare, detectAll_ok py h]
  simp only [hmonitor, if_pos hids, detectAll_ok py hreplies]
  exact ⟨trivial, rfl⟩

theorem prepare_monitor_unreadable {self : Resource} {entries replies : List Entry}
    (h : ∀ entry ∈ entries, Readable py self.toRequest entry) {monitor : Request}
    (hmonitor : self.monitor = some monitor) (hids : hasId entries)
    (hreplies : ∃ reply ∈ replies, ¬Readable py monitor reply) :
    (self.prepare py entries replies).2 ≠ none := by
  obtain ⟨e, he⟩ := detectAll_error py hreplies .empty
  rw [Resource.prepare, detectAll_ok py h]
  simp only [hmonitor, if_pos hids, he]
  exact Option.some_ne_none e

theorem prepare_unmonitored {self : Resource} {entries : List Entry} (replies : List Entry)
    (h : ∀ entry ∈ entries, Readable py self.toRequest entry)
    (hnone : self.monitor = none ∨ ¬hasId entries) :
    (self.prepare py entries replies).2 = none ∧
      (self.prepare py entries replies).1.monitor = self.monitor := by
  rw [Resource.prepare, detectAll_ok py h]
  cases hmonitor : self.monitor with
  | none => exact ⟨rfl, rfl⟩
  | some monitor =>
    have hids : ¬hasId entries := hnone.resolve_left fun hnone => by
      rw [hmonitor] at hnone
      cases hnone
    simp only [if_neg hids]
    trivial

theorem get?_fieldParsers (self : Request) (entries : List Entry) (k : Str) :
    (fieldParsers py self entries).get? k =
      ((chosen py self entries k).map some).or ((self.fieldTypes.get? k).filter Option.isSome) := by
  rw [fieldParsers, get?_foldl_union, explicitTypes, PyDict.get?_filter]

theorem get?_withoutTags (self : Request) (d : FieldTypes) (k : Str) :
    (withoutTags self d).get? k = if k ∈ self.tagProps then none else d.get? k := by
  rw [withoutTags, PyDict.get?_filter]
  split
  case isTrue hk => simp [hk]
  case isFalse hk =>
    cases d.get? k with
    | none => rfl
    | some p => simp [Option.filter, hk]

def Accepts (p : ParseFunction) (k v : Str) : Prop := ∃ r, p.parse py k v = .ok r

def Acceptable (k v : Str) : Prop := ∃ p ∈ PARSERS, Accepts py p k v

theorem firstParser_accepts {k v : Str} {ps : List ParseFunction} {p : ParseFunction}
    (h : firstParser py k v ps = .ok (some p)) : p ∈ ps ∧ Accepts py p k v := by
  induction ps with
  | nil => cases h
  | cons q ps ih =>
    rw [firstParser] at h
    split at h
    case h_1 r hr =>
      obtain rfl := Option.some.inj (Except.ok.inj h)
      exact ⟨List.mem_cons_self, r, hr⟩
    case h_2 => exact ⟨List.mem_cons_of_mem q (ih h).1, (ih h).2⟩
    case h_3 => cases h

theorem firstParser_exists {k v : Str} {ps : List ParseFunction} {o : Option ParseFunction}
    (h : firstParser py k v ps = .ok o) (haccepts : ∃ p ∈ ps, Accepts py p k v) :
    ∃ p, o = some p := by
  obtain ⟨p, hp, r, hr⟩ := haccepts
  induction ps with
  | nil => cases hp
  | cons q ps ih =>
    rw [firstParser] at h
    split at h
    case h_1 => exact ⟨q, (Except.ok.inj h).symm⟩
    case h_2 hrejects =>
      rcases List.mem_cons.mp hp with rfl | hmem
      · rw [hrejects] at hr
        cases hr
      · exact ih h hmem
    case h_3 => cases h

theorem detectParser_implicit {self : Request} {k : Str} (v : Str)
    (htype : self.fieldTypes.get? k = none) (htag : k ∉ self.tagProps) (hid : k ≠ idKey) :
    detectParser py self k v = firstParser py k v PARSERS := by
  rw [detectParser, if_neg (not_or.mpr ⟨htag, hid⟩), htype]

theorem detectParser_explicit {self : Request} {k : Str} {p : ParseFunction} (v : Str)
    (htype : self.fieldTypes.get? k = some (some p)) (htag : k ∉ self.tagProps)
    (hid : k ≠ idKey) :
    detectParser py self k v = p.parse py k v >>= fun _ => .ok (some p) := by
  rw [detectParser, if_neg (not_or.mpr ⟨htag, hid⟩), htype]
  rfl

theorem chosen_concat (self : Request) (entries : List Entry) {entry : Entry} {k v : Str}
    (hget : entry.get? k = some v) {p : ParseFunction} (hp : found py self k v = some p) :
    chosen py self (entries ++ [entry]) k = some p := by
  simp [chosen, hget, hp]

theorem chosen_mem {self : Request} {entries : List Entry} {k : Str} {p : ParseFunction}
    (h : chosen py self entries k = some p) :
    ∃ entry ∈ entries, ∃ v, entry.get? k = some v ∧ found py self k v = some p := by
  obtain ⟨entry, hentry, hbind⟩ := List.mem_filterMap.mp (List.mem_of_getLast? h)
  obtain ⟨v, hget, hp⟩ := Option.bind_eq_some_iff.mp hbind
  exact ⟨entry, hentry, v, hget, hp⟩

theorem chosen_isSome {self : Request} {entries : List Entry} {k : Str} :
    (chosen py self entries k).isSome ↔
      ∃ entry ∈ entries, ∃ v, entry.get? k = some v ∧ (found py self k v).isSome := by
  constructor
  · intro h
    obtain ⟨p, hp⟩ := Option.isSome_iff_exists.mp h
    obtain ⟨entry, hentry, v, hget, hfound⟩ := chosen_mem py hp
    exact ⟨entry, hentry, v, hget, Option.isSome_iff_exists.mpr ⟨p, hfound⟩⟩
  · rintro ⟨entry, hentry, v, hget, hsome⟩
    obtain ⟨p, hp⟩ := Option.isSome_iff_exists.mp hsome
    rw [chosen, List.getLast?_isSome]
    exact List.ne_nil_of_mem (List.mem_filterMap.mpr
      ⟨entry, hentry, Option.bind_eq_some_iff.mpr ⟨v, hget, hp⟩⟩)

theorem getLast?_perm {α : Type} {l l' : List α} (hperm : l'.Perm l)
    (hsame : ∀ a ∈ l, ∀ b ∈ l, a = b) : l'.getLast? = l.getLast? := by
  cases h : l.getLast? with
  | none =>
    obtain rfl := List.getLast?_eq_none_iff.mp h
    rw [hperm.eq_nil]
    rfl
  | some a =>
    cases h' : l'.getLast? with
    | none =>
      obtain rfl := List.getLast?_eq_none_iff.mp h'
      rw [hperm.symm.eq_nil] at h
      cases h
    | some b =>
      rw [hsame b (hperm.subset (List.mem_of_getLast? h')) a (List.mem_of_getLast? h)]

def Uniform (entries : List Entry) (k : Str) : Prop :=
  ∀ entry ∈ entries, ∀ entry' ∈ entries, ∀ v v' p p',
    entry.get? k = some v → entry'.get? k = some v' →
    firstParser py k v PARSERS = .ok (some p) → firstParser py k v' PARSERS = .ok (some p') →
      p = p'

structure OrderFree (r : Resource) (entries replies : List Entry) (k : Str) : Prop where
  same : ∀ entries', entries'.Perm entries →
    (r.prepare py entries' replies).1.fieldTypes.get? k =
        (r.prepare py entries replies).1.fieldTypes.get? k ∧
      (r.prepare py entries' replies).1.proplist = (r.prepare py entries replies).1.proplist
  covers : (∃ q ∈ PARSERS, ∀ entry ∈ entries, ∀ v, entry.get? k = some v → Acceptable py k v →
      Accepts py q k v) →
    ∀ p, (r.prepare py entries replies).1.fieldTypes.get? k = some (some p) →
      ∀ entry ∈ entries, ∀ v, entry.get? k = some v → Acceptable py k v → Accepts py p k v

section Order

variable {py} {self : Resource} {entries : List Entry} (replies : List Entry) {k : Str}
  (htype : self.fieldTypes.get? k = none) (htag : k ∉ self.tagProps)

include htype

theorem get?_prepare (hread : ∀ entry ∈ entries, Readable py self.toRequest entry)
    (htag : k ∉ self.tagProps) : (self.prepare py entries replies).1.fieldTypes.get? k =
      (chosen py self.toRequest entries k).map some := by
  rw [(prepare_readable py replies hread).1, get?_withoutTags, if_neg htag, get?_fieldParsers,
    htype]
  simp

omit htype in
theorem proplist_perm {entries' : List Entry} (hperm : entries'.Perm entries)
    (hread : ∀ entry ∈ entries, Readable py self.toRequest entry) :
    (self.prepare py entries' replies).1.proplist =
      (self.prepare py entries replies).1.proplist := by
  have hread' : ∀ entry ∈ entries', Readable py self.toRequest entry := fun entry hentry =>
    hread entry (hperm.subset hentry)
  have hkeys : ∀ k, k ∈ (fieldParsers py self.toRequest entries').keys ↔
      k ∈ (fieldParsers py self.toRequest entries).keys := by
    intro k
    simp only [PyDict.mem_keys, get?_fieldParsers, Option.isSome_or, Option.isSome_map,
      Bool.or_eq_true, chosen_isSome, hperm.mem_iff]
  rw [(prepare_readable py replies hread').2, (prepare_readable py replies hread).2]
  congr 3
  ext k
  simp [hkeys]

include htag

theorem uniform_of_orderFree (hread : ∀ entry ∈ entries, Readable py self.toRequest entry)
    (hid : k ≠ idKey) (h : OrderFree py self entries replies k) : Uniform py entries k := by
  have hlast : ∀ entry ∈ entries, ∀ v p, entry.get? k = some v →
      firstParser py k v PARSERS = .ok (some p) →
      chosen py self.toRequest entries k = some p := by
    intro entry hentry v p hget hp
    obtain ⟨before, after, rfl⟩ := List.append_of_mem hentry
    have hperm : (before ++ after ++ [entry]).Perm (before ++ entry :: after) :=
      (List.perm_append_singleton entry _).trans List.perm_middle.symm
    have hsame := (h.same _ hperm).1
    rw [get?_prepare replies htype hread htag, get?_prepare replies htype
      (fun e he => hread e (hperm.subset he)) htag, chosen_concat py _ _ hget] at hsame
    · exact (Option.map_injective (Option.some_injective _) hsame).symm
    · rw [found, detectParser_implicit py v htype htag hid, hp]
  intro entry hentry entry' hentry' v v' p p' hget hget' hp hp'
  exact Option.some.inj ((hlast entry hentry v p hget hp).symm.trans
    (hlast entry' hentry' v' p' hget' hp'))

theorem orderFree_of_uniform (hread : ∀ entry ∈ entries, Readable py self.toRequest entry)
    (hid : k ≠ idKey) (h : Uniform py entries k) : OrderFree py self entries replies k := by
  have hfirst : ∀ {v p}, found py self.toRequest k v = some p →
      firstParser py k v PARSERS = .ok (some p) := by
    intro v p hfound
    rw [found, detectParser_implicit py v htype htag hid] at hfound
    split at hfound
    case h_1 o ho => rw [ho, hfound]
    case h_2 => cases hfound
  refine ⟨fun entries' hperm => ⟨?_, proplist_perm replies hperm hread⟩, fun _ p hp => ?_⟩
  · rw [get?_prepare replies htype hread htag, get?_prepare replies htype
      (fun e he => hread e (hperm.subset he)) htag, chosen, chosen,
      getLast?_perm (hperm.filterMap _)]
    intro p hp p' hp'
    obtain ⟨entry, hentry, hbind⟩ := List.mem_filterMap.mp hp
    obtain ⟨entry', hentry', hbind'⟩ := List.mem_filterMap.mp hp'
    obtain ⟨v, hget, hfound⟩ := Option.bind_eq_some_iff.mp hbind
    obtain ⟨v', hget', hfound'⟩ := Option.bind_eq_some_iff.mp hbind'
    exact h entry hentry entry' hentry' v v' p p' hget hget' (hfirst hfound) (hfirst hfound')
  · rw [get?_prepare replies htype hread htag] at hp
    obtain ⟨p₁, hchosen, heq⟩ := Option.map_eq_some_iff.mp hp
    obtain rfl := Option.some.inj heq
    obtain ⟨entry₁, hentry₁, v₁, hget₁, hfound₁⟩ := chosen_mem py hchosen
    intro entry hentry v hget hacceptable
    obtain ⟨o, ho⟩ := hread entry hentry k v hget
    rw [detectParser_implicit py v htype htag hid] at ho
    obtain ⟨p₂, rfl⟩ := firstParser_exists py ho hacceptable
    obtain rfl := h entry₁ hentry₁ entry hentry v₁ v p₁ p₂ hget₁ hget (hfirst hfound₁) ho
    exact (firstParser_accepts py ho).2

end Order

theorem orderFree_id {self : Resource} {entries : List Entry} (replies : List Entry)
    (htype : self.fieldTypes.get? idKey = none) (htag : idKey ∉ self.tagProps)
    (hread : ∀ entry ∈ entries, Readable py self.toRequest entry) :
    OrderFree py self entries replies idKey := by
  have hchosen : ∀ entries, chosen py self.toRequest entries idKey = none := by
    intro entries
    rw [← Option.not_isSome_iff_eq_none, chosen_isSome]
    rintro ⟨entry, -, v, -, hfound⟩
    rw [found, detectParser, if_pos (.inr rfl)] at hfound
    cases hfound
  refine ⟨fun entries' hperm => ⟨?_, proplist_perm replies hperm hread⟩, fun _ p hp => ?_⟩
  · rw [get?_prepare replies htype hread htag, get?_prepare replies htype
      (fun e he => hread e (hperm.subset he)) htag, hchosen, hchosen]
  · rw [get?_prepare replies htype hread htag, hchosen] at hp
    cases hp

theorem orderFree_unreadable {self : Resource} {entries : List Entry} (replies : List Entry)
    {k : Str} (htype : self.fieldTypes.get? k = none)
    (h : ∃ entry ∈ entries, ¬Readable py self.toRequest entry) :
    OrderFree py self entries replies k := by
  have hleft := (prepare_unreadable py replies h).1
  refine ⟨fun entries' hperm => ?_, fun _ p hp => ?_⟩
  · obtain ⟨entry, hentry, hnot⟩ := h
    rw [(prepare_unreadable py replies ⟨entry, hperm.mem_iff.mpr hentry, hnot⟩).1, hleft]
    exact ⟨rfl, rfl⟩
  · rw [hleft] at hp
    dsimp only at hp
    rw [htype] at hp
    cases hp

theorem prepare_order_iff {self : Resource} {k : Str} (htype : self.fieldTypes.get? k = none)
    (htag : k ∉ self.tagProps) (entries replies : List Entry) :
    OrderFree py self entries replies k ↔
      k = idKey ∨ (∃ entry ∈ entries, ¬Readable py self.toRequest entry) ∨
        Uniform py entries k := by
  by_cases hread : ∀ entry ∈ entries, Readable py self.toRequest entry
  · rcases eq_or_ne k idKey with rfl | hid
    · exact iff_of_true (orderFree_id py replies htype htag hread) (.inl rfl)
    · constructor
      · exact fun h => .inr (.inr (uniform_of_orderFree replies htype htag hread hid h))
      · rintro (heq | ⟨entry, hentry, hnot⟩ | h)
        · exact absurd heq hid
        · exact absurd (hread entry hentry) hnot
        · exact orderFree_of_uniform replies htype htag hread hid h
  · have hnot : ∃ entry ∈ entries, ¬Readable py self.toRequest entry := by
      simpa only [not_forall, exists_prop] using hread
    exact iff_of_true (orderFree_unreadable py replies htype hnot) (.inr (.inl hnot))

end Prepare

def plain : Resource := ⟨⟨.empty, [], false, none⟩, none⟩

def entryOf (k v : String) : Entry := ⟨[(k.toList, v.toList)], List.nodup_singleton _⟩

def rates : List Entry := [entryOf "tx-rate" "54Mbps", entryOf "tx-rate" "6Mbps"]

theorem rates_toRate {entry : Entry} (hentry : entry ∈ rates) {v : Str} {p : ParseFunction}
    (hv : entry.get? "tx-rate".toList = some v)
    (hp : firstParser exact "tx-rate".toList v PARSERS = .ok (some p)) : p = .toRate := by
  rcases List.mem_pair.mp hentry with rfl | rfl
  · obtain rfl : "54Mbps".toList = v := Option.some.inj hv
    have hrate : firstParser exact "tx-rate".toList "54Mbps".toList PARSERS = .ok (some .toRate) :=
      rfl
    exact Option.some.inj (Except.ok.inj (hp.symm.trans hrate))
  · obtain rfl : "6Mbps".toList = v := Option.some.inj hv
    have hrate : firstParser exact "tx-rate".toList "6Mbps".toList PARSERS = .ok (some .toRate) :=
      rfl
    exact Option.some.inj (Except.ok.inj (hp.symm.trans hrate))

theorem prepare_order_iff_rates : OrderFree exact plain rates [] "tx-rate".toList := by
  refine (prepare_order_iff exact rfl (by decide) _ _).mpr (.inr (.inr ?_))
  intro entry hentry entry' hentry' v v' p p' hv hv' hp hp'
  rw [rates_toRate hentry hv hp, rates_toRate hentry' hv' hp']

def mixed : List Entry := [entryOf "tx-rate" "54Mbps", entryOf "tx-rate" "6"]

theorem mixed_not_orderFree : ¬OrderFree exact plain mixed [] "tx-rate".toList := by
  intro h
  have hsame := (h.same mixed.reverse mixed.reverse_perm).1
  have hrate : (plain.prepare exact mixed.reverse []).1.fieldTypes.get? "tx-rate".toList =
      some (some .toRate) := rfl
  have hint : (plain.prepare exact mixed []).1.fieldTypes.get? "tx-rate".toList =
      some (some .toInt) := rfl
  rw [hrate, hint] at hsame
  cases hsame

end Isz.Mikrotik
