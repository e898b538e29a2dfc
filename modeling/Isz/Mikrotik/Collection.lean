import Isz.Mikrotik.Detection

namespace Isz.Mikrotik

open PyNumber

structure Point where
  tags : Tags
  fields : Fields

-- printed: the points of list results, which process_entry prints itself
structure Scrape where
  points : PyDict (Option Str) Point
  printed : List Point

-- points[entry.get("id")] with a factory for missing keys
def Scrape.point (s : Scrape) (blank : Point) (entry : Entry) : Point :=
  (s.points.get? (entry.get? idKey)).getD blank

def tagged (self : Request) (entry : Entry) (p : Point) : Point :=
  self.tagProps.foldl (fun p tag =>
    match entry.get? tag with
    | none | some [] => p
    | some value => { p with tags := assign p.tags tag value }) p

def emit (x : Point × List Point) : Parsed → Point × List Point
  | .dict fields => ({ x.1 with fields := union x.1.fields fields }, x.2)
  | .list points =>
    (x.1, x.2 ++ points.map fun (tags, fields) => ⟨union x.1.tags tags, union [] fields⟩)

section Scraping

variable (py : Interpreter)

-- none where the field is absent, has no parser or is rejected with a ValueError
def parseField (entry : Entry) (x : Str × Option ParseFunction) :
    Except PyError (Option Parsed) :=
  match entry.get? x.1, x.2 with
  | some value, some parser =>
    match parser.parse py x.1 value with
    | .ok parsed => .ok (some parsed)
    | .error .valueError => .ok none
    | .error e => .error e
  | _, _ => .ok none

def emitField (x : Point × List Point) : Option Parsed → Point × List Point
  | none => x
  | some parsed => emit x parsed

def processEntry (self : Request) (blank : Point) (s : Scrape) (entry : Entry) :
    Except PyError Scrape := do
  let p := tagged self entry (s.point blank entry)
  let (p, printed) ← self.fieldTypes.items.foldlM (fun x field => do
    pure (emitField x (← parseField py entry field))) (p, s.printed)
  pure ⟨s.points.insert (entry.get? idKey) p, printed⟩

-- entries and replies are what print and monitor return
def Resource.call (self : Resource) (blank : Point) (s : Scrape) (entries replies : List Entry) :
    Except PyError Scrape := do
  let s ← entries.foldlM (processEntry py self.toRequest blank) s
  match self.monitor with
  | none => pure s
  | some monitor =>
    if s.points.items = [] then pure s
    else if monitor.attached then replies.foldlM (processEntry py monitor blank) s
    else throw .attributeError

namespace FirewallResource

def fieldTypes : FieldTypes where
  items := [("bytes".toList, some .toInt), ("packets".toList, some .toInt),
    ("invalid".toList, some .toBool)]
  distinct := by decide

def resource : Resource where
  fieldTypes := fieldTypes
  tagProps := ["id".toList, "comment".toList, "disabled".toList, "dynamic".toList,
    "chain".toList, "action".toList, "log".toList]
  attached := false
  proplist := none
  monitor := none

def prepare (self : Resource) : Resource × Option PyError := ({ self with attached := true }, none)

def quoted (value : Str) : Str :=
  if '"' ∈ value ∨ value = [] then
    '"' :: (value.flatMap fun c => if c = '"' then "\\\"".toList else [c]) ++ "\"".toList
  else value

def rule (self : Request) (entry : Entry) : Str :=
  let skipped := ["id".toList, "comment".toList, "disabled".toList, "dynamic".toList] ++
    self.fieldTypes.keys
  let items := (entry.items.mergeSort fun a b => a.1 ≤ b.1).filter fun x => x.1 ∉ skipped
  concatStringsSep " ".toList (items.map fun x => x.1 ++ '=' :: quoted x.2)

def ruled (self : Request) (blank : Point) (s : Scrape) (entry : Entry) : Scrape :=
  let p := s.point blank entry
  let p := { p with tags := assign p.tags "rule".toList (rule self entry) }
  { s with points := s.points.insert (entry.get? idKey) p }

def processEntry (self : Request) (blank : Point) (s : Scrape) (entry : Entry) :
    Except PyError Scrape :=
  Mikrotik.processEntry py self blank (ruled self blank s entry) entry

def call (self : Resource) (blank : Point) (s : Scrape) (entries : List Entry) :
    Except PyError Scrape :=
  entries.foldlM (processEntry py self.toRequest blank) s

end FirewallResource

def accepted (entry : Entry) (x : Str × Option ParseFunction) : Option Parsed :=
  match entry.get? x.1, x.2 with
  | some value, some parser => (parser.parse py x.1 value).toOption
  | _, _ => none

def emitEntry (self : Request) (blank : Point) (s : Scrape) (entry : Entry) : Scrape :=
  let p := tagged self entry (s.point blank entry)
  let (p, printed) :=
    (self.fieldTypes.items.filterMap (accepted py entry)).foldl emit (p, s.printed)
  ⟨s.points.insert (entry.get? idKey) p, printed⟩

def Aborts (p : ParseFunction) (k v : Str) : Prop :=
  ∃ e, p.parse py k v = .error e ∧ e ≠ .valueError

def Scrapable (types : FieldTypes) (entry : Entry) : Prop :=
  ∀ k v p, types.get? k = some (some p) → entry.get? k = some v → ¬Aborts py p k v

theorem parseField_ok {types : FieldTypes} {entry : Entry} (h : Scrapable py types entry)
    {x : Str × Option ParseFunction} (hx : x ∈ types.items) :
    parseField py entry x = .ok (accepted py entry x) := by
  obtain ⟨k, o⟩ := x
  rw [parseField, accepted]
  cases o with
  | none => cases entry.get? k <;> rfl
  | some p =>
    cases hget : entry.get? k with
    | none => rfl
    | some v =>
      have hno := h k v p (PyDict.mem_items.mp hx) hget
      dsimp only
      cases hparse : p.parse py k v with
      | ok parsed => rfl
      | error e =>
        obtain rfl : e = .valueError := by
          by_contra hne
          exact hno ⟨e, hparse, hne⟩
        rfl

theorem parseField_error {types : FieldTypes} {entry : Entry} (h : ¬Scrapable py types entry) :
    ∃ x ∈ types.items, ∃ e, parseField py entry x = .error e := by
  simp only [Scrapable, not_forall, not_not] at h
  obtain ⟨k, v, p, htype, hget, e, hparse, hne⟩ := h
  refine ⟨(k, some p), PyDict.mem_items.mpr htype, e, ?_⟩
  rw [parseField, hget]
  dsimp only
  rw [hparse]
  cases e with
  | valueError => exact absurd rfl hne
  | overflowError => rfl
  | attributeError => rfl

theorem processEntry_ok {self : Request} (blank : Point) (s : Scrape) {entry : Entry}
    (h : Scrapable py self.fieldTypes entry) :
    processEntry py self blank s entry = .ok (emitEntry py self blank s entry) := by
  have hemit : ∀ (l : List (Str × Option ParseFunction)) x,
      l.foldl (fun x field => emitField x (accepted py entry field)) x =
        (l.filterMap (accepted py entry)).foldl emit x := by
    intro l x
    rw [List.foldl_filterMap]
    refine List.foldl_ext _ _ _ fun x field _ => ?_
    cases accepted py entry field <;> rfl
  have hfields : ∀ x : Point × List Point, self.fieldTypes.items.foldlM (fun x field => do
      pure (emitField x (← parseField py entry field))) x =
      .ok ((self.fieldTypes.items.filterMap (accepted py entry)).foldl emit x) := by
    intro x
    rw [← hemit]
    exact Except.foldlM_ok (fun x field hfield => by rw [parseField_ok py h hfield]; rfl) x
  rw [processEntry, hfields]
  rfl

theorem processEntry_error {self : Request} (blank : Point) (s : Scrape) {entry : Entry}
    (h : ¬Scrapable py self.fieldTypes entry) :
    ∃ e, processEntry py self blank s entry = .error e := by
  obtain ⟨field, hfield, e, he⟩ := parseField_error py h
  obtain ⟨e', he'⟩ := Except.foldlM_error (f := fun x field => do
      pure (emitField x (← parseField py entry field)))
    ⟨field, hfield, fun x => ⟨e, by rw [he]; rfl⟩⟩
    (tagged self entry (s.point blank entry), s.printed)
  exact ⟨e', by rw [processEntry, he']; rfl⟩

theorem processAll_ok {self : Request} (blank : Point) (s : Scrape) {entries : List Entry}
    (h : ∀ entry ∈ entries, Scrapable py self.fieldTypes entry) :
    entries.foldlM (processEntry py self blank) s =
      .ok (entries.foldl (emitEntry py self blank) s) :=
  Except.foldlM_ok (fun s entry hentry => processEntry_ok py blank s (h entry hentry)) s

theorem processAll_error {self : Request} (blank : Point) (s : Scrape) {entries : List Entry}
    (h : ∃ entry ∈ entries, ¬Scrapable py self.fieldTypes entry) :
    ∃ e, entries.foldlM (processEntry py self blank) s = .error e := by
  obtain ⟨entry, hentry, hnot⟩ := h
  exact Except.foldlM_error
    ⟨entry, hentry, fun s => processEntry_error py blank s hnot⟩ s

theorem items_insert_ne_nil (d : PyDict (Option Str) Point) (k : Option Str) (p : Point) :
    (d.insert k p).items ≠ [] := by
  intro hnil
  have hsome : ((d.insert k p).get? k).isSome := by
    rw [PyDict.get?_insert, if_pos rfl]
    rfl
  rw [← PyDict.mem_keys, PyDict.keys, hnil] at hsome
  cases hsome

theorem points_eq_nil_iff (self : Request) (blank : Point) (s : Scrape) (entries : List Entry) :
    (entries.foldl (emitEntry py self blank) s).points.items = [] ↔
      s.points.items = [] ∧ entries = [] := by
  induction entries using List.reverseRecOn with
  | nil => simp
  | append_singleton entries entry =>
    rw [List.foldl_append]
    exact iff_of_false (items_insert_ne_nil _ _ _) (by simp)

def Resource.emitAll (self : Resource) (blank : Point) (s : Scrape)
    (entries replies : List Entry) : Scrape :=
  let s := entries.foldl (emitEntry py self.toRequest blank) s
  match self.monitor with
  | none => s
  | some monitor =>
    if s.points.items = [] then s else replies.foldl (emitEntry py monitor blank) s

structure Callable (r : Resource) (s : Scrape) (entries replies : List Entry) : Prop where
  scrapes : ∀ entry ∈ entries, Scrapable py r.fieldTypes entry
  monitors : ∀ monitor, r.monitor = some monitor → s.points.items ≠ [] ∨ entries ≠ [] →
    monitor.attached ∧ ∀ reply ∈ replies, Scrapable py monitor.fieldTypes reply

theorem call_iff (self : Resource) (blank : Point) (s : Scrape) (entries replies : List Entry) :
    self.call py blank s entries replies = .ok (self.emitAll py blank s entries replies) ↔
      Callable py self s entries replies := by
  by_cases hentries : ∀ entry ∈ entries, Scrapable py self.fieldTypes entry
  · rw [Resource.call, processAll_ok py blank s hentries, Except.ok_bind, Resource.emitAll]
    cases hmonitor : self.monitor with
    | none =>
      refine iff_of_true rfl ⟨hentries, fun monitor hsome => ?_⟩
      rw [hmonitor] at hsome
      cases hsome
    | some monitor =>
      dsimp only
      by_cases hempty : (entries.foldl (emitEntry py self.toRequest blank) s).points.items = []
      · rw [if_pos hempty, if_pos hempty]
        obtain ⟨hs, rfl⟩ := (points_eq_nil_iff py _ _ _ _).mp hempty
        exact iff_of_true rfl ⟨hentries, fun _ _ hor => by simp [hs] at hor⟩
      · have hor : s.points.items ≠ [] ∨ entries ≠ [] := by
          rw [points_eq_nil_iff, not_and_or] at hempty
          exact hempty
        rw [if_neg hempty, if_neg hempty]
        have hcallable : Callable py self s entries replies ↔ monitor.attached ∧
            ∀ reply ∈ replies, Scrapable py monitor.fieldTypes reply :=
          ⟨fun h => h.monitors monitor hmonitor hor, fun h => ⟨hentries, fun m hm _ => by
            obtain rfl := Option.some.inj (hmonitor.symm.trans hm)
            exact h⟩⟩
        rw [hcallable]
        cases hattached : monitor.attached with
        | false => exact iff_of_false (fun h => by cases h) fun h => by cases h.1
        | true =>
          rw [if_pos rfl, and_iff_right rfl]
          by_cases hreplies : ∀ reply ∈ replies, Scrapable py monitor.fieldTypes reply
          · exact iff_of_true (processAll_ok py blank _ hreplies) hreplies
          · refine iff_of_false (fun h => ?_) hreplies
            obtain ⟨e, he⟩ := processAll_error py blank
              (entries.foldl (emitEntry py self.toRequest blank) s)
              (by simpa only [not_forall, exists_prop] using hreplies)
            rw [he] at h
            cases h
  · obtain ⟨e, he⟩ := processAll_error py blank s
      (by simpa only [not_forall, exists_prop] using hentries)
    refine iff_of_false (fun h => ?_) fun h => hentries h.scrapes
    rw [Resource.call, he] at h
    cases h

def parserOf (self : Request) (entries : List Entry) (k : Str) : Option ParseFunction :=
  if k ∈ self.tagProps then none
  else (chosen py self entries k).or (self.fieldTypes.get? k).join

def monitorParserOf (self : Resource) (monitor : Request) (entries replies : List Entry)
    (k : Str) : Option ParseFunction :=
  if hasId entries then
    if k ∈ self.tagProps then none else chosen py monitor replies k
  else (monitor.fieldTypes.get? k).join

theorem get?_prepared {self : Resource} {entries : List Entry} (replies : List Entry)
    (h : ∀ entry ∈ entries, Readable py self.toRequest entry) (k : Str) :
    (self.prepare py entries replies).1.fieldTypes.get? k =
      (parserOf py self.toRequest entries k).map some := by
  rw [(prepare_readable py replies h).1, get?_withoutTags, get?_fieldParsers, parserOf]
  split
  case isTrue => rfl
  case isFalse =>
    cases chosen py self.toRequest entries k with
    | some p => rfl
    | none =>
      cases self.fieldTypes.get? k with
      | none => rfl
      | some o => cases o <;> rfl

theorem get?_monitorParsers (self : Resource) (monitor : Request) (replies : List Entry)
    (k : Str) : (monitorParsers py self monitor replies).get? k =
      (if k ∈ self.tagProps then none else chosen py monitor replies k).map some := by
  rw [monitorParsers, get?_withoutTags, get?_foldl_union, PyDict.get?_empty, Option.or_none]
  split <;> rfl

theorem chosen_explicit {self : Request} {entries : List Entry} {k : Str} {p : ParseFunction}
    (h : ∀ entry ∈ entries, Readable py self entry) (htype : self.fieldTypes.get? k = some (some p))
    (htag : k ∉ self.tagProps) (hid : k ≠ idKey) {entry : Entry} (hentry : entry ∈ entries)
    {v : Str} (hget : entry.get? k = some v) : chosen py self entries k = some p := by
  have hfound : ∀ v o, found py self k v = some o → o = p := by
    intro v o ho
    rw [found, detectParser_explicit py v htype htag hid] at ho
    cases hparse : p.parse py k v with
    | ok r =>
      rw [hparse] at ho
      exact (Option.some.inj ho).symm
    | error e =>
      rw [hparse] at ho
      cases ho
  have hsome : (chosen py self entries k).isSome := by
    rw [chosen_isSome]
    refine ⟨entry, hentry, v, hget, ?_⟩
    obtain ⟨o, ho⟩ := h entry hentry k v hget
    rw [found, ho]
    rw [detectParser_explicit py v htype htag hid] at ho
    obtain ⟨r, -, heq⟩ := Except.bind_eq_ok.mp ho
    obtain rfl := Except.ok.inj heq
    rfl
  obtain ⟨o, ho⟩ := Option.isSome_iff_exists.mp hsome
  obtain ⟨_, _, v', _, hv'⟩ := chosen_mem py ho
  rw [ho, hfound v' o hv']

theorem chosen_acceptable {self : Request} {entries : List Entry} {k : Str}
    (h : ∀ entry ∈ entries, Readable py self entry) (htype : self.fieldTypes.get? k = none)
    (htag : k ∉ self.tagProps) (hid : k ≠ idKey) {entry : Entry} (hentry : entry ∈ entries)
    {v : Str} (hget : entry.get? k = some v) (haccept : Acceptable py k v) :
    ∃ p ∈ PARSERS, chosen py self entries k = some p := by
  have hsome : (chosen py self entries k).isSome := by
    rw [chosen_isSome]
    refine ⟨entry, hentry, v, hget, ?_⟩
    obtain ⟨o, ho⟩ := h entry hentry k v hget
    rw [found, ho]
    rw [detectParser_implicit py v htype htag hid] at ho
    obtain ⟨p, rfl⟩ := firstParser_exists py ho haccept
    rfl
  obtain ⟨p, hp⟩ := Option.isSome_iff_exists.mp hsome
  obtain ⟨entry', hentry', v', hget', hv'⟩ := chosen_mem py hp
  obtain ⟨o, ho⟩ := h entry' hentry' k v' hget'
  rw [found, ho] at hv'
  rw [detectParser_implicit py v' htype htag hid] at ho
  subst hv'
  exact ⟨p, (firstParser_accepts py ho).1, hp⟩

def Detects (self : Request) (removed : List Str) (entries : List Entry) (types : FieldTypes) :
    Prop :=
  ∀ entry ∈ entries, ∀ k v, entry.get? k = some v → k ∉ self.tagProps → k ≠ idKey → k ∉ removed →
    (∀ p, self.fieldTypes.get? k = some (some p) → types.get? k = some (some p)) ∧
    (self.fieldTypes.get? k = none → Acceptable py k v →
      ∃ p ∈ PARSERS, types.get? k = some (some p))

def Sound (self : Request) (entry : Entry) : Prop :=
  ∀ k v, entry.get? k = some v → k ∉ self.tagProps → k ≠ idKey →
    (∀ p, self.fieldTypes.get? k = some (some p) → Accepts py p k v) ∧
    (self.fieldTypes.get? k = none → ∃ o, firstParser py k v PARSERS = .ok o)

theorem readable_iff {self : Request} {entry : Entry} :
    Readable py self entry ↔ Sound py self entry := by
  refine forall₂_congr fun k v => imp_congr_right fun hget => ?_
  by_cases hskip : k ∈ self.tagProps ∨ k = idKey
  · refine iff_of_true ⟨none, by rw [detectParser, if_pos hskip]⟩ fun htag hid => ?_
    exact absurd hskip (not_or.mpr ⟨htag, hid⟩)
  · obtain ⟨htag, hid⟩ := not_or.mp hskip
    rw [imp_iff_right htag, imp_iff_right hid]
    cases htype : self.fieldTypes.get? k with
    | none =>
      rw [detectParser_implicit py v htype htag hid]
      exact ⟨fun h => ⟨(fun p hp => by cases hp), fun _ => h⟩, fun h => h.2 rfl⟩
    | some o =>
      cases o with
      | none =>
        refine iff_of_true ⟨none, by rw [detectParser, if_neg hskip, htype]⟩
          ⟨fun p hp => ?_, fun hnone => ?_⟩
        · cases hp
        · cases hnone
      | some p =>
        rw [detectParser_explicit py v htype htag hid]
        constructor
        · rintro ⟨o, ho⟩
          obtain ⟨r, hr, -⟩ := Except.bind_eq_ok.mp ho
          refine ⟨fun p' hp' => ?_, fun hnone => ?_⟩
          · obtain rfl := Option.some.inj (Option.some.inj hp')
            exact ⟨r, hr⟩
          · cases hnone
        · intro h
          obtain ⟨r, hr⟩ := h.1 p rfl
          exact ⟨some p, by rw [hr]; rfl⟩

structure Robust (r : Resource) (entries replies : List Entry) (blank : Point) (s : Scrape)
    (scraped monitored : List Entry) : Prop where
  prepares : (r.prepare py entries replies).2 = none
  detects : Detects py r.toRequest [] entries (r.prepare py entries replies).1.fieldTypes
  detectsReplies : ∀ m, r.monitor = some m → hasId entries →
    ∃ m', (r.prepare py entries replies).1.monitor = some m' ∧
      Detects py m r.tagProps replies m'.fieldTypes
  calls : (r.prepare py entries replies).1.call py blank s scraped monitored =
    .ok ((r.prepare py entries replies).1.emitAll py blank s scraped monitored)

structure Tolerable (r : Resource) (entries replies : List Entry) (s : Scrape)
    (scraped monitored : List Entry) : Prop where
  sound : ∀ entry ∈ entries, Sound py r.toRequest entry
  soundReplies : ∀ m, r.monitor = some m → hasId entries → ∀ reply ∈ replies, Sound py m reply
  scrapes : ∀ entry ∈ scraped, ∀ k v p, parserOf py r.toRequest entries k = some p →
    entry.get? k = some v → ¬Aborts py p k v
  monitors : ∀ m, r.monitor = some m → s.points.items ≠ [] ∨ scraped ≠ [] →
    (m.attached ∨ hasId entries) ∧
      ∀ reply ∈ monitored, ∀ k v p, monitorParserOf py r m entries replies k = some p →
        reply.get? k = some v → ¬Aborts py p k v

theorem scrapable_iff {types : FieldTypes} {f : Str → Option ParseFunction}
    (h : ∀ k p, types.get? k = some (some p) ↔ f k = some p) (entry : Entry) :
    Scrapable py types entry ↔
      ∀ k v p, f k = some p → entry.get? k = some v → ¬Aborts py p k v :=
  forall₃_congr fun k _ p => imp_congr_left (h k p)

theorem map_some_eq_iff {o : Option ParseFunction} {p : ParseFunction} :
    o.map some = some (some p) ↔ o = some p := by
  cases o <;> simp

theorem join_eq_iff {o : Option (Option ParseFunction)} {p : ParseFunction} :
    o = some (some p) ↔ o.join = some p := by
  cases o <;> simp

section Prepared

variable {py} {self : Resource} {entries : List Entry} (replies : List Entry)
  (h : ∀ entry ∈ entries, Readable py self.toRequest entry)

include h

theorem detects_prepared :
    Detects py self.toRequest [] entries (self.prepare py entries replies).1.fieldTypes := by
  intro entry hentry k v hget htag hid _
  rw [get?_prepared py replies h, parserOf, if_neg htag]
  refine ⟨fun p htype => ?_, fun htype haccept => ?_⟩
  · rw [chosen_explicit py h htype htag hid hentry hget]
    rfl
  · obtain ⟨p, hp, hchosen⟩ := chosen_acceptable py h htype htag hid hentry hget haccept
    exact ⟨p, hp, by rw [hchosen]; rfl⟩

omit h in
theorem detects_monitor {m : Request} (hreplies : ∀ reply ∈ replies, Readable py m reply) :
    Detects py m self.tagProps replies (monitorParsers py self m replies) := by
  intro reply hreply k v hget htag hid hremoved
  rw [get?_monitorParsers, if_neg hremoved]
  refine ⟨fun p htype => ?_, fun htype haccept => ?_⟩
  · rw [chosen_explicit py hreplies htype htag hid hreply hget]
    rfl
  · obtain ⟨p, hp, hchosen⟩ := chosen_acceptable py hreplies htype htag hid hreply hget haccept
    exact ⟨p, hp, by rw [hchosen]; rfl⟩

theorem scrapable_prepared (entry : Entry) :
    Scrapable py (self.prepare py entries replies).1.fieldTypes entry ↔
      ∀ k v p, parserOf py self.toRequest entries k = some p → entry.get? k = some v →
        ¬Aborts py p k v :=
  scrapable_iff py (fun k p => by rw [get?_prepared py replies h, map_some_eq_iff]) entry

end Prepared

structure MonitorPrepared (r : Resource) (entries replies : List Entry) (m m' : Request) :
    Prop where
  prepared : (r.prepare py entries replies).1.monitor = some m'
  attached : m'.attached ↔ m.attached ∨ hasId entries
  parsers : ∀ k p, m'.fieldTypes.get? k = some (some p) ↔
    monitorParserOf py r m entries replies k = some p
  detects : hasId entries → Detects py m r.tagProps replies m'.fieldTypes

section Monitored

variable {py} {r : Resource} {entries replies : List Entry}
  (h : ∀ entry ∈ entries, Readable py r.toRequest entry) {m : Request} (hm : r.monitor = some m)

include h hm

theorem monitorPrepared_of_ids (hids : hasId entries)
    (hreplies : ∀ reply ∈ replies, Readable py m reply) :
    (r.prepare py entries replies).2 = none ∧ ∃ m', MonitorPrepared py r entries replies m m' := by
  obtain ⟨hprepares, hmonitor⟩ := prepare_monitor_readable py h hm hids hreplies
  refine ⟨hprepares, _, hmonitor, iff_of_true rfl (.inr hids), fun k p => ?_,
    fun _ => detects_monitor replies hreplies⟩
  dsimp only
  rw [get?_monitorParsers, map_some_eq_iff, monitorParserOf, if_pos hids]

theorem monitorPrepared_of_no_ids (hids : ¬hasId entries) :
    (r.prepare py entries replies).2 = none ∧ ∃ m', MonitorPrepared py r entries replies m m' := by
  obtain ⟨hprepares, hmonitor⟩ := prepare_unmonitored py replies h (.inr hids)
  refine ⟨hprepares, m, hmonitor.trans hm, (or_iff_left hids).symm, fun k p => ?_,
    fun hid => absurd hid hids⟩
  rw [monitorParserOf, if_neg hids, join_eq_iff]

omit hm in
theorem callable_monitored (s : Scrape) (scraped monitored : List Entry) {m' : Request}
    (hprepared : MonitorPrepared py r entries replies m m') :
    Callable py (r.prepare py entries replies).1 s scraped monitored ↔
      (∀ entry ∈ scraped, ∀ k v p, parserOf py r.toRequest entries k = some p →
        entry.get? k = some v → ¬Aborts py p k v) ∧
      (s.points.items ≠ [] ∨ scraped ≠ [] → (m.attached ∨ hasId entries) ∧
        ∀ reply ∈ monitored, ∀ k v p, monitorParserOf py r m entries replies k = some p →
          reply.get? k = some v → ¬Aborts py p k v) := by
  have hscrapes := forall₂_congr fun entry (_ : entry ∈ scraped) =>
    scrapable_prepared replies h entry
  have hmonitors := forall₂_congr fun reply (_ : reply ∈ monitored) =>
    scrapable_iff py hprepared.parsers reply
  rw [← hscrapes, ← hmonitors, ← hprepared.attached]
  constructor
  · exact fun hcall => ⟨hcall.scrapes, hcall.monitors m' hprepared.prepared⟩
  · refine fun ⟨hs, hr⟩ => ⟨hs, fun m'' hm'' => ?_⟩
    obtain rfl := Option.some.inj (hprepared.prepared.symm.trans hm'')
    exact hr

end Monitored

theorem callable_unmonitored {r : Resource} {entries : List Entry} (replies : List Entry)
    (h : ∀ entry ∈ entries, Readable py r.toRequest entry) (hm : r.monitor = none) (s : Scrape)
    (scraped monitored : List Entry) :
    Callable py (r.prepare py entries replies).1 s scraped monitored ↔
      ∀ entry ∈ scraped, ∀ k v p, parserOf py r.toRequest entries k = some p →
        entry.get? k = some v → ¬Aborts py p k v := by
  have hmonitor := (prepare_unmonitored py replies h (.inl hm)).2
  rw [← forall₂_congr fun entry (_ : entry ∈ scraped) => scrapable_prepared replies h entry]
  refine ⟨fun hcall => hcall.scrapes, fun hs => ⟨hs, fun m' hm' => ?_⟩⟩
  rw [hmonitor, hm] at hm'
  cases hm'

theorem robust_iff_unmonitored {r : Resource} {entries : List Entry} (replies : List Entry)
    (hread : ∀ entry ∈ entries, Readable py r.toRequest entry) (hm : r.monitor = none)
    (blank : Point) (s : Scrape) (scraped monitored : List Entry) :
    Robust py r entries replies blank s scraped monitored ↔
      Tolerable py r entries replies s scraped monitored := by
  have hsound : ∀ entry ∈ entries, Sound py r.toRequest entry := fun entry hentry =>
    (readable_iff py).mp (hread entry hentry)
  have hprepares := (prepare_unmonitored py replies hread (.inl hm)).1
  have hcall := callable_unmonitored py replies hread hm s scraped monitored
  constructor
  · refine fun hrobust => ⟨hsound, fun m hm' => ?_,
      hcall.mp ((call_iff py _ _ _ _ _).mp hrobust.calls), fun m hm' => ?_⟩
    · rw [hm] at hm'
      cases hm'
    · rw [hm] at hm'
      cases hm'
  · refine fun htolerable => ⟨hprepares, detects_prepared replies hread, fun m hm' => ?_,
      (call_iff py _ _ _ _ _).mpr (hcall.mpr htolerable.scrapes)⟩
    rw [hm] at hm'
    cases hm'

theorem robust_iff_monitored {r : Resource} {entries replies : List Entry} {m : Request}
    (hread : ∀ entry ∈ entries, Readable py r.toRequest entry) (hm : r.monitor = some m)
    (hreplies : hasId entries → ∀ reply ∈ replies, Readable py m reply)
    (blank : Point) (s : Scrape) (scraped monitored : List Entry) :
    Robust py r entries replies blank s scraped monitored ↔
      Tolerable py r entries replies s scraped monitored := by
  have hsound : ∀ entry ∈ entries, Sound py r.toRequest entry := fun entry hentry =>
    (readable_iff py).mp (hread entry hentry)
  obtain ⟨hprepares, m', hprepared⟩ : (r.prepare py entries replies).2 = none ∧
        ∃ m', MonitorPrepared py r entries replies m m' := by
    by_cases hids : hasId entries
    · exact monitorPrepared_of_ids hread hm hids (hreplies hids)
    · exact monitorPrepared_of_no_ids hread hm hids
  have hcall := callable_monitored hread s scraped monitored hprepared
  constructor
  · intro hrobust
    obtain ⟨hscrapes, hmonitors⟩ := hcall.mp ((call_iff py _ _ _ _ _).mp hrobust.calls)
    refine ⟨hsound, fun m₂ hm₂ hids reply hreply => ?_, hscrapes, fun m₂ hm₂ => ?_⟩
    · obtain rfl := Option.some.inj (hm.symm.trans hm₂)
      exact (readable_iff py).mp (hreplies hids reply hreply)
    · obtain rfl := Option.some.inj (hm.symm.trans hm₂)
      exact hmonitors
  · intro htolerable
    refine ⟨hprepares, detects_prepared replies hread, fun m₂ hm₂ hids => ?_,
      (call_iff py _ _ _ _ _).mpr
        (hcall.mpr ⟨htolerable.scrapes, htolerable.monitors m hm⟩)⟩
    obtain rfl := Option.some.inj (hm.symm.trans hm₂)
    exact ⟨m', hprepared.prepared, hprepared.detects hids⟩

theorem robust_iff (r : Resource) (entries replies : List Entry) (blank : Point) (s : Scrape)
    (scraped monitored : List Entry) :
    Robust py r entries replies blank s scraped monitored ↔
      Tolerable py r entries replies s scraped monitored := by
  by_cases hread : ∀ entry ∈ entries, Readable py r.toRequest entry
  · cases hm : r.monitor with
    | none => exact robust_iff_unmonitored py replies hread hm blank s scraped monitored
    | some m =>
      by_cases hreplies : hasId entries → ∀ reply ∈ replies, Readable py m reply
      · exact robust_iff_monitored py hread hm hreplies blank s scraped monitored
      · obtain ⟨hids, hnot⟩ := Classical.not_imp.mp hreplies
        refine iff_of_false (fun h => ?_) fun h => ?_
        · exact prepare_monitor_unreadable py hread hm hids
            (by simpa only [not_forall, exists_prop] using hnot) h.prepares
        · exact hnot fun reply hreply =>
            (readable_iff py).mpr (h.soundReplies m hm hids reply hreply)
  · have hnot : ∃ entry ∈ entries, ¬Readable py r.toRequest entry := by
      simpa only [not_forall, exists_prop] using hread
    refine iff_of_false (fun h => (prepare_unreadable py replies hnot).2 h.prepares) fun h => ?_
    exact hread fun entry hentry => (readable_iff py).mpr (h.sound entry hentry)

theorem int_error {v : Str} {e : PyError} (h : int py v = .error e) : e = .valueError := by
  have hnatural : ∀ base s e, natural py base s = .error e → e = .valueError := by
    intro base s e h
    rw [natural] at h
    split at h
    case isTrue =>
      split at h
      case isTrue => exact (Except.error.inj h).symm
      case isFalse => cases h
    case isFalse => exact (Except.error.inj h).symm
  rw [int] at h
  dsimp only at h
  cases hn : natural py 10 (sign (strip (v.map toAscii))).2 with
  | ok n =>
    rw [hn] at h
    cases h
  | error e' =>
    rw [hn] at h
    obtain rfl := Except.error.inj h
    exact hnatural _ _ _ hn

namespace FirewallResource

def emitAll (self : Resource) (blank : Point) (s : Scrape) (entries : List Entry) : Scrape :=
  entries.foldl (fun s entry =>
    emitEntry py self.toRequest blank (ruled self.toRequest blank s entry) entry) s

theorem scrapable (entry : Entry) : Scrapable py fieldTypes entry := by
  intro k v p htype _ haborts
  obtain ⟨e, hparse, hne⟩ := haborts
  have hmem : (k, some p) ∈ fieldTypes.items := PyDict.mem_items.mpr htype
  have hp : p = .toInt ∨ p = .toBool := by
    simp only [fieldTypes, List.mem_cons, Prod.mk.injEq, Option.some.injEq, List.not_mem_nil,
      or_false] at hmem
    tauto
  rcases hp with rfl | rfl
  · rw [ParseFunction.parse, toInt] at hparse
    cases hint : int py v with
    | ok x =>
      rw [hint] at hparse
      cases hparse
    | error e' =>
      rw [hint] at hparse
      obtain rfl := Except.error.inj hparse
      exact hne (int_error py hint)
  · rw [ParseFunction.parse, toBool] at hparse
    split at hparse
    case isTrue => cases hparse
    case isFalse =>
      split at hparse
      case isTrue => cases hparse
      case isFalse => exact hne (Except.error.inj hparse).symm

theorem call_ok (blank : Point) (s : Scrape) (entries : List Entry) :
    call py (prepare resource).1 blank s entries =
      .ok (emitAll py (prepare resource).1 blank s entries) :=
  Except.foldlM_ok (fun _ entry _ => processEntry_ok py blank _ (scrapable py entry)) s

end FirewallResource

inductive Collector where
  | resource (r : Resource)
  | firewall

def Collector.Robust (entries replies : List Entry) (blank : Point) (s : Scrape)
    (scraped monitored : List Entry) : Collector → Prop
  | .resource r => Mikrotik.Robust py r entries replies blank s scraped monitored
  | .firewall => (FirewallResource.prepare FirewallResource.resource).2 = none ∧
    FirewallResource.call py (FirewallResource.prepare FirewallResource.resource).1 blank s
      scraped = .ok (FirewallResource.emitAll py
        (FirewallResource.prepare FirewallResource.resource).1 blank s scraped)

def Collector.Tolerable (entries replies : List Entry) (s : Scrape)
    (scraped monitored : List Entry) : Collector → Prop
  | .resource r => Mikrotik.Tolerable py r entries replies s scraped monitored
  | .firewall => True

theorem collection_robust_iff (c : Collector) (entries replies : List Entry) (blank : Point)
    (s : Scrape) (scraped monitored : List Entry) :
    c.Robust py entries replies blank s scraped monitored ↔
      c.Tolerable py entries replies s scraped monitored := by
  cases c with
  | resource r => exact robust_iff py r entries replies blank s scraped monitored
  | firewall => exact iff_of_true ⟨rfl, FirewallResource.call_ok py blank s scraped⟩ trivial

end Scraping

def lease : Resource where
  fieldTypes := ⟨[("address-lists".toList, none), ("status".toList, some .toStr),
    ("active-address".toList, some .toStr), ("active-client-id".toList, some .toStr),
    ("active-mac-address".toList, some .toStr), ("active-server".toList, some .toStr),
    ("class-id".toList, some .toStr), ("host-name".toList, some .toStr),
    ("last-seen".toList, some .toDuration)], by decide⟩
  tagProps := ["blocked".toList, "disabled".toList, "dynamic".toList, "mac-address".toList,
    "client-id".toList, "server".toList, "address".toList, "comment".toList, "dhcp-option".toList]
  attached := false
  proplist := none
  monitor := none

theorem emptyLastSeen_not_robust :
    ¬(Collector.resource lease).Robust exact [entryOf "last-seen" ""] [] ⟨[], []⟩ ⟨.empty, []⟩
      [] [] := by
  intro h
  have hraises : (lease.prepare exact [entryOf "last-seen" ""] []).2 = some .valueError := rfl
  have hnone := h.prepares
  rw [hraises] at hnone
  cases hnone

end Isz.Mikrotik
