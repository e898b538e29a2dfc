import Isz.Journald.Delivery

namespace Isz.Journald

inductive Value where
  | bytes (s : Str)
  | integer (i : Int)
  | timestamp (nanoseconds : Int)
  | null
deriving DecidableEq

abbrev Event := AttrSet Value

structure Record where
  labels : AttrSet Value
  message : Value
  timestamp : Value
  structuredMetadata : AttrSet Value

section Functions

def decimal (s : Str) : Option Nat :=
  if s ≠ [] ∧ s.all Char.isDigit then some (Nat.ofDigitChars 10 s 0) else none

def signed : Str → Option Int
  | '+' :: s => (decimal s).map fun n => (n : Int)
  | '-' :: s => (decimal s).map fun n => -(n : Int)
  | s => (decimal s).map fun n => (n : Int)

def parseInt (s : Str) : Option Int :=
  (signed s).filter fun i => -9223372036854775808 ≤ i ∧ i ≤ 9223372036854775807

def toUnixTimestamp : Value → Option Int
  | .timestamp nanoseconds => some (nanoseconds / 1000000000)
  | _ => none

def toInt : Value → Option Int
  | .bytes s => parseInt s
  | .integer i => some i
  | .timestamp nanoseconds => toUnixTimestamp (.timestamp nanoseconds)
  | .null => some 0

def nth (names : List String) : Int → Option Str
  | .ofNat n => names[n]?.map String.toList
  | .negSucc _ => none

def toSyslogLevel : Int → Option Str :=
  nth ["emerg", "alert", "crit", "err", "warning", "notice", "info", "debug"]

def toSyslogFacility : Int → Option Str :=
  nth ["kern", "user", "mail", "daemon", "auth", "syslog", "lpr", "news", "uucp", "cron",
    "authpriv", "ftp", "ntp", "security", "console", "solaris-cron", "local0", "local1", "local2",
    "local3", "local4", "local5", "local6", "local7"]

def levels : List (Str × Str) :=
  [("0".toList, "fatal".toList), ("1".toList, "error".toList), ("2".toList, "error".toList),
    ("3".toList, "error".toList), ("4".toList, "warn".toList), ("5".toList, "info".toList),
    ("6".toList, "info".toList), ("7".toList, "debug".toList)]

-- get!(LEVELS, [value])
def getLevel : Value → Option (Option Str)
  | .bytes s => some (levels.lookup s)
  | .integer _ => some none
  | _ => none

end Functions

def path (event : Event) (key : Str) : Value := (event.get? key).getD .null

def setBytes (key : Str) (value : Option Str) (event : Event) : Event :=
  match value with
  | some s => event.insert key (.bytes s)
  | none => event

def addLevel (event : Event) : Option Event :=
  match event.get? "PRIORITY".toList with
  | some value => (getLevel value).map fun level => setBytes "level".toList level event
  | none => some event

def classify (event : Event) : Option Event := do
  let event := event.removeAttr "labels".toList
  let priority := toSyslogLevel ((toInt (path event "PRIORITY".toList)).getD (-1))
  let event ← addLevel (setBytes "priority".toList priority event)
  let facility := toSyslogFacility ((toInt (path event "SYSLOG_FACILITY".toList)).getD (-1))
  return setBytes "facility".toList facility event

def moveLabel (key : Str) : Event × AttrSet Value → Event × AttrSet Value
  | (event, labels) =>
    match event.get? key with
    | some value => (event.removeAttr key, labels.insert key value)
    | none => (event, labels)

def copyLabel (out src : Str) : Event × AttrSet Value → Event × AttrSet Value
  | (event, labels) =>
    match event.get? src with
    | some value => (event, labels.insert out value)
    | none => (event, labels)

def label (event : Event) : Event × AttrSet Value :=
  copyLabel "service_namespace".toList "_SYSTEMD_SLICE".toList
    (copyLabel "service_name".toList "_SYSTEMD_UNIT".toList
      (moveLabel "source_type".toList (moveLabel "host".toList (event, AttrSet.empty))))

def unlabeled (event : Event) : Event :=
  ((label event).1.removeAttr "source_type".toList).removeAttr "host".toList

def trustedPrefix : Str := ['t', 'r', 'u', 's', 't', 'e', 'd']

def trusted (key : Str) : Str :=
  if ['_'].isPrefixOf key then trustedPrefix ++ key else key

def reservedKeys : List Str := ["labels".toList, "message".toList, "timestamp".toList]

def metadata (event : Event) : AttrSet Value :=
  (event.filterAttrs fun key _ => key ∉ reservedKeys).mapKeys trusted

-- none where an expression with ! fails
def remap (now now' : Int) (event : Event) : Option Record := do
  let event ← classify event
  let (_, labels) := label event
  let event := unlabeled event
  let secs ← toUnixTimestamp (path event "timestamp".toList)
  let age := now / 1000000000 - secs
  return {
    labels := labels
    message := path event "message".toList
    timestamp := if age > 6 * 24 * 60 * 60 then .timestamp now' else path event "timestamp".toList
    structuredMetadata := metadata event }

section Steps

variable {event event' : Event} {k : Str}

theorem get?_setBytes (key : Str) (value : Option Str) (hk : k ≠ key) :
    (setBytes key value event).get? k = event.get? k := by
  cases value with
  | none => rfl
  | some s => exact (AttrSet.get?_insert key _ event k).trans (if_neg hk)

theorem get?_addLevel (h : addLevel event = some event') (hk : k ≠ "level".toList) :
    event'.get? k = event.get? k := by
  unfold addLevel at h
  split at h
  · obtain ⟨level, -, rfl⟩ := Option.map_eq_some_iff.mp h
    exact get?_setBytes _ level hk
  · rw [Option.some.inj h]

def written : List Str :=
  ["labels".toList, "priority".toList, "level".toList, "facility".toList]

theorem get?_classify (h : classify event = some event') (hk : k ∉ written) :
    event'.get? k = event.get? k := by
  simp only [written, List.mem_cons, List.not_mem_nil, or_false, not_or] at hk
  obtain ⟨hlabels, hpriority, hlevel, hfacility⟩ := hk
  obtain ⟨leveled, hadd, heq⟩ := Option.bind_eq_some_iff.mp h
  obtain rfl := Option.some.inj heq
  rw [get?_setBytes _ _ hfacility, get?_addLevel hadd hlevel, get?_setBytes _ _ hpriority,
    AttrSet.get?_removeAttr, if_neg hlabels]

theorem get?_moveLabel_event (key : Str) (s : Event × AttrSet Value) :
    (moveLabel key s).1.get? k = if k = key then none else s.1.get? k := by
  obtain ⟨event, labels⟩ := s
  cases hkey : event.get? key with
  | some value =>
    simp only [moveLabel, hkey]
    exact AttrSet.get?_removeAttr key event k
  | none =>
    simp only [moveLabel, hkey]
    split
    case isTrue heq => rw [heq, hkey]
    case isFalse => rfl

theorem get?_moveLabel_labels (key : Str) (s : Event × AttrSet Value) :
    (moveLabel key s).2.get? k = if k = key then (s.1.get? k).or (s.2.get? k) else s.2.get? k := by
  obtain ⟨event, labels⟩ := s
  cases hkey : event.get? key with
  | some value =>
    simp only [moveLabel, hkey]
    rw [AttrSet.get?_insert]
    split
    case isTrue heq => rw [heq, hkey, Option.some_or]
    case isFalse => rfl
  | none =>
    simp only [moveLabel, hkey]
    split
    case isTrue heq => rw [heq, hkey, Option.none_or]
    case isFalse => rfl

theorem copyLabel_event (out src : Str) (s : Event × AttrSet Value) :
    (copyLabel out src s).1 = s.1 := by
  obtain ⟨event, labels⟩ := s
  cases hsrc : event.get? src with
  | none => simp only [copyLabel, hsrc]
  | some value => simp only [copyLabel, hsrc]

theorem get?_copyLabel_labels {out : Str} (src : Str) (s : Event × AttrSet Value) (hk : k ≠ out) :
    (copyLabel out src s).2.get? k = s.2.get? k := by
  obtain ⟨event, labels⟩ := s
  cases hsrc : event.get? src with
  | none => simp only [copyLabel, hsrc]
  | some value =>
    simp only [copyLabel, hsrc]
    exact (AttrSet.get?_insert out value labels k).trans (if_neg hk)

def moved : List Str := ["host".toList, "source_type".toList]

theorem get?_label_event (hk : k ∉ moved) : (label event).1.get? k = event.get? k := by
  simp only [moved, List.mem_cons, List.not_mem_nil, or_false, not_or] at hk
  obtain ⟨hhost, hsource⟩ := hk
  rw [label, copyLabel_event, copyLabel_event, get?_moveLabel_event, if_neg hsource,
    get?_moveLabel_event, if_neg hhost]

theorem get?_label_labels (hk : k ∈ moved) : (label event).2.get? k = event.get? k := by
  have hnamespace : k ≠ "service_namespace".toList := by
    rintro rfl
    exact absurd hk (by decide)
  have hname : k ≠ "service_name".toList := by
    rintro rfl
    exact absurd hk (by decide)
  rw [label, get?_copyLabel_labels _ _ hnamespace, get?_copyLabel_labels _ _ hname,
    get?_moveLabel_labels, get?_moveLabel_labels, get?_moveLabel_event]
  have hempty : (AttrSet.empty : AttrSet Value).get? k = none := rfl
  simp only [moved, List.mem_cons, List.not_mem_nil, or_false] at hk
  rcases hk with rfl | rfl
  · rw [if_neg (by decide), if_pos rfl, hempty, Option.or_none]
  · rw [if_pos rfl, if_neg (by decide), if_neg (by decide), hempty, Option.or_none]

end Steps

section Metadata

theorem trusted_of_head {key : Str} (h : key.head? ≠ some '_') : trusted key = key := by
  cases key with
  | nil => rfl
  | cons c key =>
    have hc : ('_' == c) = false := by
      rw [beq_eq_false_iff_ne]
      rintro rfl
      exact h rfl
    rw [trusted, List.isPrefixOf, hc, Bool.false_and]
    exact if_neg Bool.false_ne_true

theorem trusted_eq_iff {key rest : Str} :
    trusted key = trustedPrefix ++ '_' :: rest ↔
      key = '_' :: rest ∨ key = trustedPrefix ++ '_' :: rest := by
  constructor
  · intro h
    by_cases hu : key.head? = some '_'
    · obtain ⟨rest', rfl⟩ := List.head?_eq_some_iff.mp hu
      exact .inl (List.append_cancel_left h)
    · rw [trusted_of_head hu] at h
      exact .inr h
  · rintro (rfl | rfl) <;> rfl

theorem trusted_inj {key key' : Str} (h : key.head? ≠ some 't') (h' : key'.head? ≠ some 't')
    (heq : trusted key = trusted key') : key = key' := by
  by_cases hu : key.head? = some '_'
  · obtain ⟨rest, rfl⟩ := List.head?_eq_some_iff.mp hu
    rcases trusted_eq_iff.mp heq.symm with rfl | rfl
    · rfl
    · exact absurd rfl h'
  · rw [trusted_of_head hu] at heq
    by_cases hu' : key'.head? = some '_'
    · obtain ⟨rest, rfl⟩ := List.head?_eq_some_iff.mp hu'
      exact absurd (heq ▸ rfl) h
    · rwa [trusted_of_head hu'] at heq

end Metadata

section Remapped

variable {now now' : Int} {event : Event} {record : Record}

def prepared (event : Event) : Event :=
  (unlabeled event).filterAttrs fun key _ => key ∉ reservedKeys

theorem get?_unlabeled {k : Str} (hmoved : k ∉ moved) :
    (unlabeled event).get? k = event.get? k := by
  have hlabel : (label event).1.get? k = event.get? k := get?_label_event hmoved
  simp only [moved, List.mem_cons, List.not_mem_nil, or_false, not_or] at hmoved
  obtain ⟨hhost, hsource⟩ := hmoved
  rw [unlabeled, AttrSet.get?_removeAttr, if_neg hhost, AttrSet.get?_removeAttr, if_neg hsource,
    hlabel]

theorem get?_prepared {k : Str} (hmoved : k ∉ moved) (hreserved : k ∉ reservedKeys) :
    (prepared event).get? k = event.get? k := by
  rw [prepared, AttrSet.get?_filterAttrs, get?_unlabeled hmoved, decide_eq_true hreserved]
  cases event.get? k <;> rfl

theorem remap_eq_some (h : remap now now' event = some record) :
    ∃ classified secs, classify event = some classified ∧
      toUnixTimestamp (path (unlabeled classified) "timestamp".toList) = some secs ∧
      record = {
        labels := (label classified).2
        message := path (unlabeled classified) "message".toList
        timestamp := if now / 1000000000 - secs > 6 * 24 * 60 * 60 then .timestamp now'
          else path (unlabeled classified) "timestamp".toList
        structuredMetadata := (prepared classified).mapKeys trusted } := by
  obtain ⟨classified, hclassify, hrest⟩ := Option.bind_eq_some_iff.mp h
  obtain ⟨secs, hsecs, heq⟩ := Option.bind_eq_some_iff.mp hrest
  exact ⟨classified, secs, hclassify, hsecs, (Option.some.inj heq).symm⟩

end Remapped

section Routing

variable {T : Type} {services : Services T}

def unitKey : Str := "_SYSTEMD_UNIT".toList

def field (key : Str) (event : Event) : Option Str :=
  match event.get? key with
  | some (.bytes s) => some s
  | _ => none

def single (name : Str) (t : T) : Services T where
  entries := [(name, [t])]
  sorted := List.pairwise_singleton _ _

variable {now now' : Int} {event : Event} {record : Record}

end Routing

section Journal

variable {now now' : Int} {event : Event} {record : Record}

def JournalField (key : Str) : Prop := ∀ c ∈ key, c.isUpper ∨ c.isDigit ∨ c = '_'

structure FromJournald (event : Event) : Prop where
  keys : ∀ {key value}, event.get? key = some value →
    key ∈ ["host".toList, "message".toList, "source_type".toList, "timestamp".toList] ∨
      JournalField key
  bytes : ∀ {key value}, event.get? key = some value → key ≠ "timestamp".toList →
    ∃ s, value = .bytes s
  stamped : ∃ t, event.get? "timestamp".toList = some (.timestamp t)

def Recent (now : Int) (event : Event) : Prop :=
  ∀ t, event.get? "timestamp".toList = some (.timestamp t) →
    now / 1000000000 - t / 1000000000 ≤ 6 * 24 * 60 * 60

theorem JournalField.head?_ne {key : Str} (h : JournalField key) {c : Char}
    (hc : ¬(c.isUpper ∨ c.isDigit ∨ c = '_')) : key.head? ≠ some c := fun hhead =>
  hc (h c (List.mem_of_mem_head? hhead))

theorem JournalField.notMem {key : Str} (h : JournalField key) :
    key ∉ written ++ moved ++ reservedKeys := by
  intro hmem
  have hlower : ∀ word ∈ written ++ moved ++ reservedKeys,
      word.head?.any (fun c => !(c.isUpper || c.isDigit || c == '_')) = true := by decide
  obtain ⟨c, hhead, hc⟩ := (Option.any_eq_true _ _).mp (hlower key hmem)
  exact h.head?_ne (by simpa [and_assoc] using hc) hhead

theorem of_get?_unlabeled {key : Str} {value : Value}
    (h : (unlabeled event).get? key = some value) : event.get? key = some value := by
  rw [unlabeled, AttrSet.get?_removeAttr, AttrSet.get?_removeAttr] at h
  split at h
  case isTrue => cases h
  case isFalse hhost =>
    split at h
    case isTrue => cases h
    case isFalse hsource =>
      have hmoved : key ∉ moved := by
        simp only [moved, List.mem_cons, List.not_mem_nil, or_false]
        exact not_or.mpr ⟨hhost, hsource⟩
      rwa [get?_label_event hmoved] at h

theorem of_get?_prepared {key : Str} {value : Value}
    (h : (prepared event).get? key = some value) :
    key ∉ reservedKeys ∧ event.get? key = some value := by
  rw [prepared, AttrSet.get?_filterAttrs, Option.filter_eq_some_iff] at h
  exact ⟨of_decide_eq_true h.2, of_get?_unlabeled h.1⟩

theorem path_unlabeled {classified : Event} (hclassify : classify event = some classified)
    {key : Str} (hkey : key ∉ written ++ moved) :
    path (unlabeled classified) key = path event key := by
  simp only [List.mem_append, not_or] at hkey
  unfold path
  rw [get?_unlabeled hkey.2, get?_classify hclassify hkey.1]

theorem record_labels (hremap : remap now now' event = some record) {key : Str}
    (hkey : key ∈ moved) : record.labels.get? key = event.get? key := by
  obtain ⟨classified, secs, hclassify, -, rfl⟩ := remap_eq_some hremap
  have hwritten : key ∉ written := by
    intro hmem
    exact absurd hkey ((by decide : ∀ word ∈ written, word ∉ moved) key hmem)
  rw [get?_label_labels hkey, get?_classify hclassify hwritten]

theorem record_message (hremap : remap now now' event = some record) :
    record.message = path event "message".toList := by
  obtain ⟨classified, secs, hclassify, -, rfl⟩ := remap_eq_some hremap
  exact path_unlabeled hclassify (by decide)

namespace FromJournald

variable (h : FromJournald event)
include h

theorem classify_completes : ∃ classified, classify event = some classified := by
  have hpriority : ∀ value, (event.removeAttr "labels".toList).get? "PRIORITY".toList =
      some value → ∃ s, value = .bytes s := by
    intro value hvalue
    rw [AttrSet.get?_removeAttr, if_neg (by decide)] at hvalue
    exact h.bytes hvalue (by decide)
  have hadd : ∀ level, ∃ leveled, addLevel
      (setBytes "priority".toList level (event.removeAttr "labels".toList)) = some leveled := by
    intro level
    unfold addLevel
    rw [get?_setBytes _ _ (by decide)]
    cases hvalue : (event.removeAttr "labels".toList).get? "PRIORITY".toList with
    | none => exact ⟨_, rfl⟩
    | some value =>
      obtain ⟨s, rfl⟩ := hpriority value hvalue
      exact ⟨_, rfl⟩
  obtain ⟨leveled, hleveled⟩ := hadd
    (toSyslogLevel ((toInt (path (event.removeAttr "labels".toList) "PRIORITY".toList)).getD (-1)))
  exact ⟨_, Option.bind_eq_some_iff.mpr ⟨leveled, hleveled, rfl⟩⟩

theorem completes (now now' : Int) : ∃ record, remap now now' event = some record := by
  obtain ⟨classified, hclassify⟩ := h.classify_completes
  obtain ⟨t, ht⟩ := h.stamped
  have hsecs : toUnixTimestamp (path (unlabeled classified) "timestamp".toList) =
      some (t / 1000000000) := by
    rw [path_unlabeled hclassify (by decide), path, ht]
    rfl
  exact ⟨_, Option.bind_eq_some_iff.mpr ⟨classified, hclassify,
    Option.bind_eq_some_iff.mpr ⟨_, hsecs, rfl⟩⟩⟩

theorem recorded (hrecent : Recent now event) (hremap : remap now now' event = some record) :
    ∃ classified, classify event = some classified ∧
      record = {
        labels := (label classified).2
        message := path (unlabeled classified) "message".toList
        timestamp := path (unlabeled classified) "timestamp".toList
        structuredMetadata := (prepared classified).mapKeys trusted } := by
  obtain ⟨classified, secs, hclassify, hsecs, rfl⟩ := remap_eq_some hremap
  obtain ⟨t, ht⟩ := h.stamped
  have htime : path (unlabeled classified) "timestamp".toList = .timestamp t := by
    rw [path_unlabeled hclassify (by decide), path, ht]
    rfl
  rw [htime] at hsecs
  obtain rfl := Option.some.inj hsecs
  refine ⟨classified, hclassify, ?_⟩
  rw [if_neg (hrecent t ht).not_gt]

theorem record_timestamp (hrecent : Recent now event)
    (hremap : remap now now' event = some record) :
    record.timestamp = path event "timestamp".toList := by
  obtain ⟨classified, hclassify, rfl⟩ := h.recorded hrecent hremap
  exact path_unlabeled hclassify (by decide)

theorem record_structuredMetadata (hremap : remap now now' event = some record) {key : Str}
    (hkey : JournalField key) :
    record.structuredMetadata.get? (trusted key) = event.get? key := by
  obtain ⟨classified, secs, hclassify, -, rfl⟩ := remap_eq_some hremap
  have hplain := hkey.notMem
  simp only [List.mem_append, not_or] at hplain
  obtain ⟨⟨hwritten, hmoved⟩, hreserved⟩ := hplain
  rw [AttrSet.get?_mapKeys_of_inj fun other value hother heq => ?_,
    get?_prepared hmoved hreserved, get?_classify hclassify hwritten]
  refine trusted_inj ?_ (hkey.head?_ne (by decide)) heq
  obtain ⟨hreserved, hvalue⟩ := of_get?_prepared hother
  by_cases hmem : other ∈ written
  · exact (by decide : ∀ word ∈ written, word.head? ≠ some 't') other hmem
  · rw [get?_classify hclassify hmem] at hvalue
    rcases h.keys hvalue with hadded | hfield
    · simp only [List.mem_cons, List.not_mem_nil, or_false] at hadded
      rcases hadded with rfl | rfl | rfl | rfl
      · decide
      · decide
      · decide
      · exact absurd (by decide) hreserved
    · exact hfield.head?_ne (by decide)

end FromJournald

theorem path_inj {event' : Event} (h : FromJournald event) (h' : FromJournald event') {key : Str}
    (hkey : key ≠ "timestamp".toList) (heq : path event key = path event' key) :
    event.get? key = event'.get? key := by
  cases hvalue : event.get? key with
  | none =>
    cases hvalue' : event'.get? key with
    | none => rfl
    | some value =>
      obtain ⟨s, rfl⟩ := h'.bytes hvalue' hkey
      rw [path, path, hvalue, hvalue'] at heq
      cases heq
  | some value =>
    obtain ⟨s, rfl⟩ := h.bytes hvalue hkey
    cases hvalue' : event'.get? key with
    | none =>
      rw [path, path, hvalue, hvalue'] at heq
      cases heq
    | some value' =>
      rw [path, path, hvalue, hvalue'] at heq
      exact congrArg some heq

theorem remap_injective {event' : Event} {later later' : Int} (h : FromJournald event)
    (h' : FromJournald event') (hrecent : Recent now event) (hrecent' : Recent later event')
    (hremap : remap now now' event = some record)
    (hremap' : remap later later' event' = some record) : event = event' := by
  refine AttrSet.ext_get? fun key => ?_
  by_cases hmoved : key ∈ moved
  · rw [← record_labels hremap hmoved, record_labels hremap' hmoved]
  by_cases hmessage : key = "message".toList
  · subst hmessage
    refine path_inj h h' (by decide) ?_
    rw [← record_message hremap, record_message hremap']
  by_cases htimestamp : key = "timestamp".toList
  · subst htimestamp
    obtain ⟨t, ht⟩ := h.stamped
    obtain ⟨t', ht'⟩ := h'.stamped
    have hpaths := (h.record_timestamp hrecent hremap).symm.trans
      (h'.record_timestamp hrecent' hremap')
    rw [path, path, ht, ht'] at hpaths
    rw [ht, ht']
    exact congrArg some hpaths
  by_cases hfield : JournalField key
  · rw [← h.record_structuredMetadata hremap hfield, h'.record_structuredMetadata hremap' hfield]
  · have hother : key ∉ ["host".toList, "message".toList, "source_type".toList,
        "timestamp".toList] := by
      simp only [moved, List.mem_cons, List.not_mem_nil, or_false, not_or] at hmoved ⊢
      exact ⟨hmoved.1, hmessage, hmoved.2, htimestamp⟩
    have hnone : ∀ e : Event, FromJournald e → e.get? key = none := by
      intro e he
      cases hvalue : e.get? key with
      | none => rfl
      | some value => exact absurd (he.keys hvalue) (not_or.mpr ⟨hother, hfield⟩)
    rw [hnone event h, hnone event' h']

theorem remap_lossless {event' : Event} {later later' : Int} (h : FromJournald event)
    (h' : FromJournald event') : (∃ record, remap now now' event = some record) ∧
      (Recent now event → Recent later event' →
        (remap now now' event = remap later later' event' ↔ event = event')) := by
  obtain ⟨record, hremap⟩ := h.completes now now'
  refine ⟨⟨record, hremap⟩, fun hrecent hrecent' => ?_⟩
  constructor
  · intro heq
    exact remap_injective h h' hrecent hrecent' hremap (heq.symm.trans hremap)
  · rintro rfl
    obtain ⟨record', hremap'⟩ := h'.completes later later'
    rw [hremap, hremap']
    obtain ⟨classified, hclassify, rfl⟩ := h.recorded hrecent hremap
    obtain ⟨classified', hclassify', rfl⟩ := h'.recorded hrecent' hremap'
    obtain rfl := Option.some.inj (hclassify.symm.trans hclassify')
    rfl

def unitEvent (name : Str) : Event where
  entries := [(unitKey, .bytes (unit name)), ("timestamp".toList, .timestamp 0)]
  sorted := List.pairwise_pair.mpr (by decide : unitKey < "timestamp".toList)

theorem get?_unitEvent {name key : Str} {value : Value} :
    (unitEvent name).get? key = some value ↔
      (key = unitKey ∧ value = .bytes (unit name)) ∨
        (key = "timestamp".toList ∧ value = .timestamp 0) := by
  rw [AttrSet.get?_eq_some, unitEvent, List.mem_pair, Prod.mk.injEq, Prod.mk.injEq]

theorem unitEvent_fromJournald (name : Str) : FromJournald (unitEvent name) where
  keys hvalue := by
    rcases get?_unitEvent.mp hvalue with ⟨rfl, -⟩ | ⟨rfl, -⟩
    · have hchars : unitKey.all (fun c => c.isUpper || c.isDigit || c == '_') = true := by decide
      refine .inr fun c hc => ?_
      simpa [or_assoc] using List.all_eq_true.mp hchars c hc
    · exact .inl (by decide)
  bytes hvalue hkey := by
    rcases get?_unitEvent.mp hvalue with ⟨-, rfl⟩ | ⟨rfl, -⟩
    · exact ⟨unit name, rfl⟩
    · exact absurd rfl hkey
  stamped := ⟨0, get?_unitEvent.mpr (.inr ⟨rfl, rfl⟩)⟩

theorem unitEvent_recent (name : Str) : Recent 1000000000 (unitEvent name) := by
  intro t ht
  rcases get?_unitEvent.mp ht with ⟨heq, -⟩ | ⟨-, heq⟩
  · exact absurd heq (by decide)
  · obtain rfl := Value.timestamp.inj heq
    decide

theorem remap_lossless_services :
    (∃ record, remap 1000000000 0 (unitEvent "nscd".toList) = some record) ∧
      remap 1000000000 0 (unitEvent "nscd".toList) ≠
        remap 1000000000 0 (unitEvent "loki".toList) := by
  have hlossless : _ ∧ (_ → _ → (remap 1000000000 0 (unitEvent "nscd".toList) =
      remap 1000000000 0 (unitEvent "loki".toList) ↔ _)) :=
    remap_lossless (unitEvent_fromJournald _) (unitEvent_fromJournald _)
  refine ⟨hlossless.1, fun heq => ?_⟩
  have hsame := (hlossless.2 (unitEvent_recent _) (unitEvent_recent _)).mp heq
  exact absurd (congrArg AttrSet.entries hsame) (by decide)

end Journal

end Isz.Journald
