import Isz.Dns.Router
import Mathlib.Data.List.Sort
import Mathlib.Data.List.Lex

namespace Isz.Dns

structure Server where
  host : Str
  oldDns : Bool

abbrev Run (α : Type) := Trace Op Fault α

def emit (dryRun : Bool) (op : Op) : Run Unit := if dryRun then pure () else Trace.send op

def scan (dryRun : Bool) (host resource : Str) (records : List Dict) :
    List Dict → List Dict → Run (Nat × List Dict)
  | [], recordsToAdd => pure (0, recordsToAdd)
  | entry :: entries, recordsToAdd =>
    if entry.lookup "dynamic" = some "true".toList then
      scan dryRun host resource records entries recordsToAdd
    else do
      let record ← Trace.lift (mikrotikToRecord resource entry)
      if record ∈ records then
        if record ∈ recordsToAdd then
          scan dryRun host resource records entries (recordsToAdd.erase record)
        else Trace.raise (.missingElement record)
      else
        let id ← Trace.lift (item entry "id")
        emit dryRun ⟨host, resource, .remove id⟩
        let (count, recordsToAdd) ← scan dryRun host resource records entries recordsToAdd
        pure (count + 1, recordsToAdd)

def sortKey (r : Dict) : Option Str := (r.lookup "name").or (r.lookup "mac-address")

-- None is compared with nothing, and a list of one is sorted without a comparison
def sortRecords (records : List Dict) : Except Fault (List Dict) :=
  if records.length ≤ 1 ∨ ∀ r ∈ records, (sortKey r).isSome then
    .ok (records.insertionSort fun r r' => (sortKey r).getD [] ≤ (sortKey r').getD [])
  else .error .typeError

def insertAll (dryRun : Bool) (server : Server) (resource : Str) : List Dict → Run Nat
  | [] => pure 0
  | entry :: entries => do
    let kwargs ← Trace.lift (del entry "_resource")
    if server.oldDns then
      let type ← Trace.lift (item kwargs "type")
      if type ≠ "A".toList then insertAll dryRun server resource entries
      else
        let kwargs ← Trace.lift (del kwargs "type")
        emit dryRun ⟨server.host, resource, .add kwargs⟩
        let count ← insertAll dryRun server resource entries
        pure (count + 1)
    else
      emit dryRun ⟨server.host, resource, .add kwargs⟩
      let count ← insertAll dryRun server resource entries
      pure (count + 1)

section Update

variable (env : Environment) (dryRun : Bool)

def updateResource (visit : Nat) (server : Server) (resource : Str) (records : List Dict)
    (w : World) : Run Nat := do
  let entries := ((w server.host).tables resource).entries
  let (removed, recordsToAdd) ← scan dryRun server.host resource records entries records
  let ordered ← Trace.lift (sortRecords (env.iter visit resource recordsToAdd))
  let added ← insertAll dryRun server resource ordered
  pure (removed + added)

def inTurn : List (World → Run Nat) → World → Run Nat
  | [], _ => pure 0
  | pass :: passes, w => do
    let count ← pass w
    let rest ← inTurn passes (w.after env (pass w).sent)
    pure (count + rest)

def updateServer (hosts : Hosts) (visit : Nat) (server : Server) (w : World) : Run Nat := do
  let serverRecords ← Trace.lift
    (getRecordsByType env (w server.host).interfaces server.host hosts)
  inTurn env (serverRecords.map fun (resource, records) =>
    updateResource env dryRun visit server resource records) w

def dnsUpdate (hosts : Hosts) (servers : List Server) (w : World) : Run Nat :=
  inTurn env (servers.zipIdx.map fun (server, visit) =>
    updateServer env dryRun hosts visit server) w

end Update

def Live (entry : Dict) : Prop := entry.lookup "dynamic" ≠ some "true".toList

instance (entry : Dict) : Decidable (Live entry) := inferInstanceAs (Decidable (_ ≠ _))

section Scan

variable {host resource : Str} {records : List Dict}

theorem scan_skip {dryRun : Bool} {entry : Dict} {entries recordsToAdd : List Dict}
    (hlive : ¬Live entry) : scan dryRun host resource records (entry :: entries) recordsToAdd =
      scan dryRun host resource records entries recordsToAdd := by
  rw [scan, if_pos (not_not.mp hlive)]

theorem scan_keep {dryRun : Bool} {entry : Dict} {entries recordsToAdd : List Dict}
    (hcarries : Carries entry) (hlive : Live entry) (hmem : recordOf resource entry ∈ records) :
    scan dryRun host resource records (entry :: entries) recordsToAdd =
      if recordOf resource entry ∈ recordsToAdd then
        scan dryRun host resource records entries (recordsToAdd.erase (recordOf resource entry))
      else Trace.raise (.missingElement (recordOf resource entry)) := by
  rw [scan, if_neg hlive, mikrotikToRecord_eq hcarries, Trace.lift_ok_bind, if_pos hmem]

theorem scan_stale {dryRun : Bool} {entry : Dict} {entries recordsToAdd : List Dict} {id : Str}
    (hcarries : Carries entry) (hid : entry.lookup "id" = some id) (hlive : Live entry)
    (hmem : recordOf resource entry ∉ records) :
    scan dryRun host resource records (entry :: entries) recordsToAdd =
      emit dryRun ⟨host, resource, .remove id⟩ >>= fun _ =>
      scan dryRun host resource records entries recordsToAdd >>= fun (count, recordsToAdd) =>
      pure (count + 1, recordsToAdd) := by
  rw [scan, if_neg hlive, mikrotikToRecord_eq hcarries, Trace.lift_ok_bind, if_neg hmem,
    item_eq_ok.mpr hid, Trace.lift_ok_bind]

def matched (resource : Str) (records entries : List Dict) : List Dict :=
  (entries.filter fun e => Live e ∧ recordOf resource e ∈ records).map (recordOf resource)

def stale (resource : Str) (records entries : List Dict) : List Str :=
  (entries.filter fun e => Live e ∧ recordOf resource e ∉ records).map fun e =>
    (e.lookup "id").getD []

theorem matched_keep {entry : Dict} {entries : List Dict}
    (h : Live entry ∧ recordOf resource entry ∈ records) :
    matched resource records (entry :: entries) =
      recordOf resource entry :: matched resource records entries := by
  simp only [matched, List.filter_cons, h, and_self, decide_true, if_true, List.map_cons]

theorem matched_skip {entry : Dict} {entries : List Dict}
    (h : ¬(Live entry ∧ recordOf resource entry ∈ records)) :
    matched resource records (entry :: entries) = matched resource records entries := by
  rw [matched, List.filter_cons_of_neg (by simpa using h)]
  rfl

theorem stale_keep {entry : Dict} {entries : List Dict} {id : Str}
    (h : Live entry ∧ recordOf resource entry ∉ records) (hid : entry.lookup "id" = some id) :
    stale resource records (entry :: entries) = id :: stale resource records entries := by
  simp only [stale, List.filter_cons, h, and_self, not_false_eq_true, decide_true, if_true,
    List.map_cons, hid, Option.getD_some]

theorem stale_skip {entry : Dict} {entries : List Dict}
    (h : ¬(Live entry ∧ recordOf resource entry ∉ records)) :
    stale resource records (entry :: entries) = stale resource records entries := by
  rw [stale, List.filter_cons_of_neg (by simpa using h)]
  rfl

theorem scan_returns {entries recordsToAdd : List Dict} (hcarries : ∀ e ∈ entries, Carries e)
    (hnodup : recordsToAdd.Nodup) :
    (scan false host resource records entries recordsToAdd).Returns ↔
      (matched resource records entries).Nodup ∧
        ∀ r ∈ matched resource records entries, r ∈ recordsToAdd := by
  induction entries generalizing recordsToAdd with
  | nil =>
    refine ⟨fun _ => ⟨List.nodup_nil, fun r hr => ?_⟩, fun _ => ⟨_, rfl⟩⟩
    cases hr
  | cons entry entries ih =>
    have hentry := hcarries entry List.mem_cons_self
    replace ih := fun {recordsToAdd} hnodup => @ih recordsToAdd
      (fun e he => hcarries e (List.mem_cons_of_mem _ he)) hnodup
    by_cases hlive : Live entry
    · by_cases hmem : recordOf resource entry ∈ records
      · rw [scan_keep hentry hlive hmem, matched_keep ⟨hlive, hmem⟩]
        split
        case isTrue hadd =>
          rw [ih (hnodup.erase _), List.nodup_cons, List.forall_mem_cons]
          simp only [hnodup.mem_erase_iff]
          constructor
          · rintro ⟨hrest, hall⟩
            exact ⟨⟨fun h => (hall _ h).1 rfl, hrest⟩, hadd, fun r hr => (hall r hr).2⟩
          · rintro ⟨⟨hnot, hrest⟩, -, hall⟩
            refine ⟨hrest, fun r hr => ⟨?_, hall r hr⟩⟩
            rintro rfl
            exact hnot hr
        case isFalse hadd =>
          constructor
          · rintro ⟨_, hresult⟩
            cases hresult
          · rintro ⟨-, hall⟩
            exact absurd (hall _ List.mem_cons_self) hadd
      · obtain ⟨id, hid⟩ := Finmap.mem_iff.mp hentry.1
        rw [scan_stale hentry hid hlive hmem, matched_skip (fun h => hmem h.2), ← ih hnodup]
        simp only [Trace.returns_bind]
        constructor
        · rintro ⟨-, -, ⟨count, rest⟩, hrest, -⟩
          exact ⟨_, hrest⟩
        · rintro ⟨⟨count, rest⟩, hrest⟩
          exact ⟨(), rfl, _, hrest, _, rfl⟩
    · rw [scan_skip hlive, matched_skip (fun h => hlive h.1)]
      exact ih hnodup

theorem scan_result {entries recordsToAdd : List Dict} (hcarries : ∀ e ∈ entries, Carries e)
    {count : Nat} {rest : List Dict}
    (h : (scan false host resource records entries recordsToAdd).result = .ok (count, rest)) :
    count = (stale resource records entries).length ∧
    rest = recordsToAdd.diff (matched resource records entries) ∧
    (scan false host resource records entries recordsToAdd).sent =
      (stale resource records entries).map fun id => ⟨host, resource, .remove id⟩ := by
  induction entries generalizing recordsToAdd count with
  | nil =>
    obtain ⟨rfl, rfl⟩ := Prod.mk.inj (Except.ok.inj h)
    exact ⟨rfl, rfl, rfl⟩
  | cons entry entries ih =>
    have hentry := hcarries entry List.mem_cons_self
    replace ih := fun {recordsToAdd count} h => @ih recordsToAdd
      (fun e he => hcarries e (List.mem_cons_of_mem _ he)) count h
    by_cases hlive : Live entry
    · by_cases hmem : recordOf resource entry ∈ records
      · rw [scan_keep hentry hlive hmem] at h ⊢
        rw [matched_keep ⟨hlive, hmem⟩, stale_skip (fun h => h.2 hmem), List.diff_cons]
        split at h
        case isTrue hadd =>
          rw [if_pos hadd]
          exact ih h
        case isFalse => cases h
      · obtain ⟨id, hid⟩ := Finmap.mem_iff.mp hentry.1
        rw [scan_stale hentry hid hlive hmem] at h ⊢
        rw [matched_skip (fun h => hmem h.2), stale_keep ⟨hlive, hmem⟩ hid]
        obtain ⟨_, -, hbind⟩ := Trace.bind_result_eq_ok.mp h
        obtain ⟨⟨count', rest'⟩, hscan, hpair⟩ := Trace.bind_result_eq_ok.mp hbind
        obtain ⟨rfl, rfl⟩ := Prod.mk.inj (Except.ok.inj hpair)
        obtain ⟨rfl, rfl, hsent⟩ := ih hscan
        refine ⟨rfl, rfl, ?_⟩
        rw [Trace.bind_sent rfl, Trace.bind_sent hscan, hsent]
        simp [emit, Trace.send]
    · rw [scan_skip hlive] at h ⊢
      rw [matched_skip (fun h => hlive h.1), stale_skip (fun h => hlive h.1)]
      exact ih h

theorem mem_matched {entries : List Dict} {r : Dict} :
    r ∈ matched resource records entries ↔
      r ∈ records ∧ ∃ e ∈ entries, Live e ∧ recordOf resource e = r := by
  simp only [matched, List.mem_map, List.mem_filter, decide_eq_true_eq]
  constructor
  · rintro ⟨e, ⟨he, hlive, hmem⟩, rfl⟩
    exact ⟨hmem, e, he, hlive, rfl⟩
  · rintro ⟨hmem, e, he, hlive, rfl⟩
    exact ⟨e, ⟨he, hlive, hmem⟩, rfl⟩

def missing (resource : Str) (records entries : List Dict) : List Dict :=
  records.diff (matched resource records entries)

theorem missing_nodup {entries : List Dict} (h : records.Nodup) :
    (missing resource records entries).Nodup := h.diff

theorem mem_missing {entries : List Dict} (h : records.Nodup) {r : Dict} :
    r ∈ missing resource records entries ↔
      r ∈ records ∧ ∀ e ∈ entries, Live e → recordOf resource e ≠ r := by
  rw [missing, h.mem_sdiff_iff, mem_matched]
  constructor
  · rintro ⟨hr, hnot⟩
    exact ⟨hr, fun e he hlive heq => hnot ⟨hr, e, he, hlive, heq⟩⟩
  · rintro ⟨hr, hall⟩
    refine ⟨hr, ?_⟩
    rintro ⟨-, e, he, hlive, heq⟩
    exact hall e he hlive heq

end Scan

def Sortable (records : List Dict) : Prop :=
  records.length ≤ 1 ∨ ∀ r ∈ records, (sortKey r).isSome

theorem sortable_congr {records records' : List Dict} (h : records.Perm records') :
    Sortable records ↔ Sortable records' := by
  simp only [Sortable, h.length_eq, h.mem_iff]

theorem sortRecords_eq_ok {records : List Dict} :
    (∃ ordered, sortRecords records = .ok ordered) ↔ Sortable records := by
  simp only [sortRecords]
  split
  case isTrue h => exact ⟨fun _ => h, fun _ => ⟨_, rfl⟩⟩
  case isFalse h =>
    constructor
    · rintro ⟨_, hok⟩
      cases hok
    · exact fun hsort => absurd hsort h

theorem sortRecords_perm {records ordered : List Dict} (h : sortRecords records = .ok ordered) :
    ordered.Perm records := by
  simp only [sortRecords] at h
  split at h
  case isTrue =>
    obtain rfl := Except.ok.inj h
    exact List.perm_insertionSort _ _
  case isFalse => cases h

def Skips (server : Server) (r : Dict) : Prop :=
  server.oldDns = true ∧ "type" ∈ r ∧ r.lookup "type" ≠ some "A".toList

instance (server : Server) (r : Dict) : Decidable (Skips server r) :=
  inferInstanceAs (Decidable (_ ∧ _ ∧ _))

theorem not_skips {server : Server} (hold : server.oldDns = false) (r : Dict) :
    ¬Skips server r := fun h => absurd (hold.symm.trans h.1) (by decide)

def addKwargs (server : Server) (r : Dict) : Dict :=
  if server.oldDns then (r.erase "_resource").erase "type" else r.erase "_resource"

section Insert

variable {dryRun : Bool} {server : Server} {resource : Str}

theorem insertAll_new {r : Dict} {records : List Dict} (hresource : "_resource" ∈ r)
    (hold : server.oldDns = false) :
    insertAll dryRun server resource (r :: records) =
      emit dryRun ⟨server.host, resource, .add (r.erase "_resource")⟩ >>= fun _ =>
      insertAll dryRun server resource records >>= fun count => pure (count + 1) := by
  rw [insertAll, del_eq hresource, Trace.lift_ok_bind, if_neg (by simp [hold])]

theorem insertAll_old {r : Dict} {records : List Dict} {type : Str}
    (hresource : "_resource" ∈ r) (htype : r.lookup "type" = some type)
    (hold : server.oldDns = true) :
    insertAll dryRun server resource (r :: records) =
      if type ≠ "A".toList then insertAll dryRun server resource records
      else
        emit dryRun ⟨server.host, resource, .add ((r.erase "_resource").erase "type")⟩ >>= fun _ =>
        insertAll dryRun server resource records >>= fun count => pure (count + 1) := by
  have hlookup : (r.erase "_resource").lookup "type" = some type := by
    rwa [Finmap.lookup_erase_ne (by decide)]
  rw [insertAll, del_eq hresource, Trace.lift_ok_bind, if_pos hold, item_eq_ok.mpr hlookup,
    Trace.lift_ok_bind, del_eq (Finmap.mem_of_lookup_eq_some hlookup), Trace.lift_ok_bind]

theorem insertAll_untyped {r : Dict} {records : List Dict} (hresource : "_resource" ∈ r)
    (htype : "type" ∉ r) (hold : server.oldDns = true) :
    ¬(insertAll dryRun server resource (r :: records)).Returns := by
  have hlookup : (r.erase "_resource").lookup "type" = none := by
    rwa [Finmap.lookup_erase_ne (by decide), Finmap.lookup_eq_none]
  rintro ⟨count, hcount⟩
  rw [insertAll, del_eq hresource, Trace.lift_ok_bind, if_pos hold, item, hlookup,
    Trace.lift_error_bind] at hcount
  cases hcount

theorem counted_returns {op : Op} {x : Run Nat} :
    (emit dryRun op >>= fun _ => x >>= fun count => pure (count + 1)).Returns ↔ x.Returns := by
  simp only [Trace.returns_bind]
  constructor
  · rintro ⟨-, -, count, hcount, -⟩
    exact ⟨count, hcount⟩
  · rintro ⟨count, hcount⟩
    refine ⟨(), ?_, count, hcount, _, rfl⟩
    cases dryRun <;> rfl

theorem insertAll_returns {records : List Dict} (hresource : ∀ r ∈ records, "_resource" ∈ r) :
    (insertAll dryRun server resource records).Returns ↔
      (server.oldDns = true → ∀ r ∈ records, "type" ∈ r) := by
  induction records with
  | nil =>
    refine ⟨fun _ _ r hr => ?_, fun _ => ⟨0, rfl⟩⟩
    cases hr
  | cons r records ih =>
    have hr := hresource r List.mem_cons_self
    replace ih := ih fun r hr => hresource r (List.mem_cons_of_mem _ hr)
    cases hold : server.oldDns with
    | false =>
      rw [insertAll_new hr hold, counted_returns, ih, hold]
      simp
    | true =>
      by_cases htype : "type" ∈ r
      · obtain ⟨type, hlookup⟩ := Finmap.mem_iff.mp htype
        have hrest : (insertAll dryRun server resource (r :: records)).Returns ↔
            (insertAll dryRun server resource records).Returns := by
          rw [insertAll_old hr hlookup hold]
          split
          · rfl
          · exact counted_returns
        rw [hrest, ih, hold]
        simp [htype]
      · refine ⟨fun h => absurd h (insertAll_untyped hr htype hold), fun h => ?_⟩
        exact absurd (h rfl r List.mem_cons_self) htype

theorem insertAll_sent {records : List Dict} (hresource : ∀ r ∈ records, "_resource" ∈ r)
    (htyped : server.oldDns = true → ∀ r ∈ records, "type" ∈ r) :
    (insertAll false server resource records).sent =
      (records.filter fun r => ¬Skips server r).map fun r =>
        ⟨server.host, resource, .add (addKwargs server r)⟩ := by
  induction records with
  | nil => rfl
  | cons r records ih =>
    have hr := hresource r List.mem_cons_self
    have hrest : ∀ r ∈ records, "_resource" ∈ r := fun r hr =>
      hresource r (List.mem_cons_of_mem _ hr)
    have htyped' : server.oldDns = true → ∀ r ∈ records, "type" ∈ r := fun hold r hr =>
      htyped hold r (List.mem_cons_of_mem _ hr)
    obtain ⟨count, hcount⟩ : (insertAll false server resource records).Returns :=
      (insertAll_returns hrest).mpr htyped'
    replace ih := ih hrest htyped'
    have hemit : ∀ kwargs, (emit false ⟨server.host, resource, .add kwargs⟩ >>= fun _ =>
        insertAll false server resource records >>= fun count => pure (count + 1)).sent =
          ⟨server.host, resource, .add kwargs⟩ ::
            (insertAll false server resource records).sent := fun kwargs => by
      rw [Trace.bind_sent rfl, Trace.bind_sent hcount]
      simp [emit, Trace.send]
    cases hold : server.oldDns with
    | false =>
      rw [insertAll_new hr hold, hemit, ih,
        List.filter_cons_of_pos (by simpa using not_skips hold r),
        List.map_cons, addKwargs, if_neg (by simp [hold])]
    | true =>
      obtain ⟨type, htype⟩ := Finmap.mem_iff.mp (htyped hold r List.mem_cons_self)
      rw [insertAll_old hr htype hold]
      split
      case isTrue hother =>
        have hskips : Skips server r :=
          ⟨hold, Finmap.mem_of_lookup_eq_some htype, fun heq =>
            hother (Option.some.inj (htype.symm.trans heq))⟩
        rw [ih, List.filter_cons_of_neg (by simpa using hskips)]
      case isFalse hsame =>
        have hskips : ¬Skips server r := fun hskip =>
          hskip.2.2 (htype.trans (congrArg some (not_not.mp hsame)))
        rw [hemit, ih, List.filter_cons_of_pos (by simpa using hskips), List.map_cons, addKwargs,
          if_pos hold]

end Insert

end Isz.Dns
