import Isz.Dns.Zone
import Isz.Library.Except
import Isz.Library.Trace

namespace Isz.Dns

def Carries (entry : Dict) : Prop := "id" ∈ entry ∧ "dynamic" ∈ entry ∧ "disabled" ∈ entry

structure Table where
  entries : List Dict
  carries : ∀ entry ∈ entries, Carries entry
  distinct : (entries.map fun entry => entry.lookup "id").Nodup

structure Interfaces where
  addresses : List (Str × Str)
  dhcpServers : List (Str × Str)

structure Router where
  tables : Str → Table
  interfaces : Interfaces

abbrev World := Str → Router

-- netaddr, and the two choices the program leaves to others: the order in which a set is
-- iterated and the id of a new row
structure Environment where
  Network : Type
  decEq : DecidableEq Network
  cidr : Str → Network
  contains : Network → Str → Bool
  iter : Nat → Str → List Dict → List Dict
  iter_perm : ∀ visit resource records, (iter visit resource records).Perm records
  newId : List Dict → Str
  newId_fresh : ∀ entries, ∀ entry ∈ entries, entry.lookup "id" ≠ some (newId entries)

def ids (entries : List Dict) : Str := entries.flatMap fun entry => (entry.lookup "id").getD []

theorem length_le_ids {entries : List Dict} {entry : Dict} {id : Str} (h : entry ∈ entries)
    (hid : entry.lookup "id" = some id) : id.length ≤ (ids entries).length := by
  obtain ⟨before, after, rfl⟩ := List.append_of_mem h
  simp [ids, hid]
  omega

def plainEnvironment : Environment where
  Network := Str
  decEq := inferInstance
  cidr := fun address => address
  contains := fun _ _ => false
  iter := fun _ _ records => records
  iter_perm := fun _ _ records => List.Perm.refl records
  newId := fun entries => '*' :: ids entries
  newId_fresh := fun entries entry h hid => by
    have := length_le_ids h hid
    simp at this

inductive Request where
  | remove (id : Str)
  | add (kwargs : Dict)

structure Op where
  host : Str
  resource : Str
  request : Request

def stored (id : Str) (kwargs : Dict) : Dict :=
  ((kwargs.insert "id" id).insert "dynamic" "false".toList).insert "disabled" "false".toList

theorem lookup_id_stored (id : Str) (kwargs : Dict) : (stored id kwargs).lookup "id" = some id := by
  rw [stored, Finmap.lookup_insert_of_ne _ (by decide), Finmap.lookup_insert_of_ne _ (by decide),
    Finmap.lookup_insert]

theorem stored_carries (id : Str) (kwargs : Dict) : Carries (stored id kwargs) := by
  simp [Carries, stored, Finmap.mem_insert]

def Table.remove (t : Table) (id : Str) : Table where
  entries := t.entries.filter fun entry => entry.lookup "id" ≠ some id
  carries := fun entry h => t.carries entry (List.mem_of_mem_filter h)
  distinct := t.distinct.sublist (List.filter_sublist.map _)

def Table.add (env : Environment) (t : Table) (kwargs : Dict) : Table where
  entries := t.entries ++ [stored (env.newId t.entries) kwargs]
  carries := by
    intro entry h
    rcases List.mem_append.mp h with hold | hnew
    · exact t.carries entry hold
    · obtain rfl := List.mem_singleton.mp hnew
      exact stored_carries _ _
  distinct := by
    rw [List.map_append, List.nodup_append]
    refine ⟨t.distinct, List.nodup_singleton _, ?_⟩
    intro a ha b hb
    obtain ⟨entry, hentry, rfl⟩ := List.mem_map.mp ha
    rw [List.map_singleton, List.mem_singleton, lookup_id_stored] at hb
    subst hb
    exact env.newId_fresh t.entries entry hentry

def Table.apply (env : Environment) (t : Table) : Request → Table
  | .remove id => t.remove id
  | .add kwargs => t.add env kwargs

def World.apply (env : Environment) (w : World) (op : Op) : World := fun host =>
  if host = op.host then
    { w host with
      tables := fun resource =>
        if resource = op.resource then ((w host).tables resource).apply env op.request
        else (w host).tables resource }
  else w host

def World.after (env : Environment) (w : World) (ops : List Op) : World :=
  ops.foldl (World.apply env) w

def del (d : Dict) (key : String) : Except Fault Dict := do
  let _ ← item d key
  pure (d.erase key)

def leaseDynamicKeys : List String :=
  ["status", "expires-after", "last-seen", "active-server", "active-address",
    "active-mac-address", "active-client-id", "class-id", "host-name", "radius", "blocked"]

def defaults (resourceType : Str) (out : Dict) : Dict :=
  if resourceType = dnsStatic then
    if "type" ∈ out then out else out.insert "type" "A".toList
  else if resourceType = dhcpLease then
    (out.keep fun key _ => key ∉ leaseDynamicKeys).keep fun _ value => value ≠ []
  else out

def mikrotikToRecord (resourceType : Str) (entry : Dict) : Except Fault Dict := do
  let out := entry.insert "_resource" resourceType
  let out ← del out "id"
  let out ← del out "dynamic"
  let out ← del out "disabled"
  pure (defaults resourceType out)

theorem item_eq_ok {d : Dict} {key : String} {value : Str} :
    item d key = .ok value ↔ d.lookup key = some value := by
  simp only [item]
  cases d.lookup key <;> simp

theorem del_eq {d : Dict} {key : String} (h : key ∈ d) : del d key = .ok (d.erase key) := by
  obtain ⟨value, hvalue⟩ := Finmap.mem_iff.mp h
  rw [del, item_eq_ok.mpr hvalue]
  rfl

def bare (resourceType : Str) (entry : Dict) : Dict :=
  (((entry.insert "_resource" resourceType).erase "id").erase "dynamic").erase "disabled"

def recordOf (resourceType : Str) (entry : Dict) : Dict :=
  defaults resourceType (bare resourceType entry)

theorem mikrotikToRecord_eq {resourceType : Str} {entry : Dict} (h : Carries entry) :
    mikrotikToRecord resourceType entry = .ok (recordOf resourceType entry) := by
  obtain ⟨hid, hdynamic, hdisabled⟩ := h
  have h1 : "id" ∈ entry.insert "_resource" resourceType :=
    Finmap.mem_insert.mpr (.inr hid)
  have h2 : "dynamic" ∈ (entry.insert "_resource" resourceType).erase "id" :=
    Finmap.mem_erase.mpr ⟨by decide, Finmap.mem_insert.mpr (.inr hdynamic)⟩
  have h3 : "disabled" ∈ ((entry.insert "_resource" resourceType).erase "id").erase "dynamic" :=
    Finmap.mem_erase.mpr ⟨by decide, Finmap.mem_erase.mpr ⟨by decide,
      Finmap.mem_insert.mpr (.inr hdisabled)⟩⟩
  simp only [mikrotikToRecord, del_eq h1, del_eq h2, del_eq h3, recordOf, bare,
    Except.ok_bind, Except.pure_eq_ok]

def rowKeys : List String := ["id", "dynamic", "disabled"]

theorem lookup_bare (resourceType : Str) (entry : Dict) (key : String) :
    (bare resourceType entry).lookup key =
      if key ∈ rowKeys then none
      else if key = "_resource" then some resourceType else entry.lookup key := by
  simp only [bare]
  by_cases hdisabled : key = "disabled"
  · subst hdisabled
    rw [Finmap.lookup_erase, if_pos (by decide)]
  rw [Finmap.lookup_erase_ne hdisabled]
  by_cases hdynamic : key = "dynamic"
  · subst hdynamic
    rw [Finmap.lookup_erase, if_pos (by decide)]
  rw [Finmap.lookup_erase_ne hdynamic]
  by_cases hid : key = "id"
  · subst hid
    rw [Finmap.lookup_erase, if_pos (by decide)]
  rw [Finmap.lookup_erase_ne hid, if_neg (by simp [rowKeys, hid, hdynamic, hdisabled])]
  split
  case isTrue h =>
    subst h
    exact Finmap.lookup_insert _
  case isFalse h => exact Finmap.lookup_insert_of_ne _ h

structure Plain (resourceType : Str) (r : Dict) : Prop where
  rowKeys : ∀ key ∈ rowKeys, r.lookup key = none
  typed : resourceType = dnsStatic → "type" ∈ r
  lasting : resourceType = dhcpLease → ∀ key value, r.lookup key = some value →
    key ∉ leaseDynamicKeys ∧ value ≠ []

theorem dnsStatic_ne_dhcpLease : dnsStatic ≠ dhcpLease := by decide

theorem defaults_plain {resourceType : Str} {out : Dict}
    (h : ∀ key ∈ rowKeys, out.lookup key = none) :
    Plain resourceType (defaults resourceType out) := by
  by_cases hstatic : resourceType = dnsStatic
  · subst hstatic
    by_cases htype : "type" ∈ out
    · simp only [defaults, if_true, if_pos htype]
      exact ⟨h, fun _ => htype, fun heq => absurd heq dnsStatic_ne_dhcpLease⟩
    · simp only [defaults, if_true, if_neg htype]
      refine ⟨fun key hkey => ?_, fun _ => Finmap.mem_insert.mpr (.inl rfl),
        fun heq => absurd heq dnsStatic_ne_dhcpLease⟩
      rw [Finmap.lookup_insert_of_ne _ (by rintro rfl; exact absurd hkey (by decide))]
      exact h key hkey
  · by_cases hlease : resourceType = dhcpLease
    · simp only [defaults, if_neg hstatic, if_pos hlease]
      refine ⟨fun key hkey => ?_, fun heq => absurd heq hstatic, fun _ key value hvalue => ?_⟩
      · simp [Finmap.lookup_keep, h key hkey]
      · simp only [Finmap.lookup_keep, Option.filter_eq_some_iff, decide_eq_true_eq] at hvalue
        exact ⟨hvalue.1.2, hvalue.2⟩
    · simp only [defaults, if_neg hstatic, if_neg hlease]
      exact ⟨h, fun heq => absurd heq hstatic, fun heq => absurd heq hlease⟩

theorem defaults_eq_self {resourceType : Str} {r : Dict} (h : Plain resourceType r) :
    defaults resourceType r = r := by
  by_cases hstatic : resourceType = dnsStatic
  · simp only [defaults, if_pos hstatic, if_pos (h.typed hstatic)]
  · by_cases hlease : resourceType = dhcpLease
    · simp only [defaults, if_neg hstatic, if_pos hlease]
      refine Finmap.ext_lookup fun key => ?_
      rw [Finmap.lookup_keep, Finmap.lookup_keep]
      cases hvalue : r.lookup key with
      | none => rfl
      | some value =>
        obtain ⟨hkey, hne⟩ := h.lasting hlease key value hvalue
        simp [Option.filter, hkey, hne]
    · simp only [defaults, if_neg hstatic, if_neg hlease]

theorem recordOf_plain (resourceType : Str) (entry : Dict) :
    Plain resourceType (recordOf resourceType entry) := by
  refine defaults_plain fun key hkey => ?_
  rw [lookup_bare, if_pos hkey]

theorem bare_stored {resourceType id : Str} {r : Dict}
    (hresource : r.lookup "_resource" = some resourceType)
    (hrows : ∀ key ∈ rowKeys, r.lookup key = none) :
    bare resourceType (stored id (r.erase "_resource")) = r := by
  refine Finmap.ext_lookup fun key => ?_
  rw [lookup_bare]
  split
  case isTrue hkey => exact (hrows key hkey).symm
  case isFalse hkey =>
    split
    case isTrue heq =>
      subst heq
      exact hresource.symm
    case isFalse hne =>
      simp only [rowKeys, List.mem_cons, List.not_mem_nil, or_false, not_or] at hkey
      rw [stored, Finmap.lookup_insert_of_ne _ hkey.2.2, Finmap.lookup_insert_of_ne _ hkey.2.1,
        Finmap.lookup_insert_of_ne _ hkey.1, Finmap.lookup_erase_ne hne]

theorem recordOf_stored {resourceType : Str} (id : Str) {r : Dict}
    (hresource : r.lookup "_resource" = some resourceType) (h : Plain resourceType r) :
    recordOf resourceType (stored id (r.erase "_resource")) = r := by
  rw [recordOf, bare_stored hresource h.rowKeys, defaults_eq_self h]

section Server

variable (env : Environment) (interfaces : Interfaces)

def dhcpServerByNetwork : List (env.Network × Str) :=
  let _ := env.decEq
  let networks := interfaces.addresses.foldl
    (fun networks (interface, address) => assign networks interface (env.cidr address)) []
  interfaces.dhcpServers.foldl (fun out (interface, name) =>
    match networks.lookup interface with
    | some network => assign out network name
    | none => out) []

def getDhcpServerForAddress (address : Str) : Option Str :=
  ((dhcpServerByNetwork env interfaces).find? fun (network, _) =>
    env.contains network address).map Prod.snd

def leaseRecord (r : Dict) : Option Dict :=
  match r.lookup "address" with
  | none => some r
  | some address =>
    match getDhcpServerForAddress env interfaces address with
    | none => none
    | some server => if server = [] then none else some (r.insert "server" server)

def serverRecord (host : Str) (r : Dict) : Except Fault (Option Dict) :=
  if r.lookup "forward-to" = some host then .ok none
  else do
    let resource ← item r "_resource"
    pure (if resource = dhcpLease then leaseRecord env interfaces r else some r)

abbrev ServerRecords := List (Str × List Dict)

-- server_records[resource].add(r) on a defaultdict(set)
def addRecord : ServerRecords → Str → Dict → ServerRecords
  | [], resource, r => [(resource, [r])]
  | (resource', records) :: rest, resource, r =>
    if resource' = resource then (resource', records.insert r) :: rest
    else (resource', records) :: addRecord rest resource r

def addServerRecord (host : Str) (records : ServerRecords) (r : Dict) :
    Except Fault ServerRecords := do
  match ← serverRecord env interfaces host r with
  | none => pure records
  | some r =>
    let resource ← item r "_resource"
    pure (addRecord records resource r)

def getRecordsByType (host : Str) (hosts : Hosts) : Except Fault ServerRecords :=
  (hosts.flatMap Prod.snd).foldlM (addServerRecord env interfaces host) []

def Selected (host : Str) (rs : List Dict) (resource : Str) (r : Dict) : Prop :=
  r.lookup "_resource" = some resource ∧
    ∃ r₀ ∈ rs, serverRecord env interfaces host r₀ = .ok (some r)

def Requires (host : Str) (hosts : Hosts) : Str → Dict → Prop :=
  Selected env interfaces host (hosts.flatMap Prod.snd)

theorem addRecord_keys (records : ServerRecords) (resource : Str) (r : Dict) :
    (addRecord records resource r).map Prod.fst =
      if resource ∈ records.map Prod.fst then records.map Prod.fst
      else records.map Prod.fst ++ [resource] := by
  induction records with
  | nil => rfl
  | cons entry records ih =>
    obtain ⟨resource', set⟩ := entry
    by_cases heq : resource' = resource
    · simp [addRecord, heq]
    · have heq' : ¬resource = resource' := fun h => heq h.symm
      simp only [addRecord, if_neg heq, List.map_cons, ih, List.mem_cons, heq', false_or]
      split <;> rfl

theorem mem_addRecord {records : ServerRecords} {resource : Str} {r : Dict}
    (hdistinct : (records.map Prod.fst).Nodup) {key : Str} {set : List Dict} :
    (key, set) ∈ addRecord records resource r ↔
      key ≠ resource ∧ (key, set) ∈ records ∨
      key = resource ∧ ((∃ old, (resource, old) ∈ records ∧ set = old.insert r) ∨
        resource ∉ records.map Prod.fst ∧ set = [r]) := by
  induction records with
  | nil => simp [addRecord]
  | cons entry records ih =>
    obtain ⟨resource', set'⟩ := entry
    simp only [List.map_cons, List.nodup_cons] at hdistinct
    by_cases heq : resource' = resource
    · subst heq
      have hnot : ∀ old, (resource', old) ∉ records := fun old hmem =>
        hdistinct.1 (List.mem_map_of_mem (f := Prod.fst) hmem)
      simp only [addRecord, if_true, List.mem_cons, Prod.mk.injEq, List.map_cons, true_or,
        true_and, not_true_eq_false, false_and, or_false]
      constructor
      · rintro (⟨rfl, rfl⟩ | hmem)
        · exact .inr ⟨rfl, set', .inl rfl, rfl⟩
        · have hne : key ≠ resource' := by
            rintro rfl
            exact hnot set hmem
          exact .inl ⟨hne, .inr hmem⟩
      · rintro (⟨hne, ⟨rfl, rfl⟩ | hmem⟩ | ⟨rfl, old, rfl | hmem, rfl⟩)
        · exact absurd rfl hne
        · exact .inr hmem
        · exact .inl ⟨rfl, rfl⟩
        · exact absurd hmem (hnot old)
    · have heq' : ¬resource = resource' := fun h => heq h.symm
      simp only [addRecord, if_neg heq, List.mem_cons, Prod.mk.injEq, ih hdistinct.2,
        List.map_cons, heq', false_and, false_or]
      constructor
      · rintro (⟨rfl, rfl⟩ | ⟨hne, hmem⟩ | hnew)
        · exact .inl ⟨heq, .inl ⟨rfl, rfl⟩⟩
        · exact .inl ⟨hne, .inr hmem⟩
        · exact .inr hnew
      · rintro (⟨hne, ⟨rfl, rfl⟩ | hmem⟩ | hnew)
        · exact .inl ⟨rfl, rfl⟩
        · exact .inr (.inl ⟨hne, hmem⟩)
        · exact .inr (.inr hnew)

structure Grouped (records : ServerRecords) (p : Str → Dict → Prop) : Prop where
  distinct : (records.map Prod.fst).Nodup
  sets : ∀ resource set, (resource, set) ∈ records →
    set ≠ [] ∧ set.Nodup ∧ ∀ r, r ∈ set ↔ p resource r
  complete : ∀ resource r, p resource r → resource ∈ records.map Prod.fst

theorem addRecord_grouped {records : ServerRecords} {p : Str → Dict → Prop} {resource : Str}
    {r : Dict} (h : Grouped records p) : Grouped (addRecord records resource r)
      fun resource' r' => p resource' r' ∨ resource' = resource ∧ r' = r := by
  refine ⟨?_, fun key set hmem => ?_, fun key r' hp => ?_⟩
  · rw [addRecord_keys]
    split
    case isTrue => exact h.distinct
    case isFalse hnew => exact List.nodup_append.mpr ⟨h.distinct, List.nodup_singleton _,
        fun a ha b hb => by
          rintro rfl
          exact hnew (List.mem_singleton.mp hb ▸ ha)⟩
  · rcases (mem_addRecord h.distinct).mp hmem with
      ⟨hne, hold⟩ | ⟨rfl, ⟨old, hold, rfl⟩ | ⟨hnew, rfl⟩⟩
    · simpa [hne] using h.sets key set hold
    · obtain ⟨hnil, hnodup, hmem⟩ := h.sets key old hold
      refine ⟨List.ne_nil_of_mem (List.mem_insert_self (a := r)), hnodup.insert, fun r' => ?_⟩
      rw [List.mem_insert_iff, hmem r', or_comm]
      simp
    · have hnone : ∀ r', ¬p key r' := fun r' hp => hnew (h.complete key r' hp)
      exact ⟨List.cons_ne_nil _ _, List.nodup_singleton _, fun r' => by simp [hnone r']⟩
  · rw [addRecord_keys]
    split
    case isTrue hkey =>
      rcases hp with hp | ⟨rfl, -⟩
      · exact h.complete key r' hp
      · exact hkey
    case isFalse =>
      rcases hp with hp | ⟨rfl, -⟩
      · exact List.mem_append_left _ (h.complete key r' hp)
      · exact List.mem_append_right _ (List.mem_singleton_self _)

theorem addServerRecord_grouped {host : Str} {records records' : ServerRecords} {rs : List Dict}
    {r₀ : Dict} (h : Grouped records (Selected env interfaces host rs))
    (hok : addServerRecord env interfaces host records r₀ = .ok records') :
    Grouped records' (Selected env interfaces host (rs ++ [r₀])) := by
  obtain ⟨selected, hselected, hrest⟩ := Except.bind_eq_ok.mp hok
  cases selected with
  | none =>
    obtain rfl := Except.ok.inj hrest
    have hsame : Selected env interfaces host (rs ++ [r₀]) = Selected env interfaces host rs := by
      funext resource r
      simp [Selected, or_and_right, exists_or, hselected]
    rwa [hsame]
  | some r =>
    obtain ⟨resource, hresource, hadd⟩ := Except.bind_eq_ok.mp hrest
    obtain rfl := Except.ok.inj hadd
    rw [item_eq_ok] at hresource
    have hsame : Selected env interfaces host (rs ++ [r₀]) = fun resource' r' =>
        Selected env interfaces host rs resource' r' ∨ resource' = resource ∧ r' = r := by
      funext resource' r'
      simp only [Selected, List.mem_append, List.mem_singleton, or_and_right, exists_or,
        exists_eq_left, and_or_left, hselected, Except.ok.injEq, Option.some.injEq, eq_iff_iff]
      refine or_congr_right ⟨?_, ?_⟩
      · rintro ⟨hr, rfl⟩
        exact ⟨Option.some.inj (hr.symm.trans hresource), rfl⟩
      · rintro ⟨rfl, rfl⟩
        exact ⟨hresource, rfl⟩
    rw [hsame]
    exact addRecord_grouped h

theorem serverRecord_lookup {host : Str} {r₀ r : Dict}
    (h : serverRecord env interfaces host r₀ = .ok (some r)) {key : String}
    (hkey : key ≠ "server") : r.lookup key = r₀.lookup key := by
  simp only [serverRecord] at h
  split at h
  case isTrue => cases h
  case isFalse =>
    obtain ⟨resource, -, hr⟩ := Except.bind_eq_ok.mp h
    replace hr := Except.ok.inj hr
    split at hr
    case isTrue =>
      simp only [leaseRecord] at hr
      split at hr
      · rw [Option.some.inj hr]
      · split at hr
        · cases hr
        · split at hr
          · cases hr
          · obtain rfl := Option.some.inj hr
            exact Finmap.lookup_insert_of_ne _ hkey
    case isFalse => rw [Option.some.inj hr]

theorem serverRecord_resource {host : Str} {r₀ r : Dict}
    (h : serverRecord env interfaces host r₀ = .ok (some r)) :
    r.lookup "_resource" = r₀.lookup "_resource" :=
  serverRecord_lookup env interfaces h (by decide)

theorem addServerRecord_returns {host : Str} (records : ServerRecords) {r₀ : Dict}
    (h : "_resource" ∈ r₀) :
    ∃ records', addServerRecord env interfaces host records r₀ = .ok records' := by
  obtain ⟨resource, hresource⟩ := Finmap.mem_iff.mp h
  have hselected : ∃ selected, serverRecord env interfaces host r₀ = .ok selected := by
    simp only [serverRecord, item_eq_ok.mpr hresource, Except.ok_bind, Except.pure_eq_ok]
    split <;> exact ⟨_, rfl⟩
  obtain ⟨selected, hselected⟩ := hselected
  simp only [addServerRecord, hselected, Except.ok_bind]
  cases selected with
  | none => exact ⟨records, rfl⟩
  | some r =>
    have hr := (serverRecord_resource env interfaces hselected).trans hresource
    simp only [item_eq_ok.mpr hr, Except.ok_bind, Except.pure_eq_ok]
    exact ⟨_, rfl⟩

theorem foldlM_grouped {host : Str} {rs rest : List Dict} {records records' : ServerRecords}
    (h : Grouped records (Selected env interfaces host rs))
    (hok : rest.foldlM (addServerRecord env interfaces host) records = .ok records') :
    Grouped records' (Selected env interfaces host (rs ++ rest)) := by
  induction rest generalizing rs records with
  | nil =>
    obtain rfl := Except.ok.inj hok
    rwa [List.append_nil]
  | cons r₀ rest ih =>
    rw [List.foldlM_cons] at hok
    obtain ⟨next, hnext, hrest⟩ := Except.bind_eq_ok.mp hok
    have := ih (addServerRecord_grouped env interfaces h hnext) hrest
    rwa [List.append_assoc] at this

theorem getRecordsByType_grouped {host : Str} {hosts : Hosts} {records : ServerRecords}
    (h : getRecordsByType env interfaces host hosts = .ok records) :
    Grouped records (Requires env interfaces host hosts) := by
  have hempty : Grouped [] (Selected env interfaces host []) := by
    refine ⟨List.nodup_nil, ?_, ?_⟩
    · intro resource set hmem
      cases hmem
    · rintro resource r ⟨-, r₀, hmem, -⟩
      cases hmem
  exact foldlM_grouped env interfaces hempty h

theorem getRecordsByType_returns (host : Str) {hosts : Hosts}
    (h : ∀ r ∈ hosts.flatMap Prod.snd, "_resource" ∈ r) :
    ∃ records, getRecordsByType env interfaces host hosts = .ok records := by
  rw [getRecordsByType]
  generalize hosts.flatMap Prod.snd = rs at h
  generalize ([] : ServerRecords) = records
  induction rs generalizing records with
  | nil => exact ⟨records, rfl⟩
  | cons r₀ rs ih =>
    obtain ⟨next, hnext⟩ := addServerRecord_returns env interfaces records
      (h r₀ List.mem_cons_self)
    rw [List.foldlM_cons, hnext, Except.ok_bind]
    exact ih (fun r hr => h r (List.mem_cons_of_mem _ hr)) next

end Server

end Isz.Dns
