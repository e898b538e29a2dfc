import Isz.Dns.Completion
import Isz.Dns.Visit

namespace Isz.Dns

section Sync

variable (env : Environment) (hosts : Hosts) (host : Str) (w : World) (resource : Str)

def InSync : Prop :=
  ∀ r, (∃ e ∈ entriesOf w resource host, Live e ∧ mikrotikToRecord resource e = .ok r) ↔
    Required env hosts host w resource r

variable {env hosts host w resource}

theorem required_after (ops : List Op) :
    Required env hosts host (w.after env ops) resource = Required env hosts host w resource := by
  funext r
  rw [Required, Required, after_interfaces]

theorem updateResource_inSync {visit : Nat} {server : Server} {records : List Dict}
    (hnodup : records.Nodup)
    (hset : ∀ r, r ∈ records ↔ Required env hosts server.host w resource r)
    (hold : server.oldDns = false)
    (hplain : ∀ r, Required env hosts server.host w resource r → Plain resource r)
    (h : (updateResource env false visit server resource records w).Returns) :
    InSync env hosts server.host
      (w.after env (updateResource env false visit server resource records w).sent) resource := by
  have hresource : ∀ r ∈ records, r.lookup "_resource" = some resource := fun r hr =>
    ((hset r).mp hr).1
  have hmissing : ∀ r ∈ missing resource records (entriesOf w resource server.host),
      r ∈ records := fun r hr => ((mem_missing hnodup).mp hr).1
  obtain ⟨hstale, added, htaken, hmatched⟩ := updateResource_settles env hnodup
    (fun r hr => Finmap.mem_of_lookup_eq_some (hresource r hr)) (fun r hr => by
      have hr := hmissing r (List.mem_of_mem_filter hr)
      exact sticks_new hold (hresource r hr) (hplain r ((hset r).mp hr))) h
  generalize hw : w.after env (updateResource env false visit server resource records w).sent = w'
    at hstale hmatched
  have hcarries := ((w' server.host).tables resource).carries
  intro r
  rw [← hw, required_after, ← hset r, hw]
  constructor
  · rintro ⟨e, he, hlive, hrecord⟩
    rw [mikrotikToRecord_eq (hcarries e he)] at hrecord
    obtain rfl := Except.ok.inj hrecord
    exact stale_eq_nil.mp hstale e he hlive
  · intro hr
    have hfound : r ∈ matched resource records (entriesOf w' resource server.host) := by
      rw [hmatched, List.mem_append, htaken.mem_iff]
      refine (mem_matched_or_missing _ hnodup hr).imp_right fun hm => ?_
      exact List.mem_filter.mpr ⟨hm, decide_eq_true (not_skips hold r)⟩
    obtain ⟨-, e, he, hlive, rfl⟩ := mem_matched.mp hfound
    exact ⟨e, he, hlive, mikrotikToRecord_eq (hcarries e he)⟩

theorem inSync_congr {w' : World}
    (htable : (w' host).tables resource = (w host).tables resource)
    (hinterfaces : (w' host).interfaces = (w host).interfaces) :
    InSync env hosts host w' resource ↔ InSync env hosts host w resource := by
  simp only [InSync, entriesOf, Required, htable, hinterfaces]

end Sync

section Passes

variable (env : Environment) {visit : Nat} {server : Server}

theorem passes_table {records : ServerRecords} (hdistinct : (records.map Prod.fst).Nodup)
    {e : Str × List Dict} (he : e ∈ records) {w : World}
    (h : (inTurn env (passes env false visit server records) w).Returns) :
    (w.after env (inTurn env (passes env false visit server records) w).sent
        server.host).tables e.1 =
      (w.after env (updateResource env false visit server e.1 e.2 w).sent
        server.host).tables e.1 := by
  induction records generalizing w with
  | nil => cases he
  | cons first records ih =>
    simp only [List.map_cons, List.nodup_cons] at hdistinct
    obtain ⟨-, hrest⟩ := (inTurn_returns env).mp h
    have hsent := inTurn_sent env h
    simp only [passes, List.map_cons] at hsent ⊢
    rw [hsent, after_append]
    rcases List.mem_cons.mp he with rfl | he
    · refine after_tables env _ fun op hop hat => hdistinct.1 ?_
      rw [← hat.2]
      exact (passes_sentTo env false visit server records _ op hop).2
    · have hne : e.1 ≠ first.1 := fun heq =>
        hdistinct.1 (heq ▸ List.mem_map_of_mem (f := Prod.fst) he)
      have hfirst := updateResource_elsewhere env false visit server hne first.2 w
      refine (ih hdistinct.2 he hrest).trans ?_
      rw [updateResource_congr hfirst]
      exact after_congr env hfirst _

end Passes

section Server

variable (env : Environment) {hosts : Hosts} {visit : Nat} {server : Server} {w : World}

theorem updateServer_passes {count : Nat}
    (h : (updateServer env false hosts visit server w).result = .ok count) :
    ∃ records, Grouped records (Requires env (w server.host).interfaces server.host hosts) ∧
      (inTurn env (passes env false visit server records) w).Returns ∧
      (updateServer env false hosts visit server w).sent =
        (inTurn env (passes env false visit server records) w).sent := by
  obtain ⟨records, hrecords, hpasses⟩ := Trace.bind_result_eq_ok.mp h
  refine ⟨records, getRecordsByType_grouped env _ hrecords, ⟨count, hpasses⟩, ?_⟩
  rw [updateServer, Trace.bind_sent hrecords]
  rfl

theorem updateServer_elsewhere (h : (updateServer env false hosts visit server w).Returns)
    {host resource : Str}
    (hother : host = server.host → ∀ r, ¬Required env hosts host w resource r) :
    (w.after env (updateServer env false hosts visit server w).sent host).tables resource =
      (w host).tables resource := by
  obtain ⟨count, hcount⟩ := h
  obtain ⟨records, hgrouped, hpasses, hsent⟩ := updateServer_passes env hcount
  rw [hsent]
  refine after_tables env w fun op hop hat => ?_
  obtain ⟨hhost, hresource⟩ := passes_sentTo env false visit server records w op hop
  obtain ⟨⟨_, set⟩, hmem, hset⟩ := List.mem_map.mp hresource
  obtain ⟨hne, -, hrequires⟩ := hgrouped.sets _ _ hmem
  obtain ⟨r, hr⟩ := List.exists_mem_of_ne_nil set hne
  have heq : host = server.host := hat.1.symm.trans hhost
  subst heq
  refine hother rfl r ?_
  rw [← hat.2, ← hset]
  exact (hrequires r).mp hr

theorem updateServer_inSync (hold : server.oldDns = false) {resource : Str}
    (hrequired : ∃ r, Required env hosts server.host w resource r)
    (hplain : ∀ r, Required env hosts server.host w resource r → Plain resource r)
    (h : (updateServer env false hosts visit server w).Returns) :
    InSync env hosts server.host
      (w.after env (updateServer env false hosts visit server w).sent) resource := by
  obtain ⟨count, hcount⟩ := h
  obtain ⟨records, hgrouped, hpasses, hsent⟩ := updateServer_passes env hcount
  obtain ⟨r, hr⟩ := hrequired
  obtain ⟨e, he, rfl⟩ := List.mem_map.mp (hgrouped.complete resource r hr)
  obtain ⟨-, hnodup, hset⟩ := hgrouped.sets _ _ he
  have hown := (passes_return env false visit server hgrouped.distinct w).mp hpasses e he
  have hsync := updateResource_inSync hnodup hset hold hplain hown
  rw [hsent]
  refine (inSync_congr ?_ ?_).mpr hsync
  · exact passes_table env hgrouped.distinct he hpasses
  · rw [after_interfaces, after_interfaces]

end Server

section Servers

variable (env : Environment) (hosts : Hosts)

def updates (visits : List (Server × Nat)) : List (World → Run Nat) :=
  visits.map fun (server, visit) => updateServer env false hosts visit server

variable {env hosts}

theorem updates_elsewhere {visits : List (Server × Nat)} {w : World}
    (h : (inTurn env (updates env hosts visits) w).Returns) {host resource : Str}
    (hother : host ∈ visits.map (fun v => v.1.host) →
      ∀ r, ¬Required env hosts host w resource r) :
    (w.after env (inTurn env (updates env hosts visits) w).sent host).tables resource =
      (w host).tables resource := by
  induction visits generalizing w with
  | nil => rfl
  | cons v visits ih =>
    obtain ⟨server, visit⟩ := v
    obtain ⟨hfirst, hrest⟩ := (inTurn_returns env).mp h
    have hsent := inTurn_sent env h
    simp only [updates, List.map_cons] at hsent ⊢
    rw [hsent, after_append]
    refine (ih hrest fun hmem => ?_).trans (updateServer_elsewhere env hfirst fun heq => ?_)
    · rw [required_after]
      exact hother (List.mem_cons_of_mem _ hmem)
    · exact hother (heq ▸ List.mem_cons_self)

theorem updates_inSync {visits : List (Server × Nat)} {w : World}
    (hold : ∀ v ∈ visits, v.1.oldDns = false) {host resource : Str}
    (hhost : host ∈ visits.map fun v => v.1.host)
    (hrequired : ∃ r, Required env hosts host w resource r)
    (hplain : ∀ r, Required env hosts host w resource r → Plain resource r)
    (h : (inTurn env (updates env hosts visits) w).Returns) :
    InSync env hosts host (w.after env (inTurn env (updates env hosts visits) w).sent)
      resource := by
  induction visits generalizing w with
  | nil => cases hhost
  | cons v visits ih =>
    obtain ⟨server, visit⟩ := v
    obtain ⟨hfirst, hrest⟩ := (inTurn_returns env).mp h
    have hsent := inTurn_sent env h
    simp only [updates, List.map_cons] at hsent ⊢
    rw [hsent, after_append]
    by_cases hlater : host ∈ visits.map fun v => v.1.host
    · refine ih (fun v hv => hold v (List.mem_cons_of_mem _ hv)) hlater ?_ ?_ hrest
      · rwa [required_after]
      · rwa [required_after]
    · -- the last visit of this host
      rcases List.mem_cons.mp hhost with rfl | hmem
      · have hsync := updateServer_inSync env (hold _ List.mem_cons_self) hrequired hplain hfirst
        refine (inSync_congr ?_ ?_).mpr hsync
        · exact updates_elsewhere hrest fun hmem => absurd hmem hlater
        · exact after_interfaces env _ _ _
      · exact absurd hmem hlater

theorem dnsUpdate_converges_iff {servers : List Server} (hold : ∀ s ∈ servers, s.oldDns = false)
    {w : World} {count : Nat} (h : (dnsUpdate env false hosts servers w).result = .ok count)
    {server : Server} (hserver : server ∈ servers) (resource : Str) :
    InSync env hosts server.host (w.after env (dnsUpdate env false hosts servers w).sent)
      resource ↔
    ((∃ r, Required env hosts server.host w resource r) ∨
      ∀ e ∈ entriesOf w resource server.host, ¬Live e) ∧
    ∀ r, Required env hosts server.host w resource r → Plain resource r := by
  have hhost : server.host ∈ servers.zipIdx.map fun v => v.1.host := by
    obtain ⟨i, hi, rfl⟩ := List.mem_iff_getElem.mp hserver
    exact List.mem_map.mpr ⟨(servers[i], i), by simp [List.mk_mem_zipIdx_iff_getElem?], rfl⟩
  have hold' : ∀ v ∈ servers.zipIdx, v.1.oldDns = false := fun v hv =>
    hold v.1 (List.fst_mem_of_mem_zipIdx hv)
  have hreturns : (inTurn env (updates env hosts servers.zipIdx) w).Returns := ⟨count, h⟩
  change InSync env hosts server.host
    (w.after env (inTurn env (updates env hosts servers.zipIdx) w).sent) resource ↔ _
  by_cases hrequired : ∃ r, Required env hosts server.host w resource r
  · simp only [hrequired, true_or, true_and]
    constructor
    · intro hsync r hr
      rw [← required_after (inTurn env (updates env hosts servers.zipIdx) w).sent] at hr
      obtain ⟨e, he, -, hrecord⟩ := (hsync r).mpr hr
      rw [mikrotikToRecord_eq (Table.carries _ e he)] at hrecord
      obtain rfl := Except.ok.inj hrecord
      exact recordOf_plain resource e
    · intro hplain
      exact updates_inSync hold' hhost hrequired hplain hreturns
  · -- the table is never visited
    have hnone := not_exists.mp hrequired
    have hsame := updates_elsewhere hreturns fun _ => hnone
    rw [inSync_congr hsame (after_interfaces env _ _ _)]
    constructor
    · refine fun hsync => ⟨.inr fun e he hlive => ?_, fun r hr => absurd hr (hnone r)⟩
      exact hnone _ ((hsync _).mp ⟨e, he, hlive, mikrotikToRecord_eq (Table.carries _ e he)⟩)
    · rintro ⟨hnolive, -⟩ r
      refine ⟨?_, fun hr => absurd hr (hnone r)⟩
      rintro ⟨e, he, hlive, -⟩
      exact absurd hlive (hnolive.resolve_left hrequired e he)

end Servers

def staticRecord : Dict :=
  dict [("_resource", "/ip/dns/static"), ("type", "A"), ("ttl", "1h"), ("name", "a"),
    ("address", "10.0.0.1")]

def staticOnly : Hosts := [("a".toList, [staticRecord])]

def oldLease : Dict :=
  dict [("id", "*1"), ("mac-address", "00:0D:93:89:FE:7B"), ("address", "10.0.0.9"),
    ("comment", "laptop"), ("dynamic", "false"), ("disabled", "false")]

def leaseRouter : World := fun _ =>
  ⟨fun resource => if resource = dhcpLease then
    ⟨[oldLease], by simp [Carries, oldLease, dict, Finmap.mem_list_toFinmap], by simp⟩
  else noRows, ⟨[], []⟩⟩

theorem oldLease_survives : ¬∀ (env : Environment) (hosts : Hosts) (servers : List Server)
    (w : World) (count : Nat), (∀ s ∈ servers, s.oldDns = false) →
    (dnsUpdate env false hosts servers w).result = .ok count → ∀ server ∈ servers,
    ∀ resource, resource = dnsStatic ∨ resource = dhcpLease →
    InSync env hosts server.host (w.after env (dnsUpdate env false hosts servers w).sent)
      resource := by
  intro hsync
  have h := hsync plainEnvironment staticOnly [⟨"router".toList, false⟩] leaseRouter 1 (by simp)
    rfl ⟨"router".toList, false⟩ (by simp) dhcpLease (.inr rfl)
  have hcarries : Carries oldLease := by simp [Carries, oldLease, dict, Finmap.mem_list_toFinmap]
  obtain ⟨hresource, r₀, hmem, hrecord⟩ :=
    (h (recordOf dhcpLease oldLease)).mp ⟨oldLease, List.mem_singleton_self _, by decide,
      mikrotikToRecord_eq hcarries⟩
  rw [serverRecord_resource _ _ hrecord] at hresource
  obtain rfl := List.mem_singleton.mp hmem
  exact absurd hresource (by decide)

theorem dnsUpdate_converges_static : InSync plainEnvironment staticOnly "router".toList
    (leaseRouter.after plainEnvironment (dnsUpdate plainEnvironment false staticOnly
      [⟨"router".toList, false⟩] leaseRouter).sent) dnsStatic := by
  have hold : ∀ s ∈ [(⟨"router".toList, false⟩ : Server)], s.oldDns = false := by simp
  have hserver : (⟨"router".toList, false⟩ : Server) ∈ [(⟨"router".toList, false⟩ : Server)] :=
    List.mem_singleton_self _
  have hresult : (dnsUpdate plainEnvironment false staticOnly [⟨"router".toList, false⟩]
      leaseRouter).result = .ok 1 := rfl
  have hrecord : serverRecord plainEnvironment ⟨[], []⟩ "router".toList staticRecord =
      .ok (some staticRecord) := rfl
  refine (dnsUpdate_converges_iff hold hresult hserver dnsStatic).mpr ⟨.inl ?_, ?_⟩
  · exact ⟨staticRecord, rfl, staticRecord, List.mem_singleton_self _, hrecord⟩
  · rintro r ⟨-, r₀, hmem, hr⟩
    obtain rfl := List.mem_singleton.mp hmem
    obtain rfl := Option.some.inj (Except.ok.inj (hrecord.symm.trans hr))
    exact ⟨by decide, fun _ => by decide, fun heq => absurd heq dnsStatic_ne_dhcpLease⟩

end Isz.Dns
