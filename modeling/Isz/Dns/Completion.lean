import Isz.Dns.Reconcile

namespace Isz.Dns

def Counted (x : Run Nat) : Prop := ∀ count, x.result = .ok count → count = x.sent.length

theorem counted_next {op : Op} {x : Run Nat} (h : Counted x) :
    Counted (emit false op >>= fun _ => x >>= fun count => pure (count + 1)) := by
  intro count hcount
  obtain ⟨-, -, hrest⟩ := Trace.bind_result_eq_ok.mp hcount
  obtain ⟨rest, hx, heq⟩ := Trace.bind_result_eq_ok.mp hrest
  obtain rfl := Except.ok.inj heq
  rw [Trace.bind_sent rfl, Trace.bind_sent hx, h rest hx]
  simp [emit, Trace.send]

theorem counted_lift {α : Type} {result : Except Fault α} {f : α → Run Nat}
    (h : ∀ a, Counted (f a)) : Counted (Trace.lift result >>= f) := by
  cases result with
  | ok a => exact h a
  | error fault =>
    intro count hcount
    cases hcount

theorem counted_insertAll (server : Server) (resource : Str) (records : List Dict) :
    Counted (insertAll false server resource records) := by
  induction records with
  | nil =>
    intro count hcount
    exact (Except.ok.inj hcount).symm
  | cons r records ih =>
    rw [insertAll]
    refine counted_lift fun kwargs => ?_
    split
    · refine counted_lift fun type => ?_
      split
      · exact ih
      · exact counted_lift fun kwargs => counted_next ih
    · exact counted_next ih

section Update

variable (env : Environment)

theorem counted_updateResource (visit : Nat) (server : Server) (resource : Str)
    (records : List Dict) (w : World) :
    Counted (updateResource env false visit server resource records w) := by
  intro count hcount
  rw [updateResource] at hcount ⊢
  obtain ⟨⟨removed, rest⟩, hscan, hcount⟩ := Trace.bind_result_eq_ok.mp hcount
  obtain ⟨ordered, hsort, hcount⟩ := Trace.bind_result_eq_ok.mp hcount
  obtain ⟨added, hinsert, heq⟩ := Trace.bind_result_eq_ok.mp hcount
  obtain rfl := Except.ok.inj heq
  obtain ⟨rfl, -, hsent⟩ := scan_result ((w server.host).tables resource).carries hscan
  rw [Trace.bind_sent hscan, Trace.bind_sent hsort, Trace.bind_sent hinsert, hsent,
    counted_insertAll server resource ordered added hinsert]
  simp [Trace.lift]

theorem counted_inTurn {passes : List (World → Run Nat)}
    (h : ∀ pass ∈ passes, ∀ w, Counted (pass w)) (w : World) : Counted (inTurn env passes w) := by
  induction passes generalizing w with
  | nil =>
    intro count hcount
    exact (Except.ok.inj hcount).symm
  | cons pass passes ih =>
    intro count hcount
    rw [inTurn_sent env ⟨count, hcount⟩]
    obtain ⟨first, hfirst, hnext⟩ := Trace.bind_result_eq_ok.mp hcount
    obtain ⟨rest, hrest, heq⟩ := Trace.bind_result_eq_ok.mp hnext
    obtain rfl := Except.ok.inj heq
    rw [List.length_append, h pass List.mem_cons_self w first hfirst,
      ih (fun pass' hpass' => h pass' (List.mem_cons_of_mem _ hpass')) _ rest hrest]

theorem counted_dnsUpdate (hosts : Hosts) (servers : List Server) (w : World) :
    Counted (dnsUpdate env false hosts servers w) := by
  refine counted_inTurn env ?_ w
  intro pass hpass w
  obtain ⟨⟨server, visit⟩, -, rfl⟩ := List.mem_map.mp hpass
  refine counted_lift fun records => counted_inTurn env ?_ w
  intro pass hpass w
  obtain ⟨⟨resource, set⟩, -, rfl⟩ := List.mem_map.mp hpass
  exact counted_updateResource env visit server resource set w

def Completes (x : Run Nat) : Prop := x.result = .ok x.sent.length

theorem completes_iff {x : Run Nat} (h : Counted x) : Completes x ↔ x.Returns := by
  constructor
  · intro hx
    exact ⟨_, hx⟩
  · rintro ⟨count, hcount⟩
    rwa [Completes, ← h count hcount]

def Reconcilable (hosts : Hosts) : List (Server × Nat) → World → Prop
  | [], _ => True
  | (server, visit) :: rest, w => (∀ resource, Clean env hosts w resource server) ∧
    Reconcilable hosts rest (w.after env (updateServer env false hosts visit server w).sent)

theorem reconcilable_distinct {hosts : Hosts} {visits : List (Server × Nat)} {w : World}
    (hdistinct : (visits.map fun v => v.1.host).Nodup) :
    Reconcilable env hosts visits w ↔
      ∀ v ∈ visits, ∀ resource, Clean env hosts w resource v.1 := by
  induction visits generalizing w with
  | nil => exact ⟨fun _ v hv => (by cases hv), fun _ => trivial⟩
  | cons v visits ih =>
    obtain ⟨server, visit⟩ := v
    simp only [List.map_cons, List.nodup_cons] at hdistinct
    rw [Reconcilable, ih hdistinct.2, List.forall_mem_cons]
    refine and_congr_right fun _ => forall₂_congr fun v hv => forall_congr' fun resource => ?_
    refine clean_congr ?_ (after_interfaces env _ _ _)
    refine after_tables env w fun op hop hat => hdistinct.1 ?_
    rw [← updateServer_sentTo env false visit server hosts w op hop, hat.1]
    exact List.mem_map_of_mem hv

theorem resourced_of_parseFiles {inputs : List (List Str × Zone)} {hosts : Hosts}
    (h : parseFiles inputs = .ok hosts) : ∀ r ∈ hosts.flatMap Prod.snd, "_resource" ∈ r := by
  intro r hr
  obtain ⟨e, he, hr⟩ := List.mem_flatMap.mp hr
  exact parseFiles_resourced h e he r hr

theorem dnsUpdate_completes_iff {inputs : List (List Str × Zone)} {hosts : Hosts}
    (h : parseFiles inputs = .ok hosts) (servers : List Server) (w : World) :
    Completes (dnsUpdate env false hosts servers w) ↔ Reconcilable env hosts servers.zipIdx w := by
  rw [completes_iff (counted_dnsUpdate env hosts servers w), dnsUpdate]
  generalize servers.zipIdx = visits
  induction visits generalizing w with
  | nil => exact ⟨fun _ => trivial, fun _ => ⟨0, rfl⟩⟩
  | cons visit visits ih =>
    obtain ⟨server, visit⟩ := visit
    rw [List.map_cons, inTurn_returns, Reconcilable, ih,
      updateServer_returns env visit server (resourced_of_parseFiles h) w]

end Update

def aRecord (address : String) : Rdataset where
  rdtype := .A
  ttl := 3600
  rds := [⟨none, .a address.toList⟩]
  typed := by simp [Rdata.rdtype]
  nonempty := by simp

def twoHosts : Zone where
  items := [("a.".toList, [aRecord "10.0.0.1"]), ("b.".toList, [aRecord "10.0.0.2"])]
  distinct := by decide

def dict (items : List (String × String)) : Dict :=
  (items.map fun (key, value) => (⟨key, value.toList⟩ : Sigma fun _ : String => Str)).toFinmap

def aRow (id name address disabled : String) : Dict :=
  dict [("id", id), ("type", "A"), ("ttl", "1h"), ("name", name), ("address", address),
    ("dynamic", "false"), ("disabled", disabled)]

theorem aRow_carries (id name address disabled : String) :
    Carries (aRow id name address disabled) := by
  simp [Carries, aRow, dict, Finmap.mem_list_toFinmap]

def copiedRows : Table where
  entries := [aRow "*1" "a" "10.0.0.9" "false", aRow "*2" "b" "10.0.0.2" "false",
    aRow "*3" "b" "10.0.0.2" "true"]
  carries := by simp [aRow_carries]
  distinct := by decide

def oldRow : Table where
  entries := [aRow "*1" "a" "10.0.0.9" "false", aRow "*2" "b" "10.0.0.2" "false"]
  carries := by simp [aRow_carries]
  distinct := by decide

def noRows : Table := ⟨[], by simp, by simp⟩

def routerWith (rows : Table) : World := fun _ =>
  ⟨fun resource => if resource = dnsStatic then rows else noRows, ⟨[], []⟩⟩

theorem copiedRows_stop_midway : ¬∀ (env : Environment) (inputs : List (List Str × Zone))
    (hosts : Hosts), parseFiles inputs = .ok hosts → ∀ (servers : List Server) (w : World),
    Completes (dnsUpdate env false hosts servers w) := by
  intro hcompletes
  have h := hcompletes plainEnvironment [([], twoHosts)] _ rfl [⟨"router".toList, false⟩]
    (routerWith copiedRows)
  cases h

theorem dnsUpdate_completes_oldRow : ∃ hosts, parseFiles [([], twoHosts)] = .ok hosts ∧
    Completes (dnsUpdate plainEnvironment false hosts [⟨"router".toList, false⟩]
      (routerWith oldRow)) ∧
    Reconcilable plainEnvironment hosts [(⟨"router".toList, false⟩, 0)] (routerWith oldRow) := by
  have hparse : parseFiles [([], twoHosts)] = .ok _ := rfl
  exact ⟨_, hparse, rfl, (dnsUpdate_completes_iff plainEnvironment hparse
    [⟨"router".toList, false⟩] (routerWith oldRow)).mp rfl⟩

end Isz.Dns
