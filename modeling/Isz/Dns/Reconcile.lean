import Isz.Dns.Update

namespace Isz.Dns

def entriesOf (w : World) (resource host : Str) : List Dict :=
  ((w host).tables resource).entries

section Resource

variable (env : Environment) {visit : Nat} {server : Server} {resource : Str}
  {records : List Dict} {w : World}

theorem updateResource_returns (hnodup : records.Nodup)
    (hresource : ∀ r ∈ records, "_resource" ∈ r) :
    (updateResource env false visit server resource records w).Returns ↔
      (matched resource records (entriesOf w resource server.host)).Nodup ∧
      Sortable (missing resource records (entriesOf w resource server.host)) ∧
      (server.oldDns = true →
        ∀ r ∈ missing resource records (entriesOf w resource server.host), "type" ∈ r) := by
  set entries := entriesOf w resource server.host
  have hscan : (scan false server.host resource records entries records).Returns ↔ _ :=
    scan_returns ((w server.host).tables resource).carries hnodup
  have hiter := env.iter_perm visit resource (missing resource records entries)
  have hinsert : ∀ ordered, ordered.Perm (missing resource records entries) →
      ((insertAll false server resource ordered).Returns ↔
        (server.oldDns = true → ∀ r ∈ missing resource records entries, "type" ∈ r)) := by
    intro ordered hperm
    rw [insertAll_returns fun r hr =>
      hresource r ((mem_missing hnodup).mp (hperm.mem_iff.mp hr)).1]
    simp only [hperm.mem_iff]
  simp only [updateResource, Trace.returns_bind]
  constructor
  · rintro ⟨⟨removed, rest⟩, hok, ordered, hsort, added, hadded, -⟩
    obtain ⟨-, rfl, -⟩ := scan_result ((w server.host).tables resource).carries hok
    have hperm := (sortRecords_perm hsort).trans hiter
    refine ⟨(hscan.mp ⟨_, hok⟩).1, ?_, (hinsert ordered hperm).mp ⟨added, hadded⟩⟩
    exact (sortable_congr hiter).mp (sortRecords_eq_ok.mp ⟨ordered, hsort⟩)
  · rintro ⟨honce, hsortable, htyped⟩
    obtain ⟨⟨removed, rest⟩, hok⟩ := hscan.mpr ⟨honce, fun r hr => (mem_matched.mp hr).1⟩
    obtain ⟨-, rfl, -⟩ := scan_result ((w server.host).tables resource).carries hok
    obtain ⟨ordered, hsort⟩ := sortRecords_eq_ok.mpr ((sortable_congr hiter).mpr hsortable)
    obtain ⟨added, hadded⟩ :=
      (hinsert ordered ((sortRecords_perm hsort).trans hiter)).mpr htyped
    exact ⟨_, hok, ordered, hsort, added, hadded, _, rfl⟩

theorem updateResource_sent (hnodup : records.Nodup) (hresource : ∀ r ∈ records, "_resource" ∈ r)
    (h : (updateResource env false visit server resource records w).Returns) :
    ∃ ordered : List Dict,
      ordered.Perm (missing resource records (entriesOf w resource server.host)) ∧
      (updateResource env false visit server resource records w).sent =
        (stale resource records (entriesOf w resource server.host)).map
          (fun id => ⟨server.host, resource, .remove id⟩) ++
        (ordered.filter fun r => ¬Skips server r).map fun r =>
          ⟨server.host, resource, .add (addKwargs server r)⟩ := by
  have htyped := ((updateResource_returns env hnodup hresource).mp h).2.2
  set entries := entriesOf w resource server.host
  have hiter := env.iter_perm visit resource (missing resource records entries)
  simp only [updateResource, Trace.returns_bind] at h
  obtain ⟨⟨removed, rest⟩, hok, ordered, hsort, added, hadded, -⟩ := h
  obtain ⟨-, rfl, hsent⟩ := scan_result ((w server.host).tables resource).carries hok
  have hperm := (sortRecords_perm hsort).trans hiter
  have hinsert : (insertAll false server resource ordered).sent = _ := insertAll_sent
    (fun r hr => hresource r ((mem_missing hnodup).mp (hperm.mem_iff.mp hr)).1)
    (fun hold r hr => htyped hold r (hperm.mem_iff.mp hr))
  refine ⟨ordered, hperm, ?_⟩
  rw [updateResource, Trace.bind_sent hok, hsent]
  congr 1
  rw [Trace.bind_sent hsort, Trace.bind_sent hadded, hinsert]
  simp [Trace.lift]

end Resource

def SentTo (host resource : Str) {α : Type} (x : Run α) : Prop :=
  ∀ op ∈ x.sent, op.host = host ∧ op.resource = resource

section SentTo

variable {host resource : Str} {α β : Type}

theorem SentTo.bind {x : Run α} {f : α → Run β} (hx : SentTo host resource x)
    (hf : ∀ a, SentTo host resource (f a)) : SentTo host resource (x >>= f) :=
  Trace.forall_sent_bind hx hf

theorem sentTo_lift (result : Except Fault α) :
    SentTo host resource (Trace.lift result : Run α) := by
  intro op hop
  cases hop

theorem sentTo_emit (dryRun : Bool) (request : Request) :
    SentTo host resource (emit dryRun ⟨host, resource, request⟩) := by
  intro op hop
  cases dryRun with
  | true => cases hop
  | false =>
    obtain rfl := List.mem_singleton.mp hop
    exact ⟨rfl, rfl⟩

theorem sentTo_pure (a : α) : SentTo host resource (pure a : Run α) := sentTo_lift (.ok a)

theorem sentTo_scan (dryRun : Bool) (records entries recordsToAdd : List Dict) :
    SentTo host resource (scan dryRun host resource records entries recordsToAdd) := by
  induction entries generalizing recordsToAdd with
  | nil => exact sentTo_pure _
  | cons entry entries ih =>
    rw [scan]
    split
    case isTrue => exact ih _
    case isFalse =>
      refine (sentTo_lift _).bind fun record => ?_
      split
      · split
        · exact ih _
        · exact sentTo_lift _
      · refine (sentTo_lift _).bind fun id => (sentTo_emit _ _).bind fun _ => ?_
        exact (ih _).bind fun _ => sentTo_pure _

theorem sentTo_insertAll (dryRun : Bool) (server : Server) (records : List Dict) :
    SentTo server.host resource (insertAll dryRun server resource records) := by
  induction records with
  | nil => exact sentTo_pure _
  | cons r records ih =>
    have hcount : ∀ kwargs, SentTo server.host resource
        (emit dryRun ⟨server.host, resource, .add kwargs⟩ >>= fun _ =>
          insertAll dryRun server resource records >>= fun count => pure (count + 1)) :=
      fun kwargs => (sentTo_emit _ _).bind fun _ => ih.bind fun _ => sentTo_pure _
    rw [insertAll]
    refine (sentTo_lift _).bind fun kwargs => ?_
    split
    · refine (sentTo_lift _).bind fun type => ?_
      split
      · exact ih
      · exact (sentTo_lift _).bind hcount
    · exact hcount kwargs

theorem sentTo_updateResource (env : Environment) (dryRun : Bool) (visit : Nat)
    (server : Server) (records : List Dict) (w : World) :
    SentTo server.host resource (updateResource env dryRun visit server resource records w) := by
  refine (sentTo_scan _ _ _ _).bind fun _ => (sentTo_lift _).bind fun _ => ?_
  exact (sentTo_insertAll _ _ _).bind fun _ => sentTo_pure _

end SentTo

section World

variable (env : Environment) (w : World)

theorem after_append (ops ops' : List Op) :
    w.after env (ops ++ ops') = (w.after env ops).after env ops' := List.foldl_append

theorem after_interfaces (ops : List Op) (host : Str) :
    (w.after env ops host).interfaces = (w host).interfaces := by
  induction ops generalizing w with
  | nil => rfl
  | cons op ops ih =>
    refine (ih (w.apply env op)).trans ?_
    simp only [World.apply]
    split <;> rfl

theorem after_tables {host resource : Str} {ops : List Op}
    (h : ∀ op ∈ ops, ¬(op.host = host ∧ op.resource = resource)) :
    (w.after env ops host).tables resource = (w host).tables resource := by
  induction ops generalizing w with
  | nil => rfl
  | cons op ops ih =>
    refine (ih (w.apply env op) fun op' hop' => h op' (List.mem_cons_of_mem _ hop')).trans ?_
    have hop := h op List.mem_cons_self
    simp only [World.apply]
    split
    case isTrue hhost =>
      have hresource : resource ≠ op.resource := fun heq => hop ⟨hhost.symm, heq.symm⟩
      simp only [if_neg hresource]
    case isFalse => rfl

end World

section InTurn

variable (env : Environment)

theorem inTurn_returns {pass : World → Run Nat} {passes : List (World → Run Nat)} {w : World} :
    (inTurn env (pass :: passes) w).Returns ↔
      (pass w).Returns ∧ (inTurn env passes (w.after env (pass w).sent)).Returns := by
  simp only [inTurn, Trace.returns_bind]
  constructor
  · rintro ⟨count, hcount, rest, hrest, -⟩
    exact ⟨⟨count, hcount⟩, rest, hrest⟩
  · rintro ⟨⟨count, hcount⟩, rest, hrest⟩
    exact ⟨count, hcount, rest, hrest, _, rfl⟩

theorem inTurn_sent {pass : World → Run Nat} {passes : List (World → Run Nat)} {w : World}
    (h : (inTurn env (pass :: passes) w).Returns) :
    (inTurn env (pass :: passes) w).sent =
      (pass w).sent ++ (inTurn env passes (w.after env (pass w).sent)).sent := by
  obtain ⟨⟨count, hcount⟩, rest, hrest⟩ := (inTurn_returns env).mp h
  rw [inTurn, Trace.bind_sent hcount, Trace.bind_sent hrest]
  simp

theorem inTurn_forall {P : Op → Prop} {passes : List (World → Run Nat)}
    (h : ∀ pass ∈ passes, ∀ w, ∀ op ∈ (pass w).sent, P op) (w : World) :
    ∀ op ∈ (inTurn env passes w).sent, P op := by
  induction passes generalizing w with
  | nil =>
    intro op hop
    cases hop
  | cons pass passes ih =>
    have hrest := ih fun pass' hpass' => h pass' (List.mem_cons_of_mem _ hpass')
    refine Trace.forall_sent_bind (h pass List.mem_cons_self w) fun count => ?_
    refine Trace.forall_sent_bind (hrest _) fun rest op hop => ?_
    cases hop

end InTurn

section Clean

variable (env : Environment) (hosts : Hosts) (host : Str) (w : World) (resource : Str)

def Required (r : Dict) : Prop :=
  Requires env (w host).interfaces host hosts resource r

def Missing (r : Dict) : Prop :=
  Required env hosts host w resource r ∧ ∀ e ∈ entriesOf w resource host, Live e →
    mikrotikToRecord resource e ≠ .ok r

structure Clean (server : Server) : Prop where
  once : (entriesOf w resource server.host).Pairwise fun e e' => Live e → Live e' →
    ∀ r, Required env hosts server.host w resource r →
      mikrotikToRecord resource e = .ok r → mikrotikToRecord resource e' ≠ .ok r
  sortable : (∀ r r', Missing env hosts server.host w resource r →
      Missing env hosts server.host w resource r' → r = r') ∨
    ∀ r, Missing env hosts server.host w resource r → "name" ∈ r ∨ "mac-address" ∈ r
  typed : server.oldDns = true → ∀ r, Missing env hosts server.host w resource r → "type" ∈ r

variable {env hosts w resource} {server : Server}

theorem mem_missing_iff {records : List Dict} (hnodup : records.Nodup)
    (hset : ∀ r, r ∈ records ↔ Required env hosts server.host w resource r) {r : Dict} :
    r ∈ missing resource records (entriesOf w resource server.host) ↔
      Missing env hosts server.host w resource r := by
  rw [mem_missing hnodup, Missing, hset]
  refine and_congr_right fun _ => forall₂_congr fun e he => forall_congr' fun _ => ?_
  rw [mikrotikToRecord_eq (((w server.host).tables resource).carries e he), ne_eq, ne_eq,
    Except.ok.injEq]

theorem once_iff {records : List Dict}
    (hset : ∀ r, r ∈ records ↔ Required env hosts server.host w resource r) :
    (matched resource records (entriesOf w resource server.host)).Nodup ↔
      (entriesOf w resource server.host).Pairwise fun e e' => Live e → Live e' →
        ∀ r, Required env hosts server.host w resource r →
          mikrotikToRecord resource e = .ok r → mikrotikToRecord resource e' ≠ .ok r := by
  have hcarries := ((w server.host).tables resource).carries
  rw [matched, List.Nodup, List.pairwise_map, List.pairwise_filter]
  refine List.Pairwise.iff_of_mem fun {e e'} he he' => ?_
  rw [mikrotikToRecord_eq (hcarries e he), mikrotikToRecord_eq (hcarries e' he')]
  simp only [decide_eq_true_eq, hset, Except.ok.injEq, ne_eq]
  constructor
  · rintro h hlive hlive' r hr rfl heq
    exact h ⟨hlive, hr⟩ ⟨hlive', heq ▸ hr⟩ heq.symm
  · rintro h ⟨hlive, hr⟩ ⟨hlive', -⟩ heq
    exact h hlive hlive' _ hr rfl heq.symm

theorem sortable_iff {records : List Dict} (hnodup : records.Nodup)
    (hset : ∀ r, r ∈ records ↔ Required env hosts server.host w resource r) :
    Sortable (missing resource records (entriesOf w resource server.host)) ↔
      (∀ r r', Missing env hosts server.host w resource r →
        Missing env hosts server.host w resource r' → r = r') ∨
      ∀ r, Missing env hosts server.host w resource r → "name" ∈ r ∨ "mac-address" ∈ r := by
  have hmem := @mem_missing_iff env hosts w resource server records hnodup hset
  have hkey : ∀ r : Dict, (sortKey r).isSome ↔ "name" ∈ r ∨ "mac-address" ∈ r := fun r => by
    rw [sortKey, Option.isSome_or, Bool.or_eq_true, Finmap.lookup_isSome, Finmap.lookup_isSome]
  have hone : (missing resource records (entriesOf w resource server.host)).length ≤ 1 ↔
      ∀ r r', Missing env hosts server.host w resource r →
        Missing env hosts server.host w resource r' → r = r' := by
    rw [← List.toFinset_card_of_nodup (missing_nodup hnodup), Finset.card_le_one]
    simp only [List.mem_toFinset, hmem]
    exact ⟨fun h r r' hr hr' => h r hr r' hr', fun h r hr r' hr' => h r r' hr hr'⟩
  simp only [Sortable, hone, hkey, hmem]

theorem updateResource_clean {visit : Nat} {records : List Dict} (hnodup : records.Nodup)
    (hset : ∀ r, r ∈ records ↔ Required env hosts server.host w resource r) :
    (updateResource env false visit server resource records w).Returns ↔
      Clean env hosts w resource server := by
  have hresource : ∀ r ∈ records, "_resource" ∈ r := fun r hr =>
    Finmap.mem_of_lookup_eq_some ((hset r).mp hr).1
  have hmem := @mem_missing_iff env hosts w resource server records hnodup hset
  rw [updateResource_returns env hnodup hresource, once_iff hset, sortable_iff hnodup hset]
  simp only [hmem]
  exact ⟨fun ⟨honce, hsortable, htyped⟩ => ⟨honce, hsortable, htyped⟩,
    fun h => ⟨h.once, h.sortable, h.typed⟩⟩

theorem clean_of_none (h : ∀ r, ¬Required env hosts server.host w resource r) :
    Clean env hosts w resource server where
  once := List.pairwise_of_forall fun _ _ _ _ r hr => absurd hr (h r)
  sortable := .inr fun r hr => absurd hr.1 (h r)
  typed := fun _ r hr => absurd hr.1 (h r)

theorem Clean.congr {w' : World} (h : Clean env hosts w resource server)
    (htable : (w server.host).tables resource = (w' server.host).tables resource)
    (hinterfaces : (w server.host).interfaces = (w' server.host).interfaces) :
    Clean env hosts w' resource server := by
  obtain ⟨honce, hsortable, htyped⟩ := h
  simp only [Missing, Required, entriesOf, htable, hinterfaces] at honce hsortable htyped
  exact ⟨honce, hsortable, htyped⟩

theorem clean_congr {w' : World}
    (htable : (w' server.host).tables resource = (w server.host).tables resource)
    (hinterfaces : (w' server.host).interfaces = (w server.host).interfaces) :
    Clean env hosts w' resource server ↔ Clean env hosts w resource server :=
  ⟨fun h => h.congr htable hinterfaces, fun h => h.congr htable.symm hinterfaces.symm⟩

theorem updateResource_congr {dryRun : Bool} {visit : Nat} {records : List Dict} {w' : World}
    (h : (w' server.host).tables resource = (w server.host).tables resource) :
    updateResource env dryRun visit server resource records w' =
      updateResource env dryRun visit server resource records w := by
  simp only [updateResource, h]

end Clean

section Server

variable (env : Environment) (dryRun : Bool) (visit : Nat) (server : Server)

def passes (records : ServerRecords) : List (World → Run Nat) :=
  records.map fun (resource, records) => updateResource env dryRun visit server resource records

theorem passes_sentTo (records : ServerRecords) (w : World) :
    ∀ op ∈ (inTurn env (passes env dryRun visit server records) w).sent,
      op.host = server.host ∧ op.resource ∈ records.map Prod.fst := by
  refine inTurn_forall env ?_ w
  intro pass hpass w op hop
  obtain ⟨e, he, rfl⟩ := List.mem_map.mp hpass
  obtain ⟨hhost, hresource⟩ := sentTo_updateResource env dryRun visit server e.2 w op hop
  exact ⟨hhost, hresource ▸ List.mem_map_of_mem he⟩

theorem updateServer_sentTo (hosts : Hosts) (w : World) :
    ∀ op ∈ (updateServer env dryRun hosts visit server w).sent, op.host = server.host := by
  refine Trace.forall_sent_bind (fun op hop => ?_) fun records op hop => ?_
  · cases hop
  · exact (passes_sentTo env dryRun visit server records w op hop).1

theorem updateResource_elsewhere {resource other : Str} (hne : other ≠ resource)
    (records : List Dict) (w : World) :
    (w.after env (updateResource env dryRun visit server resource records w).sent
      server.host).tables other = (w server.host).tables other := by
  refine after_tables env w fun op hop hat => hne ?_
  exact hat.2.symm.trans (sentTo_updateResource env dryRun visit server records w op hop).2

theorem passes_return {records : ServerRecords} (hdistinct : (records.map Prod.fst).Nodup)
    (w : World) : (inTurn env (passes env dryRun visit server records) w).Returns ↔
      ∀ e ∈ records, (updateResource env dryRun visit server e.1 e.2 w).Returns := by
  induction records generalizing w with
  | nil => exact ⟨fun _ e he => (by cases he), fun _ => ⟨0, rfl⟩⟩
  | cons e records ih =>
    simp only [List.map_cons, List.nodup_cons] at hdistinct
    have hne : ∀ e' ∈ records, e'.1 ≠ e.1 := fun e' he' heq =>
      hdistinct.1 (heq ▸ List.mem_map_of_mem (f := Prod.fst) he')
    rw [passes, List.map_cons, inTurn_returns, List.forall_mem_cons]
    refine and_congr_right fun _ => ?_
    refine (ih hdistinct.2 _).trans (forall₂_congr fun e' he' => ?_)
    rw [updateResource_congr
      (updateResource_elsewhere env dryRun visit server (hne e' he') e.2 w)]

theorem updateServer_returns {hosts : Hosts} (h : ∀ r ∈ hosts.flatMap Prod.snd, "_resource" ∈ r)
    (w : World) : (updateServer env false hosts visit server w).Returns ↔
      ∀ resource, Clean env hosts w resource server := by
  obtain ⟨records, hrecords⟩ :=
    getRecordsByType_returns env (w server.host).interfaces server.host h
  have hgrouped := getRecordsByType_grouped env _ hrecords
  have hreturns : (updateServer env false hosts visit server w).Returns ↔
      (inTurn env (passes env false visit server records) w).Returns := by
    rw [updateServer, hrecords, Trace.lift_ok_bind]
    rfl
  rw [hreturns, passes_return env false visit server hgrouped.distinct]
  constructor
  · intro hall resource
    by_cases hnone : ∀ r, ¬Required env hosts server.host w resource r
    · exact clean_of_none hnone
    · obtain ⟨r, hr⟩ := not_forall_not.mp hnone
      obtain ⟨⟨_, set⟩, hmem, rfl⟩ := List.mem_map.mp (hgrouped.complete resource r hr)
      obtain ⟨-, hnodup, hset⟩ := hgrouped.sets _ _ hmem
      exact (updateResource_clean hnodup hset).mp (hall _ hmem)
  · rintro hall ⟨resource, set⟩ hmem
    obtain ⟨-, hnodup, hset⟩ := hgrouped.sets _ _ hmem
    exact (updateResource_clean hnodup hset).mpr (hall resource)

end Server

end Isz.Dns
