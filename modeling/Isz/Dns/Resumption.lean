import Isz.Dns.DryRun

namespace Isz.Dns

def Environment.choosing (env other : Environment) : Environment where
  Network := env.Network
  decEq := env.decEq
  cidr := env.cidr
  contains := env.contains
  iter := other.iter
  iter_perm := other.iter_perm
  newId := other.newId
  newId_fresh := other.newId_fresh

section Choosing

variable (env other : Environment) (interfaces : Interfaces)

theorem dhcpServerByNetwork_choosing :
    dhcpServerByNetwork (env.choosing other) interfaces = dhcpServerByNetwork env interfaces := by
  refine List.foldl_ext _ _ _ fun out x _ => ?_
  dsimp only
  split
  · rename_i network hfound
    split
    · rename_i network' hfound'
      obtain rfl := Option.some.inj (hfound.symm.trans hfound')
      rfl
    · rename_i hnone
      cases hfound.symm.trans hnone
  · rename_i hnone
    split
    · rename_i hfound
      cases hnone.symm.trans hfound
    · rfl

theorem leaseRecord_choosing :
    leaseRecord (env.choosing other) interfaces = leaseRecord env interfaces := by
  have hserver : getDhcpServerForAddress (env.choosing other) interfaces =
      getDhcpServerForAddress env interfaces := by
    funext address
    rw [getDhcpServerForAddress, dhcpServerByNetwork_choosing]
    rfl
  funext r
  simp only [leaseRecord, hserver]

theorem getRecordsByType_choosing :
    getRecordsByType (env.choosing other) interfaces = getRecordsByType env interfaces := by
  have hadd : addServerRecord (env.choosing other) interfaces = addServerRecord env interfaces := by
    funext host records r
    simp only [addServerRecord, serverRecord, leaseRecord_choosing]
  funext host hosts
  rw [getRecordsByType, hadd]
  rfl

end Choosing

def CutOff (env : Environment) (hosts : Hosts) (servers : List Server) (w w' : World) : Prop :=
  ∃ sent, sent <+: (dnsUpdate env false hosts servers w).sent ∧ w' = w.after env sent

theorem cutOff_take (env : Environment) (hosts : Hosts) (servers : List Server) (w : World)
    (n : Nat) :
    CutOff env hosts servers w (w.after env ((dnsUpdate env false hosts servers w).sent.take n)) :=
  ⟨_, List.take_prefix n _, rfl⟩

structure Resumable (env : Environment) (hosts : Hosts) (servers : List Server) (w : World) :
    Prop where
  plain : ∀ s ∈ servers, ∀ resource r, Required env hosts s.host w resource r → ¬Skips s r →
    Plain resource r
  calm : servers.Pairwise fun s s' => s.host = s'.host → ∀ resource,
    (∃ r, Required env hosts s'.host w resource r) →
    (∀ e ∈ entriesOf w resource s'.host, Live e → ∃ r,
      mikrotikToRecord resource e = .ok r ∧ Required env hosts s'.host w resource r) ∧
    ∀ r, Missing env hosts s'.host w resource r → Skips s r ∨ Skips s' r

theorem sum_map_le {ι : Type} {l : List ι} {f g : ι → Nat} (h : ∀ i ∈ l, f i ≤ g i) :
    (l.map f).sum ≤ (l.map g).sum ∧
      ((l.map f).sum = (l.map g).sum ↔ ∀ i ∈ l, f i = g i) := by
  induction l with
  | nil => exact ⟨Nat.le_refl 0, fun _ => nofun, fun _ => rfl⟩
  | cons i l ih =>
    obtain ⟨hi, hl⟩ := List.forall_mem_cons.mp h
    obtain ⟨hle, heq⟩ := ih hl
    simp only [List.map_cons, List.sum_cons, List.forall_mem_cons, ← heq]
    omega

theorem length_le_of_subset {l l' : List Dict} (hl : l.Nodup) (hl' : l'.Nodup) (h : l ⊆ l') :
    l.length ≤ l'.length ∧ (l.length = l'.length ↔ l' ⊆ l) := by
  have hsub := hl.subperm h
  refine ⟨hsub.length_le, fun heq => ?_, fun hback => ?_⟩
  · exact (hsub.perm_of_length_le heq.ge).symm.subset
  · exact Nat.le_antisymm hsub.length_le (hl'.subperm hback).length_le

theorem sortable_subset {l l' : List Dict} (hl : l.Nodup) (h : l ⊆ l') (hsort : Sortable l') :
    Sortable l := by
  rcases hsort with hlen | hkeys
  · exact .inl ((hl.subperm h).length_le.trans hlen)
  · exact .inr fun r hr => hkeys r (h hr)

theorem sticks_old {server : Server} {r : Dict} (hold : server.oldDns = true)
    (htype : r.lookup "type" = some "A".toList)
    (hresource : r.lookup "_resource" = some dnsStatic) (hplain : Plain dnsStatic r) :
    Sticks server dnsStatic r := by
  intro id
  have hbare : bare dnsStatic (stored id (addKwargs server r)) = r.erase "type" := by
    have hswap : addKwargs server r = (r.erase "type").erase "_resource" := by
      rw [addKwargs, if_pos hold, Finmap.erase_erase]
    rw [hswap]
    refine bare_stored ?_ fun key hkey => ?_
    · rwa [Finmap.lookup_erase_ne (by decide)]
    · rw [Finmap.lookup_erase_ne (by rintro rfl; exact absurd hkey (by decide))]
      exact hplain.rowKeys key hkey
  have huntyped : "type" ∉ r.erase "type" := Finmap.notMem_erase_self
  simp only [recordOf, hbare, defaults, if_true, if_neg huntyped]
  refine Finmap.ext_lookup fun key => ?_
  by_cases hkey : key = "type"
  · subst hkey
    rw [Finmap.lookup_insert, htype]
  · rw [Finmap.lookup_insert_of_ne _ hkey, Finmap.lookup_erase_ne hkey]

section Since

variable (recs : Str → ServerRecords) (base : World)

structure Settled (done : List Server) (w : World) (host : Str) (e : Str × List Dict) : Prop where
  fresh : stale e.1 e.2 (entriesOf w e.1 host) = []
  once : (matched e.1 e.2 (entriesOf w e.1 host)).Nodup
  rest : ∀ r, r ∈ missing e.1 e.2 (entriesOf w e.1 host) ↔
    r ∈ missing e.1 e.2 (entriesOf base e.1 host) ∧ ∀ s ∈ done, s.host = host → Skips s r
  onceBefore : (matched e.1 e.2 (entriesOf base e.1 host)).Nodup
  sortableBefore : Sortable (missing e.1 e.2 (entriesOf base e.1 host))

structure Since (done : List Server) (w : World) : Prop where
  interfaces : ∀ host, (w host).interfaces = (base host).interfaces
  untouched : ∀ host, host ∉ done.map Server.host → ∀ resource,
    (w host).tables resource = (base host).tables resource
  settled : ∀ s ∈ done, ∀ e ∈ recs s.host, Settled base done w s.host e

theorem since_start : Since recs base [] base := ⟨fun _ => rfl, fun _ _ _ => rfl, nofun⟩

variable {recs base} {env : Environment} {done : List Server} {w : World} {visit : Nat}
  {server : Server}

theorem Since.rest (h : Since recs base done w) {e : Str × List Dict} (he : e ∈ recs server.host)
    (r : Dict) : r ∈ missing e.1 e.2 (entriesOf w e.1 server.host) ↔
      r ∈ missing e.1 e.2 (entriesOf base e.1 server.host) ∧
        ∀ s ∈ done, s.host = server.host → Skips s r := by
  by_cases hdone : server.host ∈ done.map Server.host
  · obtain ⟨s, hs, hhost⟩ := List.mem_map.mp hdone
    rw [← hhost] at he ⊢
    exact (h.settled s hs e he).rest r
  · have hother : ∀ s ∈ done, s.host = server.host → Skips s r := fun s hs hhost =>
      absurd (List.mem_map.mpr ⟨s, hs, hhost⟩) hdone
    rw [entriesOf, h.untouched _ hdone, ← entriesOf]
    exact (and_iff_left hother).symm

theorem Since.before (h : Since recs base done w) {e : Str × List Dict}
    (he : e ∈ recs server.host)
    (honce : (matched e.1 e.2 (entriesOf w e.1 server.host)).Nodup)
    (hsortable : Sortable (missing e.1 e.2 (entriesOf w e.1 server.host))) :
    (matched e.1 e.2 (entriesOf base e.1 server.host)).Nodup ∧
      Sortable (missing e.1 e.2 (entriesOf base e.1 server.host)) := by
  by_cases hdone : server.host ∈ done.map Server.host
  · obtain ⟨s, hs, hhost⟩ := List.mem_map.mp hdone
    rw [← hhost] at he ⊢
    exact ⟨(h.settled s hs e he).onceBefore, (h.settled s hs e he).sortableBefore⟩
  · rw [entriesOf, h.untouched _ hdone, ← entriesOf] at honce hsortable
    exact ⟨honce, hsortable⟩

theorem Since.settle (h : Since recs base done w) {e : Str × List Dict}
    (he : e ∈ recs server.host) (hnodup : e.2.Nodup) (hresource : ∀ r ∈ e.2, "_resource" ∈ r)
    (hsticks : ∀ r ∈ taken server e.1 e.2 (entriesOf w e.1 server.host), Sticks server e.1 r)
    (hreturns : (updateResource env false visit server e.1 e.2 w).Returns) :
    Settled base (done ++ [server])
      (w.after env (updateResource env false visit server e.1 e.2 w).sent) server.host e := by
  obtain ⟨honce, hsortable, -⟩ := (updateResource_returns env hnodup hresource).mp hreturns
  obtain ⟨hfresh, added, hadded, hmatched⟩ :=
    updateResource_settles env hnodup hresource hsticks hreturns
  obtain ⟨honceBefore, hsortableBefore⟩ := h.before he honce hsortable
  refine ⟨hfresh, ?_, fun r => ?_, honceBefore, hsortableBefore⟩
  · rw [hmatched, List.nodup_append']
    refine ⟨honce, hadded.nodup_iff.mpr (taken_nodup hnodup), fun r hr hr' => ?_⟩
    have hmissing := List.mem_of_mem_filter (hadded.mem_iff.mp hr')
    exact (hnodup.mem_sdiff_iff.mp hmissing).2 hr
  · have hrest := h.rest he r
    rw [missing, hnodup.mem_sdiff_iff, hmatched, List.mem_append, hadded.mem_iff, mem_taken, not_or,
      ← and_assoc, ← hnodup.mem_sdiff_iff, ← missing, hrest]
    simp only [List.forall_mem_append, List.forall_mem_singleton]
    tauto

end Since

section Visit

variable {env : Environment} {hosts : Hosts} {base : World} {recs : Str → ServerRecords}
  (hrecs : ∀ host, getRecordsByType env (base host).interfaces host hosts = .ok (recs host))
  {done : List Server} {w : World} {visit : Nat} {server : Server}
include hrecs

theorem recs_grouped (host : Str) :
    Grouped (recs host) (Requires env (base host).interfaces host hosts) :=
  getRecordsByType_grouped env _ (hrecs host)

theorem recs_set {host : Str} {e : Str × List Dict} (he : e ∈ recs host) :
    e.2.Nodup ∧ (∀ r ∈ e.2, r.lookup "_resource" = some e.1) ∧ ∀ r ∈ e.2, "_resource" ∈ r := by
  obtain ⟨-, hnodup, hset⟩ := (recs_grouped hrecs host).sets e.1 e.2 he
  have hresource : ∀ r ∈ e.2, r.lookup "_resource" = some e.1 := fun r hr => ((hset r).mp hr).1
  exact ⟨hnodup, hresource, fun r hr => Finmap.mem_of_lookup_eq_some (hresource r hr)⟩

theorem updateServer_eq (hsame : ∀ host, (w host).interfaces = (base host).interfaces) :
    updateServer env false hosts visit server w =
      inTurn env (passes env false visit server (recs server.host)) w := by
  rw [updateServer, hsame, hrecs, Trace.lift_ok_bind]
  rfl

theorem visit_returns (hsame : ∀ host, (w host).interfaces = (base host).interfaces) :
    (updateServer env false hosts visit server w).Returns ↔ ∀ e ∈ recs server.host,
      (updateResource env false visit server e.1 e.2 w).Returns := by
  rw [updateServer_eq hrecs hsame]
  exact passes_return env false visit server (recs_grouped hrecs server.host).distinct w

theorem since_step (h : Since recs base done w)
    (hsticks : ∀ e ∈ recs server.host, ∀ r ∈ taken server e.1 e.2 (entriesOf w e.1 server.host),
      Sticks server e.1 r)
    (hreturns : (updateServer env false hosts visit server w).Returns) :
    Since recs base (done ++ [server])
      (w.after env (updateServer env false hosts visit server w).sent) := by
  have hall := (visit_returns hrecs h.interfaces).mp hreturns
  have helsewhere : ∀ host, host ≠ server.host → ∀ resource,
      ((w.after env (updateServer env false hosts visit server w).sent) host).tables resource =
        (w host).tables resource := fun host hne resource =>
    after_tables env w fun op hop hat =>
      hne (hat.1.symm.trans (updateServer_sentTo env false visit server hosts w op hop))
  refine ⟨fun host => ?_, fun host hhost resource => ?_, fun s hs e he => ?_⟩
  · rw [after_interfaces, h.interfaces]
  · rw [List.map_append, List.mem_append, not_or] at hhost
    have hne : host ≠ server.host := fun heq => hhost.2 (List.mem_singleton.mpr heq)
    rw [helsewhere host hne, h.untouched host hhost.1]
  · by_cases hhost : s.host = server.host
    · rw [hhost] at he ⊢
      obtain ⟨hnodup, -, hresource⟩ := recs_set hrecs he
      have hown := h.settle he hnodup hresource (hsticks e he) (hall e he)
      rw [updateServer_eq hrecs h.interfaces] at hreturns ⊢
      have htable := passes_table env (recs_grouped hrecs server.host).distinct he hreturns
      have hentries : entriesOf (w.after env (inTurn env (passes env false visit server
          (recs server.host)) w).sent) e.1 server.host =
          entriesOf (w.after env (updateResource env false visit server e.1 e.2 w).sent) e.1
            server.host := congrArg Table.entries htable
      obtain ⟨hfresh, honce, hrest, honceBefore, hsortableBefore⟩ := hown
      rw [← hentries] at hfresh honce hrest
      exact ⟨hfresh, honce, hrest, honceBefore, hsortableBefore⟩
    · have hs : s ∈ done := (List.mem_append.mp hs).resolve_right fun hlast =>
        hhost (congrArg Server.host (List.mem_singleton.mp hlast))
      obtain ⟨hfresh, honce, hrest, honceBefore, hsortableBefore⟩ := h.settled s hs e he
      have hentries : entriesOf (w.after env (updateServer env false hosts visit server w).sent)
          e.1 s.host = entriesOf w e.1 s.host :=
        congrArg Table.entries (helsewhere s.host hhost e.1)
      rw [← hentries] at hfresh honce hrest
      refine ⟨hfresh, honce, fun r => (hrest r).trans ?_, honceBefore, hsortableBefore⟩
      rw [List.forall_mem_append, List.forall_mem_singleton]
      exact and_congr_right fun _ => (and_iff_left fun heq => absurd heq.symm hhost).symm

def load (server : Server) (w : World) (e : Str × List Dict) : Nat :=
  (stale e.1 e.2 (entriesOf w e.1 server.host)).length +
    (taken server e.1 e.2 (entriesOf w e.1 server.host)).length

theorem visit_length (hsame : ∀ host, (w host).interfaces = (base host).interfaces)
    (hreturns : (updateServer env false hosts visit server w).Returns) :
    (updateServer env false hosts visit server w).sent.length =
      ((recs server.host).map (load server w)).sum := by
  have hall := (visit_returns hrecs hsame).mp hreturns
  rw [updateServer_eq hrecs hsame] at hreturns ⊢
  rw [passes_length env visit server (recs_grouped hrecs server.host).distinct hreturns]
  refine congrArg List.sum (List.map_congr_left fun e he => ?_)
  obtain ⟨hnodup, -, hresource⟩ := recs_set hrecs he
  obtain ⟨ordered, hperm, hsent⟩ := updateResource_sent env hnodup hresource (hall e he)
  rw [hsent, List.length_append, List.length_map, List.length_map, load, taken,
    (hperm.filter _).length_eq]

def Calm (recs : Str → ServerRecords) (base : World) (s s' : Server) : Prop :=
  s.host = s'.host → ∀ e ∈ recs s'.host, stale e.1 e.2 (entriesOf base e.1 s'.host) = [] ∧
    ∀ r ∈ missing e.1 e.2 (entriesOf base e.1 s'.host), Skips s r ∨ Skips s' r

theorem load_le (h : Since recs base done w) {e : Str × List Dict} (he : e ∈ recs server.host) :
    load server w e ≤ load server base e ∧ (load server w e = load server base e ↔
      ∀ s ∈ done, s.host = server.host →
        stale e.1 e.2 (entriesOf base e.1 server.host) = [] ∧
        ∀ r ∈ missing e.1 e.2 (entriesOf base e.1 server.host), Skips s r ∨ Skips server r) := by
  obtain ⟨hnodup, -, -⟩ := recs_set hrecs he
  have hrest := h.rest he
  by_cases hdone : server.host ∈ done.map Server.host
  · obtain ⟨first, hfirst, hhost⟩ := List.mem_map.mp hdone
    have hfresh : stale e.1 e.2 (entriesOf w e.1 server.host) = [] := by
      rw [← hhost] at he ⊢
      exact (h.settled first hfirst e he).fresh
    have hsub : taken server e.1 e.2 (entriesOf w e.1 server.host) ⊆
        taken server e.1 e.2 (entriesOf base e.1 server.host) := fun r hr =>
      mem_taken.mpr ⟨((hrest r).mp (mem_taken.mp hr).1).1, (mem_taken.mp hr).2⟩
    obtain ⟨hle, hlength⟩ := length_le_of_subset (taken_nodup hnodup) (taken_nodup hnodup) hsub
    rw [load, load, hfresh, List.length_nil, Nat.zero_add]
    refine ⟨Nat.le_add_left_of_le hle, fun heq s hs hsame => ?_, fun hcalm => ?_⟩
    · have hstale : (stale e.1 e.2 (entriesOf base e.1 server.host)).length = 0 := by omega
      have hback := hlength.mp (by omega)
      refine ⟨List.length_eq_zero_iff.mp hstale, fun r hr => ?_⟩
      by_cases hskip : Skips server r
      · exact .inr hskip
      · have hr' := (mem_taken.mp (hback (mem_taken.mpr ⟨hr, hskip⟩))).1
        exact .inl (((hrest r).mp hr').2 s hs hsame)
    · have hback : taken server e.1 e.2 (entriesOf base e.1 server.host) ⊆
          taken server e.1 e.2 (entriesOf w e.1 server.host) := fun r hr => by
        obtain ⟨hr, hskip⟩ := mem_taken.mp hr
        refine mem_taken.mpr ⟨(hrest r).mpr ⟨hr, fun s hs hsame => ?_⟩, hskip⟩
        exact ((hcalm s hs hsame).2 r hr).resolve_right hskip
      rw [(hcalm first hfirst hhost).1, List.length_nil, Nat.zero_add]
      exact hlength.mpr hback
  · have hentries : entriesOf w e.1 server.host = entriesOf base e.1 server.host :=
      congrArg Table.entries (h.untouched _ hdone e.1)
    rw [load, load, hentries]
    refine ⟨Nat.le_refl _, fun _ s hs hhost => ?_, fun _ => rfl⟩
    exact absurd (List.mem_map.mpr ⟨s, hs, hhost⟩) hdone

theorem visit_le (h : Since recs base done w)
    (hreturns : (updateServer env false hosts visit server w).Returns) :
    (updateServer env false hosts visit server w).sent.length ≤
        ((recs server.host).map (load server base)).sum ∧
      ((updateServer env false hosts visit server w).sent.length =
          ((recs server.host).map (load server base)).sum ↔
        ∀ s ∈ done, Calm recs base s server) := by
  rw [visit_length hrecs h.interfaces hreturns]
  obtain ⟨hle, heq⟩ := sum_map_le fun e (he : e ∈ recs server.host) => (load_le hrecs h he).1
  refine ⟨hle, heq.trans ⟨fun hall s hs hhost e he => ?_, fun hcalm e he => ?_⟩⟩
  · exact (load_le hrecs h he).2.mp (hall e he) s hs hhost
  · exact (load_le hrecs h he).2.mpr fun s hs hhost => hcalm s hs hhost e he

theorem visit_returns_before (h : Since recs base done w)
    (hreturns : (updateServer env false hosts visit server w).Returns)
    (hcalm : ∀ s ∈ done, Calm recs base s server) :
    (updateServer env false hosts visit server base).Returns := by
  have hall := (visit_returns hrecs h.interfaces).mp hreturns
  refine (visit_returns hrecs fun _ => rfl).mpr fun e he => ?_
  by_cases hdone : server.host ∈ done.map Server.host
  · obtain ⟨hnodup, -, hresource⟩ := recs_set hrecs he
    obtain ⟨honce, hsortable, -⟩ := (updateResource_returns env hnodup hresource).mp (hall e he)
    obtain ⟨honceBefore, hsortableBefore⟩ := h.before he honce hsortable
    obtain ⟨s, hs, hhost⟩ := List.mem_map.mp hdone
    refine (updateResource_returns env hnodup hresource).mpr
      ⟨honceBefore, hsortableBefore, fun hold r hr => ?_⟩
    exact ((hcalm s hs hhost e he).2 r hr).elim (fun hskip => hskip.2.1) fun hskip => hskip.2.1
  · rw [← updateResource_congr (h.untouched _ hdone e.1)]
    exact hall e he

end Visit

section Run

variable {env : Environment} {hosts : Hosts} {base : World} {recs : Str → ServerRecords}
  (hrecs : ∀ host, getRecordsByType env (base host).interfaces host hosts = .ok (recs host))
  (htyped : ∀ host, ∀ e ∈ recs host, ∀ r ∈ e.2, "type" ∈ r → e.1 = dnsStatic)
include hrecs htyped

theorem sticks_of_plain {server : Server} {w : World} {visit : Nat}
    (hplain : ∀ e ∈ recs server.host, ∀ r ∈ e.2, ¬Skips server r → Plain e.1 r)
    (hsame : ∀ host, (w host).interfaces = (base host).interfaces)
    (hreturns : (updateServer env false hosts visit server w).Returns) :
    ∀ e ∈ recs server.host, ∀ r ∈ taken server e.1 e.2 (entriesOf w e.1 server.host),
      Sticks server e.1 r := by
  intro e he r hr
  obtain ⟨hnodup, hfield, hresource⟩ := recs_set hrecs he
  obtain ⟨hmissing, hskip⟩ := mem_taken.mp hr
  have hmem := ((mem_missing hnodup).mp hmissing).1
  have hrow := hplain e he r hmem hskip
  cases hold : server.oldDns with
  | false => exact sticks_new hold (hfield r hmem) hrow
  | true =>
    have hown := (visit_returns hrecs hsame).mp hreturns e he
    have htype := ((updateResource_returns env hnodup hresource).mp hown).2.2 hold r hmissing
    have haddress : r.lookup "type" = some "A".toList := by
      by_contra hne
      exact hskip ⟨hold, htype, hne⟩
    have hstatic := htyped _ e he r hmem htype
    have hfield := hfield r hmem
    rw [hstatic] at hfield hrow ⊢
    exact sticks_old hold haddress hfield hrow

def Calms (recs : Str → ServerRecords) (base : World) (done : List Server)
    (visits : List (Server × Nat)) : Prop :=
  (∀ s ∈ done, ∀ v ∈ visits, Calm recs base s v.1) ∧
    visits.Pairwise fun v v' => Calm recs base v.1 v'.1

omit hrecs htyped in
theorem calms_cons {done : List Server} {v : Server × Nat} {visits : List (Server × Nat)} :
    Calms recs base done (v :: visits) ↔
      (∀ s ∈ done, Calm recs base s v.1) ∧ Calms recs base (done ++ [v.1]) visits := by
  simp only [Calms, List.forall_mem_cons, List.pairwise_cons, List.forall_mem_append, forall_and]
  tauto

def total (recs : Str → ServerRecords) (base : World) (visits : List (Server × Nat)) : Nat :=
  (visits.map fun v => ((recs v.1.host).map (load v.1 base)).sum).sum

theorem since_run {visits : List (Server × Nat)} {done : List Server} {w : World}
    (hplain : ∀ v ∈ visits, ∀ e ∈ recs v.1.host, ∀ r ∈ e.2, ¬Skips v.1 r → Plain e.1 r)
    (h : Since recs base done w) (hreturns : (inTurn env (updates env hosts visits) w).Returns) :
    Since recs base (done ++ visits.map Prod.fst)
        (w.after env (inTurn env (updates env hosts visits) w).sent) ∧
      (inTurn env (updates env hosts visits) w).sent.length ≤ total recs base visits ∧
      ((inTurn env (updates env hosts visits) w).sent.length = total recs base visits ↔
        Calms recs base done visits) ∧
      (Calms recs base done visits →
        ∀ v ∈ visits, (updateServer env false hosts v.2 v.1 base).Returns) := by
  induction visits generalizing done w with
  | nil =>
    rw [List.map_nil, List.append_nil]
    exact ⟨h, Nat.le_refl 0, ⟨fun _ => ⟨fun _ _ => nofun, .nil⟩, fun _ => rfl⟩, fun _ => nofun⟩
  | cons v visits ih =>
    obtain ⟨hfirst, hrest⟩ := (inTurn_returns env).mp hreturns
    have hsent := inTurn_sent env hreturns
    obtain ⟨hplainv, hplain⟩ := List.forall_mem_cons.mp hplain
    have hsticks := sticks_of_plain hrecs htyped hplainv h.interfaces hfirst
    obtain ⟨hsince, hle, heq, hbefore⟩ := ih hplain (since_step hrecs h hsticks hfirst) hrest
    obtain ⟨hlev, heqv⟩ := visit_le hrecs h hfirst
    have htotal : total recs base (v :: visits) =
        ((recs v.1.host).map (load v.1 base)).sum + total recs base visits := by
      rw [total, List.map_cons, List.sum_cons, ← total]
    simp only [updates, List.map_cons] at hsent hsince hle heq ⊢
    rw [hsent, after_append, List.length_append, htotal, List.append_cons, List.forall_mem_cons]
    refine ⟨hsince, Nat.add_le_add hlev hle, ?_, fun hcalms => ?_⟩
    · rw [calms_cons, ← heqv, ← heq]
      omega
    · obtain ⟨hcalm, hcalms⟩ := calms_cons.mp hcalms
      exact ⟨visit_returns_before hrecs h hfirst hcalm, hbefore hcalms⟩

end Run

section Idle

def Idle (x : Run Nat) : Prop := x.Returns ∧ x.sent = []

theorem idle_iff {x : Run Nat} (h : Counted x) : Idle x ↔ x = ⟨[], .ok 0⟩ := by
  constructor
  · rintro ⟨⟨count, hcount⟩, hsent⟩
    have hzero := h count hcount
    obtain ⟨sent, result⟩ := x
    simp only at hcount hsent hzero
    rw [hsent] at hzero
    rw [hsent, hcount, hzero]
    rfl
  · rintro rfl
    exact ⟨⟨0, rfl⟩, rfl⟩

theorem inTurn_idle (env : Environment) {passes : List (World → Run Nat)} {w : World} :
    Idle (inTurn env passes w) ↔ ∀ pass ∈ passes, Idle (pass w) := by
  induction passes with
  | nil => exact ⟨fun _ => nofun, fun _ => ⟨⟨0, rfl⟩, rfl⟩⟩
  | cons pass passes ih =>
    rw [List.forall_mem_cons, ← ih]
    constructor
    · rintro ⟨hreturns, hsent⟩
      rw [inTurn_sent env hreturns, List.append_eq_nil_iff] at hsent
      obtain ⟨hfirst, hrest⟩ := (inTurn_returns env).mp hreturns
      obtain ⟨hsent, hsentRest⟩ := hsent
      rw [hsent] at hrest hsentRest
      exact ⟨⟨hfirst, hsent⟩, hrest, hsentRest⟩
    · rintro ⟨⟨hfirst, hsent⟩, hrest, hsentRest⟩
      have hreturns : (inTurn env (pass :: passes) w).Returns := by
        refine (inTurn_returns env).mpr ⟨hfirst, ?_⟩
        rw [hsent]
        exact hrest
      refine ⟨hreturns, ?_⟩
      rw [inTurn_sent env hreturns, hsent]
      exact hsentRest

variable {env : Environment} {hosts : Hosts} {base : World} {recs : Str → ServerRecords}
  (hrecs : ∀ host, getRecordsByType env (base host).interfaces host hosts = .ok (recs host))
  {w : World} (hsame : ∀ host, (w host).interfaces = (base host).interfaces)
include hrecs hsame

theorem visit_idle {visit : Nat} {server : Server} :
    Idle (updateServer env false hosts visit server w) ↔ ∀ e ∈ recs server.host,
      (updateResource env false visit server e.1 e.2 w).Returns ∧
      stale e.1 e.2 (entriesOf w e.1 server.host) = [] ∧
      taken server e.1 e.2 (entriesOf w e.1 server.host) = [] := by
  rw [updateServer_eq hrecs hsame, inTurn_idle, passes, List.forall_mem_map]
  refine forall₂_congr fun e he => ?_
  obtain ⟨hnodup, -, hresource⟩ := recs_set hrecs he
  exact and_congr_right fun hreturns => updateResource_silent env hnodup hresource hreturns

theorem plain_of_idle {visit : Nat} {server : Server}
    (h : Idle (updateServer env false hosts visit server w)) :
    ∀ e ∈ recs server.host, ∀ r ∈ e.2, ¬Skips server r → Plain e.1 r := by
  intro e he r hr hskip
  obtain ⟨hnodup, -, -⟩ := recs_set hrecs he
  obtain ⟨-, -, htaken⟩ := (visit_idle hrecs hsame).mp h e he
  have hfound : r ∈ matched e.1 e.2 (entriesOf w e.1 server.host) ∨
      r ∈ missing e.1 e.2 (entriesOf w e.1 server.host) := mem_matched_or_missing _ hnodup hr
  rcases hfound with hm | hm
  · obtain ⟨-, row, -, -, rfl⟩ := mem_matched.mp hm
    exact recordOf_plain _ _
  · have hmem := mem_taken.mpr ⟨hm, hskip⟩
    rw [htaken] at hmem
    cases hmem

theorem idle_of_since {visit : Nat} {server : Server} {done : List Server}
    (h : Since recs base done w) (hdone : server ∈ done) :
    Idle (updateServer env false hosts visit server w) := by
  refine (visit_idle hrecs hsame).mpr fun e he => ?_
  obtain ⟨hnodup, -, hresource⟩ := recs_set hrecs he
  obtain ⟨hfresh, honce, hrest, -, hsortable⟩ := h.settled server hdone e he
  have hskip : ∀ r ∈ missing e.1 e.2 (entriesOf w e.1 server.host), Skips server r :=
    fun r hr => ((hrest r).mp hr).2 server hdone rfl
  have hsub : missing e.1 e.2 (entriesOf w e.1 server.host) ⊆
      missing e.1 e.2 (entriesOf base e.1 server.host) := fun r hr => ((hrest r).mp hr).1
  refine ⟨(updateResource_returns env hnodup hresource).mpr ⟨honce, ?_, ?_⟩, hfresh, ?_⟩
  · exact sortable_subset (missing_nodup hnodup) hsub hsortable
  · exact fun _ r hr => (hskip r hr).2.1
  · refine List.eq_nil_iff_forall_not_mem.mpr fun r hr => ?_
    obtain ⟨hmissing, hnot⟩ := mem_taken.mp hr
    exact hnot (hskip r hmissing)

end Idle

theorem exists_recs (env : Environment) {inputs : List (List Str × Zone)} {hosts : Hosts}
    (h : parseFiles inputs = .ok hosts) (w : World) : ∃ recs : Str → ServerRecords,
    (∀ host, getRecordsByType env (w host).interfaces host hosts = .ok (recs host)) ∧
    ∀ host, ∀ e ∈ recs host, ∀ r ∈ e.2, "type" ∈ r → e.1 = dnsStatic := by
  choose recs hrecs using fun host =>
    getRecordsByType_returns env (w host).interfaces host (resourced_of_parseFiles h)
  refine ⟨recs, hrecs, fun host e he r hr htype => ?_⟩
  obtain ⟨-, -, hset⟩ := (recs_grouped hrecs host).sets e.1 e.2 he
  obtain ⟨hresource, r₀, hmem, hrecord⟩ := (hset r).mp hr
  have htype₀ : "type" ∈ r₀ := by
    rwa [← Finmap.lookup_isSome, ← serverRecord_lookup env _ hrecord (by decide),
      Finmap.lookup_isSome]
  obtain ⟨entry, hentry, hr₀⟩ := List.mem_flatMap.mp hmem
  have hstatic := parseFiles_forall mapRd_typedStatic h entry hentry r₀ hr₀ htype₀
  rw [serverRecord_resource env _ hrecord, hstatic] at hresource
  exact (Option.some.inj hresource).symm

section Condition

variable {env : Environment} {hosts : Hosts} {base : World} {recs : Str → ServerRecords}
  (hrecs : ∀ host, getRecordsByType env (base host).interfaces host hosts = .ok (recs host))
include hrecs

theorem mem_recs {host : Str} {e : Str × List Dict} (he : e ∈ recs host) (r : Dict) :
    r ∈ e.2 ↔ Required env hosts host base e.1 r :=
  ((recs_grouped hrecs host).sets e.1 e.2 he).2.2 r

theorem exists_required {host : Str} {e : Str × List Dict} (he : e ∈ recs host) :
    ∃ r, Required env hosts host base e.1 r := by
  obtain ⟨r, hr⟩ := List.exists_mem_of_ne_nil e.2 ((recs_grouped hrecs host).sets e.1 e.2 he).1
  exact ⟨r, (mem_recs hrecs he r).mp hr⟩

theorem fresh_iff {host : Str} {e : Str × List Dict} (he : e ∈ recs host) :
    stale e.1 e.2 (entriesOf base e.1 host) = [] ↔
      ∀ row ∈ entriesOf base e.1 host, Live row → ∃ r,
        mikrotikToRecord e.1 row = .ok r ∧ Required env hosts host base e.1 r := by
  rw [stale_eq_nil]
  refine forall₂_congr fun row hrow => forall_congr' fun _ => ?_
  rw [mikrotikToRecord_eq (((base host).tables e.1).carries row hrow), mem_recs hrecs he]
  simp only [Except.ok.injEq, exists_eq_left']

theorem calm_iff {s s' : Server} : Calm recs base s s' ↔ (s.host = s'.host → ∀ resource,
    (∃ r, Required env hosts s'.host base resource r) →
    (∀ e ∈ entriesOf base resource s'.host, Live e → ∃ r,
      mikrotikToRecord resource e = .ok r ∧ Required env hosts s'.host base resource r) ∧
    ∀ r, Missing env hosts s'.host base resource r → Skips s r ∨ Skips s' r) := by
  have hmissing : ∀ e ∈ recs s'.host, ∀ r, r ∈ missing e.1 e.2 (entriesOf base e.1 s'.host) ↔
      Missing env hosts s'.host base e.1 r := fun e he r =>
    mem_missing_iff (recs_set hrecs he).1 (mem_recs hrecs he)
  refine forall_congr' fun _ => ?_
  constructor
  · rintro h resource ⟨r, hr⟩
    obtain ⟨e, he, rfl⟩ := List.mem_map.mp ((recs_grouped hrecs s'.host).complete resource r hr)
    obtain ⟨hfresh, hskips⟩ := h e he
    exact ⟨(fresh_iff hrecs he).mp hfresh, fun r hr => hskips r ((hmissing e he r).mpr hr)⟩
  · intro h e he
    obtain ⟨hfresh, hskips⟩ := h e.1 (exists_required hrecs he)
    exact ⟨(fresh_iff hrecs he).mpr hfresh, fun r hr => hskips r ((hmissing e he r).mp hr)⟩

theorem resumable_iff {servers : List Server} : Resumable env hosts servers base ↔
    (∀ s ∈ servers, ∀ e ∈ recs s.host, ∀ r ∈ e.2, ¬Skips s r → Plain e.1 r) ∧
      servers.Pairwise (Calm recs base) := by
  constructor
  · rintro ⟨hplain, hcalm⟩
    refine ⟨fun s hs e he r hr => hplain s hs e.1 r ((mem_recs hrecs he r).mp hr), ?_⟩
    exact hcalm.imp fun {s s'} h => (calm_iff hrecs).mpr h
  · rintro ⟨hplain, hcalm⟩
    refine ⟨fun s hs resource r hr hskip => ?_, hcalm.imp fun {s s'} h => (calm_iff hrecs).mp h⟩
    obtain ⟨e, he, rfl⟩ := List.mem_map.mp ((recs_grouped hrecs s.host).complete resource r hr)
    exact hplain s hs e he r ((mem_recs hrecs he r).mpr hr) hskip

end Condition

section Choices

variable {env : Environment} {hosts : Hosts} {base : World} {recs : Str → ServerRecords}
  (hrecs : ∀ host, getRecordsByType env (base host).interfaces host hosts = .ok (recs host))
  (other : Environment)
include hrecs

theorem choosing_recs (host : Str) :
    getRecordsByType (env.choosing other) (base host).interfaces host hosts = .ok (recs host) := by
  rw [getRecordsByType_choosing]
  exact hrecs host

theorem choosing_returns {visit : Nat} {server : Server} :
    (updateServer (env.choosing other) false hosts visit server base).Returns ↔
      (updateServer env false hosts visit server base).Returns := by
  rw [visit_returns hrecs fun _ => rfl, visit_returns (choosing_recs hrecs other) fun _ => rfl]
  refine forall₂_congr fun e he => ?_
  obtain ⟨hnodup, -, hresource⟩ := recs_set hrecs he
  rw [updateResource_returns env hnodup hresource, updateResource_returns _ hnodup hresource]

theorem dry_counts {servers : List Server} {count : Nat} :
    (dnsUpdate (env.choosing other) true hosts servers base).result = .ok count ↔
      (∀ v ∈ servers.zipIdx, (updateServer env false hosts v.2 v.1 base).Returns) ∧
      count = total recs base servers.zipIdx := by
  rw [dnsUpdate_dry]
  simp only [choosing_returns hrecs]
  refine and_congr_right fun hreturns => ?_
  rw [total, List.map_congr_left fun v hv => visit_length (choosing_recs hrecs other)
    (fun _ => rfl) ((choosing_returns hrecs other).mpr (hreturns v hv))]

end Choices

section Resume

variable {env : Environment} {inputs : List (List Str × Zone)} {hosts : Hosts}

theorem further_idle (env : Environment) {hosts : Hosts} {servers : List Server} {w : World} :
    dnsUpdate env false hosts servers w = ⟨[], .ok 0⟩ ↔
      ∀ v ∈ servers.zipIdx, Idle (updateServer env false hosts v.2 v.1 w) := by
  rw [← idle_iff (counted_dnsUpdate env hosts servers w), dnsUpdate, inTurn_idle,
    List.forall_mem_map]

theorem forall_visits {servers : List Server} {p : Server → Prop} :
    (∀ v ∈ servers.zipIdx, p v.1) ↔ ∀ s ∈ servers, p s := by
  rw [← List.forall_mem_map, List.zipIdx_map_fst]

theorem dnsUpdate_resumes_iff (h : parseFiles inputs = .ok hosts) (servers : List Server)
    (w : World) (first again dry : Environment) :
    ∀ w', CutOff (env.choosing first) hosts servers w w' →
    (dnsUpdate env false hosts servers w').Returns →
    (dnsUpdate (env.choosing again) false hosts servers
        (w'.after env (dnsUpdate env false hosts servers w').sent) = ⟨[], .ok 0⟩ ∧
      (dnsUpdate (env.choosing dry) true hosts servers w').result =
        .ok (dnsUpdate env false hosts servers w').sent.length ↔
      Resumable env hosts servers w') := by
  intro w' _ hreturns
  obtain ⟨recs, hrecs, htyped⟩ := exists_recs env h w'
  have hsame := fun host => after_interfaces env w' (dnsUpdate env false hosts servers w').sent host
  have hpairs : Calms recs w' [] servers.zipIdx ↔ servers.Pairwise (Calm recs w') := by
    rw [Calms, and_iff_right (fun s hs => absurd hs List.not_mem_nil), ← List.pairwise_map,
      List.zipIdx_map_fst]
  rw [resumable_iff hrecs, further_idle, dry_counts hrecs dry, ← hpairs,
    ← forall_visits (p := fun s => ∀ e ∈ recs s.host, ∀ r ∈ e.2, ¬Skips s r → Plain e.1 r)]
  constructor
  · rintro ⟨hidle, -, hcount⟩
    have hplain := fun v hv => plain_of_idle (choosing_recs hrecs again) hsame (hidle v hv)
    exact ⟨hplain, (since_run hrecs htyped hplain (since_start recs w') hreturns).2.2.1.mp hcount⟩
  · rintro ⟨hplain, hcalms⟩
    obtain ⟨hsince, -, hcount, hbefore⟩ :=
      since_run hrecs htyped hplain (since_start recs w') hreturns
    refine ⟨fun v hv => ?_, hbefore hcalms, hcount.mpr hcalms⟩
    exact idle_of_since (choosing_recs hrecs again) hsame hsince (List.mem_map_of_mem hv)

end Resume

def routerServer : Server := ⟨"router".toList, false⟩

theorem dnsUpdate_resumes_oldRow : ∃ hosts w', parseFiles [([], twoHosts)] = .ok hosts ∧
    CutOff plainEnvironment hosts [routerServer] (routerWith oldRow) w' ∧
    Resumable plainEnvironment hosts [routerServer] w' := by
  have hparse : parseFiles [([], twoHosts)] = .ok _ := rfl
  exact ⟨_, _, hparse, cutOff_take _ _ _ _ 1, (dnsUpdate_resumes_iff hparse [routerServer]
    (routerWith oldRow) plainEnvironment plainEnvironment plainEnvironment _
    (cutOff_take _ _ _ _ 1) ⟨1, rfl⟩).mp ⟨rfl, rfl⟩⟩

def blankComment : Zone where
  items := [("a.".toList, [⟨.EUI48, 3600,
    [⟨some " ".toList, .eui48 [0, 13, 147, 137, 254, 123]⟩], by simp [Rdata.rdtype], by simp⟩])]
  distinct := by decide

theorem blankComment_never_settles : (¬∀ (env : Environment) (inputs : List (List Str × Zone))
    (hosts : Hosts), parseFiles inputs = .ok hosts → ∀ (servers : List Server) (w w' : World),
    CutOff env hosts servers w w' → (dnsUpdate env false hosts servers w').Returns →
    dnsUpdate env false hosts servers (w'.after env (dnsUpdate env false hosts servers w').sent) =
      ⟨[], .ok 0⟩) ∧
    ¬∀ (env : Environment) (inputs : List (List Str × Zone)) (hosts : Hosts),
    parseFiles inputs = .ok hosts → ∀ (servers : List Server) (w : World),
    (dnsUpdate env false hosts servers w).Returns →
    (dnsUpdate env true hosts servers w).result =
      .ok (dnsUpdate env false hosts servers w).sent.length := by
  constructor
  · intro hresumes
    have h := hresumes plainEnvironment [([], blankComment)] _ rfl [routerServer]
      (routerWith noRows) (routerWith noRows) ⟨[], List.nil_prefix, rfl⟩ ⟨1, rfl⟩
    cases congrArg Trace.result h
  · intro hcounts
    have h := hcounts plainEnvironment [([], twoHosts)] _ rfl [routerServer, routerServer]
      (routerWith noRows) ⟨2, rfl⟩
    cases h

end Isz.Dns
