import Isz.Rapl.Script

namespace Isz.Rapl

open Runs

def growth (old new range : Int) : Int := if old ≤ new then new - old else new - old + range

structure Report where
  raw : Int
  range : Int
  cumulative : Int

def Line.raw (l : Line) : Option Int := l.result.lookup energyKey

def Line.range (l : Line) : Int := (l.result.lookup rangeKey).getD 0

def Line.report (l : Line) : Option Report :=
  (l.fields.lookup cumulativeKey).map fun cumulative => ⟨l.raw.getD 0, l.range, cumulative⟩

def Grows (a b : Report) : Prop := b.cumulative = a.cumulative + growth a.raw b.raw b.range

instance (a b : Report) : Decidable (Grows a b) := inferInstanceAs (Decidable (_ = _))

def lines (s : Script) (device : Str) : List Line :=
  s.printed.filter fun l => l.device = device

def Accounts (s : Script) : Prop :=
  ∀ device, ((lines s device).filterMap Line.report).IsChain Grows

def Directory.reading (dir : Directory) (key : Str) : Option Int :=
  ((kept (readFiles dir)).lookup key).bind int

def account (seen : Option (Int × Int)) (raw : Option Int) (range : Int) : Option (Int × Int) :=
  match raw, seen with
  | none, seen => seen
  | some new, none => some (new, new)
  | some new, some (old, total) => some (new, total + growth old new range)

def total (ls : List Line) : Option (Int × Int) :=
  ls.foldl (fun seen l => account seen l.raw l.range) none

def Metered (s : Script) (scraped : Str × Directory) : Prop :=
  ∃ range, scraped.2.reading rangeKey = some range ∧
    (∀ e ∈ total (lines s scraped.1), e.1 ≤ range) ∧
    ∀ new, scraped.2.reading energyKey = some new → 0 ≤ new ∧ new ≤ range ∧
      ∀ e ∈ account (total (lines s scraped.1)) (some new) range, e.2 < 2 ^ 63

def Resumes (s : Script) (scraped : Str × Directory) : Prop :=
  ∀ new range, scraped.2.reading energyKey = some new →
    scraped.2.reading rangeKey = some range →
    ((lines s scraped.1).getLast?.bind Line.raw) = none →
    ∀ e ∈ account (total (lines s scraped.1)) (some new) range, e.2 = new

theorem readFiles_sublist (dir : Directory) :
    ((readFiles dir).map Prod.fst).Sublist (dir.entries.map DirEntry.name) := by
  rw [readFiles, List.map_filterMap]
  induction dir.entries with
  | nil => exact List.Sublist.slnil
  | cons de entries ih =>
    rw [List.filterMap_cons, List.map_cons]
    split
    case h_1 => exact ih.cons _
    case h_2 key hkey =>
      obtain ⟨e, he, rfl⟩ := Option.map_eq_some_iff.mp hkey
      split_ifs at he
      obtain ⟨text, -, rfl⟩ := Option.map_eq_some_iff.mp he
      exact ih.cons_cons _

theorem lookup_integers {dir : Directory} {integers' : Result}
    (h : integers (kept (readFiles dir)) = some integers') (key : Str) :
    integers'.lookup key = dir.reading key ∧ (integers'.map Prod.fst).Nodup ∧
      integers'.lookup cumulativeKey = none := by
  have hnodup : ((readFiles dir).map Prod.fst).Nodup :=
    dir.distinct.sublist (readFiles_sublist dir)
  obtain ⟨hlookup, hkeys⟩ := lookup_mapM h key
  refine ⟨hlookup, ?_, ?_⟩
  · rw [hkeys]
    exact nodup_map_fst_filter hnodup _
  · rw [List.lookup_eq_none_iff]
    intro e he
    refine bne_iff_ne.mpr fun heq => dir.unreserved ?_
    have hmem : e.1 ∈ (kept (readFiles dir)).map Prod.fst := hkeys ▸ List.mem_map_of_mem he
    rw [heq]
    exact (readFiles_sublist dir).subset ((List.filter_sublist.map _).subset hmem)

def cumulative (lastResult : Result) (new range : Int) : Int :=
  let lastEnergy := (lastResult.lookup energyKey).getD 0
  (lastResult.lookup cumulativeKey).getD 0 +
    ((if new < lastEnergy then new + range else new) - lastEnergy)

structure Printed (s s' : Script) (device : Str) (dir : Directory) (l : Line) : Prop where
  lines_self : lines s' device = lines s device ++ [l]
  lines_other : ∀ other, other ≠ device → lines s' other = lines s other
  last_self : s'.lastResultByDevice.lookup device = some l.result
  last_other : ∀ other, other ≠ device →
    s'.lastResultByDevice.lookup other = s.lastResultByDevice.lookup other
  raw : l.raw = dir.reading energyKey
  range : l.range = (dir.reading rangeKey).getD 0
  unread : dir.reading energyKey = none → l.result.lookup cumulativeKey = none
  read : ∀ new, dir.reading energyKey = some new →
    let c := cumulative ((s.lastResultByDevice.lookup device).getD []) new l.range
    l.result.lookup cumulativeKey = some (if 0x7fffffffffffffff < c then 0 else c)
  nodup : (l.result.map Prod.fst).Nodup

theorem accumulate_lookup (lastResult : Result) {result : Result} {key : Str}
    (hkey : key ≠ cumulativeKey) :
    (accumulate lastResult result).lookup key = result.lookup key := by
  simp only [accumulate]
  split
  case h_1 => rfl
  case h_2 => exact lookup_assign_of_ne _ _ hkey

theorem accumulate_nodup (lastResult : Result) {result : Result}
    (h : (result.map Prod.fst).Nodup) : ((accumulate lastResult result).map Prod.fst).Nodup := by
  simp only [accumulate]
  split
  case h_1 => exact h
  case h_2 => exact map_fst_assign_nodup h _ _

theorem accumulate_unread (lastResult : Result) {result : Result}
    (h : result.lookup energyKey = none) : accumulate lastResult result = result := by
  simp only [accumulate, h]

theorem accumulate_read (lastResult : Result) {result : Result} {new : Int}
    (h : result.lookup energyKey = some new) :
    (accumulate lastResult result).lookup cumulativeKey =
      let c := cumulative lastResult new ((result.lookup rangeKey).getD 0)
      some (if 0x7fffffffffffffff < c then 0 else c) := by
  simp only [accumulate, h]
  exact lookup_assign_self _ _ _

theorem step_printed {s s' : Script} {device : Str} {dir : Directory}
    (h : step s (device, dir) = some s') : ∃ l, Printed s s' device dir l := by
  obtain ⟨integers', hintegers, rfl⟩ := Option.map_eq_some_iff.mp h
  have hlookup := fun key => (lookup_integers hintegers key).1
  obtain ⟨-, hnodup, hnone⟩ := lookup_integers hintegers energyKey
  have henergy : energyKey ≠ cumulativeKey := by decide
  have hrange : rangeKey ≠ cumulativeKey := by decide
  set lastResult := (s.lastResultByDevice.lookup device).getD [] with hlast
  refine ⟨⟨device, (readFiles dir).lookup "name".toList, accumulate lastResult integers'⟩, ?_⟩
  constructor
  case lines_self => simp [lines, hlast]
  case lines_other =>
    intro other hne
    simp [lines, hne.symm]
  case last_self => exact lookup_assign_self _ _ _
  case last_other =>
    intro other hne
    exact lookup_assign_of_ne _ _ hne
  case raw => rw [Line.raw, accumulate_lookup _ henergy, hlookup]
  case range => rw [Line.range, accumulate_lookup _ hrange, hlookup]
  case unread =>
    intro hunread
    rw [accumulate_unread _ ((hlookup energyKey).trans hunread)]
    exact hnone
  case read =>
    intro new hnew
    rw [accumulate_read _ ((hlookup energyKey).trans hnew), Line.range,
      accumulate_lookup _ hrange]
  case nodup => exact accumulate_nodup _ hnodup

theorem total_append (ls : List Line) (l : Line) :
    total (ls ++ [l]) = account (total ls) l.raw l.range := by
  rw [total, List.foldl_append]
  rfl

theorem report_eq {l : Line} (h : (l.result.map Prod.fst).Nodup) :
    l.report = ((l.result.lookup cumulativeKey).filter fun c => c ≠ 0).map fun cumulative =>
      ⟨l.raw.getD 0, l.range, cumulative⟩ := by
  rw [Line.report, Line.fields, lookup_filter h]

structure Tracks (lastResult : Option Result) (ls : List Line) : Prop where
  memory : lastResult = ls.getLast?.map Line.result
  bounds : ∀ e ∈ total ls, 0 ≤ e.1 ∧ e.1 ≤ e.2
  remembered : ∀ l ∈ ls.getLast?, ∀ raw ∈ l.raw, ∃ c, total ls = some (raw, c) ∧
    l.result.lookup cumulativeKey = some c
  forgotten : ∀ l ∈ ls.getLast?, l.raw = none → l.result.lookup cumulativeKey = none
  unreported : ls.filterMap Line.report = [] → ∀ e ∈ total ls, e.2 = 0
  reported : ∀ r ∈ (ls.filterMap Line.report).getLast?,
    r.cumulative ≠ 0 ∧ total ls = some (r.raw, r.cumulative)
  chain : (ls.filterMap Line.report).IsChain Grows

theorem Tracks.unread {lastResult : Option Result} {ls : List Line} {l : Line}
    (h : Tracks lastResult ls) (hraw : l.raw = none)
    (hcumulative : l.result.lookup cumulativeKey = none)
    (hnodup : (l.result.map Prod.fst).Nodup) : Tracks (some l.result) (ls ++ [l]) := by
  have hreport : (ls ++ [l]).filterMap Line.report = ls.filterMap Line.report := by
    rw [List.filterMap_append]
    simp [report_eq hnodup, hcumulative]
  have htotal : total (ls ++ [l]) = total ls := by
    rw [total_append, hraw]
    rfl
  constructor
  case memory => simp
  case bounds => exact htotal ▸ h.bounds
  case remembered =>
    intro l' hl' raw hraw'
    obtain rfl : l = l' := by simpa using hl'
    rw [hraw] at hraw'
    cases hraw'
  case forgotten =>
    intro l' hl' _
    obtain rfl : l = l' := by simpa using hl'
    exact hcumulative
  case unreported => exact hreport ▸ htotal ▸ h.unreported
  case reported => exact hreport ▸ htotal ▸ h.reported
  case chain => exact hreport ▸ h.chain

theorem Tracks.lookup_memory {lastResult : Option Result} {ls : List Line}
    (h : Tracks lastResult ls) (key : Str) :
    (lastResult.getD []).lookup key = ls.getLast?.bind fun l => l.result.lookup key := by
  rw [h.memory]
  cases ls.getLast? with
  | none => rfl
  | some l => rfl

theorem Tracks.cumulative_gap {lastResult : Option Result} {ls : List Line}
    (h : Tracks lastResult ls) {new : Int} (hnew : 0 ≤ new) (range : Int)
    (hgap : ls.getLast?.bind Line.raw = none) :
    cumulative (lastResult.getD []) new range = new := by
  have henergy := h.lookup_memory energyKey
  have hcumulative := h.lookup_memory cumulativeKey
  have hforgotten : (ls.getLast?.bind fun l => l.result.lookup cumulativeKey) = none := by
    cases hlast : ls.getLast? with
    | none => rfl
    | some l =>
      rw [hlast] at hgap
      exact h.forgotten l hlast hgap
  have hread : (ls.getLast?.bind fun l => l.result.lookup energyKey) = none := hgap
  rw [cumulative, henergy, hcumulative, hforgotten, hread]
  simp only [Option.getD_none, not_lt.mpr hnew, if_false]
  omega

theorem Tracks.cumulative_eq {lastResult : Option Result} {ls : List Line}
    (h : Tracks lastResult ls) {new range t : Int} (hnew : 0 ≤ new)
    (htotal : account (total ls) (some new) range = some (new, t))
    (hresumes : ls.getLast?.bind Line.raw = none → t = new) :
    cumulative (lastResult.getD []) new range = t := by
  have henergy := h.lookup_memory energyKey
  have hcumulative := h.lookup_memory cumulativeKey
  cases hraw : ls.getLast?.bind Line.raw with
  | none => rw [h.cumulative_gap hnew range hraw, hresumes hraw]
  | some old =>
    obtain ⟨l, hlast, hl⟩ := Option.bind_eq_some_iff.mp hraw
    obtain ⟨c, hc, hlookup⟩ := h.remembered l hlast old hl
    have hread : l.result.lookup energyKey = some old := hl
    rw [hc] at htotal
    obtain ⟨-, rfl⟩ := Prod.mk.inj (Option.some.inj htotal)
    rw [cumulative, henergy, hcumulative, hlast]
    simp only [Option.bind_some, hread, hlookup, Option.getD_some, growth]
    split_ifs <;> omega

theorem Tracks.grows {lastResult : Option Result} {ls : List Line} (h : Tracks lastResult ls)
    {new t range : Int} (hbound : 0 ≤ new ∧ new ≤ range) (hrange : ∀ e ∈ total ls, e.1 ≤ range)
    (htotal : account (total ls) (some new) range = some (new, t)) {old t' : Int}
    (hseen : total ls = some (old, t')) :
    t = t' + growth old new range ∧ 0 ≤ growth old new range ∧ 0 ≤ old ∧ old ≤ t' := by
  obtain ⟨hlow, hup⟩ := h.bounds _ hseen
  have hold := hrange _ hseen
  rw [hseen] at htotal
  refine ⟨(Prod.mk.inj (Option.some.inj htotal)).2.symm, ?_, hlow, hup⟩
  simp only at hold hlow
  simp only [growth]
  split <;> omega

theorem account_first {seen : Option (Int × Int)} {new t range : Int}
    (htotal : account seen (some new) range = some (new, t)) (hseen : seen = none) : t = new := by
  rw [hseen] at htotal
  exact (Prod.mk.inj (Option.some.inj htotal)).2.symm

theorem Tracks.bounds_read {lastResult : Option Result} {ls : List Line}
    (h : Tracks lastResult ls) {new t range : Int} (hbound : 0 ≤ new ∧ new ≤ range)
    (hrange : ∀ e ∈ total ls, e.1 ≤ range)
    (htotal : account (total ls) (some new) range = some (new, t)) : new ≤ t := by
  cases hseen : total ls with
  | none => exact (account_first htotal hseen).ge
  | some e =>
    obtain ⟨hsum, hgrowth, hlow, hup⟩ := h.grows hbound hrange htotal hseen
    simp only [growth] at hsum
    split at hsum <;> omega

theorem report_of_read {l : Line} {new t : Int} (hraw : l.raw = some new)
    (hcumulative : l.result.lookup cumulativeKey = some t)
    (hnodup : (l.result.map Prod.fst).Nodup) :
    l.report = if t = 0 then none else some ⟨new, l.range, t⟩ := by
  rw [report_eq hnodup, hcumulative, hraw]
  by_cases hzero : t = 0 <;> simp [Option.filter, hzero]

theorem Tracks.read {lastResult : Option Result} {ls : List Line} {l : Line}
    (h : Tracks lastResult ls) {new t : Int} (hraw : l.raw = some new)
    (hbound : 0 ≤ new ∧ new ≤ l.range) (hrange : ∀ e ∈ total ls, e.1 ≤ l.range)
    (htotal : account (total ls) (some new) l.range = some (new, t))
    (hcumulative : l.result.lookup cumulativeKey = some t)
    (hnodup : (l.result.map Prod.fst).Nodup) : Tracks (some l.result) (ls ++ [l]) := by
  have hnext : total (ls ++ [l]) = some (new, t) := by
    rw [total_append, hraw, htotal]
  have hgrows : ∀ old t', total ls = some (old, t') →
      t = t' + growth old new l.range ∧ 0 ≤ growth old new l.range ∧ 0 ≤ old ∧ old ≤ t' :=
    fun _ _ => h.grows hbound hrange htotal
  have hreport := report_of_read hraw hcumulative hnodup
  constructor
  case memory => simp
  case bounds =>
    intro e he
    rw [hnext] at he
    obtain rfl := Option.some.inj he
    exact ⟨hbound.1, h.bounds_read hbound hrange htotal⟩
  case remembered =>
    intro l' hl' raw hraw'
    obtain rfl : l = l' := by simpa using hl'
    rw [hraw] at hraw'
    obtain rfl := Option.some.inj hraw'
    exact ⟨t, hnext, hcumulative⟩
  case forgotten =>
    intro l' hl' hnone
    obtain rfl : l = l' := by simpa using hl'
    rw [hraw] at hnone
    cases hnone
  all_goals rw [List.filterMap_append, List.filterMap_cons, List.filterMap_nil, hreport]
  case unreported =>
    intro hnil e he
    rw [hnext] at he
    obtain rfl := Option.some.inj he
    by_contra hne
    simp only [hne, if_false] at hnil
    simp at hnil
  case reported =>
    intro r hr
    split_ifs at hr with hzero
    · rw [List.append_nil] at hr
      obtain ⟨hne, hseen⟩ := h.reported r hr
      obtain ⟨hsum, hgrowth, hlow, hup⟩ := hgrows _ _ hseen
      omega
    · obtain rfl : _ = r := by simpa using hr
      exact ⟨hzero, hnext⟩
  case chain =>
    split_ifs with hzero
    · rw [List.append_nil]
      exact h.chain
    · refine List.isChain_append.mpr ⟨h.chain, List.isChain_singleton _, ?_⟩
      intro a ha b hb
      obtain rfl : _ = b := by simpa using hb
      exact (hgrows _ _ (h.reported a ha).2).1

theorem account_some (seen : Option (Int × Int)) (new range : Int) :
    ∃ t, account seen (some new) range = some (new, t) := by
  cases seen with
  | none => exact ⟨_, rfl⟩
  | some e => exact ⟨_, rfl⟩

theorem step_tracks {s s' : Script} {scraped : Str × Directory}
    (hinv : ∀ device, Tracks (s.lastResultByDevice.lookup device) (lines s device))
    (hmetered : Metered s scraped) (hresumes : Resumes s scraped) (h : step s scraped = some s')
    (device : Str) : Tracks (s'.lastResultByDevice.lookup device) (lines s' device) := by
  obtain ⟨scrapedDevice, dir⟩ := scraped
  obtain ⟨l, hl⟩ := step_printed h
  by_cases hdevice : device = scrapedDevice
  · subst hdevice
    obtain ⟨range, hreading, hbefore, hmetered⟩ := hmetered
    have hrange : l.range = range := by rw [hl.range, hreading, Option.getD_some]
    rw [hl.lines_self, hl.last_self]
    cases hraw : dir.reading energyKey with
    | none => exact (hinv device).unread (hl.raw.trans hraw) (hl.unread hraw) hl.nodup
    | some new =>
      obtain ⟨hlow, hup, hsmall⟩ := hmetered new hraw
      obtain ⟨t, ht⟩ := account_some (total (lines s device)) new range
      have hbelow := hsmall _ ht
      have hcumulative := (hinv device).cumulative_eq hlow ht fun hgap =>
        hresumes new range hraw hreading hgap _ ht
      have hlookup := hl.read new hraw
      rw [hrange, hcumulative] at hlookup
      have hfits : ¬(0x7fffffffffffffff : Int) < t := by
        simp only at hbelow
        omega
      simp only [hfits, if_false] at hlookup
      subst hrange
      exact (hinv device).read (hl.raw.trans hraw) ⟨hlow, hup⟩ hbefore ht hlookup hl.nodup
  · rw [hl.lines_other _ hdevice, hl.last_other _ hdevice]
    exact hinv device

theorem tracks_start (device : Str) :
    Tracks (start.lastResultByDevice.lookup device) (lines start device) := by
  constructor
  case memory => rfl
  case bounds => simp [lines, start, total]
  case remembered => simp [lines, start]
  case forgotten => simp [lines, start]
  case unreported => simp [lines, start, total]
  case reported => simp [lines, start]
  case chain => simp [lines, start]

theorem tracks_of_reachable {s : Script}
    (h : Reachable step (fun s scraped => Metered s scraped ∧ Resumes s scraped) start s) :
    ∀ device, Tracks (s.lastResultByDevice.lookup device) (lines s device) :=
  h.invariant tracks_start fun _ _ _ hinv hallowed hstep =>
    step_tracks hinv hallowed.1 hallowed.2 hstep

theorem cumulative_accounts {s : Script}
    (h : Reachable step (fun s scraped => Metered s scraped ∧ Resumes s scraped) start s) :
    Accounts s :=
  fun device => (tracks_of_reachable h device).chain

theorem Tracks.total_of_chain {lastResult : Option Result} {ls : List Line}
    (h : Tracks lastResult ls) {new t range : Int} (hbound : 0 ≤ new ∧ new ≤ range)
    (htotal : account (total ls) (some new) range = some (new, t))
    (hchain : (ls.filterMap Line.report ++ [Report.mk new range new]).IsChain Grows) : t = new := by
  obtain ⟨-, -, hlast⟩ := List.isChain_append.mp hchain
  cases hseen : total ls with
  | none => exact account_first htotal hseen
  | some e =>
    obtain ⟨old, t'⟩ := e
    rw [hseen] at htotal
    obtain rfl : t' + growth old new range = t := (Prod.mk.inj (Option.some.inj htotal)).2
    cases hreport : (ls.filterMap Line.report).getLast? with
    | none =>
      have hzero := h.unreported (List.getLast?_eq_none_iff.mp hreport) _ hseen
      obtain ⟨hlow, hup⟩ := h.bounds _ hseen
      simp only at hzero hlow hup
      simp only [growth]
      split <;> omega
    | some r =>
      obtain ⟨-, hr⟩ := h.reported r hreport
      obtain ⟨rfl, rfl⟩ := Prod.mk.inj (Option.some.inj (hseen.symm.trans hr))
      exact (hlast r hreport _ rfl).symm

-- the condition is exact but for a reading of zero, which is not printed
theorem unresumed_not_accounts {s s' : Script} {scraped : Str × Directory}
    (h : Reachable step (fun s scraped => Metered s scraped ∧ Resumes s scraped) start s)
    (hmetered : Metered s scraped) (hunresumed : ¬Resumes s scraped)
    (hnonzero : scraped.2.reading energyKey ≠ some 0) (hstep : step s scraped = some s') :
    ¬Accounts s' := by
  intro haccounts
  refine hunresumed fun new range hnew hrange hgap e he => ?_
  obtain ⟨device, dir⟩ := scraped
  obtain ⟨l, hl⟩ := step_printed hstep
  have htracks := tracks_of_reachable h device
  obtain ⟨range', hreading, hbefore, hbounds⟩ := hmetered
  obtain rfl := Option.some.inj (hreading.symm.trans hrange)
  obtain ⟨hlow, hup, hsmall⟩ := hbounds new hnew
  obtain ⟨t, ht⟩ := account_some (total (lines s device)) new range'
  obtain rfl := Option.some.inj (ht.symm.trans he)
  have hbelow := hsmall _ ht
  have hle := htracks.bounds_read ⟨hlow, hup⟩ hbefore ht
  have hlookup := hl.read new hnew
  have hfits : ¬(0x7fffffffffffffff : Int) < new := by
    simp only at hbelow
    omega
  simp only [htracks.cumulative_gap hlow l.range hgap, hfits, if_false] at hlookup
  have hrange' : l.range = range' := by rw [hl.range, hreading, Option.getD_some]
  have hzero : new ≠ 0 := fun heq => hnonzero (heq ▸ hnew)
  have hreport : l.report = some ⟨new, range', new⟩ := by
    rw [report_of_read (hl.raw.trans hnew) hlookup hl.nodup, if_neg hzero, hrange']
  have hchain := haccounts device
  rw [hl.lines_self, List.filterMap_append, List.filterMap_cons, List.filterMap_nil,
    hreport] at hchain
  exact htracks.total_of_chain ⟨hlow, hup⟩ ht hchain

def package (energy : Option Str) : Str × Directory where
  fst := "intel-rapl:0".toList
  snd := {
    entries := [⟨"name".toList, true, some "package-0\n".toList⟩, ⟨energyKey, true, energy⟩,
      ⟨rangeKey, true, some "100\n".toList⟩]
    distinct := show ["name".toList, energyKey, rangeKey].Nodup by decide
    unreserved := show cumulativeKey ∉ ["name".toList, energyKey, rangeKey] by decide }

def packageLine (result : Result) : Line :=
  ⟨"intel-rapl:0".toList, some "package-0".toList, result⟩

def after (results : List Result) : Script where
  lastResultByDevice := results.getLast?.toList.map fun result => ("intel-rapl:0".toList, result)
  printed := results.map packageLine

def firstResult : Result := [(energyKey, 50), (rangeKey, 100), (cumulativeKey, 50)]

def wrappedResult : Result := [(energyKey, 10), (rangeKey, 100), (cumulativeKey, 110)]

def unreadResult : Result := [(rangeKey, 100)]

def restartedResult : Result := [(energyKey, 10), (rangeKey, 100), (cumulativeKey, 10)]

theorem metered_package {s : Script} {energy : Option Str} (new : Int)
    (henergy : (package energy).2.reading energyKey = some new)
    (hrange : (package energy).2.reading rangeKey = some 100)
    (hbefore : ∀ e ∈ total (lines s (package energy).1), e.1 ≤ 100) (hnew : 0 ≤ new ∧ new ≤ 100)
    (htotal : ∀ e ∈ account (total (lines s (package energy).1)) (some new) 100, e.2 < 2 ^ 63) :
    Metered s (package energy) := by
  refine ⟨100, hrange, hbefore, fun new' hnew' => ?_⟩
  obtain rfl := Option.some.inj (henergy.symm.trans hnew')
  exact ⟨hnew.1, hnew.2, htotal⟩

theorem metered_first : Metered start (package (some "50\n".toList)) :=
  metered_package 50 (by decide) (by decide) (by decide) (by decide) (by decide)

theorem step_first :
    step start (package (some "50\n".toList)) = some (after [firstResult]) := by
  decide

theorem cumulative_accounts_wrapped : Accounts (after [firstResult, wrappedResult]) := by
  have hsecond : step (after [firstResult]) (package (some "10\n".toList)) =
      some (after [firstResult, wrappedResult]) := by
    decide
  have hresumes : Resumes start (package (some "50\n".toList)) := by
    intro new range _ _ _ e he
    obtain rfl : (new, new) = e := Option.some.inj he
    rfl
  have hmetered : Metered (after [firstResult]) (package (some "10\n".toList)) :=
    metered_package 10 (by decide) (by decide) (by decide) (by decide) (by decide)
  have hgapless : Resumes (after [firstResult]) (package (some "10\n".toList)) := by
    intro new range _ _ hgap
    cases hgap
  exact cumulative_accounts ((Reachable.first.next ⟨metered_first, hresumes⟩ step_first).next
    ⟨hmetered, hgapless⟩ hsecond)

theorem unreadable_scrape_restarts : ¬∀ s, Reachable step Metered start s → Accounts s := by
  intro haccounts
  have hunread : step (after [firstResult]) (package none) =
      some (after [firstResult, unreadResult]) := by
    decide
  have hthird : step (after [firstResult, unreadResult]) (package (some "10\n".toList)) =
      some (after [firstResult, unreadResult, restartedResult]) := by
    decide
  have hmissing : Metered (after [firstResult]) (package none) := by
    refine ⟨100, by decide, by decide, fun new hnew => ?_⟩
    cases hnew
  have hmetered : Metered (after [firstResult, unreadResult]) (package (some "10\n".toList)) :=
    metered_package 10 (by decide) (by decide) (by decide) (by decide) (by decide)
  have hchain := haccounts _ (((Reachable.first.next metered_first step_first).next hmissing
    hunread).next hmetered hthird) "intel-rapl:0".toList
  have hgrows : Grows ⟨50, 100, 50⟩ ⟨10, 100, 10⟩ := (List.isChain_cons_cons.mp hchain).1
  exact absurd hgrows (by decide)

end Isz.Rapl
