import Isz.Journald.Pipeline

namespace Isz.Journald

open Dataflow

variable {T : Type} {vrl : Vrl} {services : Services T} {name : Str} {ts : List T}
  {eventUnit : Option Str}

theorem emits_route :
    emits vrl eventUnit (journaldRoute services) =
      [routeOutput (exclusive vrl eventUnit (routes services))] :=
  congrArg (fun output => [output]) (routeOutput_eq _)

section Literal

variable (hliteral : ∀ name ∈ services.entries.map Prod.fst,
  vrl.literal (unit name) = some (unit name))
include hliteral

theorem find?_routes :
    ((routes services).find? fun route => vrl.holds route.condition eventUnit) =
      (services.entries.find? fun (name, _) => some (unit name) = eventUnit).map
        fun (name, _) => ⟨name, unitIs (unit name)⟩ := by
  have hsame : ∀ entry ∈ services.entries,
      vrl.holds (unitIs (unit entry.1)) eventUnit = decide (some (unit entry.1) = eventUnit) := by
    intro entry hentry
    rw [vrl.comparison (hliteral entry.1 (List.mem_map_of_mem hentry))]
    simp only [eq_comm]
  rw [routes, AttrSet.mapAttrsToList, List.find?_map]
  refine congrArg _ ?_
  rw [← List.head?_filter, ← List.head?_filter]
  exact congrArg List.head? (List.filter_congr hsame)

theorem exclusive_unit (h : (name, ts) ∈ services.entries) :
    exclusive vrl (some (unit name)) (routes services) = name := by
  rw [exclusive, find?_routes hliteral, find?_unit h]
  rfl

theorem exclusive_unmatched (h : ∀ entry ∈ services.entries, some (unit entry.1) ≠ eventUnit) :
    exclusive vrl eventUnit (routes services) = unmatched := by
  have hfind : (services.entries.find? fun (name, _) => some (unit name) = eventUnit) = none :=
    List.find?_eq_none.mpr fun entry hentry => by simpa using h entry hentry
  rw [exclusive, find?_routes hliteral, hfind]
  rfl

end Literal

theorem journaldRoute_mem : journaldRoute services ∈ transforms services :=
  mem_transforms.mpr (.inr (.inl rfl))

theorem numbered_mem (h : (name, ts) ∈ services.entries) {i : Nat} {t : T}
    (ht : ts[i]? = some t) : numbered name (i + 1) t ∈ transforms services :=
  mem_transforms.mpr (.inr (.inr ⟨name, ts, h, i, t, ht, rfl⟩))

theorem port_length (name : Str) (hne : ts ≠ []) :
    port name ts.length = transformName name ts.length := by
  obtain ⟨n, hn⟩ := Nat.exists_eq_succ_of_ne_zero (mt List.length_eq_zero_iff.mp hne)
  rw [hn]
  rfl

namespace Sound

variable (h : Sound vrl services)
include h

theorem port_inj {name' : Str} {ts' : List T} (hentry : (name, ts) ∈ services.entries)
    (hentry' : (name', ts') ∈ services.entries) {i j : Nat} (hi : i ≤ ts.length)
    (hj : j ≤ ts'.length) (heq : port name i = port name' j) : name = name' ∧ i = j := by
  cases i with
  | zero =>
    cases j with
    | zero => exact ⟨routeOutput_inj heq, rfl⟩
    | succ j =>
      have hname := List.mem_map_of_mem (f := Prod.fst) hentry
      exact absurd heq.symm (h.unaliased name' ts' name hentry' hname _ (Nat.le_add_left 1 j) hj)
  | succ i =>
    cases j with
    | zero =>
      have hname' := List.mem_map_of_mem (f := Prod.fst) hentry'
      exact absurd heq (h.unaliased name ts name' hentry hname' _ (Nat.le_add_left 1 i) hi)
    | succ j => exact transformName_inj heq

theorem port_ne_unmatched (hentry : (name, ts) ∈ services.entries) (k : Nat) :
    port name k ≠ routeOutput unmatched := by
  intro heq
  cases k with
  | zero => exact h.reserved (routeOutput_inj heq ▸ List.mem_map_of_mem hentry)
  | succ k => exact transformName_ne_unmatched heq

theorem port_mem_sink_iff (hentry : (name, ts) ∈ services.entries) {k : Nat}
    (hk : k ≤ ts.length) : port name k ∈ sinkInputs services ↔ k = ts.length := by
  rw [mem_sinkInputs]
  constructor
  · rintro (heq | ⟨other, ts', hentry', heq⟩)
    · exact absurd heq (h.port_ne_unmatched hentry k)
    · have hport := heq.trans (port_length other (h.nonempty _ hentry')).symm
      obtain ⟨rfl, hlength⟩ := h.port_inj hentry hentry' hk le_rfl hport
      rw [entries_inj hentry hentry', hlength]
  · rintro rfl
    exact .inr ⟨name, ts, hentry, port_length name (h.nonempty _ hentry)⟩

theorem consumer (hentry : (name, ts) ∈ services.entries) {k : Nat} (hk : k ≤ ts.length)
    {c : Str × Transform T} (hc : c ∈ transforms services) (hinput : port name k ∈ c.2.inputs) :
    ∃ t, ts[k]? = some t ∧ c = numbered name (k + 1) t := by
  rcases mem_inputs hc hinput with ⟨-, heq⟩ | ⟨-, heq⟩ | ⟨other, ts', hentry', i, t, ht, rfl, heq⟩
  · exact absurd heq port_ne_journald
  · exact absurd heq port_ne_remap
  · obtain ⟨hi, -⟩ := List.getElem?_eq_some_iff.mp ht
    obtain ⟨rfl, rfl⟩ := h.port_inj hentry hentry' hk hi.le heq
    obtain rfl := entries_inj hentry hentry'
    exact ⟨t, ht, rfl⟩

theorem determined (hentry : (name, ts) ∈ services.entries) {rest : List T} {k : Nat}
    (hrest : ts.drop k = rest) (hk : k ≤ ts.length) :
    (pipeline vrl services eventUnit).Determined (port name k)
      ((rest.zipIdx (k + 1)).map fun (t, i) => (numbered name i t, transformName name i)) := by
  induction rest generalizing k with
  | nil =>
    have hlast : k = ts.length := le_antisymm hk (List.drop_eq_nil_iff.mp hrest)
    refine ⟨(h.port_mem_sink_iff hentry hk).mpr hlast, fun c hc hinput => ?_⟩
    obtain ⟨t, ht, -⟩ := h.consumer hentry hk hc hinput
    rw [hlast, List.getElem?_length] at ht
    cases ht
  | cons t rest ih =>
    have ht : ts[k]? = some t := by
      rw [← List.head?_drop, hrest, List.head?_cons]
    obtain ⟨hlt, -⟩ := List.getElem?_eq_some_iff.mp ht
    have hnext : ts.drop (k + 1) = rest := by
      rw [← List.tail_drop, hrest, List.tail_cons]
    refine ⟨mt (h.port_mem_sink_iff hentry hk).mp hlt.ne, numbered_mem hentry ht, ?_, rfl, ?_,
      ih hnext hlt⟩
    · change port name k ∈ (numbered name (k + 1) t).2.inputs
      rw [numbered_inputs]
      exact List.mem_singleton_self _
    · intro c hc hinput
      obtain ⟨t', ht', rfl⟩ := h.consumer hentry hk hc hinput
      rw [Option.some.inj (ht.symm.trans ht')]

theorem delivered (eventUnit : Option Str) :
    (pipeline vrl services eventUnit).Determined "journald_remap".toList
      (wanted services eventUnit) := by
  have honly : ∀ c ∈ transforms services, "journald_remap".toList ∈ c.2.inputs →
      c = journaldRoute services := by
    intro c hc hinput
    rcases mem_inputs hc hinput with ⟨-, heq⟩ | ⟨rfl, -⟩ | ⟨name, ts, -, i, t, -, -, heq⟩
    · exact absurd heq (by decide)
    · rfl
    · exact absurd heq.symm port_ne_remap
  have hsink : "journald_remap".toList ∉ sinkInputs services := by
    intro hmem
    rcases mem_sinkInputs.mp hmem with heq | ⟨name, ts, -, heq⟩
    · exact absurd heq (by decide)
    · exact transformName_ne_remap heq.symm
  have hroute : "journald_remap".toList ∈ (journaldRoute services).2.inputs :=
    List.mem_singleton_self _
  by_cases hunit : ∃ entry ∈ services.entries, some (unit entry.1) = eventUnit
  · obtain ⟨⟨name, ts⟩, hentry, rfl⟩ := hunit
    have hemits := (emits_route (T := T)).trans
      (congrArg (fun name => [routeOutput name]) (exclusive_unit h.literal hentry))
    rw [wanted_unit hentry]
    exact ⟨hsink, journaldRoute_mem, hroute, hemits, honly,
      h.determined hentry (List.drop_zero) (Nat.zero_le _)⟩
  · have hnone : ∀ entry ∈ services.entries, some (unit entry.1) ≠ eventUnit :=
      fun entry hentry heq => hunit ⟨entry, hentry, heq⟩
    have hemits := (emits_route (T := T)).trans
      (congrArg (fun name => [routeOutput name]) (exclusive_unmatched h.literal hnone))
    rw [wanted_unmatched hnone]
    refine ⟨hsink, journaldRoute_mem, hroute, hemits, honly, mem_sinkInputs.mpr (.inl rfl), ?_⟩
    intro c hc hinput
    rcases mem_inputs hc hinput with ⟨-, heq⟩ | ⟨-, heq⟩ | ⟨name, ts, hentry, i, t, -, -, heq⟩
    · exact absurd heq (by decide)
    · exact absurd heq routeOutput_ne_remap
    · exact h.port_ne_unmatched hentry i heq.symm

end Sound

theorem leads_chain (hentry : (name, ts) ∈ services.entries) {segment : List T} {k : Nat}
    (hsegment : ∀ j t, segment[j]? = some t → ts[k + j]? = some t)
    {hops : List ((Str × Transform T) × Str)}
    (hleads : (pipeline vrl services eventUnit).Leads (port name (k + segment.length)) hops) :
    (pipeline vrl services eventUnit).Leads (port name k)
      ((segment.zipIdx (k + 1)).map (fun (t, i) => (numbered name i t, transformName name i)) ++
        hops) := by
  induction segment generalizing k with
  | nil => exact hleads
  | cons t segment ih =>
    refine ⟨numbered_mem hentry (hsegment 0 t rfl), ?_, List.mem_singleton_self _,
      ih (k := k + 1) ?_ ?_⟩
    · change port name k ∈ (numbered name (k + 1) t).2.inputs
      rw [numbered_inputs]
      exact List.mem_singleton_self _
    · intro j t' ht'
      rw [Nat.add_right_comm]
      exact hsegment (j + 1) t' ht'
    · rwa [Nat.add_right_comm]

theorem leads_take (hentry : (name, ts) ∈ services.entries) {i : Nat} (hi : i ≤ ts.length)
    {hops : List ((Str × Transform T) × Str)}
    (hleads : (pipeline vrl services eventUnit).Leads (port name i) hops) :
    (pipeline vrl services eventUnit).Leads (routeOutput name)
      (chain name (ts.take i) ++ hops) := by
  refine leads_chain (k := 0) hentry (fun j t ht => ?_) ?_
  · rw [Nat.zero_add]
    exact (List.getElem?_eq_some_iff.mp ht).elim fun _ heq => heq ▸ by simp
  · rwa [Nat.zero_add, List.length_take_of_le hi]

theorem leads_sink (hentry : (name, ts) ∈ services.entries) (hne : ts ≠ []) :
    (pipeline vrl services eventUnit).Leads (routeOutput name) (chain name ts) := by
  have hsink : port name ts.length ∈ sinkInputs services :=
    mem_sinkInputs.mpr (.inr ⟨name, ts, hentry, port_length name hne⟩)
  have hleads : (pipeline vrl services eventUnit).Leads (routeOutput name)
      (chain name (ts.take ts.length) ++ []) := leads_take hentry le_rfl hsink
  rwa [List.take_length, List.append_nil] at hleads

theorem chain_ne_nil {name : Str} {ts : List T} (hne : ts ≠ []) : chain name ts ≠ [] := by
  simpa [chain] using hne

theorem getElem?_chain (name : Str) (ts : List T) (i : Nat) :
    (chain name ts)[i]? =
      ts[i]?.map fun t => (numbered name (i + 1) t, transformName name (i + 1)) := by
  simp [chain, List.getElem?_zipIdx, Nat.add_comm, Function.comp_def]

theorem empty_output
    (h : transformName name 0 ∈ "journald".toList :: (transforms services).flatMap outputs) :
    ∃ other ts, (other, ts) ∈ services.entries ∧ transformName name 0 = routeOutput other := by
  rcases List.mem_cons.mp h with heq | hmem
  · exact absurd heq transformName_ne_journald
  · obtain ⟨c, hc, houtput⟩ := List.mem_flatMap.mp hmem
    rcases mem_transforms.mp hc with rfl | rfl | ⟨other, ts, -, i, t, -, rfl⟩
    · exact absurd (List.mem_singleton.mp houtput) transformName_ne_remap
    · rcases mem_outputs_route.mp houtput with heq | ⟨other, hother, heq⟩
      · exact absurd heq transformName_ne_unmatched
      · obtain ⟨⟨other, ts⟩, hentry, rfl⟩ := List.mem_map.mp hother
        exact ⟨other, ts, hentry, heq⟩
    · exact absurd (transformName_inj (List.mem_singleton.mp houtput)).2 (Nat.succ_ne_zero i).symm

namespace Lossless

variable (h : Lossless vrl services)
include h

theorem leads_route {output : Str} {hops hops' : List ((Str × Transform T) × Str)}
    (hwanted : wanted services eventUnit = (journaldRoute services, output) :: hops)
    (hleads : (pipeline vrl services eventUnit).Leads output hops') : hops' = hops := by
  obtain ⟨hc, hinput, hemits, -⟩ := (h.delivered eventUnit _).mpr hwanted.symm
  have hroute : (pipeline vrl services eventUnit).Leads "journald_remap".toList
      ((journaldRoute services, output) :: hops') := ⟨hc, hinput, hemits, hleads⟩
  have heq := (h.delivered eventUnit _).mp hroute
  rw [hwanted] at heq
  exact (List.cons.inj heq).2

theorem nonempty (hentry : (name, ts) ∈ services.entries) : ts ≠ [] := by
  induction hlength : name.length using Nat.strong_induction_on generalizing name ts with
  | _ n ih =>
    subst hlength
    rintro rfl
    have hsink : transformName name 0 ∈ sinkInputs services :=
      mem_sinkInputs.mpr (.inr ⟨name, [], hentry, rfl⟩)
    obtain ⟨other, ts, hother, heq⟩ := empty_output (h.closed _ (List.mem_append_right _ hsink))
    have hshorter : other.length < name.length := by
      have hlengths := congrArg List.length heq
      rw [length_transformName, length_routeOutput] at hlengths
      have hdigit : (Nat.toDigits 10 0).length = 1 := rfl
      omega
    have hdangling : (pipeline vrl services (some (unit other))).Leads (routeOutput other) [] :=
      heq ▸ hsink
    have hnil := h.leads_route (wanted_unit hother) hdangling
    exact chain_ne_nil (ih _ hshorter hother rfl) hnil.symm

theorem reserved : unmatched ∉ services.entries.map Prod.fst := by
  intro hmem
  obtain ⟨⟨name, ts⟩, hentry, rfl⟩ := List.mem_map.mp hmem
  have hwanted : wanted services none = [(journaldRoute services, routeOutput unmatched)] :=
    wanted_unmatched fun entry _ => Option.some_ne_none _
  have hleads : (pipeline vrl services none).Leads (routeOutput unmatched) (chain unmatched ts) :=
    leads_sink hentry (h.nonempty hentry)
  exact chain_ne_nil (h.nonempty hentry) (h.leads_route hwanted hleads)

theorem unaliased {name' : Str} (hentry : (name, ts) ∈ services.entries)
    (hname' : name' ∈ services.entries.map Prod.fst) {i : Nat} (hi : 1 ≤ i) (hle : i ≤ ts.length) :
    transformName name i ≠ routeOutput name' := by
  intro heq
  obtain ⟨⟨other, ts'⟩, hentry', rfl⟩ := List.mem_map.mp hname'
  obtain ⟨i, rfl⟩ := Nat.exists_eq_add_of_le' hi
  have hother : (pipeline vrl services (some (unit name))).Leads (routeOutput other)
      (chain other ts') := leads_sink hentry' (h.nonempty hentry')
  have hleads := leads_take hentry hle (heq ▸ hother)
  have hchain := congrArg (fun hops => hops[i + 1]?)
    (h.leads_route (wanted_unit hentry) hleads)
  have htaken : (chain name (ts.take (i + 1))).length = i + 1 := by
    simp [chain, hle]
  rw [List.getElem?_append_right htaken.le, htaken, Nat.sub_self, getElem?_chain, getElem?_chain,
    List.getElem?_eq_getElem (List.length_pos_iff.mpr (h.nonempty hentry'))] at hchain
  obtain ⟨t, -, hhop⟩ := Option.map_eq_some_iff.mp hchain.symm
  have hnumber := (transformName_inj (Prod.mk.inj hhop).2).2
  omega

example : transformName "route.x".toList 1 = routeOutput "x_1".toList := by decide

theorem literal {name : Str} (hname : name ∈ services.entries.map Prod.fst) :
    vrl.literal (unit name) = some (unit name) := by
  obtain ⟨s, hread⟩ := Option.isSome_iff_exists.mp (h.compared name hname)
  obtain ⟨⟨name, ts⟩, hentry, rfl⟩ := List.mem_map.mp hname
  obtain ⟨-, -, hemits, -⟩ := (h.delivered _ _).mpr (wanted_unit hentry).symm
  change routeOutput name ∈ emits vrl (some (unit name)) (journaldRoute services) at hemits
  rw [emits_route, List.mem_singleton] at hemits
  have hroute := routeOutput_inj hemits
  cases hfind : (routes services).find? fun route =>
      vrl.holds route.condition (some (unit name)) with
  | none =>
    rw [exclusive, hfind] at hroute
    obtain rfl : name = unmatched := hroute
    exact absurd hname h.reserved
  | some route =>
    rw [exclusive, hfind] at hroute
    obtain ⟨entry, -, rfl⟩ := List.mem_map.mp (List.mem_of_find?_eq_some hfind)
    obtain rfl : name = entry.1 := hroute
    have hholds := List.find?_some hfind
    simp only [vrl.comparison hread, Option.some.injEq, decide_eq_true_eq] at hholds
    rw [hread, hholds]

theorem sound : Sound vrl services where
  literal _ := h.literal
  nonempty _ := h.nonempty
  reserved := h.reserved
  unaliased _ _ _ hentry hname' _ := h.unaliased hentry hname'

end Lossless

end Isz.Journald
