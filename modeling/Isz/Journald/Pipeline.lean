import Isz.Library.AttrSet
import Isz.Library.Dataflow

namespace Isz.Journald

structure Route where
  name : Str
  condition : Str

inductive Options (T : Type) where
  | remap
  | exclusiveRoute (routes : List Route)
  | service (transform : T)

structure Transform (T : Type) where
  options : Options T
  inputs : List Str

abbrev Services (T : Type) := AttrSet (List T)

variable {T : Type}

def transformName (name : Str) (i : Nat) : Str :=
  "journald_".toList ++ name ++ '_' :: Nat.toDigits 10 i

def routeOutput (name : Str) : Str := "journald_route.".toList ++ name

def unmatched : Str := "_unmatched".toList

def unit (name : Str) : Str := name ++ ".service".toList

-- t // { inputs = ...; }
def numbered (name : Str) (i : Nat) (t : T) : Str × Transform T :=
  (transformName name i,
    ⟨.service t, [if i > 1 then transformName name (i - 1) else routeOutput name]⟩)

def serviceTransforms (name : Str) (transforms : List T) : AttrSet (Str × Transform T) :=
  AttrSet.listToAttrs Prod.fst ((transforms.zipIdx 1).map fun (t, i) => numbered name i t)

def outputName (name : Str) (transforms : List T) : Str := transformName name transforms.length

def unitIs (text : Str) : Str :=
  ".structured_metadata.trusted_SYSTEMD_UNIT == \"".toList ++ text ++ ['"']

def routes (services : Services T) : List Route :=
  services.mapAttrsToList fun name _ => ⟨name, unitIs (unit name)⟩

def journaldRemap : Str × Transform T := ("journald_remap".toList, ⟨.remap, ["journald".toList]⟩)

def journaldRoute (services : Services T) : Str × Transform T :=
  ("journald_route".toList, ⟨.exclusiveRoute (routes services), ["journald_remap".toList]⟩)

-- what the definitions of settings.transforms merge to, as no two have a name in common
def transforms (services : Services T) : List (Str × Transform T) :=
  journaldRemap :: journaldRoute services ::
    services.entries.flatMap fun (name, ts) => (serviceTransforms name ts).attrValues

def sinkInputs (services : Services T) : List Str :=
  routeOutput unmatched :: services.mapAttrsToList outputName

def outputs : Str × Transform T → List Str
  | (id, ⟨.exclusiveRoute routes, _⟩) =>
    (routes.map Route.name ++ [unmatched]).map fun name => id ++ '.' :: name
  | (id, _) => [id]

-- literal is the string that the text between two quotes stands for, if that is one literal, and
-- holds a condition's value for an event of a unit
structure Vrl where
  literal : Str → Option Str
  holds : Str → Option Str → Bool
  comparison : ∀ {text s}, literal text = some s →
    ∀ unit, holds (unitIs text) unit = decide (unit = some s)

def exclusive (vrl : Vrl) (unit : Option Str) (routes : List Route) : Str :=
  match routes.find? fun route => vrl.holds route.condition unit with
  | some route => route.name
  | none => unmatched

def emits (vrl : Vrl) (unit : Option Str) : Str × Transform T → List Str
  | (id, ⟨.exclusiveRoute routes, _⟩) => [id ++ '.' :: exclusive vrl unit routes]
  | (id, _) => [id]

def pipeline (vrl : Vrl) (services : Services T) (unit : Option Str) :
    Dataflow (Str × Transform T) Str where
  components := transforms services
  inputs c := c.2.inputs
  emits := emits vrl unit
  sink := sinkInputs services

def chain (name : Str) (ts : List T) : List ((Str × Transform T) × Str) :=
  (ts.zipIdx 1).map fun (t, i) => (numbered name i t, transformName name i)

def wanted (services : Services T) (eventUnit : Option Str) :
    List ((Str × Transform T) × Str) :=
  match services.entries.find? fun (name, _) => some (unit name) = eventUnit with
  | some (name, ts) => (journaldRoute services, routeOutput name) :: chain name ts
  | none => [(journaldRoute services, routeOutput unmatched)]

structure Lossless (vrl : Vrl) (services : Services T) : Prop where
  compared : ∀ name ∈ services.entries.map Prod.fst, (vrl.literal (unit name)).isSome
  closed : ∀ input ∈ (transforms services).flatMap (fun c => c.2.inputs) ++ sinkInputs services,
    input ∈ "journald".toList :: (transforms services).flatMap outputs
  separate : services.entries.Pairwise fun service service' =>
    ∀ c ∈ (serviceTransforms service.1 service.2).attrValues,
      ∀ c' ∈ (serviceTransforms service'.1 service'.2).attrValues, c.1 ≠ c'.1
  delivered : ∀ eventUnit hops,
    (pipeline vrl services eventUnit).Leads "journald_remap".toList hops ↔
      hops = wanted services eventUnit

structure Sound (vrl : Vrl) (services : Services T) : Prop where
  literal : ∀ name ∈ services.entries.map Prod.fst, vrl.literal (unit name) = some (unit name)
  nonempty : ∀ entry ∈ services.entries, entry.2 ≠ []
  reserved : unmatched ∉ services.entries.map Prod.fst
  unaliased : ∀ name ts name', (name, ts) ∈ services.entries →
    name' ∈ services.entries.map Prod.fst → ∀ i, 1 ≤ i → i ≤ ts.length →
      transformName name i ≠ routeOutput name'

section Names

variable {name name' : Str} {i j : Nat}

theorem underscore_notMem_digits (n : Nat) : '_' ∉ Nat.toDigits 10 n := fun hmem =>
  absurd (Nat.isDigit_of_mem_toDigits (by decide) (by decide) hmem) (by decide)

theorem transformName_inj (h : transformName name i = transformName name' j) :
    name = name' ∧ i = j := by
  obtain ⟨hname, hdigits⟩ :=
    eq_of_append_cons_right (underscore_notMem_digits i) (underscore_notMem_digits j) h
  refine ⟨List.append_cancel_left hname, ?_⟩
  rw [← Nat.ofDigitChars_ten_toDigits (n := i), hdigits, Nat.ofDigitChars_ten_toDigits]

theorem transformName_ne (rest word : Str) (hword : '_' ∉ word) (hdigit : ∃ c ∈ word, ¬c.isDigit) :
    transformName name i ≠ rest ++ '_' :: word := by
  intro h
  obtain ⟨-, rfl⟩ := eq_of_append_cons_right (underscore_notMem_digits i) hword h
  obtain ⟨c, hc, hnot⟩ := hdigit
  exact hnot (Nat.isDigit_of_mem_toDigits (by decide) (by decide) hc)

theorem transformName_ne_unmatched : transformName name i ≠ routeOutput unmatched :=
  transformName_ne "journald_route.".toList "unmatched".toList (by decide)
    ⟨'u', by decide, by decide⟩

theorem transformName_ne_remap : transformName name i ≠ "journald_remap".toList :=
  transformName_ne "journald".toList "remap".toList (by decide)
    ⟨'r', by decide, by decide⟩

theorem routeOutput_inj (h : routeOutput name = routeOutput name') : name = name' :=
  List.append_cancel_left h

theorem routeOutput_ne_remap : routeOutput name ≠ "journald_remap".toList := by
  intro h
  have hroute : (routeOutput name).take 12 = "journald_rou".toList := rfl
  rw [h] at hroute
  exact absurd hroute (by decide)

theorem unit_inj (h : unit name = unit name') : name = name' := List.append_cancel_right h

def port (name : Str) : Nat → Str
  | 0 => routeOutput name
  | i + 1 => transformName name (i + 1)

theorem length_routeOutput (name : Str) : (routeOutput name).length = 15 + name.length := by
  have hprefix : "journald_route.".toList.length = 15 := by decide
  exact List.length_append.trans (congrArg (· + name.length) hprefix)

theorem length_transformName (name : Str) (i : Nat) :
    (transformName name i).length = 9 + name.length + ((Nat.toDigits 10 i).length + 1) := by
  have hprefix : "journald_".toList.length = 9 := by decide
  have hname := List.length_append.trans (congrArg (· + name.length) hprefix)
  exact List.length_append.trans (congrArg (· + ((Nat.toDigits 10 i).length + 1)) hname)

theorem transformName_ne_journald : transformName name i ≠ "journald".toList := by
  intro h
  have hlength : (transformName name i).length = 8 := (congrArg List.length h).trans (by decide)
  rw [length_transformName] at hlength
  omega

theorem port_ne_journald : port name i ≠ "journald".toList := by
  cases i with
  | zero =>
    intro h
    have hlength : (routeOutput name).length = 8 := (congrArg List.length h).trans (by decide)
    rw [length_routeOutput] at hlength
    omega
  | succ i => exact transformName_ne_journald

theorem port_ne_remap : port name i ≠ "journald_remap".toList := by
  cases i with
  | zero => exact routeOutput_ne_remap
  | succ i => exact transformName_ne_remap

theorem numbered_inputs (name : Str) (i : Nat) (t : T) :
    (numbered name (i + 1) t).2.inputs = [port name i] := by
  cases i <;> rfl

end Names

section Members

variable {services : Services T} {name : Str} {ts : List T} {c : Str × Transform T}

theorem mem_serviceTransforms : c ∈ (serviceTransforms name ts).attrValues ↔
    ∃ i t, ts[i]? = some t ∧ c = numbered name (i + 1) t := by
  have hnodup : (((ts.zipIdx 1).map fun (t, i) => numbered name i t).map Prod.fst).Nodup := by
    have hnames : ((ts.zipIdx 1).map fun (t, i) => numbered name i t).map Prod.fst =
        (List.range' 1 ts.length).map (transformName name) := by
      rw [← List.zipIdx_map_snd 1 ts, List.map_map, List.map_map]
      rfl
    rw [hnames]
    exact List.Nodup.map (fun i j h => (transformName_inj h).2) List.nodup_range'
  rw [serviceTransforms, (AttrSet.attrValues_listToAttrs_perm.mpr hnodup).mem_iff, List.mem_map]
  constructor
  · rintro ⟨⟨t, i⟩, hmem, rfl⟩
    obtain ⟨hle, ht⟩ := List.mk_mem_zipIdx_iff_le_and_getElem?_sub.mp hmem
    exact ⟨i - 1, t, ht, by rw [Nat.sub_add_cancel hle]⟩
  · rintro ⟨i, t, ht, rfl⟩
    refine ⟨(t, i + 1), List.mk_mem_zipIdx_iff_le_and_getElem?_sub.mpr ⟨?_, ?_⟩, rfl⟩
    · exact Nat.le_add_left 1 i
    · rwa [Nat.add_sub_cancel]

theorem mem_transforms : c ∈ transforms services ↔
    c = journaldRemap ∨ c = journaldRoute services ∨ ∃ name ts, (name, ts) ∈ services.entries ∧
      ∃ i t, ts[i]? = some t ∧ c = numbered name (i + 1) t := by
  simp only [transforms, List.mem_cons, List.mem_flatMap, Prod.exists, mem_serviceTransforms]

theorem mem_sinkInputs {input : Str} : input ∈ sinkInputs services ↔
    input = routeOutput unmatched ∨
      ∃ name ts, (name, ts) ∈ services.entries ∧ input = transformName name ts.length := by
  simp [sinkInputs, AttrSet.mapAttrsToList, outputName, eq_comm]

theorem mem_inputs {input : Str} (hc : c ∈ transforms services) (h : input ∈ c.2.inputs) :
    (c = journaldRemap ∧ input = "journald".toList) ∨
      (c = journaldRoute services ∧ input = "journald_remap".toList) ∨
      ∃ name ts, (name, ts) ∈ services.entries ∧
        ∃ i t, ts[i]? = some t ∧ c = numbered name (i + 1) t ∧ input = port name i := by
  rcases mem_transforms.mp hc with rfl | rfl | ⟨name, ts, hentry, i, t, ht, rfl⟩
  · exact .inl ⟨rfl, List.mem_singleton.mp h⟩
  · exact .inr (.inl ⟨rfl, List.mem_singleton.mp h⟩)
  · rw [numbered_inputs, List.mem_singleton] at h
    exact .inr (.inr ⟨name, ts, hentry, i, t, ht, rfl, h⟩)

theorem routeOutput_eq (name : Str) :
    ("journald_route".toList ++ '.' :: name : Str) = routeOutput name := by
  have hdot : "journald_route.".toList = "journald_route".toList ++ ['.'] := rfl
  unfold routeOutput
  rw [hdot, List.append_assoc]
  rfl

theorem outputs_journaldRoute : outputs (journaldRoute services) =
    (services.entries.map fun entry => routeOutput entry.1) ++ [routeOutput unmatched] := by
  have hnames : (routes services).map Route.name = services.entries.map Prod.fst := by
    rw [routes, AttrSet.mapAttrsToList, List.map_map]
    rfl
  have hroute : outputs (journaldRoute services) =
      ((routes services).map Route.name ++ [unmatched]).map routeOutput :=
    List.map_congr_left fun name _ => routeOutput_eq name
  rw [hroute, hnames, List.map_append, List.map_map]
  rfl

theorem mem_outputs_route {output : Str} : output ∈ outputs (journaldRoute services) ↔
    output = routeOutput unmatched ∨
      ∃ name ∈ services.entries.map Prod.fst, output = routeOutput name := by
  rw [outputs_journaldRoute, List.mem_append, List.mem_singleton, or_comm]
  simp [eq_comm]

theorem entries_inj {ts' : List T} (h : (name, ts) ∈ services.entries)
    (h' : (name, ts') ∈ services.entries) : ts = ts' :=
  Option.some.inj ((AttrSet.get?_eq_some.mpr h).symm.trans (AttrSet.get?_eq_some.mpr h'))

end Members

section Wanted

variable {services : Services T} {name : Str} {ts : List T}

theorem find?_unit (h : (name, ts) ∈ services.entries) :
    (services.entries.find? fun (other, _) => some (unit other) = some (unit name)) =
      some (name, ts) := by
  cases hfind : services.entries.find? fun (other, _) => some (unit other) = some (unit name) with
  | none => simpa using List.find?_eq_none.mp hfind _ h
  | some entry =>
    obtain ⟨other, ts'⟩ := entry
    have hunit := List.find?_some hfind
    simp only [Option.some.injEq, decide_eq_true_eq] at hunit
    obtain rfl := unit_inj hunit
    rw [entries_inj (List.mem_of_find?_eq_some hfind) h]

theorem wanted_unit (h : (name, ts) ∈ services.entries) :
    wanted services (some (unit name)) =
      (journaldRoute services, routeOutput name) :: chain name ts := by
  rw [wanted, find?_unit h]

theorem wanted_unmatched {eventUnit : Option Str}
    (h : ∀ entry ∈ services.entries, some (unit entry.1) ≠ eventUnit) :
    wanted services eventUnit = [(journaldRoute services, routeOutput unmatched)] := by
  have hfind : (services.entries.find? fun (name, _) => some (unit name) = eventUnit) = none :=
    List.find?_eq_none.mpr fun entry hentry => by simpa using h entry hentry
  rw [wanted, hfind]

end Wanted

end Isz.Journald
