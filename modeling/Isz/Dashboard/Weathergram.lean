import Isz.Library.Grouping
import Isz.Library.Text
import Mathlib.Order.Defs.LinearOrder

namespace Isz.Dashboard

open Grouping

structure Record (T V : Type) where
  result : Str
  time : T
  field : Str
  value : V
  unit : Option Str
  deriving DecidableEq

inductive Cell (T V : Type) where
  | time (t : T)
  | value (v : V)
  deriving DecidableEq

abbrev Row (T V : Type) := List (Str × Cell T V)

abbrev timeKey : Str := "_time".toList

section Fetch

variable {T V : Type} [DecidableEq T] (mulUnit : V → Str → V)

-- an absent or empty unit leaves the value as it is
def Record.quantity (r : Record T V) : V :=
  match r.unit with
  | some (c :: unit) => mulUnit r.value (c :: unit)
  | _ => r.value

def fillRow (row : Row T V) (t : T) (records : List (Record T V)) : Row T V :=
  records.foldl (fun row r => assign row r.field (.value (r.quantity mulUnit)))
    (assign row timeKey (.time t))

def fillRows (row : Row T V) : List (T × List (Record T V)) → List (Row T V)
  | [] => []
  | (t, records) :: measurements =>
    let row := fillRow mulUnit row t records
    row :: fillRows row measurements

def resultOf (table : List (Record T V)) : Option Str := table.head?.map Record.result

-- none where records[0] of an empty table raises
def keyed (tables : List (List (Record T V))) : Option (List (Str × List (Record T V))) :=
  tables.mapM fun table => (resultOf table).map fun result => (result, table)

def fetchWeathergram (tables : List (List (Record T V))) : Option (List (Str × List (Row T V))) :=
  (keyed tables).map fun tables =>
    (bucket Prod.fst tables).map fun (result, tables) =>
      (result, fillRows mulUnit [] (bucket Record.time (tables.flatMap Prod.snd)))

end Fetch

section Spec

variable {T V : Type} [LinearOrder T] (mulUnit : V → Str → V)

structure Latest (records : List (Record T V)) (field : Str) (t : T) (r : Record T V) : Prop where
  ofField : r.field = field
  notLater : r.time ≤ t
  latest : ∀ r' ∈ records, r'.field = field → r'.time ≤ t → r'.time ≤ r.time
  last : (records.filter fun r' => r'.field = field ∧ r'.time = r.time).getLast? = some r

structure ForwardFilled (records : List (Record T V)) (rows : List (Row T V)) : Prop where
  times : ∃ ts : List T, rows.map (List.lookup timeKey) = ts.map (fun t => some (.time t)) ∧
    ts.Pairwise (· < ·) ∧ ∀ t, t ∈ ts ↔ ∃ r ∈ records, r.time = t
  fields : ∀ row ∈ rows, ∀ t, row.lookup timeKey = some (.time t) → ∀ field, field ≠ timeKey →
    ∀ cell, row.lookup field = some cell ↔
      ∃ r, Latest records field t r ∧ cell = .value (r.quantity mulUnit)

def InTurn (records : List (Record T V)) : Prop :=
  (records.map Record.time).eraseDups.Pairwise (· < ·) ∧ ∀ r ∈ records, r.field ≠ timeKey

theorem Latest.unique {records : List (Record T V)} {field : Str} {t : T} {r r' : Record T V}
    (h : Latest records field t r) (h' : Latest records field t r') : r = r' := by
  have hmem := (List.mem_filter.mp (List.mem_of_getLast? h.last)).1
  have hmem' := (List.mem_filter.mp (List.mem_of_getLast? h'.last)).1
  have htime : r.time = r'.time :=
    le_antisymm (h'.latest r hmem h.ofField h.notLater) (h.latest r' hmem' h'.ofField h'.notLater)
  have hlast := h.last
  rw [htime] at hlast
  exact Option.some.inj (hlast.symm.trans h'.last)

theorem getLast?_upTo {records : List (Record T V)} {ts : List T} {t : T}
    (hsorted : ts.Pairwise (· < ·)) (hts : ∀ r ∈ records, r.time ∈ ts ↔ r.time ≤ t) (field : Str)
    (r : Record T V) :
    ((ts.flatMap fun s => records.filter fun r => r.time = s).filter
      fun r => r.field = field).getLast? = some r ↔ Latest records field t r := by
  set upTo := ts.flatMap fun s => records.filter fun r => r.time = s
  have hmem : ∀ r', r' ∈ upTo.filter (fun r => r.field = field) ↔
      r' ∈ records ∧ r'.time ≤ t ∧ r'.field = field := by
    intro r'
    simp only [upTo, List.mem_filter, List.mem_flatMap, decide_eq_true_eq]
    constructor
    · rintro ⟨⟨s, hs, hr, rfl⟩, hfield⟩
      exact ⟨hr, (hts r' hr).mp hs, hfield⟩
    · rintro ⟨hr, hle, hfield⟩
      exact ⟨⟨_, (hts r' hr).mpr hle, hr, rfl⟩, hfield⟩
  have hordered : upTo.Pairwise fun r r' => r.time ≤ r'.time := by
    rw [List.pairwise_flatMap]
    refine ⟨fun s _ => ?_, hsorted.imp fun hlt r hr r' hr' => ?_⟩
    · refine List.pairwise_of_forall_mem_list fun r hr r' hr' => ?_
      rw [of_decide_eq_true (List.mem_filter.mp hr).2, of_decide_eq_true (List.mem_filter.mp hr').2]
    · rw [of_decide_eq_true (List.mem_filter.mp hr).2, of_decide_eq_true (List.mem_filter.mp hr').2]
      exact hlt.le
  have hforward : ∀ r, (upTo.filter fun r => r.field = field).getLast? = some r →
      Latest records field t r := by
    intro r hlast
    obtain ⟨hr, hle, hfield⟩ := (hmem r).mp (List.mem_of_getLast? hlast)
    refine ⟨hfield, hle, fun r' hr' hfield' hle' => ?_, ?_⟩
    · obtain ⟨init, hinit⟩ := List.getLast?_eq_some_iff.mp hlast
      have hpair := hordered.filter fun r => decide (r.field = field)
      have hmem' := (hmem r').mpr ⟨hr', hle', hfield'⟩
      rw [hinit] at hpair hmem'
      rcases List.mem_append.mp hmem' with hmem' | hmem'
      · exact (List.pairwise_append.mp hpair).2.2 r' hmem' r List.mem_cons_self
      · rw [List.mem_singleton.mp hmem']
    · have hnodup : ts.Nodup := hsorted.imp fun hlt => hlt.ne
      have htime := filter_flatMap_key Record.time records hnodup ((hts r hr).mpr hle)
      have hsame : (upTo.filter fun r => r.field = field).filter (fun r' => r'.time = r.time) =
          records.filter fun r' => r'.field = field ∧ r'.time = r.time := by
        rw [List.filter_comm, htime, List.filter_filter]
        simp only [Bool.decide_and]
      rw [← hsame]
      exact getLast?_filter hlast (decide_eq_true rfl)
  refine ⟨hforward r, fun h => ?_⟩
  have hr := (List.mem_filter.mp (List.mem_of_getLast? h.last)).1
  have hne := List.ne_nil_of_mem ((hmem r).mpr ⟨hr, h.notLater, h.ofField⟩)
  obtain ⟨r', hlast⟩ := Option.isSome_iff_exists.mp (List.getLast?_isSome.mpr hne)
  rw [hlast, (hforward r' hlast).unique h]

end Spec

section Rows

variable {T V : Type} (mulUnit : V → Str → V)

theorem lookup_fillRow (row : Row T V) (t : T) (records : List (Record T V)) {field : Str}
    (hne : field ≠ timeKey) :
    (fillRow mulUnit row t records).lookup field =
      ((records.filter fun r => r.field = field).getLast?.map
        fun r => Cell.value (r.quantity mulUnit)).or (row.lookup field) := by
  rw [fillRow, lookup_foldl_assign, lookup_assign_of_ne _ _ hne]

theorem lookup_time_fillRow (row : Row T V) (t : T) (records : List (Record T V)) :
    (fillRow mulUnit row t records).lookup timeKey =
      ((records.filter fun r => r.field = timeKey).getLast?.map
        fun r => Cell.value (r.quantity mulUnit)).or (some (.time t)) := by
  rw [fillRow, lookup_foldl_assign, lookup_assign_self]

theorem lookup_time_eq {records : List (Record T V)} (h : ∀ r ∈ records, r.field ≠ timeKey)
    (row : Row T V) (t : T) :
    (fillRow mulUnit row t records).lookup timeKey = some (.time t) := by
  have hnil : (records.filter fun r => r.field = timeKey) = [] := by
    simpa [List.filter_eq_nil_iff] using h
  rw [lookup_time_fillRow, hnil]
  rfl

theorem map_time_fillRows {ms : List (T × List (Record T V))}
    (h : ∀ m ∈ ms, ∀ r ∈ m.2, r.field ≠ timeKey) (row : Row T V) :
    (fillRows mulUnit row ms).map (List.lookup timeKey) =
      (ms.map Prod.fst).map fun t => some (.time t) := by
  induction ms generalizing row with
  | nil => rfl
  | cons m ms ih =>
    obtain ⟨hm, hms⟩ := List.forall_mem_cons.mp h
    rw [fillRows, List.map_cons, lookup_time_eq mulUnit hm, ih hms]
    rfl

theorem exists_fillRow {ms : List (T × List (Record T V))} {m : T × List (Record T V)}
    (hm : m ∈ ms) (row : Row T V) :
    ∃ previous, fillRow mulUnit previous m.1 m.2 ∈ fillRows mulUnit row ms := by
  induction ms generalizing row with
  | nil => cases hm
  | cons m' ms ih =>
    rcases List.mem_cons.mp hm with rfl | hm
    · exact ⟨row, List.mem_cons_self⟩
    · obtain ⟨previous, hmem⟩ := ih hm (fillRow mulUnit row m'.1 m'.2)
      exact ⟨previous, List.mem_cons_of_mem _ hmem⟩

theorem mem_fillRows {ms : List (T × List (Record T V))}
    (h : ∀ m ∈ ms, ∀ r ∈ m.2, r.field ≠ timeKey) {first row : Row T V}
    (hrow : row ∈ fillRows mulUnit first ms) :
    ∃ before m after, ms = before ++ m :: after ∧ row.lookup timeKey = some (.time m.1) ∧
      ∀ field, field ≠ timeKey → row.lookup field =
        ((((before ++ [m]).flatMap Prod.snd).filter fun r => r.field = field).getLast?.map
          fun r => Cell.value (r.quantity mulUnit)).or (first.lookup field) := by
  induction ms generalizing first with
  | nil => cases hrow
  | cons m ms ih =>
    obtain ⟨hm, hms⟩ := List.forall_mem_cons.mp h
    rcases List.mem_cons.mp hrow with rfl | hrow
    · refine ⟨[], m, ms, rfl, lookup_time_eq mulUnit hm _ _, fun field hne => ?_⟩
      simpa using lookup_fillRow mulUnit first m.1 m.2 hne
    · obtain ⟨before, m', after, rfl, htime, hfield⟩ := ih hms hrow
      refine ⟨m :: before, m', after, rfl, htime, fun field hne => ?_⟩
      rw [hfield field hne, lookup_fillRow mulUnit first m.1 m.2 hne, List.cons_append,
        List.flatMap_cons, List.filter_append, List.getLast?_append, Option.map_or,
        Option.or_assoc]

end Rows

section Measurements

variable {T V : Type} [LinearOrder T] (mulUnit : V → Str → V)

theorem forwardFilled_of_inTurn {records : List (Record T V)} (h : InTurn records) :
    ForwardFilled mulUnit records (fillRows mulUnit [] (bucket Record.time records)) := by
  obtain ⟨hsorted, hfields⟩ := h
  have hplain : ∀ m ∈ bucket Record.time records, ∀ r ∈ m.2, r.field ≠ timeKey := by
    intro m hm r hr
    rw [(mem_bucket.mp hm).2] at hr
    exact hfields r (List.mem_filter.mp hr).1
  refine ⟨⟨(records.map Record.time).eraseDups, ?_, hsorted, fun t => ?_⟩, ?_⟩
  · rw [map_time_fillRows mulUnit hplain, map_fst_bucket]
  · rw [List.mem_eraseDups, List.mem_map]
  · intro row hrow t htime field hne cell
    obtain ⟨before, m, after, hsplit, htime', hlookup⟩ := mem_fillRows mulUnit hplain hrow
    obtain rfl : m.1 = t := by
      rw [htime'] at htime
      exact Cell.time.inj (Option.some.inj htime)
    have hkeys : (before.map Prod.fst ++ m.1 :: after.map Prod.fst).Pairwise (· < ·) := by
      rw [← map_fst_bucket, hsplit, List.map_append, List.map_cons] at hsorted
      exact hsorted
    have hgroups : ((before ++ [m]).flatMap Prod.snd) =
        ((before ++ [m]).map Prod.fst).flatMap fun s => records.filter fun r => r.time = s := by
      rw [List.flatMap_map]
      refine List.flatMap_congr fun e he => (mem_bucket.mp ?_).2
      rw [hsplit, List.append_cons]
      exact List.mem_append_left _ he
    have hupTo : ∀ r ∈ records, r.time ∈ (before ++ [m]).map Prod.fst ↔ r.time ≤ m.1 := by
      intro r hr
      obtain ⟨-, hm, hbefore⟩ := List.pairwise_append.mp hkeys
      obtain ⟨hafter, -⟩ := List.pairwise_cons.mp hm
      have hmem : r.time ∈ before.map Prod.fst ++ m.1 :: after.map Prod.fst := by
        rw [← List.map_cons (f := Prod.fst), ← List.map_append, ← hsplit, map_fst_bucket]
        exact List.mem_eraseDups.mpr (List.mem_map_of_mem hr)
      rw [List.map_append, List.map_singleton, List.mem_append, List.mem_singleton]
      constructor
      · rintro (hlt | heq)
        · exact (hbefore _ hlt _ List.mem_cons_self).le
        · exact heq.le
      · intro hle
        rcases List.mem_append.mp hmem with hlt | hge
        · exact .inl hlt
        · exact .inr ((List.mem_cons.mp hge).resolve_right fun hgt =>
            absurd (hafter _ hgt) hle.not_gt)
    have hprefix : ((before ++ [m]).map Prod.fst).Pairwise (· < ·) := by
      rw [List.append_cons] at hkeys
      rw [List.map_append]
      exact (List.pairwise_append.mp hkeys).1
    rw [hlookup field hne, hgroups, List.lookup_nil, Option.or_none, Option.map_eq_some_iff]
    exact exists_congr fun r =>
      and_congr (getLast?_upTo hprefix hupTo field r) eq_comm

theorem inTurn_of_forwardFilled {records : List (Record T V)}
    (h : ForwardFilled mulUnit records (fillRows mulUnit [] (bucket Record.time records))) :
    InTurn records := by
  obtain ⟨ts, hts, hsorted, -⟩ := h.times
  have hfields : ∀ r ∈ records, r.field ≠ timeKey := by
    intro r hr hfield
    have hm : (r.time, records.filter fun r' => r'.time = r.time) ∈ bucket Record.time records :=
      mem_bucket.mpr ⟨List.mem_map_of_mem hr, rfl⟩
    obtain ⟨previous, hrow⟩ := exists_fillRow mulUnit hm []
    have hcell := List.mem_map_of_mem (f := List.lookup timeKey) hrow
    rw [hts, lookup_time_fillRow] at hcell
    obtain ⟨t, -, ht⟩ := List.mem_map.mp hcell
    have hne : ((records.filter fun r' => r'.time = r.time).filter
        fun r' => r'.field = timeKey) ≠ [] :=
      List.ne_nil_of_mem (List.mem_filter.mpr
        ⟨List.mem_filter.mpr ⟨hr, decide_eq_true rfl⟩, decide_eq_true hfield⟩)
    obtain ⟨last, hlast⟩ := Option.isSome_iff_exists.mp (List.getLast?_isSome.mpr hne)
    rw [hlast] at ht
    cases ht
  refine ⟨?_, hfields⟩
  have hplain : ∀ m ∈ bucket Record.time records, ∀ r ∈ m.2, r.field ≠ timeKey := by
    intro m hm r hr
    rw [(mem_bucket.mp hm).2] at hr
    exact hfields r (List.mem_filter.mp hr).1
  rw [map_time_fillRows mulUnit hplain, map_fst_bucket] at hts
  have hinj : Function.Injective fun t : T => some (Cell.time (V := V) t) := fun t t' heq =>
    Cell.time.inj (Option.some.inj heq)
  rw [List.map_injective_iff.mpr hinj hts]
  exact hsorted

theorem forwardFilled_iff (records : List (Record T V)) :
    ForwardFilled mulUnit records (fillRows mulUnit [] (bucket Record.time records)) ↔
      InTurn records :=
  ⟨inTurn_of_forwardFilled mulUnit, forwardFilled_of_inTurn mulUnit⟩

end Measurements

section Results

variable {T V : Type}

def recordsOf (tables : List (List (Record T V))) (result : Str) : List (Record T V) :=
  (tables.filter fun table => resultOf table = some result).flatten

theorem keyed_eq_some {tables : List (List (Record T V))} (h : ∀ table ∈ tables, table ≠ []) :
    ∃ tables', keyed tables = some tables' ∧
      (∀ result, (tables'.filter fun e => e.1 = result).flatMap Prod.snd =
        recordsOf tables result) ∧
      ∀ result, result ∈ tables'.map Prod.fst ↔ ∃ table ∈ tables, resultOf table = some result := by
  induction tables with
  | nil => exact ⟨[], rfl, fun _ => rfl, by simp⟩
  | cons table tables ih =>
    obtain ⟨hne, hrest⟩ := List.forall_mem_cons.mp h
    obtain ⟨tables', hkeyed, hrecords, hresults⟩ := ih hrest
    obtain ⟨r, rs, rfl⟩ := List.exists_cons_of_ne_nil hne
    refine ⟨(r.result, r :: rs) :: tables', ?_, fun result => ?_, fun result => ?_⟩
    · rw [keyed, List.mapM_cons, ← keyed, hkeyed]
      rfl
    · rw [recordsOf, List.filter_cons, List.filter_cons]
      by_cases heq : r.result = result
      · have := hrecords result
        simp_all [resultOf, recordsOf]
      · have := hrecords result
        simp_all [resultOf, recordsOf]
    · simp [hresults, resultOf, eq_comm]

theorem keyed_eq_none {tables : List (List (Record T V))} (h : [] ∈ tables) :
    keyed tables = none := by
  induction tables with
  | nil => cases h
  | cons table tables ih =>
    rw [keyed, List.mapM_cons, ← keyed]
    cases table with
    | nil => rfl
    | cons r rs =>
      rw [ih ((List.mem_cons.mp h).resolve_left fun heq => by cases heq)]
      rfl

end Results

section Fetched

variable {T V : Type} [LinearOrder T] (mulUnit : V → Str → V)

def Filled (tables : List (List (Record T V))) : Prop :=
  ∃ out, fetchWeathergram mulUnit tables = some out ∧
    ∀ table ∈ tables, ∀ result, resultOf table = some result →
      ∃ rows, out.lookup result = some rows ∧
        ForwardFilled mulUnit (recordsOf tables result) rows

theorem fetchWeathergram_iff (tables : List (List (Record T V))) :
    Filled mulUnit tables ↔
      (∀ table ∈ tables, table ≠ []) ∧ ∀ result, InTurn (recordsOf tables result) := by
  by_cases hne : ∀ table ∈ tables, table ≠ []
  · obtain ⟨tables', hkeyed, hrecords, hresults⟩ := keyed_eq_some hne
    have hlookup : ∀ result ∈ tables'.map Prod.fst,
        ((bucket Prod.fst tables').map fun (result, tables) =>
          (result, fillRows mulUnit [] (bucket Record.time (tables.flatMap Prod.snd)))).lookup
            result = some (fillRows mulUnit [] (bucket Record.time (recordsOf tables result))) := by
      intro result hmem
      rw [bucket, List.map_map]
      exact (lookup_map_of_mem (fun result => fillRows mulUnit [] (bucket Record.time
        ((tables'.filter fun e => e.1 = result).flatMap Prod.snd))) (mem_keys.mpr hmem)).trans
        (by rw [hrecords])
    have hfilled : Filled mulUnit tables ↔ ∀ table ∈ tables, ∀ result,
        resultOf table = some result → InTurn (recordsOf tables result) := by
      simp only [Filled, fetchWeathergram, hkeyed, Option.map_some, Option.some.injEq,
        exists_eq_left']
      refine forall₂_congr fun table htable => forall₂_congr fun result hresult => ?_
      simp only [hlookup result ((hresults result).mpr ⟨table, htable, hresult⟩),
        Option.some.injEq, exists_eq_left', forwardFilled_iff]
    rw [hfilled, and_iff_right hne]
    constructor
    · intro h result
      by_cases hresult : ∃ table ∈ tables, resultOf table = some result
      · obtain ⟨table, htable, heq⟩ := hresult
        exact h table htable result heq
      · have hnil : recordsOf tables result = [] := by
          rw [recordsOf, List.filter_eq_nil_iff.mpr fun table htable heq =>
            hresult ⟨table, htable, of_decide_eq_true heq⟩]
          rfl
        rw [hnil]
        exact ⟨List.Pairwise.nil, fun r hr => by cases hr⟩
    · intro h table _ result _
      exact h result
  · refine iff_of_false ?_ fun h => hne h.1
    rintro ⟨out, hout, -⟩
    have hmem : [] ∈ tables := by simpa using hne
    rw [fetchWeathergram, keyed_eq_none hmem] at hout
    cases hout

end Fetched

def unaligned : List (List (Record Nat Int)) := [
  [⟨"forecast".toList, 1, "temperature".toList, 10, none⟩,
    ⟨"forecast".toList, 3, "temperature".toList, 30, none⟩],
  [⟨"forecast".toList, 2, "humidity".toList, 50, none⟩]]

theorem unaligned_not_filled : ¬Filled (fun v _ => v) unaligned := by
  rintro ⟨out, hout, h⟩
  obtain ⟨rows, hrows, hfilled⟩ := h _ List.mem_cons_self "forecast".toList rfl
  obtain rfl := Option.some.inj hout
  obtain rfl : fillRows (fun v _ => v) [] (bucket Record.time
    (recordsOf unaligned "forecast".toList)) = rows := Option.some.inj hrows
  exact absurd (inTurn_of_forwardFilled _ hfilled).1 (by decide)

end Isz.Dashboard
