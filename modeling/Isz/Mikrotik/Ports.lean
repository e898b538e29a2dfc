import Isz.Library.Except
import Isz.Library.Pyparsing
import Isz.Mikrotik.Counters
import Mathlib.Algebra.Group.Nat.Defs
import Mathlib.Algebra.Ring.Int.Defs
import Mathlib.Data.Int.Bitwise
import Mathlib.Data.Rat.Defs

namespace Isz.Mikrotik.Ports

open Except Pyparsing

inductive Fault where
  | keyError (key : Str)
  | indexError
  | typeError
  | overflowError
  | unicodeError
  | attributeError

inductive Value where
  | obj (o : PyObject)
  | bool (b : Bool)
  | none
  | quotient (n : Int) (scale : ℚ)

def text (s : String) : Value := .obj (.str s.toList)

def num (n : Int) : Value := .obj (.int n)

inductive Kind where
  | plain
  | bool
  | enum (values : List Value)
  | dualBool (second : String) (values : List Value)

inductive Scale where
  | int (n : ℕ)
  | float (x : ℚ)

def Scale.value : Scale → ℚ
  | .int n => n
  | .float x => x

structure Desc where
  name : String
  kind : Kind
  tag : Bool
  scale : Option Scale

def field (name : String) : Desc := ⟨name, .plain, false, none⟩

def scaled (name : String) (scale : Scale) : Desc := ⟨name, .plain, false, some scale⟩

def boolField (name : String) : Desc := ⟨name, .bool, false, none⟩

def enumField (name : String) (values : List Value) : Desc := ⟨name, .enum values, false, none⟩

def tagField (name : String) : Desc := ⟨name, .plain, true, none⟩

def fields : List (String × List (String × Desc)) :=
  [("link.b",
    [("en", boolField "enabled"),
      ("nm", tagField "if-name"),
      ("lnk", boolField "running"),
      ("an", boolField "auto-negotiation"),
      ("spdc", enumField "advertised-speed" [num 10, num 100, num 1000]),
      ("spd", enumField "speed" [num 10, num 100, num 1000, .none]),
      ("dpxc", boolField "advertised-full-duplex"),
      ("dpx", boolField "full-duplex"),
      ("fct", boolField "flow-control"),
      ("poe", enumField "poe-out" [text "off", text "auto", text "on", text "calibr"]),
      ("prio", enumField "poe-priority" [num 1, num 2, num 3, num 4]),
      ("poes", enumField "poe-status"
        [.none, text "disabled", text "waiting for load", text "powered on", text "overload",
          text "short circuit", text "voltage too low", text "current too low",
          text "power cycle", text "voltage too high", text "controller error"]),
      ("curr", field "poe-current"),
      ("pwr", scaled "poe-power" (.int 10))]),
    ("fwd.b",
    [("vlan", enumField "vlan-mode"
        [text "disabled", text "optional", text "enabled", text "strict"]),
      ("vlni", enumField "vlan-receive"
        [text "any", text "only tagged", text "only untagged"]),
      ("dvid", tagField "default-vlan-id"),
      ("fvid", boolField "force-vlan-id"),
      ("vlnh", enumField "vlan-header"
        [text "leave as is", text "always strip", text "add if missing"])]),
    ("rstp.b",
    [("ena", boolField "rstp-enabled"),
      ("rstp", boolField "rstp-rapid"),
      ("role", enumField "rstp-role"
        [text "disabled", text "alternate", text "root", text "designated", text "backup"]),
      ("rpc", field "rstp-root-path-cost"),
      ("p2p", ⟨"rstp-type", .dualBool "edge"
        [text "shared", text "point-to-point", text "edge", text "edge"], true, none⟩),
      ("lrn", ⟨"rstp-state", .dualBool "fwd"
        [text "discarding", text "learning", text "forwarding", text "forwarding"],
        false, none⟩)]),
    ("!stats.b",
    [("rrb", scaled "rx-rate" (.float (8 / 100))),
      ("rrp", scaled "rx-packet-rate" (.float (64 / 100))),
      ("trb", scaled "tx-rate" (.float (8 / 100))),
      ("trp", scaled "tx-packet-rate" (.float (64 / 100))),
      ("rb", field "rx-bytes"), ("rtp", field "rx-packets"), ("rup", field "rx-unicasts"),
      ("rbp", field "rx-broadcasts"), ("rmp", field "rx-multicasts"), ("r64", field "rx-64"),
      ("r65", field "rx-65-127"), ("r128", field "rx-128-255"), ("r256", field "rx-256-511"),
      ("r512", field "rx-512-1023"), ("r1k", field "rx-1024-1518"),
      ("rmax", field "rx-1519-max"),
      ("tb", field "tx-bytes"), ("ttp", field "tx-packets"), ("tup", field "tx-unicasts"),
      ("tbp", field "tx-broadcasts"), ("tmp", field "tx-multicasts"), ("t64", field "tx-64"),
      ("t65", field "tx-65-127"), ("t128", field "tx-128-255"), ("t256", field "tx-256-511"),
      ("t512", field "tx-512-1023"), ("t1k", field "tx-1024-1518"),
      ("tmax", field "tx-1519-max"),
      ("rpp", field "rx-pause"), ("rte", field "rx-total-error"),
      ("rfcs", field "rx-fcs-error"), ("rae", field "rx-align-error"), ("rr", field "rx-runt"),
      ("fr", field "rx-fragment"), ("rtl", field "rx-too-long"), ("rov", field "rx-overflow"),
      ("tpp", field "tx-pause"), ("tte", field "tx-total-error"), ("tur", field "tx-underrun"),
      ("ttl", field "tx-too-long"), ("tcl", field "tx-collision"),
      ("tec", field "tx-excessive-collision"), ("tmc", field "tx-multiple-collision"),
      ("tsc", field "tx-single-collision"), ("ted", field "tx-excessive-deferred"),
      ("tdf", field "tx-deferred"), ("tlc", field "tx-late-collision")]),
    ("sys.b", [])]

structure Entry where
  path : String
  id : String
  desc : Desc

def entries : List Entry :=
  fields.flatMap fun (path, fields) => fields.map fun (id, desc) => ⟨path, id, desc⟩

abbrev Section := PyDict Str PyObject

def getItem (data : Section) (id : String) : Except Fault PyObject :=
  match data.get? id.toList with
  | some value => pure value
  | none => error (.keyError id.toList)

def raised {α : Type} : Except (PyDict.KeyError Str) α → Except Fault α :=
  Except.mapError fun e => .keyError e.key

def toInt : PyObject → Except Fault Int
  | .int n => pure n
  | _ => error .typeError

-- the bit of n & (1 << i)
def bit (n : Int) (i : ℕ) : ℕ := (n >>> i % 2).toNat

-- values[n]
def subscript (values : List Value) (n : Int) : Except Fault Value :=
  let i := if n < 0 then n + values.length else n
  if i < 0 then error .indexError
  else
    match values[i.toNat]? with
    | some value => pure value
    | none => error .indexError

def iterate : PyObject → Except Fault (List PyObject)
  | .list vs => pure vs
  | .bytes b => pure (b.map fun x => .int x.toNat)
  | .str s => pure (s.map fun c => .str [c])
  | .dict items => pure (items.map fun item => .str item.1)
  | _ => error .typeError

def enumValue (values : List Value) : PyObject → Except Fault Value
  | .int n => if n < values.length then subscript values n else pure (num n)
  | _ => error .typeError

def ports : ℕ := 6

-- a dict can be iterated but has no item 0
def formatKind (data : Section) (value : PyObject) : Kind → Except Fault (List Value)
  | .bool => do
    let n ← toInt value
    pure ((List.range ports).map fun i => .bool (bit n i = 1))
  | .enum values => do (← iterate value).mapM (enumValue values)
  | .dualBool second values => do
    let n2 ← toInt (← getItem data second)
    let n ← toInt value
    (List.range ports).mapM fun i => subscript values (2 * bit n2 i + bit n i)
  | .plain =>
    match value with
    | .dict _ => error (.keyError ['0'])
    | value => do pure ((← iterate value).map .obj)

def decode : Value → Except Fault Value
  | .obj (.bytes b) =>
    match b.toByteArray.utf8Decode? with
    | some chars => pure (.obj (.str chars.toList))
    | none => error .unicodeError
  | _ => error .attributeError

def decodeAll : List Value → Except Fault (List Value)
  | [] => error .indexError
  | .obj (.bytes b) :: values => (.obj (.bytes b) :: values).mapM decode
  | values => pure values

-- where an int, or the quotient of two, rounds to more than the greatest float
def Scale.overflows (n : Int) : Scale → Bool
  | .int d => (2 ^ 1024 - 2 ^ 970) * d ≤ n.natAbs
  | .float _ => 2 ^ 1024 - 2 ^ 970 ≤ n.natAbs

def quotient (scale : Scale) (n : Int) : Except Fault Value :=
  if scale.overflows n then error .overflowError else pure (.quotient n scale.value)

def divide (scale : Scale) : Value → Except Fault Value
  | .obj (.int n) => quotient scale n
  | .bool b => quotient scale b.toInt
  | _ => error .typeError

def format (data : Section) (id : String) (desc : Desc) : Except Fault (List Value) := do
  let value ← getItem data id
  let values ← decodeAll (← formatKind data value desc.kind)
  match desc.scale with
  | some scale => values.mapM (divide scale)
  | none => pure values

abbrev Dict := List (String × Value)

abbrev Interfaces := Fin ports → Dict

-- interfaces[i][name] = v
def assignAt (name : String) (interfaces : Interfaces) (v : Value × ℕ) : Except Fault Interfaces :=
  if h : v.2 < ports then
    pure (Function.update interfaces ⟨v.2, h⟩ (assign (interfaces ⟨v.2, h⟩) name v.1))
  else error .indexError

def assignAll (name : String) (interfaces : Interfaces) (values : List Value) :
    Except Fault Interfaces :=
  values.zipIdx.foldlM (assignAt name) interfaces

structure Points where
  tags : Interfaces
  fields : Interfaces

def present (data : String → Section) (e : Entry) : Bool := e.id.toList ∈ (data e.path).keys

def collect (data : String → Section) (points : Points) (e : Entry) : Except Fault Points :=
  if present data e then do
    let values ← format (data e.path) e.id e.desc
    if e.desc.tag then return { points with tags := ← assignAll e.desc.name points.tags values }
    else return { points with fields := ← assignAll e.desc.name points.fields values }
  else pure points

def truthy : Value → Bool
  | .bool b => b
  | .none => false
  | .quotient n _ => n ≠ 0
  | .obj (.int n) => n ≠ 0
  | .obj (.bytes b) => b ≠ []
  | .obj (.str s) => s ≠ []
  | .obj (.list vs) => !vs.isEmpty
  | .obj (.dict items) => !items.isEmpty
  | .obj (.results toks names) => !(toks.isEmpty && names.isEmpty)

def correct (i : Dict) : Except Fault Dict :=
  match i.lookup "auto-negotiation" with
  | none => error (.keyError "auto-negotiation".toList)
  | some value => pure (if truthy value then assign i "advertised-speed" (num 1000) else i)

def correctAll (fields : Interfaces) : Except Fault Interfaces :=
  (List.finRange ports).foldlM (fun fields i => do
    return Function.update fields i (← correct (fields i))) fields

def mergeItems : PyObject × PyObject → Except Fault PyObject
  | (.int v1, .int v2) => pure (.int (v1.lor ((if v2 = 0xffffffff then 0 else v2) * 2 ^ 32)))
  | _ => error .typeError

def mergedValue (low high : PyObject) : Except Fault PyObject := do
  let low ← iterate low
  let high ← iterate high
  return .list (← (low.zip high).mapM mergeItems)

def mergeKey (stats : Section) (k : Str) : Except Fault Section := do
  let low ← raised (stats.getItem k.dropLast)
  let high ← raised (stats.getItem k)
  raised ((stats.insert k.dropLast (← mergedValue low high)).delItem k)

-- order is the iteration order of keys_high
def merge64bit (order : List Str) (stats : Section) : Except Fault Section :=
  order.foldlM mergeKey stats

def paths : List String := fields.map Prod.fst

def mergeAll (order : String → List Str) (responses : String → Section) :
    Except Fault (String → Section) :=
  paths.foldlM (fun data path => do
    return Function.update data path (← merge64bit (order path) (data path))) responses

def getInterfaceMetrics (order : String → List Str) (responses : String → Section) :
    Except Fault Points := do
  let data ← mergeAll order responses
  let points ← entries.foldlM (collect data) ⟨fun _ => [], fun _ => []⟩
  return { points with fields := ← correctAll points.fields }

section Assign

variable {name : String} {interfaces interfaces' : Interfaces} {values : List Value}

def place (name : String) (d : Dict) : Option Value → Dict
  | some value => assign d name value
  | none => d

theorem assignAt_eq_ok {v : Value × ℕ} : assignAt name interfaces v = ok interfaces' ↔
    v.2 < ports ∧ interfaces' = fun i =>
      if i.1 = v.2 then assign (interfaces i) name v.1 else interfaces i := by
  rw [assignAt]
  by_cases h : v.2 < ports
  · rw [dif_pos h, pure_eq_ok, Except.ok.injEq, and_iff_right h, eq_comm]
    refine Eq.congr_right (funext fun i => ?_)
    by_cases hi : i.1 = v.2
    · obtain rfl : i = ⟨v.2, h⟩ := Fin.ext hi
      rw [Function.update_self, if_pos rfl]
    · rw [Function.update_of_ne fun heq => hi (congrArg Fin.val heq), if_neg hi]
  · simp [h]

theorem place_cons (d : Dict) (value : Value) (n i : ℕ) :
    place name (if i = n then assign d name value else d)
      (if n + 1 ≤ i then values[i - (n + 1)]? else none) =
        place name d (if n ≤ i then (value :: values)[i - n]? else none) := by
  rcases Nat.lt_trichotomy i n with hlt | rfl | hgt
  · rw [if_neg hlt.ne, if_neg (by omega), if_neg (by omega)]
  · rw [if_pos rfl, if_neg (by omega), if_pos le_rfl, Nat.sub_self]
    rfl
  · rw [if_neg hgt.ne', if_pos (Nat.succ_le_of_lt hgt), if_pos hgt.le,
      show i - n = (i - (n + 1)) + 1 by omega, List.getElem?_cons_succ]

theorem assignAll_from (n : ℕ) (hn : n ≤ ports) :
    (values.zipIdx n).foldlM (assignAt name) interfaces = ok interfaces' ↔
      n + values.length ≤ ports ∧ interfaces' = fun i =>
        place name (interfaces i) (if n ≤ i.1 then values[i.1 - n]? else none) := by
  induction values generalizing n interfaces with
  | nil => simp [place, eq_comm, hn]
  | cons value values ih =>
    rw [List.zipIdx_cons, List.foldlM_cons, bind_eq_ok]
    constructor
    · rintro ⟨next, hnext, hrest⟩
      obtain ⟨hlt, rfl⟩ := assignAt_eq_ok.mp hnext
      obtain ⟨hlength, rfl⟩ := (ih (n + 1) hlt).mp hrest
      exact ⟨by rw [List.length_cons]; omega, funext fun i => place_cons _ value n i⟩
    · rintro ⟨hlength, rfl⟩
      rw [List.length_cons] at hlength
      exact ⟨_, assignAt_eq_ok.mpr ⟨by dsimp only; omega, rfl⟩, (ih (n + 1) (by omega)).mpr
        ⟨by omega, funext fun i => (place_cons _ value n i).symm⟩⟩

theorem assignAll_eq_ok : assignAll name interfaces values = ok interfaces' ↔
    values.length ≤ ports ∧ interfaces' = fun i => place name (interfaces i) values[i.1]? := by
  rw [assignAll, assignAll_from 0 (Nat.zero_le _)]
  simp

end Assign

section Collect

variable (data : String → Section)

structure Reads (e : Entry) (values : List Value) : Prop where
  format : format (data e.path) e.id e.desc = ok values
  ports : values.length ≤ ports

def Readable (e : Entry) : Prop := present data e = true → ∃ values, Reads data e values

def cell (tag : Bool) (i : Fin ports) (e : Entry) : Option (String × Value) :=
  if present data e = true ∧ e.desc.tag = tag then
    match format (data e.path) e.id e.desc with
    | .ok values => values[i.1]?.map fun value => (e.desc.name, value)
    | .error _ => none
  else none

def add (d : Dict) : Option (String × Value) → Dict
  | some (name, value) => assign d name value
  | none => d

def addEntry (points : Points) (e : Entry) : Points where
  tags := fun i => add (points.tags i) (cell data true i e)
  fields := fun i => add (points.fields i) (cell data false i e)

variable {data} {e : Entry} {points points' : Points}

theorem add_map (d : Dict) (name : String) (value : Option Value) :
    add d (value.map fun value => (name, value)) = place name d value := by
  cases value <;> rfl

theorem cell_eq {values : List Value} (hpresent : present data e = true)
    (h : Reads data e values) (tag : Bool) (i : Fin ports) :
    cell data tag i e =
      if e.desc.tag = tag then values[i.1]?.map fun value => (e.desc.name, value) else none := by
  simp [cell, hpresent, h.format]

@[simp] theorem add_none (d : Dict) : add d none = d := rfl

theorem addEntry_tag {values : List Value} (hpresent : present data e = true)
    (h : Reads data e values) (htag : e.desc.tag = true) : addEntry data points e =
      { points with tags := fun i => place e.desc.name (points.tags i) values[i.1]? } := by
  simp [addEntry, cell_eq hpresent h, htag, add_map]

theorem addEntry_field {values : List Value} (hpresent : present data e = true)
    (h : Reads data e values) (htag : e.desc.tag = false) : addEntry data points e =
      { points with fields := fun i => place e.desc.name (points.fields i) values[i.1]? } := by
  simp [addEntry, cell_eq hpresent h, htag, add_map]

theorem addEntry_absent (h : present data e = false) : addEntry data points e = points := by
  simp [addEntry, cell, h]

theorem collect_present (h : present data e = true) : collect data points e = ok points' ↔
    ∃ values, Reads data e values ∧ points' = addEntry data points e := by
  rw [collect, if_pos h, bind_eq_ok]
  refine exists_congr fun values => ?_
  cases htag : e.desc.tag with
  | true =>
    simp only [if_true]
    constructor
    · rintro ⟨hformat, hassign⟩
      obtain ⟨tags, htags, heq⟩ := bind_eq_ok.mp hassign
      obtain ⟨hlength, rfl⟩ := assignAll_eq_ok.mp htags
      have hreads : Reads data e values := ⟨hformat, hlength⟩
      exact ⟨hreads, (Except.ok.inj heq).symm.trans (addEntry_tag h hreads htag).symm⟩
    · rintro ⟨hreads, rfl⟩
      rw [addEntry_tag h hreads htag, assignAll_eq_ok.mpr ⟨hreads.ports, rfl⟩]
      exact ⟨hreads.format, rfl⟩
  | false =>
    simp only [Bool.false_eq_true, if_false]
    constructor
    · rintro ⟨hformat, hassign⟩
      obtain ⟨fields, hfields, heq⟩ := bind_eq_ok.mp hassign
      obtain ⟨hlength, rfl⟩ := assignAll_eq_ok.mp hfields
      have hreads : Reads data e values := ⟨hformat, hlength⟩
      exact ⟨hreads, (Except.ok.inj heq).symm.trans (addEntry_field h hreads htag).symm⟩
    · rintro ⟨hreads, rfl⟩
      rw [addEntry_field h hreads htag, assignAll_eq_ok.mpr ⟨hreads.ports, rfl⟩]
      exact ⟨hreads.format, rfl⟩

theorem collect_eq_ok : collect data points e = ok points' ↔
    Readable data e ∧ points' = addEntry data points e := by
  cases h : present data e with
  | true =>
    rw [collect_present h, exists_and_right]
    simp [Readable, h]
  | false =>
    rw [collect, h, addEntry_absent h]
    simp [Readable, h, eq_comm]

theorem foldlM_collect (es : List Entry) : es.foldlM (collect data) points = ok points' ↔
    (∀ e ∈ es, Readable data e) ∧ points' = es.foldl (addEntry data) points := by
  induction es generalizing points with
  | nil => simp [eq_comm]
  | cons e es ih =>
    rw [List.foldlM_cons, bind_eq_ok, List.forall_mem_cons, List.foldl_cons]
    constructor
    · rintro ⟨next, hnext, hrest⟩
      obtain ⟨hreadable, rfl⟩ := collect_eq_ok.mp hnext
      obtain ⟨hall, rfl⟩ := ih.mp hrest
      exact ⟨⟨hreadable, hall⟩, rfl⟩
    · rintro ⟨⟨hreadable, hall⟩, rfl⟩
      exact ⟨_, collect_eq_ok.mpr ⟨hreadable, rfl⟩, ih.mpr ⟨hall, rfl⟩⟩

variable (data) in
def column (tag : Bool) (i : Fin ports) : Dict := entries.filterMap (cell data tag i)

theorem names_nodup : (entries.map fun e => e.desc.name).Nodup := by decide

theorem cell_fst {tag : Bool} {i : Fin ports} {x : String × Value}
    (h : cell data tag i e = some x) : x.1 = e.desc.name := by
  rw [cell] at h
  split at h
  case isFalse => cases h
  case isTrue =>
    split at h
    case h_2 => cases h
    case h_1 values _ =>
      obtain ⟨value, -, rfl⟩ := Option.map_eq_some_iff.mp h
      rfl

theorem filterMap_cell_sublist (tag : Bool) (i : Fin ports) (es : List Entry) :
    ((es.filterMap (cell data tag i)).map Prod.fst).Sublist (es.map fun e => e.desc.name) := by
  induction es with
  | nil => exact .slnil
  | cons e es ih =>
    cases h : cell data tag i e with
    | none => simpa [h] using ih.cons e.desc.name
    | some x => simpa [h, cell_fst h] using ih.cons_cons e.desc.name

theorem foldl_add (tag : Bool) (i : Fin ports) (es : List Entry) (d : Dict) :
    es.foldl (fun d e => add d (cell data tag i e)) d =
      (es.filterMap (cell data tag i)).foldl (fun d x => assign d x.1 x.2) d := by
  induction es generalizing d with
  | nil => rfl
  | cons e es ih =>
    rw [List.foldl_cons, ih]
    cases h : cell data tag i e with
    | none => simp [h]
    | some x => simp [h, add]

theorem foldl_add_column (tag : Bool) (i : Fin ports) :
    entries.foldl (fun d e => add d (cell data tag i e)) [] = column data tag i := by
  rw [foldl_add, foldl_assign_distinct]
  · rfl
  · exact names_nodup.sublist (filterMap_cell_sublist tag i entries)

theorem foldl_addEntry (es : List Entry) (points : Points) : es.foldl (addEntry data) points =
    ⟨fun i => es.foldl (fun d e => add d (cell data true i e)) (points.tags i),
      fun i => es.foldl (fun d e => add d (cell data false i e)) (points.fields i)⟩ := by
  induction es generalizing points with
  | nil => rfl
  | cons e es ih => exact ih (addEntry data points e)

theorem entries_eq_ok : entries.foldlM (collect data) ⟨fun _ => [], fun _ => []⟩ = ok points ↔
    (∀ e ∈ entries, Readable data e) ∧ points = ⟨column data true, column data false⟩ := by
  rw [foldlM_collect, foldl_addEntry]
  simp only [foldl_add_column]

end Collect

section Correct

def corrected (i : Dict) : Dict :=
  if (i.lookup "auto-negotiation").any truthy then assign i "advertised-speed" (num 1000) else i

theorem correct_eq_ok {d d' : Dict} :
    correct d = ok d' ↔ (d.lookup "auto-negotiation").isSome ∧ d' = corrected d := by
  rw [correct, corrected]
  cases d.lookup "auto-negotiation" with
  | none => exact ⟨nofun, nofun⟩
  | some value =>
    change ok (if truthy value then assign d "advertised-speed" (num 1000) else d) = ok d' ↔ _
    rw [Except.ok.injEq, eq_comm]
    exact (and_iff_right rfl).symm

theorem correctAll_eq_ok {fields fields' : Interfaces} : correctAll fields = ok fields' ↔
    ∀ i, correct (fields i) = ok (fields' i) := by
  rw [correctAll, foldlM_update (f := fun _ => correct) (List.nodup_finRange ports)]
  simp

end Correct

section Negotiation

variable {data : String → Section} {e : Entry}

theorem decodeAll_bools (b : ℕ → Bool) :
    decodeAll ((List.range ports).map fun i => .bool (b i)) =
      ok ((List.range ports).map fun i => .bool (b i)) := rfl

theorem reads_bool {values : List Value} (h : Reads data e values) (hkind : e.desc.kind = .bool)
    (hscale : e.desc.scale = none) : values.length = ports := by
  have hformat := h.format
  rw [format] at hformat
  obtain ⟨value, -, hrest⟩ := bind_eq_ok.mp hformat
  obtain ⟨kinds, hkinds, hrest⟩ := bind_eq_ok.mp hrest
  obtain ⟨decoded, hdecoded, hrest⟩ := bind_eq_ok.mp hrest
  rw [hkind] at hkinds
  obtain ⟨n, -, hbools⟩ := bind_eq_ok.mp hkinds
  obtain rfl := Except.ok.inj hbools
  rw [decodeAll_bools] at hdecoded
  obtain rfl := Except.ok.inj hdecoded
  rw [hscale] at hrest
  obtain rfl := Except.ok.inj hrest
  rw [List.length_map, List.length_range]

def an : Entry := ⟨"link.b", "an", boolField "auto-negotiation"⟩

theorem an_mem : an ∈ entries := List.mem_of_getElem? (i := 3) rfl

theorem eq_an : ∀ e ∈ entries, e.desc.name = "auto-negotiation" → e.path = "link.b" ∧ e.id = "an" :=
  by decide

theorem negotiation_iff (hreadable : ∀ e ∈ entries, Readable data e) (i : Fin ports) :
    ((column data false i).lookup "auto-negotiation").isSome ↔ present data an = true := by
  rw [List.lookup_isSome_iff]
  constructor
  · rintro ⟨x, hx, hname⟩
    obtain ⟨e, he, hcell⟩ := List.mem_filterMap.mp hx
    have hfst := cell_fst hcell
    obtain ⟨hpath, hid⟩ := eq_an e he (hfst.symm.trans (eq_of_beq hname).symm)
    rw [cell] at hcell
    split at hcell
    case isFalse => cases hcell
    case isTrue h =>
      have hpresent := h.1
      rw [present, hpath, hid] at hpresent
      exact hpresent
  · intro hpresent
    obtain ⟨values, hreads⟩ := hreadable an an_mem hpresent
    have hlt : i.1 < values.length := (reads_bool hreads rfl rfl).symm ▸ i.2
    refine ⟨("auto-negotiation", values[i.1]), List.mem_filterMap.mpr ⟨an, an_mem, ?_⟩,
      beq_self_eq_true _⟩
    rw [cell_eq hpresent hreads, if_pos (show an.desc.tag = false from rfl),
      List.getElem?_eq_getElem hlt]
    rfl

end Negotiation

section Metrics

variable {order : String → List Str} {responses data : String → Section} {points : Points}

structure Merges (order : String → List Str) (responses data : String → Section) : Prop where
  merged : ∀ path ∈ paths, merge64bit (order path) (responses path) = ok (data path)
  other : ∀ path ∉ paths, data path = responses path

theorem mergeAll_eq_ok : mergeAll order responses = ok data ↔ Merges order responses data := by
  have hnodup : paths.Nodup := by decide
  rw [mergeAll, foldlM_update (f := fun path => merge64bit (order path)) hnodup]
  exact ⟨fun ⟨hmerged, hother⟩ => ⟨hmerged, hother⟩, fun h => ⟨h.merged, h.other⟩⟩

theorem getInterfaceMetrics_ok (hmerges : Merges order responses data)
    (hreadable : ∀ e ∈ entries, Readable data e) (hpresent : present data an = true) :
    getInterfaceMetrics order responses =
      ok ⟨column data true, fun i => corrected (column data false i)⟩ := by
  rw [getInterfaceMetrics, mergeAll_eq_ok.mpr hmerges, ok_bind,
    entries_eq_ok.mpr ⟨hreadable, rfl⟩, ok_bind, correctAll_eq_ok.mpr fun i =>
      correct_eq_ok.mpr ⟨(negotiation_iff hreadable i).mpr hpresent, rfl⟩]
  rfl

theorem of_getInterfaceMetrics (h : getInterfaceMetrics order responses = ok points) :
    ∃ data, Merges order responses data ∧ (∀ e ∈ entries, Readable data e) ∧
      present data an = true ∧
      points = ⟨column data true, fun i => corrected (column data false i)⟩ := by
  obtain ⟨data, hdata, hrest⟩ := bind_eq_ok.mp h
  obtain ⟨first, hfirst, hrest⟩ := bind_eq_ok.mp hrest
  obtain ⟨hreadable, rfl⟩ := entries_eq_ok.mp hfirst
  obtain ⟨fields, hfields, heq⟩ := bind_eq_ok.mp hrest
  have hcorrect := correctAll_eq_ok.mp hfields
  refine ⟨data, mergeAll_eq_ok.mp hdata, hreadable, ?_, (Except.ok.inj heq).symm.trans ?_⟩
  · have hfirst : 0 < ports := by decide
    exact (negotiation_iff hreadable ⟨0, hfirst⟩).mp (correct_eq_ok.mp (hcorrect ⟨0, hfirst⟩)).1
  · exact congrArg (Points.mk _) (funext fun i => (correct_eq_ok.mp (hcorrect i)).2)

end Metrics

section Merged

open Counters hiding mergeKey merge64bit

variable {data : String → Section} {e : Entry} {stats merged : Stats}

def numbers (ns : List ℕ) : PyObject := .list (ns.map fun n : ℕ => .int n)

def toSection (stats : Stats) : Section := stats.map numbers

theorem get?_toSection (stats : Stats) (k : Str) :
    (toSection stats).get? k = (stats.get? k).map numbers :=
  PyDict.get?_map numbers stats k

theorem mergeItems_numbers (low high : ℕ) : mergeItems (.int low, .int high) =
    ok (.int ((low ||| (if high = 0xffffffff then 0 else high) <<< 32 : ℕ) : ℤ)) := by
  have hshift : (if (high : ℤ) = 0xffffffff then 0 else (high : ℤ)) * (2 : ℤ) ^ 32 =
      (((if high = 0xffffffff then 0 else high) <<< 32 : ℕ) : ℤ) := by
    rw [Nat.shiftLeft_eq]
    by_cases h : high = 0xffffffff
    · subst h
      rfl
    · rw [if_neg h, if_neg (by exact_mod_cast h)]
      push_cast
      rfl
  rw [mergeItems, hshift]
  rfl

theorem mergedValue_numbers (low high : List ℕ) :
    mergedValue (numbers low) (numbers high) = ok (numbers (Counters.merged low high)) := by
  have hitems : ((low.map fun n : ℕ => PyObject.int n).zip
      (high.map fun n : ℕ => PyObject.int n)).mapM mergeItems =
        ok ((Counters.merged low high).map fun n : ℕ => PyObject.int n) := by
    induction low generalizing high with
    | nil => rfl
    | cons l low ih =>
      cases high with
      | nil => rfl
      | cons h high =>
        rw [List.map_cons, List.map_cons, List.zip_cons_cons, List.mapM_cons, mergeItems_numbers,
          ok_bind, ih, ok_bind]
        rfl
  rw [mergedValue, numbers, numbers, iterate, iterate, pure_eq_ok, ok_bind, pure_eq_ok, ok_bind,
    hitems]
  rfl

theorem mergeKey_toSection (d : Stats) (k : Str) :
    mergeKey (toSection d) k = raised ((Counters.mergeKey d k).map toSection) := by
  rw [mergeKey, Counters.mergeKey, toSection, PyDict.getItem_map, PyDict.getItem_map]
  cases d.getItem k.dropLast with
  | error e => rfl
  | ok low =>
    cases d.getItem k with
    | error e => rfl
    | ok high =>
      simp only [Except.map, raised, Except.mapError, ok_bind, mergedValue_numbers]
      rw [← PyDict.map_insert, PyDict.delItem_map]
      rfl

theorem merge64bit_toSection (order : List Str) (d : Stats) :
    merge64bit order (toSection d) = raised ((Counters.merge64bit order d).map toSection) := by
  induction order generalizing d with
  | nil => rfl
  | cons k order ih =>
    rw [merge64bit, Counters.merge64bit, List.foldlM_cons, List.foldlM_cons, mergeKey_toSection]
    cases Counters.mergeKey d k with
    | error e => rfl
    | ok d' => exact ih d'

theorem present_toSection (hdata : data e.path = toSection stats) :
    present data e = true ↔ (stats.get? e.id.toList).isSome := by
  rw [present, decide_eq_true_iff, hdata, PyDict.mem_keys, get?_toSection, Option.isSome_map]

theorem format_numbers (hdata : data e.path = toSection stats) (hkind : e.desc.kind = .plain)
    (hscale : e.desc.scale = none) {n : ℕ} {ns : List ℕ}
    (hget : stats.get? e.id.toList = some (n :: ns)) :
    format (data e.path) e.id e.desc = ok ((n :: ns).map fun n : ℕ => num n) := by
  have hitem : getItem (data e.path) e.id = ok (.list ((n :: ns).map fun n : ℕ => .int n)) := by
    rw [getItem, hdata, get?_toSection, hget]
    rfl
  rw [format, hitem, ok_bind, hkind, hscale]
  simp only [formatKind, iterate, pure_eq_ok, ok_bind, List.map_map]
  rfl

theorem stats_names : ∀ e ∈ entries, e.path = "!stats.b" →
    e.desc.tag = false ∧ e.desc.name ≠ "advertised-speed" := by decide

theorem lookup_corrected (d : Dict) {name : String} (h : name ≠ "advertised-speed") :
    (corrected d).lookup name = d.lookup name := by
  rw [corrected]
  split
  · exact lookup_assign_of_ne d _ h
  · rfl

theorem lookup_column {tag : Bool} {i : Fin ports} {value : Value} (he : e ∈ entries)
    (hcell : cell data tag i e = some (e.desc.name, value)) :
    (column data tag i).lookup e.desc.name = some value :=
  lookup_of_mem (names_nodup.sublist (filterMap_cell_sublist tag i entries))
    (List.mem_filterMap.mpr ⟨e, he, hcell⟩)

theorem merged_eq_ok {order : List Str} {merged : Section} (hfree : ¬Chained stats)
    (horder : order.Perm (keysHigh stats))
    (hmerge : merge64bit order (toSection stats) = ok merged) :
    ∃ result, merged = toSection result ∧ ∀ {k low high}, stats.get? k = some low →
      stats.get? (k ++ ['h']) = some high → result.get? k = some (Counters.merged low high) := by
  have hnodup : ([] ++ order).Nodup := horder.nodup_iff.mpr (stats.distinct.filter _)
  obtain ⟨result, hresult, hentries⟩ := merge64bit_ok hfree hnodup
    (fun x hx => horder.mem_iff.mp hx) (d := stats) (fun x => by simp)
  rw [merge64bit_toSection, hresult] at hmerge
  refine ⟨result, (Except.ok.inj hmerge).symm, fun {k low high} hlow hhigh => ?_⟩
  have hkeys : k ∈ stats.keys := PyDict.mem_keys.mpr (Option.isSome_iff_exists.mpr ⟨low, hlow⟩)
  have hmem : k ++ ['h'] ∈ keysHigh stats := mem_keysHigh.mpr
    ⟨k, hkeys, rfl, PyDict.mem_keys.mpr (Option.isSome_iff_exists.mpr ⟨high, hhigh⟩)⟩
  rw [hentries, if_pos (.inr (horder.mem_iff.mpr hmem)), mergedEntry,
    if_neg (notMem_keysHigh_of_low hfree hmem), hlow, hhigh]

theorem getElem?_merged {low high : List ℕ} {i l h : ℕ} (hl : low[i]? = some l)
    (hh : high[i]? = some h) (hlt : l < 2 ^ 32) : (Counters.merged low high)[i]? =
      some (l + (if h = 2 ^ 32 - 1 then 0 else h) * 2 ^ 32) := by
  rw [Counters.merged, List.getElem?_zipWith, hl, hh]
  refine congrArg some ?_
  rw [Nat.or_comm, ← Nat.shiftLeft_add_eq_or_of_lt hlt, Nat.shiftLeft_eq, Nat.add_comm]
  norm_num

theorem counter_reported {order : String → List Str} {responses : String → Section}
    (hfree : ¬Chained stats) (horder : (order "!stats.b").Perm (keysHigh stats))
    (hresponse : responses "!stats.b" = toSection stats) {points : Points}
    (hpoints : getInterfaceMetrics order responses = ok points) (he : e ∈ entries)
    (hpath : e.path = "!stats.b") (hkind : e.desc.kind = .plain) (hscale : e.desc.scale = none)
    {low high : List ℕ} (hlow : stats.get? e.id.toList = some low)
    (hhigh : stats.get? (e.id.toList ++ ['h']) = some high) {i : Fin ports} {l h : ℕ}
    (hl : low[i.1]? = some l) (hh : high[i.1]? = some h) (hlt : l < 2 ^ 32) :
    (points.fields i).lookup e.desc.name =
      some (num (l + (if h = 2 ^ 32 - 1 then 0 else h) * 2 ^ 32 : ℕ)) := by
  obtain ⟨data, hmerges, hreadable, -, rfl⟩ := of_getInterfaceMetrics hpoints
  have hmerge := hmerges.merged "!stats.b" (by decide)
  rw [hresponse] at hmerge
  obtain ⟨result, hdata, hentries⟩ := merged_eq_ok hfree horder hmerge
  have hget := hentries hlow hhigh
  have hitem := getElem?_merged hl hh hlt
  obtain ⟨n, ns, hns⟩ : ∃ n ns, Counters.merged low high = n :: ns :=
    List.exists_cons_of_ne_nil fun hnil => by simp [hnil] at hitem
  rw [hns] at hget hitem
  have hsection : data e.path = toSection result := hpath ▸ hdata
  have hpresent : present data e = true := (present_toSection hsection).mpr (by rw [hget]; rfl)
  obtain ⟨values, hreads⟩ := hreadable e he hpresent
  have hvalues : values = (n :: ns).map fun n : ℕ => num n :=
    Except.ok.inj (hreads.format.symm.trans (format_numbers hsection hkind hscale hget))
  obtain ⟨htag, hname⟩ := stats_names e he hpath
  rw [lookup_corrected _ hname, lookup_column he]
  rw [cell_eq hpresent hreads, if_pos htag, hvalues, List.getElem?_map, hitem]
  rfl

theorem format_int {n : ℤ} {id : String} {desc : Desc} {data : Section}
    (hget : data.get? id.toList = some (.int n)) (hkind : desc.kind = .bool)
    (hscale : desc.scale = none) :
    format data id desc = ok ((List.range ports).map fun i => .bool (bit n i = 1)) := by
  have hitem : getItem data id = ok (.int n) := by
    rw [getItem, hget]
    rfl
  rw [format, hitem, ok_bind, hkind, hscale]
  rfl

def received : Stats where
  items := [(['r', 'b'], [5, 7]), (['r', 'b', 'h'], [1, 0xffffffff])]
  distinct := by decide

def receivedMerged : Stats where
  items := [(['r', 'b'], [4294967301, 7])]
  distinct := by decide

def negotiated : Section := ⟨[(['a', 'n'], .int 63)], by decide⟩

def switch (stats : Stats) (path : String) : Section :=
  if path = "link.b" then negotiated
  else if path = "!stats.b" then toSection stats
  else .empty

def halves (path : String) : List Str := if path = "!stats.b" then [['r', 'b', 'h']] else []

theorem switch_merges : Merges halves (switch received) (switch receivedMerged) where
  merged path hpath := by
    simp only [halves, switch]
    split_ifs
    · rename_i h h'
      exact absurd (h.symm.trans h') (by decide)
    · rfl
    · rfl
    · rfl
  other path hpath := by
    have hstats : path ≠ "!stats.b" := by
      rintro rfl
      exact hpath (by decide)
    simp only [switch, hstats, if_false]

def unscaled (desc : Desc) : Bool :=
  match desc.scale with
  | none => true
  | some _ => false

def Kind.isBool : Kind → Bool
  | .bool => true
  | _ => false

def Kind.isPlain : Kind → Bool
  | .plain => true
  | _ => false

theorem an_desc : ∀ e ∈ entries, e.id = "an" → e.desc.kind.isBool ∧ unscaled e.desc := by decide

theorem rb_desc : ∀ e ∈ entries, e.id = "rb" → e.desc.kind.isPlain ∧ unscaled e.desc := by decide

theorem scale_eq_none {desc : Desc} (h : unscaled desc = true) : desc.scale = none := by
  rw [unscaled] at h
  split at h
  · assumption
  · cases h

theorem switch_readable : ∀ e ∈ entries, Readable (switch receivedMerged) e := by
  intro e he hpresent
  rw [present, decide_eq_true_iff, switch] at hpresent
  split at hpresent
  case isTrue hpath =>
    have hid : e.id = "an" := String.toList_inj.mp (List.mem_singleton.mp hpresent)
    obtain ⟨hkind, hscale⟩ := an_desc e he hid
    refine ⟨_, format_int (n := 63) ?_ ?_ (scale_eq_none hscale), le_of_eq ?_⟩
    · rw [switch, if_pos hpath, hid]
      rfl
    · cases hk : e.desc.kind <;> simp_all [Kind.isBool]
    · rw [List.length_map, List.length_range]
  case isFalse hlink =>
    split at hpresent
    case isTrue hpath =>
      have hid : e.id = "rb" := String.toList_inj.mp (List.mem_singleton.mp hpresent)
      obtain ⟨hkind, hscale⟩ := rb_desc e he hid
      have hsection : switch receivedMerged e.path = toSection receivedMerged := by
        rw [switch, if_neg hlink, if_pos hpath]
      refine ⟨_, @format_numbers _ _ _ hsection ?_ (scale_eq_none hscale) 4294967301 [7] ?_, ?_⟩
      · cases hk : e.desc.kind <;> simp_all [Kind.isPlain]
      · rw [hid]
        rfl
      · decide
    case isFalse => cases hpresent

def rb : Entry := ⟨"!stats.b", "rb", field "rx-bytes"⟩

theorem received_not_chained : ¬Chained received := by
  rintro ⟨k, hk, -, hhigh⟩
  simp only [PyDict.keys, received, List.map_cons, List.map_nil, List.mem_cons,
    List.not_mem_nil, or_false] at hk hhigh
  rcases hk with rfl | rfl <;> simp at hhigh

theorem counter_reported_rb : ∃ points : Points,
    (points.fields ⟨0, by decide⟩).lookup "rx-bytes" =
      some (num (5 + (if 1 = 2 ^ 32 - 1 then 0 else 1) * 2 ^ 32 : ℕ)) :=
  ⟨_, @counter_reported rb received halves (switch received) received_not_chained (by decide) rfl
    _ (getInterfaceMetrics_ok switch_merges switch_readable (by decide))
    (List.mem_of_getElem? (i := 29) rfl) rfl rfl rfl [5, 7] [1, 0xffffffff] rfl rfl
    ⟨0, by decide⟩ 5 1 rfl rfl (by decide)⟩

end Merged

end Isz.Mikrotik.Ports
