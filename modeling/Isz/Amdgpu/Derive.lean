import Isz.Amdgpu.Finite
import Isz.Library.Text

namespace Isz.Amdgpu.Derive

-- ident is none for a path that is no single identifier
inductive FieldType where
  | path (ident : Option String)
  | array (len : Nat)
  | other
  deriving DecidableEq

structure FieldDecl where
  name : String
  type : FieldType
  deriving DecidableEq

-- Rust's str::parse::<usize>
def parseUsize (s : Str) : Option Nat :=
  let digits := if s.head? = some '+' then s.tail else s
  if digits = [] ∨ digits.any fun c => !c.isDigit then none
  else
    let n := Nat.ofDigitChars 10 digits 0
    if n < 2 ^ 64 then some n else none

def parseName (ident : String) : Option (Nat × Nat) :=
  match ident.toList.splitOn '_' with
  | [gpu, metrics, vFormatRevision, contentRevision] =>
    if gpu = "gpu".toList ∧ metrics = "metrics".toList then do
      let formatRevision ← parseUsize (vFormatRevision.dropWhile (· = 'v'))
      let contentRevision ← parseUsize contentRevision
      pure (formatRevision, contentRevision)
    else none
  | _ => none

-- the generated code reads system_clock_counter as a u64, which is no array
structure MetricsStruct where
  ident : String
  accepted : (parseName ident).isSome
  fields : List FieldDecl
  distinct : (fields.map FieldDecl.name).Nodup
  clock : ∃ ident, ⟨"system_clock_counter", .path ident⟩ ∈ fields

def divRoundEven (n k : Nat) : Nat :=
  let q := n / 2 ^ k
  let r := n % 2 ^ k
  if 2 ^ k < 2 * r ∨ 2 * r = 2 ^ k ∧ q % 2 = 1 then q + 1 else q

def signOf (x : Int) : Int := if x < 0 then -1 else 1

theorem signOf_unit (x : Int) : signOf x = 1 ∨ signOf x = -1 := by
  rw [signOf]
  split
  · exact .inr rfl
  · exact .inl rfl

-- `as f64` of an integer rounds to the nearest, ties to even
def ofInteger (x : Int) (h : x.natAbs < 2 ^ 128) : F64 :=
  let shift := x.natAbs.log2 + 1 - 53
  have hshift : shift ≤ 75 := by
    rcases Nat.eq_zero_or_pos x.natAbs with hzero | hpos
    · simp [shift, hzero]
    · have := (Nat.log2_lt hpos.ne').mpr h
      omega
  if hlt : divRoundEven x.natAbs shift < 2 ^ 53 then
    ⟨divRoundEven x.natAbs shift, shift, signOf x, hlt, by omega, by omega, signOf_unit x⟩
  else ⟨2 ^ 52, shift + 1, signOf x, by decide, by omega, by omega, signOf_unit x⟩

inductive Element where
  | integer (x : Int) (h : x.natAbs < 2 ^ 128)
  | float (x : F64)

def Element.asF64 : Element → F64
  | integer x h => ofInteger x h
  | float x => x

structure Metrics where
  systemClockCounter : Nat
  clock_lt : systemClockCounter < 2 ^ 64
  element : String → Nat → Element

abbrev Histogram := ExponentialHistogram 20

def histograms (f : FieldDecl) : Option Nat :=
  if f.name = "padding" ∨ f.name = "system_clock_counter" then none
  else
    match f.type with
    | .path (some i) => if i = "u16" ∨ i = "u32" ∨ i = "u64" then some 1 else none
    | .array len => some len
    | .path none | .other => none

def recorded (s : MetricsStruct) : List (FieldDecl × Nat) :=
  s.fields.filterMap fun f => (histograms f).map fun n => (f, n)

structure Recorder where
  lastSystemClockCounter : Option Nat
  fields : List (FieldDecl × List Histogram)

def default (s : MetricsStruct) : Recorder where
  lastSystemClockCounter := none
  fields := (recorded s).map fun (f, n) => (f, List.replicate n .default)

def recordField (depth : Nat) (m : Metrics) (delta : Nat) (f : FieldDecl) (hs : List Histogram) :
    Except Fault (List Histogram) :=
  hs.zipIdx.mapM fun (h, i) => h.recordWeighted depth (m.element f.name i).asF64 delta

def Recorder.record (depth : Nat) (self : Recorder) (m : Metrics) : Except Fault Recorder :=
  match self.lastSystemClockCounter with
  | none => .ok { self with lastSystemClockCounter := some m.systemClockCounter }
  | some last => do
    let delta ← if last ≤ m.systemClockCounter then .ok (m.systemClockCounter - last)
      else .error .overflow
    let fields ← self.fields.mapM fun (f, hs) => do
      let hs ← recordField depth m delta f hs
      pure (f, hs)
    pure ⟨some m.systemClockCounter, fields⟩

def recordSamples (depth : Nat) (s : MetricsStruct) (samples : List Metrics) :
    Except Fault Recorder :=
  samples.foldlM (fun r m => r.record depth m) (default s)

-- record_weighted(value in sample k, c_k - c_(k-1)) from the second sample on
def calls (f : FieldDecl) (i : Nat) (samples : List Metrics) : List Call :=
  (samples.zip samples.tail).map fun (m, m') =>
    ⟨(m'.element f.name i).asF64, m'.systemClockCounter - m.systemClockCounter⟩

def Measured (f : FieldDecl) (n : Nat) : Prop :=
  f.name ≠ "padding" ∧
    (f.type = .array n ∨
      f.name ≠ "system_clock_counter" ∧ n = 1 ∧
        (f.type = .path (some "u16") ∨ f.type = .path (some "u32") ∨ f.type = .path (some "u64")))

theorem MetricsStruct.clock_not_array (s : MetricsStruct) {f : FieldDecl} (hf : f ∈ s.fields)
    {n : Nat} (harray : f.type = .array n) : f.name ≠ "system_clock_counter" := by
  intro hname
  obtain ⟨ident, hclock⟩ := s.clock
  have heq : f = ⟨"system_clock_counter", .path ident⟩ :=
    List.inj_on_of_nodup_map s.distinct hf hclock hname
  rw [heq] at harray
  cases harray

theorem histograms_of_measured (s : MetricsStruct) {f : FieldDecl} (hf : f ∈ s.fields) {n : Nat}
    (hmeasured : Measured f n) : histograms f = some n := by
  obtain ⟨hpadding, harray | ⟨hclock, rfl, htype⟩⟩ := hmeasured
  · simp [histograms, hpadding, s.clock_not_array hf harray, harray]
  · rcases htype with htype | htype | htype <;> simp [histograms, hpadding, hclock, htype]

theorem mem_recorded (s : MetricsStruct) {f : FieldDecl} (hf : f ∈ s.fields) {n : Nat}
    (hmeasured : Measured f n) : (f, n) ∈ recorded s :=
  List.mem_filterMap.mpr ⟨f, hf, by rw [histograms_of_measured s hf hmeasured]; rfl⟩

section Runs

variable (s : MetricsStruct) (f : FieldDecl) (i : Nat) (first : Metrics)

def NonDecreasing (samples : List Metrics) : Prop :=
  samples.Pairwise fun m m' => m.systemClockCounter ≤ m'.systemClockCounter

def last (samples : List Metrics) : Metrics :=
  (first :: samples).getLast (List.cons_ne_nil first samples)

theorem last_concat (samples : List Metrics) (m : Metrics) : last first (samples ++ [m]) = m := by
  simp [last]

theorem last_mem (samples : List Metrics) : last first samples ∈ first :: samples :=
  List.getLast_mem _

theorem calls_concat (samples : List Metrics) (m : Metrics) :
    calls f i (first :: (samples ++ [m])) = calls f i (first :: samples) ++
      [⟨(m.element f.name i).asF64,
        m.systemClockCounter - (last first samples).systemClockCounter⟩] := by
  induction samples generalizing first with
  | nil => rfl
  | cons m' samples ih =>
    have hcons : ∀ l : List Metrics, calls f i (first :: m' :: l) =
        ⟨(m'.element f.name i).asF64, m'.systemClockCounter - first.systemClockCounter⟩ ::
          calls f i (m' :: l) := fun l => rfl
    rw [List.cons_append, hcons, hcons, ih, List.cons_append]
    rfl

theorem nonDecreasing_concat {samples : List Metrics} {m : Metrics}
    (hclock : NonDecreasing (first :: (samples ++ [m]))) :
    NonDecreasing (first :: samples) ∧
      (last first samples).systemClockCounter ≤ m.systemClockCounter := by
  rw [NonDecreasing, ← List.cons_append, List.pairwise_append] at hclock
  obtain ⟨hbefore, -, hle⟩ := hclock
  exact ⟨hbefore, hle _ (last_mem first samples) m (List.mem_singleton_self m)⟩

theorem totalWeight_calls {samples : List Metrics} (hclock : NonDecreasing (first :: samples)) :
    totalWeight (calls f i (first :: samples)) + first.systemClockCounter =
      (last first samples).systemClockCounter := by
  induction samples using List.reverseRecOn with
  | nil => exact Nat.zero_add _
  | append_singleton samples m ih =>
    obtain ⟨hbefore, hle⟩ := nonDecreasing_concat first hclock
    have := ih hbefore
    rw [calls_concat, totalWeight_concat, last_concat]
    dsimp only
    omega

theorem zipIdx_map_range (n : Nat) (g : Nat → Histogram) :
    ((List.range n).map g).zipIdx = (List.range n).map fun i => (g i, i) := by
  apply List.ext_getElem <;> simp

theorem recordField_ok {depth delta n : Nat} {m : Metrics} {g h : Nat → Histogram}
    (hstep : ∀ i, (g i).recordWeighted depth (m.element f.name i).asF64 delta = .ok (h i)) :
    recordField depth m delta f ((List.range n).map g) = .ok ((List.range n).map h) := by
  rw [recordField, zipIdx_map_range, Except.mapM_ok (g := fun x => h x.2), List.map_map]
  · rfl
  · intro x hx
    obtain ⟨i, -, rfl⟩ := List.mem_map.mp hx
    exact hstep i

def Recorder.holding (clock : Nat) (hist : FieldDecl → Nat → Histogram) : Recorder where
  lastSystemClockCounter := some clock
  fields := (recorded s).map fun (f, n) => (f, (List.range n).map (hist f))

theorem record_first (depth : Nat) :
    (default s).record depth first =
      .ok (.holding s first.systemClockCounter fun _ _ => .default) := by
  simp [Recorder.record, default, Recorder.holding]

theorem record_next {samples : List Metrics} {m : Metrics}
    (hle : (last first samples).systemClockCounter ≤ m.systemClockCounter) {depth : Nat}
    {hist hist' : FieldDecl → Nat → Histogram}
    (hbefore : ∀ f i, recordAll depth (calls f i (first :: samples)) = .ok (hist f i))
    (hafter : ∀ f i, recordAll depth (calls f i (first :: (samples ++ [m]))) = .ok (hist' f i)) :
    (Recorder.holding s (last first samples).systemClockCounter hist).record depth m =
      .ok (.holding s m.systemClockCounter hist') := by
  have hstep : ∀ f i, (hist f i).recordWeighted depth (m.element f.name i).asF64
      (m.systemClockCounter - (last first samples).systemClockCounter) = .ok (hist' f i) := by
    intro f i
    have h := hafter f i
    rwa [calls_concat, recordAll_concat, hbefore, Except.ok_bind] at h
  rw [Recorder.record, Recorder.holding]
  dsimp only
  rw [if_pos hle, Except.ok_bind,
    Except.mapM_ok (g := fun x => (x.1, (List.range x.2.length).map (hist' x.1)))]
  · simp [Recorder.holding]
  · intro x hx
    obtain ⟨⟨f, n⟩, -, rfl⟩ := List.mem_map.mp hx
    dsimp only
    rw [recordField_ok f (hstep f), Except.ok_bind, List.length_map, List.length_range]
    rfl

theorem recordSamples_concat (depth : Nat) (samples : List Metrics) (m : Metrics) :
    recordSamples depth s (samples ++ [m]) =
      recordSamples depth s samples >>= fun r => r.record depth m := by
  simp only [recordSamples, List.foldlM_append, List.foldlM_cons, List.foldlM_nil, bind_pure]

theorem recordSamples_holding {samples : List Metrics} (hclock : NonDecreasing (first :: samples))
    {depth : Nat} {hist : List Metrics → FieldDecl → Nat → Histogram}
    (hhist : ∀ before, NonDecreasing (first :: before) →
      ∀ f i, recordAll depth (calls f i (first :: before)) = .ok (hist before f i)) :
    recordSamples depth s (first :: samples) =
      .ok (.holding s (last first samples).systemClockCounter (hist samples)) := by
  induction samples using List.reverseRecOn with
  | nil =>
    have hnil : hist [] = fun _ _ => .default := by
      funext f i
      exact (Except.ok.inj (hhist [] hclock f i)).symm
    rw [hnil]
    exact record_first s first depth
  | append_singleton samples m ih =>
    obtain ⟨hbefore, hle⟩ := nonDecreasing_concat first hclock
    rw [← List.cons_append, recordSamples_concat, ih hbefore, Except.ok_bind,
      record_next s first hle (hhist samples hbefore) (hhist _ hclock), last_concat]

theorem exists_recordAll {samples : List Metrics} (hclock : NonDecreasing (first :: samples)) :
    ∃ h : Histogram,
      h.count = (last first samples).systemClockCounter - first.systemClockCounter ∧
        ∀ depth, 32 ≤ depth → recordAll depth (calls f i (first :: samples)) = .ok h := by
  have htotal := totalWeight_calls f i first hclock
  have hlt := (last first samples).clock_lt
  obtain ⟨h, hheld, hrun⟩ : ∃ h : Histogram, Held _ h ∧ _ :=
    recordAll_held (by decide) (calls f i (first :: samples)) (by omega)
  exact ⟨h, by rw [hheld.count]; omega, hrun⟩

end Runs

theorem recorder_in_step (s : MetricsStruct) (first : Metrics) (samples : List Metrics)
    (hclock : NonDecreasing (first :: samples)) :
    ∃ r : Recorder, (∀ depth, 32 ≤ depth → recordSamples depth s (first :: samples) = .ok r) ∧
      ∀ f ∈ s.fields, ∀ n, Measured f n → ∃ hs, (f, hs) ∈ r.fields ∧ hs.length = n ∧
        ∀ i (hi : i < hs.length),
          (∀ depth, 32 ≤ depth → recordAll depth (calls f i (first :: samples)) = .ok hs[i]) ∧
            hs[i].count =
              (last first samples).systemClockCounter - first.systemClockCounter := by
  have hne : Nonempty Histogram := ⟨.default⟩
  choose! hist hcount hrun using fun before f i (h : NonDecreasing (first :: before)) =>
    exists_recordAll f i first h
  refine ⟨.holding s (last first samples).systemClockCounter (hist samples),
    fun depth hdepth => recordSamples_holding s first hclock
      fun before hbefore f i => hrun before f i hbefore depth hdepth, fun f hf n hmeasured => ?_⟩
  refine ⟨(List.range n).map (hist samples f),
    List.mem_map.mpr ⟨(f, n), mem_recorded s hf hmeasured, rfl⟩, by simp, fun i hi => ?_⟩
  simp only [List.getElem_map, List.getElem_range]
  exact ⟨hrun samples f i hclock, hcount samples f i hclock⟩

def sampleStruct : MetricsStruct where
  ident := "gpu_metrics_v1_0"
  accepted := by decide
  fields := [⟨"common_header", .path (some "metrics_table_header")⟩,
    ⟨"system_clock_counter", .path (some "u64")⟩, ⟨"temperature_edge", .path (some "u16")⟩,
    ⟨"current_coreclk", .array 2⟩, ⟨"padding", .path (some "u16")⟩]
  distinct := by decide
  clock := ⟨some "u64", by decide⟩

def sampleAt (clock : Nat) (h : clock < 2 ^ 64) : Metrics :=
  ⟨clock, h, fun _ _ => .integer 40 (by decide)⟩

theorem recorder_in_step_two_samples :
    let first := sampleAt 100 (by decide)
    let samples := [sampleAt 107 (by decide)]
    ∃ r : Recorder,
      (∀ depth, 32 ≤ depth → recordSamples depth sampleStruct (first :: samples) = .ok r) ∧
        ∀ f ∈ sampleStruct.fields, ∀ n, Measured f n → ∃ hs, (f, hs) ∈ r.fields ∧
          hs.length = n ∧ ∀ i (hi : i < hs.length),
            (∀ depth, 32 ≤ depth → recordAll depth (calls f i (first :: samples)) = .ok hs[i]) ∧
              hs[i].count =
                (last first samples).systemClockCounter - first.systemClockCounter :=
  recorder_in_step sampleStruct _ _ (by simp [NonDecreasing, sampleAt])

end Isz.Amdgpu.Derive
