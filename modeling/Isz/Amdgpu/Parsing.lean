import Isz.Amdgpu.Reader

namespace Isz.Amdgpu

open Runs

def Complete (buf : List UInt8) (r : Revision) : Prop :=
  r.size ≤ buf.length ∧ revisionOf (readHeader buf) = some r

instance (buf : List UInt8) (r : Revision) : Decidable (Complete buf r) :=
  inferInstanceAs (Decidable (_ ∧ _))

theorem revisionOf_eq {header : Header} {r : Revision} :
    revisionOf header = some r ↔
      header.formatRevision = r.format ∧ header.contentRevision = r.content := by
  obtain ⟨structureSize, formatRevision, contentRevision⟩ := header
  simp only [revisionOf]
  constructor
  · intro h
    split at h <;> cases h <;> exact ⟨rfl, rfl⟩
  · rintro ⟨rfl, rfl⟩
    cases r <;> rfl

theorem readMetrics_commonHeader (r : Revision) (buf : List UInt8) :
    (readMetrics r buf).commonHeader = readHeader buf := rfl

theorem checkRevision_eq (r : Revision) (m : Metrics) :
    checkRevision r m =
      if revisionOf m.commonHeader = some r then .ok m else .error .badVersion := by
  simp only [checkRevision, revisionOf_eq]

theorem take_drop_take {buf : List UInt8} {n offset size : Nat} (h : offset + size ≤ n) :
    ((buf.take n).drop offset).take size = (buf.drop offset).take size := by
  rw [List.drop_take, List.take_take, Nat.min_eq_left (by omega)]

theorem readHeader_take {buf : List UInt8} {n : Nat} (h : headerSize ≤ n) :
    readHeader (buf.take n) = readHeader buf := by
  have h4 : 4 ≤ n := h
  simp only [readHeader]
  rw [take_drop_take (by omega), take_drop_take (by omega), List.take_take,
    Nat.min_eq_left (by omega)]

theorem readField_take {buf : List UInt8} {n offset : Nat} {f : Field}
    (h : offset + f.type.size * f.length ≤ n) :
    readField (buf.take n) offset f = readField buf offset f := by
  simp only [readField]
  refine List.map_congr_left fun i hi => ?_
  have hlast : f.type.size * (i + 1) ≤ f.type.size * f.length :=
    Nat.mul_le_mul_left _ (List.mem_range.mp hi)
  rw [Nat.mul_add, Nat.mul_one] at hlast
  rw [take_drop_take (by omega)]

theorem readMetrics_take (r : Revision) (buf : List UInt8) :
    readMetrics r (buf.take r.size) = readMetrics r buf := by
  simp only [readMetrics]
  rw [readHeader_take (headerSize_le_size r)]
  congr 1
  refine List.map_congr_left fun e he => ?_
  have hend := (offset_within he).2
  simp only [readField_take (Nat.le_trans hend (fieldsEnd_le_size r))]

theorem tryFromFile_eq (r : Revision) (f : File) :
    tryFromFile r f =
      if r.size ≤ f.content.length then
        (checkRevision r (readMetrics r f.content), { f with position := r.size })
      else (.error .io, { f with position := f.content.length }) := by
  simp only [tryFromFile, File.seekStart, File.readFromIo, Nat.zero_add, List.drop_zero,
    Nat.zero_max]
  split
  case h_1 hread =>
    split at hread
    case isTrue hlength =>
      obtain ⟨hbuf, rfl⟩ := Prod.mk.inj hread
      obtain rfl := Except.ok.inj hbuf
      rw [if_pos hlength, readMetrics_take]
    case isFalse => cases (Prod.mk.inj hread).1
  case h_2 hread =>
    split at hread
    case isTrue => cases (Prod.mk.inj hread).1
    case isFalse hlength =>
      obtain ⟨herror, rfl⟩ := Prod.mk.inj hread
      obtain rfl := Except.error.inj herror
      rw [if_neg hlength]

theorem new_eq_ok {f f' : File} {recorder : Recorder} :
    Recorder.new f = (.ok recorder, f') ↔
      f.position + headerSize ≤ f.content.length ∧
      (∃ r, revisionOf (readHeader (f.content.drop f.position)) = some r ∧
        recorder = Recorder.fresh r) ∧
      f' = { f with position := f.position + headerSize } := by
  simp only [Recorder.new, File.readFromIo]
  by_cases hlength : f.position + headerSize ≤ f.content.length
  · simp only [hlength, if_true, true_and]
    rw [readHeader_take (Nat.le_refl headerSize)]
    cases hrevision : revisionOf (readHeader (f.content.drop f.position)) with
    | none => simp
    | some r => simp [eq_comm]
  · simp [hlength]

theorem complete_length {buf : List UInt8} {r : Revision} (h : Complete buf r) :
    headerSize ≤ buf.length :=
  Nat.le_trans (headerSize_le_size r) h.1

theorem tryFromFile_eq_ok {r : Revision} {f : File} {m : Metrics} :
    (tryFromFile r f).1 = .ok m ↔ Complete f.content r ∧ m = readMetrics r f.content := by
  rw [tryFromFile_eq, checkRevision_eq, readMetrics_commonHeader, Complete]
  split_ifs with hlength hrevision
  · simp [hlength, hrevision, eq_comm]
  · simp [hrevision]
  · simp [hlength]

theorem tryFrom_eq_ok {r : Revision} {buf : List UInt8} {m : Metrics} :
    tryFrom r buf = .ok m ↔ Complete buf r ∧ m = readMetrics r buf := by
  rw [tryFrom, readMetrics_take, checkRevision_eq, readMetrics_commonHeader, Complete]
  split_ifs with hlength hrevision
  · simp [hlength]
  · simp [not_lt.mp hlength, hrevision, eq_comm]
  · simp [hrevision]

theorem parseMetrics_eq_ok {buf : List UInt8} {m : Metrics} :
    parseMetrics buf = .ok m ↔
      (readHeader buf).structureSize = buf.length ∧
        ∃ r, Complete buf r ∧ m = readMetrics r buf := by
  constructor
  · intro h
    simp only [parseMetrics] at h
    split_ifs at h with hheader hsize
    refine ⟨not_not.mp hsize, ?_⟩
    cases hrevision : revisionOf (readHeader buf) with
    | none =>
      rw [hrevision] at h
      cases h
    | some r =>
      rw [hrevision] at h
      exact ⟨r, tryFrom_eq_ok.mp h⟩
  · rintro ⟨hsize, r, hcomplete, rfl⟩
    have hheader := not_lt.mpr (complete_length hcomplete)
    simp only [parseMetrics, hheader, if_false, hsize, ne_eq, not_true_eq_false, hcomplete.2]
    exact tryFrom_eq_ok.mpr ⟨hcomplete, rfl⟩

def Samples (buf : List UInt8) (m : Metrics) : Prop :=
  ∃ recorder f recorder', Recorder.new ⟨buf, 0⟩ = (.ok recorder, f) ∧
    (recorder.sample f).1 = .recorded recorder' m

theorem sample_fresh {r : Revision} {f : File} {m : Metrics}
    (h : (tryFromFile r f).1 = .ok m) :
    (Recorder.fresh r).sample f = (.recorded
      { Recorder.fresh r with lastSystemClockCounter := some m.systemClockCounter } m,
      (tryFromFile r f).2) := by
  have hsplit : tryFromFile r f = (.ok m, (tryFromFile r f).2) := by
    rw [← h]
  rw [Recorder.sample, show (Recorder.fresh r).revision = r from rfl, hsplit]
  rfl

theorem sample_recorded {recorder recorder' : Recorder} {f : File} {m : Metrics}
    (h : (recorder.sample f).1 = .recorded recorder' m) :
    (tryFromFile recorder.revision f).1 = .ok m := by
  simp only [Recorder.sample] at h
  split at h
  case h_1 m' f' hread =>
    split at h
    · obtain ⟨-, rfl⟩ := Sampled.recorded.inj h
      rw [hread]
    · cases h
  case h_2 => cases h

theorem samples_iff {buf : List UInt8} {m : Metrics} :
    Samples buf m ↔ ∃ r, Complete buf r ∧ m = readMetrics r buf := by
  constructor
  · rintro ⟨recorder, f, recorder', hnew, hsample⟩
    obtain ⟨-, ⟨r, -, rfl⟩, rfl⟩ := new_eq_ok.mp hnew
    exact ⟨r, tryFromFile_eq_ok.mp (sample_recorded hsample)⟩
  · rintro ⟨r, hcomplete, rfl⟩
    have hnew : Recorder.new ⟨buf, 0⟩ = (.ok (Recorder.fresh r), ⟨buf, 0 + headerSize⟩) := by
      refine new_eq_ok.mpr ⟨?_, ⟨r, hcomplete.2, rfl⟩, rfl⟩
      rw [Nat.zero_add]
      exact complete_length hcomplete
    have hread : (tryFromFile r ⟨buf, 0 + headerSize⟩).1 = .ok (readMetrics r buf) :=
      tryFromFile_eq_ok.mpr ⟨hcomplete, rfl⟩
    exact ⟨_, _, _, hnew, congrArg Prod.fst (sample_fresh hread)⟩

theorem parsers_agree_iff (buf : List UInt8) :
    (∀ m, Samples buf m ↔ parseMetrics buf = .ok m) ↔
      ∀ r, Complete buf r → (readHeader buf).structureSize = buf.length := by
  constructor
  · intro hagree r hcomplete
    have hsamples := samples_iff.mpr ⟨r, hcomplete, rfl⟩
    exact (parseMetrics_eq_ok.mp ((hagree _).mp hsamples)).1
  · intro hsize m
    rw [samples_iff, parseMetrics_eq_ok]
    constructor
    · rintro ⟨r, hcomplete, hm⟩
      exact ⟨hsize r hcomplete, r, hcomplete, hm⟩
    · rintro ⟨-, hparsed⟩
      exact hparsed

def oversized : List UInt8 := [80, 0, 1, 0] ++ List.replicate 77 0

theorem oversized_parsers_differ :
    Samples oversized (readMetrics .v1_0 oversized) ∧
      parseMetrics oversized = .error .badLength := by
  refine ⟨samples_iff.mpr ⟨.v1_0, by decide +kernel, rfl⟩, by decide +kernel⟩

def Fails (self : MetricsReader) (content : List UInt8) : Prop :=
  ∃ e f, self.r.sample ⟨content, self.position⟩ = (.failed e, f)

def Recovers (self : MetricsReader) (content : List UInt8) (r : Revision) : Prop :=
  ∃ next, self.record content = some (next, .ok ()) ∧ next.r = Recorder.fresh r ∧
    ∀ content', Complete content' r → ∃ last, next.record content' = some (last, .ok ()) ∧
      last.r = { Recorder.fresh r with
        lastSystemClockCounter := some (readMetrics r content').systemClockCounter }

theorem record_fresh {self : MetricsReader} {r : Revision} {content : List UInt8}
    (hr : self.r = Recorder.fresh r) (hcomplete : Complete content r) :
    ∃ last, self.record content = some (last, .ok ()) ∧
      last.r = { Recorder.fresh r with
        lastSystemClockCounter := some (readMetrics r content).systemClockCounter } := by
  have hread : (tryFromFile r ⟨content, self.position⟩).1 = .ok (readMetrics r content) :=
    tryFromFile_eq_ok.mpr ⟨hcomplete, rfl⟩
  refine ⟨⟨(tryFromFile r ⟨content, self.position⟩).2.position, _⟩, ?_, rfl⟩
  simp only [MetricsReader.record, hr, sample_fresh hread]

theorem fails_position {recorder : Recorder} {f f' : File} {e : Error}
    (h : recorder.sample f = (.failed e, f')) :
    f' = { f with position := min recorder.revision.size f.content.length } := by
  simp only [Recorder.sample] at h
  split at h
  case h_1 =>
    split at h
    · cases (Prod.mk.inj h).1
    · cases (Prod.mk.inj h).1
  case h_2 e' f'' hread =>
    obtain ⟨-, rfl⟩ := Prod.mk.inj h
    rw [tryFromFile_eq] at hread
    split at hread
    case isTrue hlength =>
      rw [Nat.min_eq_left hlength]
      exact (Prod.mk.inj hread).2.symm
    case isFalse hlength =>
      rw [Nat.min_eq_right (Nat.le_of_not_le hlength)]
      exact (Prod.mk.inj hread).2.symm

theorem of_recovers {self : MetricsReader} {content : List UInt8} {r : Revision}
    (hfails : Fails self content) (h : Recovers self content r) :
    self.r.revision.size + headerSize ≤ content.length ∧
      revisionOf (readHeader (content.drop self.r.revision.size)) = some r := by
  obtain ⟨e, f, hfailed⟩ := hfails
  obtain ⟨next, hrecord, hfresh, -⟩ := h
  have hposition := fails_position hfailed
  have hheader : 0 < headerSize := by decide
  simp only [MetricsReader.record, hfailed] at hrecord
  split at hrecord
  case h_1 recorder f' hnew =>
    obtain ⟨hend, ⟨r', hrevision, rfl⟩, -⟩ := new_eq_ok.mp hnew
    obtain ⟨rfl, -⟩ := Prod.mk.inj (Option.some.inj hrecord)
    obtain rfl : r' = r := congrArg Recorder.revision hfresh
    rw [hposition] at hend hrevision
    simp only at hend hrevision
    rw [Nat.min_eq_left (by omega)] at hend hrevision
    exact ⟨hend, hrevision⟩
  case h_2 => cases (Prod.mk.inj (Option.some.inj hrecord)).2

theorem recovers_of_header {self : MetricsReader} {content : List UInt8} {r : Revision}
    (hfails : Fails self content) (hend : self.r.revision.size + headerSize ≤ content.length)
    (hrevision : revisionOf (readHeader (content.drop self.r.revision.size)) = some r) :
    Recovers self content r := by
  obtain ⟨e, f, hfailed⟩ := hfails
  have hmin : min self.r.revision.size content.length = self.r.revision.size :=
    Nat.min_eq_left (Nat.le_of_add_right_le hend)
  have hnew : Recorder.new f = (.ok (Recorder.fresh r),
      ⟨content, self.r.revision.size + headerSize⟩) := by
    rw [fails_position hfailed, hmin]
    exact new_eq_ok.mpr ⟨hend, ⟨r, hrevision, rfl⟩, rfl⟩
  refine ⟨⟨self.r.revision.size + headerSize, Recorder.fresh r⟩, ?_, rfl, ?_⟩
  · simp only [MetricsReader.record, hfailed, hnew]
  · intro content' hcomplete
    exact record_fresh rfl hcomplete

theorem reader_recovers_iff {self : MetricsReader} {content : List UInt8} {r : Revision}
    (hfails : Fails self content) :
    Recovers self content r ↔
      self.r.revision.size + headerSize ≤ content.length ∧
        revisionOf (readHeader (content.drop self.r.revision.size)) = some r :=
  ⟨of_recovers hfails, fun h => recovers_of_header hfails h.1 h.2⟩

def opened : List UInt8 := [80, 0, 1, 0] ++ List.replicate 76 0

def openedReader : MetricsReader := ⟨headerSize, Recorder.fresh .v1_0⟩

theorem fails_badVersion {content : List UInt8}
    (hlength : openedReader.r.revision.size ≤ content.length)
    (hrevision : revisionOf (readHeader content) ≠ some .v1_0) : Fails openedReader content := by
  refine ⟨.badVersion, ⟨content, openedReader.r.revision.size⟩, ?_⟩
  have hcheck : checkRevision .v1_0 (readMetrics .v1_0 content) = .error .badVersion := by
    rw [checkRevision_eq]
    exact if_neg hrevision
  rw [Recorder.sample, tryFromFile_eq, if_pos hlength,
    show openedReader.r.revision = .v1_0 from rfl, hcheck]

def lucky : List UInt8 :=
  [96, 0, 1, 1] ++ List.replicate 76 0 ++ [96, 0, 1, 1] ++ List.replicate 12 0

theorem reader_recovers_lucky : Recovers openedReader lucky .v1_1 :=
  (reader_recovers_iff (fails_badVersion (by decide +kernel) (by decide +kernel))).mpr
    (by decide +kernel)

def changed : List UInt8 := [96, 0, 1, 1] ++ List.replicate 92 0

theorem changed_not_recovered :
    MetricsReader.new opened = .ok openedReader ∧ Complete changed .v1_1 ∧
      Fails openedReader changed ∧ ¬Recovers openedReader changed .v1_1 := by
  have hfails : Fails openedReader changed :=
    fails_badVersion (by decide +kernel) (by decide +kernel)
  refine ⟨by decide +kernel, by decide +kernel, hfails, fun hrecovers => ?_⟩
  exact absurd (of_recovers hfails hrecovers).2 (by decide +kernel)

end Isz.Amdgpu
