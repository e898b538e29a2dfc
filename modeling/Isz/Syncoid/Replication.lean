import Isz.Library.Runs
import Mathlib.Data.Finset.Lattice.Fold
import Mathlib.Data.Finset.Max
import Mathlib.Order.Lattice.Nat

namespace Isz.Syncoid.Replication

open Runs

-- by the transaction that made it
abbrev Snapshot := ℕ

def newest (snapshots : Finset Snapshot) : Option Snapshot :=
  if h : snapshots.Nonempty then some (snapshots.max' h) else none

-- held under the one hold name
structure Dataset where
  snapshots : Finset Snapshot
  held : Finset Snapshot
  exist : held ⊆ snapshots

inductive HoldAction where
  | hold
  | release

-- zfs hold of no snapshot and a hold or release that is already there only warn
def Dataset.runholdcmd (fs : Dataset) (snap : Snapshot) : HoldAction → Dataset
  | .hold =>
    if h : snap ∈ fs.snapshots then
      { fs with held := insert snap fs.held, exist := Finset.insert_subset h fs.exist }
    else fs
  | .release =>
    { fs with held := fs.held.erase snap, exist := (Finset.erase_subset _ _).trans fs.exist }

def Dataset.receive (fs : Dataset) (sent : Finset Snapshot) : Dataset :=
  { fs with
    snapshots := fs.snapshots ∪ sent
    exist := fs.exist.trans Finset.subset_union_left }

structure State where
  source : Dataset
  target : Dataset

def State.newsyncsnap (s : State) : Option Snapshot := newest s.source.snapshots

def State.matchingsnap (s : State) : Option Snapshot :=
  newest (s.source.snapshots ∩ s.target.snapshots)

-- zfs send -i newsyncsnap, or -I with all that are newer than matchingsnap
def State.sent (noStream : Bool) (s : State) (newsyncsnap : Snapshot) : Finset Snapshot :=
  if noStream then {newsyncsnap}
  else match s.matchingsnap with
    | some matchingsnap => s.source.snapshots.filter (matchingsnap < ·)
    | none => s.source.snapshots

def State.syncdataset (noStream fails : Bool) (s : State) : State :=
  match s.newsyncsnap with
  | none => s
  | some newsyncsnap =>
    let source := s.source.runholdcmd newsyncsnap .hold
    -- no snapshots on source newer than the one on target
    if s.matchingsnap = some newsyncsnap then { s with source }
    else if fails then { s with source }
    else
      let target := s.target.receive (s.sent noStream newsyncsnap)
      match s.matchingsnap with
      | some matchingsnap =>
        ⟨source.runholdcmd matchingsnap .release,
          (target.runholdcmd newsyncsnap .hold).runholdcmd matchingsnap .release⟩
      | none => ⟨source, target.runholdcmd newsyncsnap .hold⟩

def State.fresh (s : State) : Snapshot := (s.source.snapshots ∪ s.target.snapshots).sup id + 1

def State.create (s : State) (later : ℕ) : State :=
  { s with
    source := { s.source with
      snapshots := insert (s.fresh + later) s.source.snapshots
      exist := s.source.exist.trans (Finset.subset_insert _ _) } }

inductive Event where
  | create (later : ℕ)
  | run (fails : Bool)

def State.step (noStream : Bool) (s : State) : Event → State
  | .create later => s.create later
  | .run fails => s.syncdataset noStream fails

def start (source target : Finset Snapshot) : State where
  source := ⟨source, ∅, Finset.empty_subset _⟩
  target := ⟨target, ∅, Finset.empty_subset _⟩

def State.after (noStream : Bool) (s : State) (events : List Event) : State :=
  events.foldl (State.step noStream) s

def State.OnlyHeld (s : State) (snap : Snapshot) : Prop :=
  s.source.held = {snap} ∧ s.target.held = {snap}

def State.Pending (s : State) : Prop :=
  ∃ newsyncsnap, s.newsyncsnap = some newsyncsnap ∧ s.matchingsnap ≠ some newsyncsnap

def OnlyNewHeld (noStream : Bool) (first : State) (before : List Event) : Event → Prop
  | .run false => ∀ newsyncsnap,
    (first.after noStream before).newsyncsnap = some newsyncsnap →
    (first.after noStream before).matchingsnap ≠ some newsyncsnap →
    (first.after noStream (before ++ [.run false])).OnlyHeld newsyncsnap
  | _ => True

def NoLeak (noStream : Bool) (first : State) : List Event → Prop :=
  AtEach (OnlyNewHeld noStream first)

structure Failed (noStream : Bool) (first : State) (events before between : List Event) :
    Prop where
  split : events = before ++ .run true :: between
  pending : (first.after noStream before).Pending
  unfinished : .run false ∉ between

def NothingCreated (noStream : Bool) (first : State) (events : List Event) : Event → Prop
  | .run false => ∀ before between, Failed noStream first events before between →
    ∀ later, .create later ∉ between
  | _ => True

def Undisturbed (noStream : Bool) (first : State) : List Event → Prop :=
  AtEach (NothingCreated noStream first)

theorem newest_eq_some {snapshots : Finset Snapshot} {snap : Snapshot} :
    newest snapshots = some snap ↔ snap ∈ snapshots ∧ ∀ other ∈ snapshots, other ≤ snap := by
  rw [newest]
  split
  case isTrue h => rw [Option.some_inj, Finset.max'_eq_iff]
  case isFalse h =>
    rw [Finset.not_nonempty_iff_eq_empty] at h
    simp [h]

variable {noStream fails : Bool} {s : State} {newsyncsnap : Snapshot} {events : List Event}

theorem mem_source (h : s.newsyncsnap = some newsyncsnap) : newsyncsnap ∈ s.source.snapshots :=
  (newest_eq_some.mp h).1

theorem matchingsnap_eq_iff (h : s.newsyncsnap = some newsyncsnap) :
    s.matchingsnap = some newsyncsnap ↔ newsyncsnap ∈ s.target.snapshots := by
  obtain ⟨hmem, hle⟩ := newest_eq_some.mp h
  rw [State.matchingsnap, newest_eq_some]
  simp only [Finset.mem_inter]
  exact ⟨fun hmax => hmax.1.2, fun htarget => ⟨⟨hmem, htarget⟩, fun x hx => hle x hx.1⟩⟩

theorem mem_target_of_matchingsnap {snap : Snapshot} (h : s.matchingsnap = some snap) :
    snap ∈ s.target.snapshots :=
  (Finset.mem_inter.mp (newest_eq_some.mp h).1).2

theorem pending_iff (h : s.newsyncsnap = some newsyncsnap) :
    s.Pending ↔ newsyncsnap ∉ s.target.snapshots := by
  simp [State.Pending, h, matchingsnap_eq_iff h]

section Create

variable (s) (later : ℕ)

theorem lt_fresh {snap : Snapshot} (h : snap ∈ s.source.snapshots ∪ s.target.snapshots) :
    snap < s.fresh + later := by
  have hle : snap ≤ (s.source.snapshots ∪ s.target.snapshots).sup id := Finset.le_sup (f := id) h
  exact Nat.lt_of_lt_of_le (Nat.lt_succ_of_le hle) (Nat.le_add_right _ _)

theorem fresh_notMem_target : s.fresh + later ∉ s.target.snapshots := fun h =>
  (lt_fresh s later (Finset.mem_union_right _ h)).false

theorem create_newsyncsnap : (s.create later).newsyncsnap = some (s.fresh + later) := by
  rw [State.newsyncsnap, newest_eq_some]
  refine ⟨Finset.mem_insert_self _ _, fun snap hsnap => ?_⟩
  rcases Finset.mem_insert.mp hsnap with rfl | hold
  · exact le_rfl
  · exact (lt_fresh s later (Finset.mem_union_left _ hold)).le

theorem create_matchingsnap : (s.create later).matchingsnap = s.matchingsnap := by
  simp only [State.matchingsnap, State.create,
    Finset.insert_inter_of_notMem (fresh_notMem_target s later)]

theorem create_pending : (s.create later).Pending :=
  (pending_iff (create_newsyncsnap s later)).mpr (fresh_notMem_target s later)

end Create

section Run

structure Unsent (s s' : State) : Prop where
  target : s'.target = s.target
  snapshots : s'.source.snapshots = s.source.snapshots
  source : ∀ snap, snap ∈ s'.source.held ↔ s.newsyncsnap = some snap ∨ snap ∈ s.source.held

theorem syncdataset_unsent (hunsent : s.Pending → fails = true) :
    Unsent s (s.syncdataset noStream fails) := by
  cases h : s.newsyncsnap with
  | none => constructor <;> simp [State.syncdataset, h]
  | some newsyncsnap =>
    have hheld : s.syncdataset noStream fails =
        { s with source := s.source.runholdcmd newsyncsnap .hold } := by
      by_cases hmatching : s.matchingsnap = some newsyncsnap
      · simp [State.syncdataset, h, hmatching]
      · simp [State.syncdataset, h, hunsent ⟨newsyncsnap, h, hmatching⟩]
    rw [hheld]
    constructor <;> simp [Dataset.runholdcmd, mem_source h, h, eq_comm]

theorem Unsent.newsyncsnap_eq {s s' : State} (h : Unsent s s') :
    s'.newsyncsnap = s.newsyncsnap := by
  rw [State.newsyncsnap, State.newsyncsnap, h.snapshots]

theorem Unsent.matchingsnap_eq {s s' : State} (h : Unsent s s') :
    s'.matchingsnap = s.matchingsnap := by
  rw [State.matchingsnap, State.matchingsnap, h.snapshots, h.target]

theorem Unsent.pending_iff {s s' : State} (h : Unsent s s') : s'.Pending ↔ s.Pending := by
  rw [State.Pending, State.Pending, h.newsyncsnap_eq, h.matchingsnap_eq]

theorem mem_sent (h : s.newsyncsnap = some newsyncsnap)
    (hmatching : s.matchingsnap ≠ some newsyncsnap) :
    newsyncsnap ∈ s.sent noStream newsyncsnap := by
  obtain ⟨hmem, hle⟩ := newest_eq_some.mp h
  rw [State.sent]
  split
  · exact Finset.mem_singleton_self _
  · split
    next matchingsnap hsome =>
      have hsource := (Finset.mem_inter.mp (newest_eq_some.mp hsome).1).1
      have hne : matchingsnap ≠ newsyncsnap := fun heq => hmatching (heq ▸ hsome)
      exact Finset.mem_filter.mpr ⟨hmem, lt_of_le_of_ne (hle _ hsource) hne⟩
    next => exact hmem

structure Synced (s s' : State) (newsyncsnap : Snapshot) : Prop where
  snapshots : s'.source.snapshots = s.source.snapshots
  received : newsyncsnap ∈ s'.target.snapshots
  source : ∀ snap, snap ∈ s'.source.held ↔
    (snap = newsyncsnap ∨ snap ∈ s.source.held) ∧ s.matchingsnap ≠ some snap
  target : ∀ snap, snap ∈ s'.target.held ↔
    (snap = newsyncsnap ∨ snap ∈ s.target.held) ∧ s.matchingsnap ≠ some snap

variable (noStream) in
theorem syncdataset_synced (h : s.newsyncsnap = some newsyncsnap)
    (hmatching : s.matchingsnap ≠ some newsyncsnap) :
    Synced s (s.syncdataset noStream false) newsyncsnap := by
  have hsource : newsyncsnap ∈ s.source.snapshots := mem_source h
  have hsent : newsyncsnap ∈ s.sent noStream newsyncsnap := mem_sent h hmatching
  cases hsnap : s.matchingsnap with
  | none =>
    constructor <;>
      simp [State.syncdataset, h, hsnap, Dataset.runholdcmd, Dataset.receive, hsource, hsent]
  | some matchingsnap =>
    have hne : matchingsnap ≠ newsyncsnap := fun heq => hmatching (heq ▸ hsnap)
    constructor <;>
      simp [State.syncdataset, h, hsnap, hne.symm, Dataset.runholdcmd, Dataset.receive, hsource,
        hsent, and_comm, eq_comm]

theorem Synced.onlyHeld_iff {s s' : State} (h : Synced s s' newsyncsnap)
    (hmatching : s.matchingsnap ≠ some newsyncsnap)
    (htarget : ∀ snap ∈ s.target.held, s.matchingsnap = some snap) :
    s'.OnlyHeld newsyncsnap ↔
      ∀ snap ∈ s.source.held, snap = newsyncsnap ∨ s.matchingsnap = some snap := by
  have hnew : s'.target.held = {newsyncsnap} := by
    ext snap
    rw [h.target, Finset.mem_singleton]
    constructor
    · rintro ⟨rfl | hheld, hne⟩
      · rfl
      · exact absurd (htarget snap hheld) hne
    · rintro rfl
      exact ⟨.inl rfl, hmatching⟩
  rw [State.OnlyHeld, and_iff_left hnew]
  constructor
  · intro hsource snap hheld
    by_cases hsnap : s.matchingsnap = some snap
    · exact .inr hsnap
    · have hkept := (h.source snap).mpr ⟨.inr hheld, hsnap⟩
      exact .inl (Finset.mem_singleton.mp (hsource ▸ hkept))
  · intro hheld
    ext snap
    rw [h.source, Finset.mem_singleton]
    constructor
    · rintro ⟨rfl | hsnap, hne⟩
      · rfl
      · exact (hheld snap hsnap).resolve_right hne
    · rintro rfl
      exact ⟨.inl rfl, hmatching⟩

@[simp] theorem runholdcmd_snapshots (fs : Dataset) (snap : Snapshot) (action : HoldAction) :
    (fs.runholdcmd snap action).snapshots = fs.snapshots := by
  cases action with
  | hold =>
    rw [Dataset.runholdcmd]
    split <;> rfl
  | release => rfl

theorem syncdataset_snapshots :
    (s.syncdataset noStream fails).source.snapshots = s.source.snapshots := by
  simp only [State.syncdataset]
  cases s.newsyncsnap with
  | none => rfl
  | some newsyncsnap =>
    dsimp only
    split
    · exact runholdcmd_snapshots _ _ _
    · split
      · exact runholdcmd_snapshots _ _ _
      · cases s.matchingsnap <;> simp

end Run

section After

variable (noStream) (first : State) (events : List Event)

theorem after_append (more : List Event) :
    first.after noStream (events ++ more) = (first.after noStream events).after noStream more :=
  List.foldl_append

theorem after_concat (e : Event) :
    first.after noStream (events ++ [e]) = (first.after noStream events).step noStream e := by
  rw [after_append]
  rfl

end After

variable (noStream) in
theorem after_newsyncsnap (events : List Event) {s : State} {snap : Snapshot}
    (h : s.newsyncsnap = some snap) :
    ∃ snap', (s.after noStream events).newsyncsnap = some snap' ∧ snap ≤ snap' ∧
      (snap' = snap ↔ ∀ later, .create later ∉ events) := by
  induction events generalizing s snap with
  | nil => exact ⟨snap, h, le_rfl, by simp⟩
  | cons e events ih =>
    cases e with
    | create later =>
      have hlt : snap < s.fresh + later :=
        lt_fresh s later (Finset.mem_union_left _ (mem_source h))
      obtain ⟨snap', hsnap', hle, -⟩ := ih (create_newsyncsnap s later)
      refine ⟨snap', hsnap', (hlt.trans_le hle).le, iff_of_false (hlt.trans_le hle).ne' ?_⟩
      exact fun hnone => hnone later List.mem_cons_self
    | run fails =>
      have hrun : (s.step noStream (.run fails)).newsyncsnap = some snap := by
        rw [← h, State.newsyncsnap, State.newsyncsnap, State.step, syncdataset_snapshots]
      obtain ⟨snap', hsnap', hle, hiff⟩ := ih hrun
      exact ⟨snap', hsnap', hle, by simpa using hiff⟩

section Runs

variable {first : State} {before between : List Event} {snap : Snapshot}

theorem failed_concat {e : Event} :
    Failed noStream first (events ++ [e]) before between ↔
      (before = events ∧ between = [] ∧ e = .run true ∧ (first.after noStream events).Pending) ∨
        ∃ between', between = between' ++ [e] ∧ e ≠ .run false ∧
          Failed noStream first events before between' := by
  constructor
  · rintro ⟨hsplit, hpending, hunfinished⟩
    cases between using List.reverseRecOn with
    | nil =>
      obtain ⟨rfl, he⟩ := List.append_inj' hsplit rfl
      exact .inl ⟨rfl, rfl, List.singleton_inj.mp he, hpending⟩
    | append_singleton between' e' =>
      rw [← List.cons_append, ← List.append_assoc] at hsplit
      obtain ⟨rfl, he⟩ := List.append_inj' hsplit rfl
      obtain rfl := List.singleton_inj.mp he
      simp only [List.mem_append, List.mem_singleton, not_or] at hunfinished
      exact .inr ⟨between', rfl, Ne.symm hunfinished.2, rfl, hpending, hunfinished.1⟩
  · rintro (⟨rfl, rfl, rfl, hpending⟩ | ⟨between', rfl, hne, rfl, hpending, hunfinished⟩)
    · exact ⟨rfl, hpending, List.not_mem_nil⟩
    · exact ⟨by simp, hpending, by simp [hunfinished, Ne.symm hne]⟩

structure Holding (noStream : Bool) (first : State) (events : List Event) : Prop where
  target : ∀ snap ∈ (first.after noStream events).target.held,
    (first.after noStream events).matchingsnap = some snap
  source : ∀ snap ∈ (first.after noStream events).source.held,
    (first.after noStream events).matchingsnap = some snap ∨
      ∃ before between, Failed noStream first events before between ∧
        (first.after noStream before).newsyncsnap = some snap
  failed : ∀ before between snap, Failed noStream first events before between →
    (first.after noStream before).newsyncsnap = some snap →
      (first.after noStream events).Pending ∧
        snap ∈ (first.after noStream events).source.held ∧
        snap ∉ (first.after noStream events).target.snapshots

theorem holding_start (source target : Finset Snapshot) :
    Holding noStream (start source target) [] where
  target := by simp [State.after, start]
  source := by simp [State.after, start]
  failed := by
    rintro before between snap ⟨hsplit, -, -⟩
    simp at hsplit

theorem Holding.create (h : Holding noStream first events) (later : ℕ) :
    Holding noStream first (events ++ [.create later]) where
  target := by
    rw [after_concat, State.step, create_matchingsnap]
    exact h.target
  source := by
    rw [after_concat, State.step, create_matchingsnap]
    intro snap hsnap
    refine (h.source snap hsnap).imp_right ?_
    rintro ⟨before, between, hfailed, hnew⟩
    exact ⟨before, _, failed_concat.mpr (.inr ⟨between, rfl, nofun, hfailed⟩), hnew⟩
  failed := by
    intro before between snap hfailed hnew
    rw [after_concat]
    rcases failed_concat.mp hfailed with ⟨-, -, hrun, -⟩ | ⟨between', -, -, hfailed⟩
    · cases hrun
    · exact ⟨create_pending _ later, (h.failed _ _ _ hfailed hnew).2⟩

theorem Holding.unsent (h : Holding noStream first events)
    (hunsent : (first.after noStream events).Pending → fails = true) :
    Holding noStream first (events ++ [.run fails]) := by
  have hnext : Unsent (first.after noStream events)
      (first.after noStream (events ++ [.run fails])) := by
    rw [after_concat]
    exact syncdataset_unsent hunsent
  constructor
  case target =>
    rw [hnext.matchingsnap_eq, hnext.target]
    exact h.target
  case source =>
    intro snap hsnap
    rw [hnext.matchingsnap_eq]
    rcases (hnext.source snap).mp hsnap with hnew | hheld
    · by_cases hmatching : (first.after noStream events).matchingsnap = some snap
      · exact .inl hmatching
      · have hpending : (first.after noStream events).Pending := ⟨snap, hnew, hmatching⟩
        obtain rfl := hunsent hpending
        exact .inr ⟨events, [], failed_concat.mpr (.inl ⟨rfl, rfl, rfl, hpending⟩), hnew⟩
    · refine (h.source snap hheld).imp_right ?_
      rintro ⟨before, between, hfailed, hnew⟩
      obtain rfl := hunsent (h.failed _ _ _ hfailed hnew).1
      exact ⟨before, _, failed_concat.mpr (.inr ⟨between, rfl, nofun, hfailed⟩), hnew⟩
  case failed =>
    intro before between snap hfailed hnew
    rw [hnext.pending_iff, hnext.target, hnext.source]
    rcases failed_concat.mp hfailed with ⟨rfl, -, -, hpending⟩ | ⟨between', -, -, hfailed⟩
    · exact ⟨hpending, .inl hnew, (pending_iff hnew).mp hpending⟩
    · obtain ⟨hpending, hheld, htarget⟩ := h.failed _ _ _ hfailed hnew
      exact ⟨hpending, .inr hheld, htarget⟩

theorem holding_synced
    (h : (first.after noStream events).newsyncsnap = some newsyncsnap)
    (hmatching : (first.after noStream events).matchingsnap ≠ some newsyncsnap)
    (honly : (first.after noStream (events ++ [.run false])).OnlyHeld newsyncsnap) :
    Holding noStream first (events ++ [.run false]) := by
  have hsynced : Synced (first.after noStream events)
      (first.after noStream (events ++ [.run false])) newsyncsnap := by
    rw [after_concat]
    exact syncdataset_synced noStream h hmatching
  have hnew : (first.after noStream (events ++ [.run false])).newsyncsnap = some newsyncsnap := by
    rw [State.newsyncsnap, hsynced.snapshots]
    exact h
  have hcommon := (matchingsnap_eq_iff hnew).mpr hsynced.received
  constructor
  case target =>
    rw [honly.2, hcommon]
    exact fun snap hsnap => congrArg some (Finset.mem_singleton.mp hsnap).symm
  case source =>
    rw [honly.1, hcommon]
    exact fun snap hsnap => .inl (congrArg some (Finset.mem_singleton.mp hsnap).symm)
  case failed =>
    intro before between snap hfailed
    rcases failed_concat.mp hfailed with ⟨-, -, hrun, -⟩ | ⟨between', -, hne, -⟩
    · cases hrun
    · exact absurd rfl hne

theorem Failed.newsyncsnap_eq (h : Failed noStream first events before between)
    (hsnap : (first.after noStream before).newsyncsnap = some snap) :
    ∃ snap', (first.after noStream events).newsyncsnap = some snap' ∧
      (snap' = snap ↔ ∀ later, .create later ∉ between) := by
  obtain ⟨snap', hsnap', -, hiff⟩ :=
    after_newsyncsnap noStream (.run true :: between) hsnap
  rw [← after_append, ← h.split] at hsnap'
  exact ⟨snap', hsnap', by simpa using hiff⟩

theorem Holding.single_iff (h : Holding noStream first events)
    (hnew : (first.after noStream events).newsyncsnap = some newsyncsnap) :
    (∀ snap ∈ (first.after noStream events).source.held,
        snap = newsyncsnap ∨ (first.after noStream events).matchingsnap = some snap) ↔
      NothingCreated noStream first events (.run false) := by
  constructor
  · intro hheld before between hfailed
    obtain ⟨snap, hsnap, -⟩ := hfailed.pending
    obtain ⟨-, hmem, htarget⟩ := h.failed _ _ _ hfailed hsnap
    obtain ⟨snap', hsnap', hiff⟩ := hfailed.newsyncsnap_eq hsnap
    obtain rfl := Option.some.inj (hnew.symm.trans hsnap')
    rcases hheld snap hmem with heq | hmatching
    · exact hiff.mp heq.symm
    · exact absurd (mem_target_of_matchingsnap hmatching) htarget
  · intro hnothing snap hmem
    rcases h.source snap hmem with hmatching | ⟨before, between, hfailed, hsnap⟩
    · exact .inr hmatching
    · obtain ⟨snap', hsnap', hiff⟩ := hfailed.newsyncsnap_eq hsnap
      obtain rfl := Option.some.inj (hnew.symm.trans hsnap')
      exact .inl (hiff.mpr (hnothing before between hfailed)).symm

theorem Holding.success_iff (h : Holding noStream first events) :
    (OnlyNewHeld noStream first events (.run false) ↔
        NothingCreated noStream first events (.run false)) ∧
      (NothingCreated noStream first events (.run false) →
        Holding noStream first (events ++ [.run false])) := by
  by_cases hpending : (first.after noStream events).Pending
  · obtain ⟨newsyncsnap, hnew, hmatching⟩ := hpending
    have hsynced := syncdataset_synced noStream hnew hmatching
    have hsingle := (hsynced.onlyHeld_iff hmatching h.target).trans (h.single_iff hnew)
    have hafter : (first.after noStream events).syncdataset noStream false =
        first.after noStream (events ++ [.run false]) := by
      rw [after_concat]
      rfl
    rw [hafter] at hsingle
    refine ⟨⟨fun honly => hsingle.mp (honly newsyncsnap hnew hmatching), ?_⟩,
      fun hnothing => holding_synced hnew hmatching (hsingle.mpr hnothing)⟩
    intro hnothing other hother _
    obtain rfl := Option.some.inj (hnew.symm.trans hother)
    exact hsingle.mpr hnothing
  · refine ⟨iff_of_true ?_ ?_, fun _ => h.unsent fun hyes => absurd hyes hpending⟩
    · exact fun newsyncsnap hnew hmatching => absurd ⟨newsyncsnap, hnew, hmatching⟩ hpending
    · intro before between hfailed
      obtain ⟨snap, hsnap, -⟩ := hfailed.pending
      exact absurd (h.failed _ _ _ hfailed hsnap).1 hpending

end Runs

theorem noLeak_iff (noStream : Bool) (source target : Finset Snapshot) (events : List Event) :
    NoLeak noStream (start source target) events ↔
      Undisturbed noStream (start source target) events := by
  refine atEach_iff (Holding noStream (start source target)) (holding_start source target)
    (fun before e h => ?_) events
  cases e with
  | create later => exact ⟨Iff.rfl, fun _ => h.create later⟩
  | run fails =>
    cases fails with
    | false => exact h.success_iff
    | true => exact ⟨Iff.rfl, fun _ => h.unsent fun _ => rfl⟩

theorem failed_hold_leaks :
    ((start ∅ ∅).after false [.create 0, .run true, .create 0, .run false]).source.held = {1, 2} ∧
      ¬∀ noStream source target events, NoLeak noStream (start source target) events := by
  have hheld : ((start ∅ ∅).after false
      [.create 0, .run true, .create 0, .run false]).source.held = {1, 2} := by decide
  refine ⟨hheld, fun h => ?_⟩
  have honly := h false ∅ ∅ [.create 0, .run true, .create 0, .run false]
    [.create 0, .run true, .create 0] (.run false) List.prefix_rfl 2 (by decide) (by decide)
  exact absurd (hheld.symm.trans honly.1) (by decide)

end Isz.Syncoid.Replication
