import Isz.Syncoid.Replication
import Mathlib.Data.Fintype.Basic
import Mathlib.Data.Finset.Union

namespace Isz.Syncoid.Replication

section Received

variable {noStream fails : Bool} {s : State} {newsyncsnap : Snapshot}

theorem syncdataset_received (h : s.newsyncsnap = some newsyncsnap)
    (hmatching : s.matchingsnap ≠ some newsyncsnap) :
    (s.syncdataset noStream false).target.snapshots =
      s.target.snapshots ∪ s.sent noStream newsyncsnap := by
  cases hsnap : s.matchingsnap with
  | none => simp [State.syncdataset, h, hsnap, Dataset.receive]
  | some matchingsnap =>
    have hne : matchingsnap ≠ newsyncsnap := fun heq => hmatching (heq ▸ hsnap)
    simp [State.syncdataset, h, hsnap, hne, Dataset.receive]

theorem syncdataset_cases (noStream fails : Bool) (s : State) :
    Unsent s (s.syncdataset noStream fails) ∨
    ∃ newsyncsnap, s.newsyncsnap = some newsyncsnap ∧ s.matchingsnap ≠ some newsyncsnap ∧
      fails = false ∧ Synced s (s.syncdataset noStream fails) newsyncsnap ∧
      (s.syncdataset noStream fails).target.snapshots =
        s.target.snapshots ∪ s.sent noStream newsyncsnap := by
  by_cases hpending : s.Pending
  · cases fails with
    | true => exact .inl (syncdataset_unsent fun _ => rfl)
    | false =>
      obtain ⟨newsyncsnap, h, hmatching⟩ := hpending
      exact .inr ⟨newsyncsnap, h, hmatching, rfl, syncdataset_synced noStream h hmatching,
        syncdataset_received h hmatching⟩
  · exact .inl (syncdataset_unsent fun h => absurd h hpending)

theorem syncdataset_target_subset :
    s.target.snapshots ⊆ (s.syncdataset noStream fails).target.snapshots := by
  rcases syncdataset_cases noStream fails s with h | ⟨_, -, -, -, -, h⟩
  · rw [h.target]
  · rw [h]
    exact Finset.subset_union_left

theorem exists_newest {snapshots : Finset Snapshot} {x : Snapshot} (h : x ∈ snapshots) :
    ∃ base, newest snapshots = some base := by
  rw [newest, dif_pos ⟨x, h⟩]
  exact ⟨_, rfl⟩

end Received

variable {Target : Type}

-- the holds by the identifier in their name, which is the target's
structure Pool (Target : Type) where
  snapshots : Finset Snapshot
  held : Target → Finset Snapshot
  exist : ∀ t, held t ⊆ snapshots

def Pool.view (fs : Pool Target) (t : Target) : Dataset := ⟨fs.snapshots, fs.held t, fs.exist t⟩

-- zfs destroy refuses a snapshot that is held
def Pool.destroy [Fintype Target] (fs : Pool Target) (snaps : Finset Snapshot) : Pool Target where
  snapshots := fs.snapshots.filter fun x => x ∈ snaps → ∃ t, x ∈ fs.held t
  held := fs.held
  exist := fun t _ hx => Finset.mem_filter.mpr ⟨fs.exist t hx, fun _ => ⟨t, hx⟩⟩

def Pool.unheld (snapshots : Finset Snapshot) : Pool Target :=
  ⟨snapshots, fun _ => ∅, fun _ => Finset.empty_subset _⟩

structure Backups (Target : Type) where
  source : Pool Target
  target : Target → Pool Target

namespace Backups

def start (source : Finset Snapshot) : Backups Target := ⟨.unheld source, fun _ => .unheld ∅⟩

variable (s : Backups Target)

def view (t : Target) : State := ⟨s.source.view t, (s.target t).view t⟩

variable [DecidableEq Target]

-- a stream of zfs send -h carries the holds of its snapshots
def syncdataset (noStream : Bool) (sendHolds : Target → Bool) (t : Target) (fails : Bool) :
    Backups Target :=
  let after := (s.view t).syncdataset noStream fails
  let received := after.target.snapshots \ (s.target t).snapshots
  let source : Pool Target :=
    { snapshots := s.source.snapshots
      held := Function.update s.source.held t after.source.held
      exist := fun t' => by
        by_cases ht : t' = t
        · subst ht
          rw [Function.update_self]
          exact after.source.exist.trans syncdataset_snapshots.subset
        · rw [Function.update_of_ne ht]
          exact s.source.exist t' }
  { source
    target := Function.update s.target t
      { snapshots := after.target.snapshots
        held := fun t' =>
          (if t' = t then after.target.held else (s.target t).held t') ∪
            if sendHolds t then source.held t' ∩ received else ∅
        exist := fun t' => by
          refine Finset.union_subset ?_ ?_
          · split
            · exact after.target.exist
            · exact ((s.target t).exist t').trans (syncdataset_target_subset (s := s.view t))
          · split
            · exact Finset.inter_subset_right.trans Finset.sdiff_subset
            · exact Finset.empty_subset _ } }

variable [Fintype Target]

-- newer than any other, as the transaction that makes it
def fresh : Snapshot :=
  (s.source.snapshots ∪ Finset.univ.biUnion fun t => (s.target t).snapshots).sup id + 1

def create (later : ℕ) : Backups Target :=
  { s with
    source :=
      { s.source with
        snapshots := insert (s.fresh + later) s.source.snapshots
        exist := fun t => (s.source.exist t).trans (Finset.subset_insert _ _) } }

inductive Event (Target : Type) where
  | create (later : ℕ)
  | prune (snaps : Finset Snapshot)
  | pruneTarget (t : Target) (snaps : Finset Snapshot)
  | run (t : Target) (fails : Bool)

def step (noStream : Bool) (sendHolds : Target → Bool) (s : Backups Target) :
    Event Target → Backups Target
  | .create later => s.create later
  | .prune snaps => { s with source := s.source.destroy snaps }
  | .pruneTarget t snaps =>
    { s with target := Function.update s.target t ((s.target t).destroy snaps) }
  | .run t fails => s.syncdataset noStream sendHolds t fails

def after (noStream : Bool) (sendHolds : Target → Bool) (s : Backups Target)
    (events : List (Event Target)) : Backups Target :=
  events.foldl (step noStream sendHolds) s

section Run

variable {noStream : Bool} {sendHolds : Target → Bool} {t t' : Target} {fails : Bool}
  {s : Backups Target}

omit [Fintype Target]

theorem run_source_other (h : t' ≠ t) :
    (s.syncdataset noStream sendHolds t fails).source.held t' = s.source.held t' :=
  Function.update_of_ne h _ _

theorem run_source_self : (s.syncdataset noStream sendHolds t fails).source.held t =
    ((s.view t).syncdataset noStream fails).source.held :=
  Function.update_self ..

theorem run_target_other (h : t' ≠ t) :
    (s.syncdataset noStream sendHolds t fails).target t' = s.target t' :=
  Function.update_of_ne h _ _

theorem run_target_snapshots : ((s.syncdataset noStream sendHolds t fails).target t).snapshots =
    ((s.view t).syncdataset noStream fails).target.snapshots := by
  rw [syncdataset]
  dsimp only
  rw [Function.update_self]

theorem mem_run_target_held {x : Snapshot} :
    x ∈ ((s.syncdataset noStream sendHolds t fails).target t).held t' ↔
      x ∈ (if t' = t then ((s.view t).syncdataset noStream fails).target.held
        else (s.target t).held t') ∨
      sendHolds t = true ∧ x ∈ (s.syncdataset noStream sendHolds t fails).source.held t' ∧
        x ∈ ((s.view t).syncdataset noStream fails).target.snapshots ∧
          x ∉ (s.target t).snapshots := by
  rw [syncdataset]
  dsimp only
  rw [Function.update_self, Finset.mem_union]
  refine or_congr_right ?_
  split <;> simp_all

end Run

section Kept

def Kept (s : Backups Target) : Prop :=
  ∀ t base, newest (s.target t).snapshots = some base →
    base ∈ s.source.held t ∧ base ∈ (s.target t).held t

variable {noStream : Bool} {sendHolds : Target → Bool} {t : Target} {fails : Bool}
  {s : Backups Target}

omit [Fintype Target] [DecidableEq Target] in
theorem Kept.matchingsnap (h : Kept s) {base : Snapshot}
    (hbase : newest (s.target t).snapshots = some base) :
    (s.view t).matchingsnap = some base := by
  obtain ⟨hmem, hle⟩ := newest_eq_some.mp hbase
  exact newest_eq_some.mpr ⟨Finset.mem_inter.mpr ⟨s.source.exist t (h t base hbase).1, hmem⟩,
    fun other hother => hle other (Finset.mem_inter.mp hother).2⟩

omit [Fintype Target] [DecidableEq Target] in
theorem sent_subset (s : State) (newsyncsnap : Snapshot)
    (h : s.newsyncsnap = some newsyncsnap) :
    s.sent noStream newsyncsnap ⊆ s.source.snapshots := by
  rw [State.sent]
  split
  · exact Finset.singleton_subset_iff.mpr (mem_source h)
  · split
    · exact Finset.filter_subset _ _
    · exact subset_rfl

omit [Fintype Target] [DecidableEq Target] in
theorem Kept.target_le (h : Kept s) {newsyncsnap : Snapshot}
    (hnew : (s.view t).newsyncsnap = some newsyncsnap) :
    ∀ x ∈ (s.target t).snapshots, x ≤ newsyncsnap := by
  intro x hx
  obtain ⟨base, hbase⟩ := exists_newest hx
  exact ((newest_eq_some.mp hbase).2 x hx).trans
    ((newest_eq_some.mp hnew).2 base (s.source.exist t (h t base hbase).1))

omit [Fintype Target] [DecidableEq Target] in
variable (noStream) in
theorem Kept.newest_received (h : Kept s) {newsyncsnap : Snapshot}
    (hnew : (s.view t).newsyncsnap = some newsyncsnap)
    (hmatching : (s.view t).matchingsnap ≠ some newsyncsnap) :
    newest ((s.target t).snapshots ∪ (s.view t).sent noStream newsyncsnap) =
      some newsyncsnap := by
  refine newest_eq_some.mpr ⟨Finset.mem_union_right _ (mem_sent hnew hmatching), fun x hx => ?_⟩
  rcases Finset.mem_union.mp hx with hx | hx
  · exact h.target_le hnew x hx
  · exact (newest_eq_some.mp hnew).2 x (sent_subset _ _ hnew hx)

omit [Fintype Target] in
theorem Kept.run (h : Kept s) : Kept (s.syncdataset noStream sendHolds t fails) := by
  intro t' base hbase
  by_cases ht : t' = t
  · subst ht
    rw [run_target_snapshots] at hbase
    rw [run_source_self, mem_run_target_held, if_pos rfl]
    rcases syncdataset_cases noStream fails (s.view t') with
      hunsent | ⟨newsyncsnap, hnew, hmatching, -, hsynced, hreceived⟩
    · rw [hunsent.target] at hbase ⊢
      obtain ⟨hsource, htarget⟩ := h t' base hbase
      exact ⟨(hunsent.source base).mpr (.inr hsource), .inl htarget⟩
    · have hnewest := h.newest_received noStream hnew hmatching
      rw [hreceived] at hbase
      obtain rfl : newsyncsnap = base := Option.some.inj (hnewest.symm.trans hbase)
      exact ⟨(hsynced.source _).mpr ⟨.inl rfl, hmatching⟩,
        .inl ((hsynced.target _).mpr ⟨.inl rfl, hmatching⟩)⟩
  · rw [run_target_other ht] at hbase ⊢
    rw [run_source_other ht]
    exact h t' base hbase

omit [DecidableEq Target] in
theorem destroy_subset (fs : Pool Target) (snaps : Finset Snapshot) :
    (fs.destroy snaps).snapshots ⊆ fs.snapshots :=
  Finset.filter_subset _ _

omit [DecidableEq Target] in
theorem newest_destroy {fs : Pool Target} {snaps : Finset Snapshot} {base x : Snapshot}
    (hbase : newest fs.snapshots = some base) (hheld : base ∈ fs.held t)
    (hx : newest (fs.destroy snaps).snapshots = some x) : x = base := by
  obtain ⟨hmem, hle⟩ := newest_eq_some.mp hbase
  obtain ⟨hmem', hle'⟩ := newest_eq_some.mp hx
  refine le_antisymm (hle x (destroy_subset fs snaps hmem')) (hle' base ?_)
  exact (fs.destroy snaps).exist t hheld

theorem Kept.step (h : Kept s) (e : Event Target) : Kept (s.step noStream sendHolds e) := by
  cases e with
  | create later => exact h
  | prune snaps => exact h
  | pruneTarget t₀ snaps =>
    intro t base hbase
    by_cases ht : t = t₀
    · subst ht
      simp only [Backups.step, Function.update_self] at hbase ⊢
      obtain ⟨hmem, -⟩ := newest_eq_some.mp hbase
      obtain ⟨base', hbase'⟩ := exists_newest (destroy_subset _ _ hmem)
      obtain ⟨hsource, htarget⟩ := h t base' hbase'
      obtain rfl := newest_destroy hbase' htarget hbase
      exact ⟨hsource, htarget⟩
    · simp only [Backups.step, Function.update_of_ne ht] at hbase ⊢
      exact h t base hbase
  | run t fails => exact h.run

omit [DecidableEq Target] [Fintype Target] in
theorem kept_start (source : Finset Snapshot) : Kept (start source : Backups Target) := by
  intro t base hbase
  cases (newest_eq_some.mp hbase).1

theorem Kept.after (h : Kept s) (events : List (Event Target)) :
    Kept (s.after noStream sendHolds events) := by
  induction events generalizing s with
  | nil => exact h
  | cons e events ih => exact ih (h.step e)

theorem Kept.nonempty_step (h : Kept s) (hne : (s.target t).snapshots.Nonempty)
    (e : Event Target) : ((s.step noStream sendHolds e).target t).snapshots.Nonempty := by
  cases e with
  | create later => exact hne
  | prune snaps => exact hne
  | pruneTarget t₀ snaps =>
    by_cases ht : t = t₀
    · subst ht
      obtain ⟨base, hbase⟩ := exists_newest hne.choose_spec
      simp only [Backups.step, Function.update_self]
      exact ⟨base, ((s.target t).destroy snaps).exist t (h t base hbase).2⟩
    · simp only [Backups.step, Function.update_of_ne ht]
      exact hne
  | run t₀ fails =>
    simp only [Backups.step]
    by_cases ht : t = t₀
    · subst ht
      rw [run_target_snapshots]
      exact hne.mono (syncdataset_target_subset (s := s.view t))
    · rw [run_target_other ht]
      exact hne

theorem Kept.nonempty_after (h : Kept s) (hne : (s.target t).snapshots.Nonempty)
    (events : List (Event Target)) :
    ((s.after noStream sendHolds events).target t).snapshots.Nonempty := by
  induction events generalizing s with
  | nil => exact hne
  | cons e events ih => exact ih (h.step e) (h.nonempty_step hne e)

omit [Fintype Target] in
theorem nonempty_run (hne : s.source.snapshots.Nonempty) :
    ((s.syncdataset noStream sendHolds t false).target t).snapshots.Nonempty := by
  obtain ⟨newsyncsnap, hnew⟩ := exists_newest hne.choose_spec
  have hview : (s.view t).newsyncsnap = some newsyncsnap := hnew
  rw [run_target_snapshots]
  by_cases hmatching : (s.view t).matchingsnap = some newsyncsnap
  · exact ⟨newsyncsnap, syncdataset_target_subset (mem_target_of_matchingsnap hmatching)⟩
  · exact ⟨newsyncsnap, (syncdataset_synced noStream hview hmatching).received⟩

end Kept

theorem base_kept (noStream : Bool) (sendHolds : Target → Bool) (source : Finset Snapshot)
    (before : List (Event Target)) (t : Target) (later : List (Event Target))
    (hsource : ((start source).after noStream sendHolds before).source.snapshots.Nonempty) :
    let s := (start source).after noStream sendHolds (before ++ .run t false :: later)
    ∃ base, newest (s.target t).snapshots = some base ∧ (s.view t).matchingsnap = some base ∧
      ∀ snaps, base ∈ (s.source.destroy snaps).snapshots ∧
        base ∈ ((s.target t).destroy snaps).snapshots := by
  intro s
  have hsplit : s = (((start source).after noStream sendHolds before).step noStream sendHolds
      (.run t false)).after noStream sendHolds later := List.foldl_append
  have hbefore : Kept ((start source).after noStream sendHolds before) :=
    (kept_start source).after before
  have hrun : Kept (((start source).after noStream sendHolds before).step noStream sendHolds
      (.run t false)) := hbefore.step _
  have hkept : Kept s := hsplit ▸ hrun.after later
  have hne : (s.target t).snapshots.Nonempty := by
    rw [hsplit]
    exact hrun.nonempty_after (nonempty_run hsource) later
  obtain ⟨base, hbase⟩ := exists_newest hne.choose_spec
  obtain ⟨hheld, hheld'⟩ := hkept t base hbase
  exact ⟨base, hbase, hkept.matchingsnap hbase, fun snaps =>
    ⟨(s.source.destroy snaps).exist t hheld, ((s.target t).destroy snaps).exist t hheld'⟩⟩

theorem base_kept_rotated :
    let s := (start {0} : Backups Bool).after false (fun _ => false)
      ([.create 0, .run false true] ++ .run true false ::
        [.create 0, .prune {0, 1, 2}, .run true true, .run false false, .pruneTarget true {0, 1}])
    ∃ base, newest (s.target true).snapshots = some base ∧
      (s.view true).matchingsnap = some base ∧
      ∀ snaps, base ∈ (s.source.destroy snaps).snapshots ∧
        base ∈ ((s.target true).destroy snaps).snapshots :=
  base_kept false (fun _ => false) {0} _ true _ ⟨0, by decide⟩

section Covered

def Covered (s : Backups Target) (t : Target) : Prop :=
  ∀ base, newest (s.target t).snapshots = some base →
    ∀ x ∈ s.source.snapshots, x ≤ base → x ∈ (s.target t).snapshots

variable {noStream : Bool} {sendHolds : Target → Bool} {t : Target} {fails : Bool}
  {s : Backups Target}

omit [Fintype Target] [DecidableEq Target] in
theorem Covered.all_sent (hkept : Kept s) (h : Covered s t) (newsyncsnap : Snapshot) :
    s.source.snapshots ⊆ (s.target t).snapshots ∪ (s.view t).sent false newsyncsnap := by
  intro x hx
  rw [Finset.mem_union]
  by_cases hne : (s.target t).snapshots.Nonempty
  · obtain ⟨base, hbase⟩ := exists_newest hne.choose_spec
    have hmatching := hkept.matchingsnap hbase
    rcases le_or_gt x base with hle | hlt
    · exact .inl (h base hbase x hx hle)
    · simp only [State.sent, hmatching]
      exact .inr (Finset.mem_filter.mpr ⟨hx, hlt⟩)
  · have hmatching : (s.view t).matchingsnap = none := by
      rw [Finset.not_nonempty_iff_eq_empty] at hne
      simp [State.matchingsnap, view, Pool.view, hne, newest]
    simp only [State.sent, hmatching]
    exact .inr hx

omit [Fintype Target] in
theorem Covered.run (hkept : Kept s) (h : Covered s t) (t₀ : Target) :
    Covered (s.syncdataset false sendHolds t₀ fails) t := by
  intro base hbase x hx hle
  by_cases ht : t = t₀
  · subst ht
    rw [run_target_snapshots] at hbase ⊢
    rcases syncdataset_cases false fails (s.view t) with
      hunsent | ⟨newsyncsnap, hnew, hmatching, -, -, hreceived⟩
    · rw [hunsent.target] at hbase ⊢
      exact h base hbase x hx hle
    · rw [hreceived]
      exact h.all_sent hkept newsyncsnap hx
  · rw [run_target_other ht] at hbase ⊢
    exact h base hbase x hx hle

omit [DecidableEq Target] in
theorem lt_fresh_of_target {x : Snapshot} (later : ℕ) (h : x ∈ (s.target t).snapshots) :
    x < s.fresh + later := by
  have hmem : x ∈ s.source.snapshots ∪ Finset.univ.biUnion fun t => (s.target t).snapshots :=
    Finset.mem_union_right _ (Finset.mem_biUnion.mpr ⟨t, Finset.mem_univ t, h⟩)
  exact Nat.lt_of_lt_of_le (Nat.lt_succ_of_le (Finset.le_sup (f := id) hmem))
    (Nat.le_add_right _ _)

theorem Covered.step (hkept : Kept s) (h : Covered s t) {e : Event Target}
    (hspared : ∀ snaps, e ≠ .pruneTarget t snaps) :
    Covered (s.step false sendHolds e) t := by
  cases e with
  | create later =>
    intro base hbase x hx hle
    rcases Finset.mem_insert.mp hx with rfl | hx
    · exact absurd (lt_fresh_of_target (s := s) later (newest_eq_some.mp hbase).1) hle.not_gt
    · exact h base hbase x hx hle
  | prune snaps => exact fun base hbase x hx => h base hbase x (destroy_subset _ _ hx)
  | pruneTarget t₀ snaps =>
    have ht : t ≠ t₀ := fun heq => hspared snaps (heq ▸ rfl)
    intro base hbase
    simp only [Backups.step, Function.update_of_ne ht] at hbase ⊢
    exact h base hbase
  | run t₀ fails => exact h.run hkept t₀

omit [Fintype Target] in
theorem Covered.complete (hkept : Kept s) (h : Covered s t) :
    s.source.snapshots ⊆ ((s.syncdataset false sendHolds t false).target t).snapshots := by
  intro x hx
  obtain ⟨newsyncsnap, hnew⟩ := exists_newest hx
  have hview : (s.view t).newsyncsnap = some newsyncsnap := hnew
  rw [run_target_snapshots]
  by_cases hmatching : (s.view t).matchingsnap = some newsyncsnap
  · have hmem := mem_target_of_matchingsnap hmatching
    obtain ⟨base, hbase⟩ := exists_newest hmem
    have hle : x ≤ base :=
      ((newest_eq_some.mp hnew).2 x hx).trans ((newest_eq_some.mp hbase).2 newsyncsnap hmem)
    exact syncdataset_target_subset (h base hbase x hx hle)
  · rw [syncdataset_received hview hmatching]
    exact h.all_sent hkept newsyncsnap hx

theorem Covered.after (hkept : Kept s) (h : Covered s t) {events : List (Event Target)}
    (hspared : ∀ snaps, .pruneTarget t snaps ∉ events) :
    Covered (s.after false sendHolds events) t := by
  induction events generalizing s with
  | nil => exact h
  | cons e events ih =>
    refine ih (hkept.step e) (h.step hkept ?_) ?_
    · exact fun snaps heq => hspared snaps (heq ▸ List.mem_cons_self)
    · exact fun snaps hmem => hspared snaps (List.mem_cons_of_mem _ hmem)

omit [Fintype Target] [DecidableEq Target] in
theorem covered_start (source : Finset Snapshot) (t : Target) : Covered (start source) t := by
  intro base hbase
  cases (newest_eq_some.mp hbase).1

end Covered

theorem nothing_skipped (sendHolds : Target → Bool) (source : Finset Snapshot)
    (events : List (Event Target)) (t : Target)
    (hspared : ∀ snaps, .pruneTarget t snaps ∉ events) :
    let s := (start source).after false sendHolds (events ++ [.run t false])
    s.source.snapshots ⊆ (s.target t).snapshots := by
  intro s
  have hsplit : s = ((start source).after false sendHolds events).syncdataset false sendHolds t
      false := List.foldl_append
  rw [show s.source.snapshots =
    ((start source).after false sendHolds events).source.snapshots from hsplit ▸ rfl, hsplit]
  have hkept : Kept ((start source).after false sendHolds events) :=
    (kept_start source).after events
  exact ((covered_start source t).after (kept_start source) hspared).complete hkept

theorem nothing_skipped_late :
    let s := (start {0} : Backups Bool).after false (fun _ => true)
      ([.run true false, .create 0, .run false true, .run false false, .create 4, .prune {1}] ++
        [.run true false])
    s.source.snapshots ⊆ (s.target true).snapshots :=
  nothing_skipped (fun _ => true) {0} _ true (by simp)

end Backups

end Isz.Syncoid.Replication
