import Isz.Syncoid.Client
import Isz.Syncoid.Targets
import Mathlib.Data.Fintype.Sets

namespace Isz.Syncoid.Client

open Replication

section Jobs

variable (cfg : Config) (sshKey : Str → Str)

abbrev TargetName := {name // name ∈ cfg.attrNames}

def Config.targetName? (name : Str) : Option (TargetName cfg) :=
  if h : name ∈ cfg.attrNames then some ⟨name, h⟩ else none

def Command.identifier (c : Command) : Option Str :=
  match c.extraArgs.dropWhile (· ≠ "--identifier".toList) with
  | _ :: value :: _ => some value
  | _ => none

-- zfs send -h
def Command.sendsHolds (c : Command) : Bool := (c.sendOptions.takeWhile (· ≠ ' ')).contains 'h'

def job (source name : Str) : Option (TargetName cfg × Command) := do
  let c ← (commands cfg sshKey).get? name
  guard (c.source = source)
  let identifier ← c.identifier
  let t ← cfg.targetName? identifier
  return (t, c)

def sendHolds (t : TargetName cfg) : Bool :=
  ((cfg.cfgTargets.get? t.1).map Target.sendHolds).getD false

def OwnSendHolds (t : TargetName cfg) : Prop :=
  ∃ target, cfg.targets.get? t.1 = some target ∧ target.sendHolds = true

variable {cfg sshKey} {source name : Str} {t : TargetName cfg} {c : Command}

theorem targetName?_eq_some {name : Str} {t : TargetName cfg} :
    cfg.targetName? name = some t ↔ t.1 = name := by
  rw [Config.targetName?]
  split
  case isTrue h => rw [Option.some_inj, Subtype.ext_iff, eq_comm]
  case isFalse h => exact iff_of_false nofun fun heq => h (heq ▸ t.2)

theorem job_eq_some : job cfg sshKey source name = some (t, c) ↔
    (commands cfg sshKey).get? name = some c ∧ c.source = source ∧
      c.identifier = some t.1 := by
  simp only [job, Option.bind_eq_bind, Option.bind_eq_some_iff, Option.guard_eq_some',
    Option.pure_def, Option.some.injEq, Prod.mk.injEq]
  constructor
  · rintro ⟨c, hget, -, hsource, identifier, hid, t, ht, rfl, rfl⟩
    exact ⟨hget, hsource, targetName?_eq_some.mp ht ▸ hid⟩
  · rintro ⟨hget, hsource, hid⟩
    exact ⟨c, hget, (), hsource, t.1, hid, t, targetName?_eq_some.mpr rfl, rfl, rfl⟩

@[simp] theorem identifier_command (name : Str) (target : Target) (source : Str) :
    (command cfg sshKey name target source).identifier = some name := rfl

@[simp] theorem sendsHolds_command (name : Str) (target : Target) (source : Str) :
    (command cfg sshKey name target source).sendsHolds = target.sendHolds := by
  obtain ⟨_, _, _, sendHolds, excludeDatasets⟩ := target
  cases sendHolds <;> cases excludeDatasets <;> rfl

theorem of_job (h : job cfg sshKey source name = some (t, c)) :
    ∃ target, cfg.cfgTargets.get? t.1 = some target ∧
      c = command cfg sshKey t.1 target source := by
  obtain ⟨hget, rfl, hid⟩ := job_eq_some.mp h
  obtain ⟨targetName, target, htarget, source, -, -, rfl⟩ := of_get?_commands hget
  rw [identifier_command, Option.some_inj] at hid
  subst hid
  exact ⟨target, htarget, rfl⟩

theorem sendsHolds_job (h : job cfg sshKey source name = some (t, c)) :
    c.sendsHolds = sendHolds cfg t := by
  obtain ⟨target, htarget, rfl⟩ := of_job h
  simp [sendHolds, htarget]

theorem job_unique {t : TargetName cfg} {name' : Str} {c' : Command}
    (h : job cfg sshKey source name = some (t, c))
    (h' : job cfg sshKey source name' = some (t, c')) : c = c' := by
  obtain ⟨target, htarget, rfl⟩ := of_job h
  obtain ⟨target', htarget', rfl⟩ := of_job h'
  obtain rfl := Option.some.inj (htarget.symm.trans htarget')
  rfl

theorem ne_of_paths {t' : TargetName cfg} {name' : Str} {c' : Command}
    (h : job cfg sshKey source name = some (t, c))
    (h' : job cfg sshKey source name' = some (t', c')) (hpath : c'.target ≠ c.target) :
    t' ≠ t := by
  rintro rfl
  exact hpath (job_unique h' h ▸ rfl)

end Jobs

structure Site (cfg : Config) where
  txg : ℕ
  source : Pool (TargetName cfg)
  replica : Str → Pool (TargetName cfg)

namespace Site

variable {cfg : Config}

def start (snapshots : Finset Snapshot) : Site cfg where
  txg := snapshots.sup id + 1
  source := .unheld snapshots
  replica := fun _ => .unheld ∅

def create (s : Site cfg) (later : ℕ) : Site cfg :=
  { s with
    txg := s.txg + later + 1
    source :=
      { s.source with
        snapshots := insert (s.txg + later) s.source.snapshots
        exist := fun t => (s.source.exist t).trans (Finset.subset_insert _ _) } }

def backups (s : Site cfg) (path : Str) : Backups (TargetName cfg) :=
  ⟨s.source, fun _ => s.replica path⟩

def syncdataset (s : Site cfg) (t : TargetName cfg) (c : Command) (fails : Bool) : Site cfg :=
  let after := (s.backups c.target).syncdataset false (fun _ => c.sendsHolds) t fails
  { s with
    source := after.source
    replica := Function.update s.replica c.target (after.target t) }

inductive Event where
  | create (later : ℕ)
  | prune (snaps : Finset Snapshot)
  | pruneReplica (path : Str) (snaps : Finset Snapshot)
  | run (name : Str) (fails : Bool)

variable (sshKey : Str → Str) (source : Str)

def step (s : Site cfg) : Event → Site cfg
  | .create later => s.create later
  | .prune snaps => { s with source := s.source.destroy snaps }
  | .pruneReplica path snaps =>
    { s with replica := Function.update s.replica path ((s.replica path).destroy snaps) }
  | .run name fails =>
    match job cfg sshKey source name with
    | some (t, c) => s.syncdataset t c fails
    | none => s

def after (s : Site cfg) (events : List Event) : Site cfg :=
  events.foldl (step sshKey source) s

def Writes (t : TargetName cfg) (path : Str) : Prop :=
  ∃ name c, job cfg sshKey source name = some (t, c) ∧ c.target = path

structure Own (s : Site cfg) : Prop where
  sent : ∀ t x, x ∈ s.source.held t → ∃ path, Writes sshKey source t path
  held : ∀ path t x, x ∈ (s.replica path).held t → Writes sshKey source t path

def Spares (cfg : Config) : Prop :=
  ∀ name t c name' t' c', job cfg sshKey source name = some (t, c) →
    job cfg sshKey source name' = some (t', c') → c.sendsHolds = true → c'.target = c.target

variable {sshKey source} {s : Site cfg} {t t' : TargetName cfg} {c : Command} {fails : Bool}
  {path name name' : Str} {c' : Command} {x : Snapshot}

theorem mem_run_source_held (h : x ∈ (s.syncdataset t c fails).source.held t') :
    x ∈ s.source.held t' ∨ t' = t := by
  by_cases ht : t' = t
  · exact .inr ht
  · rw [syncdataset, Backups.run_source_other ht] at h
    exact .inl h

theorem mem_run_replica_held : x ∈ ((s.syncdataset t c fails).replica path).held t' →
    x ∈ (s.replica path).held t' ∨ path = c.target ∧
      (t' = t ∨ c.sendsHolds = true ∧ x ∈ (s.syncdataset t c fails).source.held t') := by
  intro h
  by_cases hpath : path = c.target
  · subst hpath
    simp only [syncdataset, Function.update_self] at h
    rw [Backups.mem_run_target_held] at h
    by_cases ht : t' = t
    · exact .inr ⟨rfl, .inl ht⟩
    · rw [if_neg ht] at h
      rcases h with h | ⟨hsend, hheld, -⟩
      · exact .inl h
      · exact .inr ⟨rfl, .inr ⟨hsend, hheld⟩⟩
  · simp only [syncdataset, Function.update_of_ne hpath] at h
    exact .inl h

theorem pruneReplica_held (path₀ : Str) (snaps : Finset Snapshot) :
    ((s.step sshKey source (.pruneReplica path₀ snaps)).replica path).held =
      (s.replica path).held := by
  by_cases hpath : path = path₀
  · subst hpath
    simp only [step, Function.update_self]
    rfl
  · simp only [step, Function.update_of_ne hpath]

theorem own_start (snapshots : Finset Snapshot) :
    Own sshKey source (start snapshots : Site cfg) where
  sent := fun _ x h => absurd h (Finset.notMem_empty x)
  held := fun _ _ x h => absurd h (Finset.notMem_empty x)

theorem Own.run (hspares : Spares sshKey source cfg) (h : Own sshKey source s)
    (hjob : job cfg sshKey source name = some (t, c)) :
    Own sshKey source (s.syncdataset t c fails) := by
  have hsource : ∀ t' x, x ∈ (s.syncdataset t c fails).source.held t' →
      ∃ path, Writes sshKey source t' path := by
    intro t' x hx
    rcases mem_run_source_held hx with hx | rfl
    · exact h.sent t' x hx
    · exact ⟨c.target, name, c, hjob, rfl⟩
  refine ⟨hsource, fun path t' x hx => ?_⟩
  rcases mem_run_replica_held hx with hx | ⟨rfl, rfl | ⟨hsend, hheld⟩⟩
  · exact h.held path t' x hx
  · exact ⟨name, c, hjob, rfl⟩
  · obtain ⟨path', name', c', hjob', rfl⟩ := hsource t' x hheld
    exact ⟨name', c', hjob', hspares name t c name' t' c' hjob hjob' hsend⟩

theorem Own.step (hspares : Spares sshKey source cfg) (h : Own sshKey source s) (e : Event) :
    Own sshKey source (s.step sshKey source e) := by
  cases e with
  | create later => exact ⟨h.sent, h.held⟩
  | prune snaps => exact ⟨h.sent, h.held⟩
  | pruneReplica path₀ snaps =>
    refine ⟨h.sent, fun path t x hx => h.held path t x ?_⟩
    rwa [← pruneReplica_held path₀ snaps]
  | run name fails =>
    simp only [Site.step]
    split
    next t c hjob => exact h.run hspares hjob
    next => exact h

theorem Own.after (hspares : Spares sshKey source cfg) (h : Own sshKey source s)
    (events : List Event) : Own sshKey source (s.after sshKey source events) := by
  induction events generalizing s with
  | nil => exact h
  | cons e events ih => exact ih (h.step hspares e)

theorem foreign_step (hforeign : ¬Writes sshKey source t' path) (e : Event) :
    (s.replica path).held t' ⊆ ((s.step sshKey source e).replica path).held t' := by
  cases e with
  | create later => exact subset_rfl
  | prune snaps => exact subset_rfl
  | pruneReplica path₀ snaps =>
    exact (congrFun (pruneReplica_held path₀ snaps) t').superset
  | run name fails =>
    simp only [Site.step]
    split
    next t c hjob =>
      by_cases hpath : path = c.target
      · have ht : t' ≠ t := fun ht => hforeign (ht ▸ ⟨name, c, hjob, hpath.symm⟩)
        subst hpath
        intro x hx
        simp only [syncdataset, Function.update_self]
        rw [Backups.mem_run_target_held, if_neg ht]
        exact .inl hx
      · simp only [syncdataset, Function.update_of_ne hpath]
        exact subset_rfl
    next => exact subset_rfl

theorem foreign_after (hforeign : ¬Writes sshKey source t' path) (events : List Event) :
    (s.replica path).held t' ⊆ ((s.after sshKey source events).replica path).held t' := by
  induction events generalizing s with
  | nil => exact subset_rfl
  | cons e events ih => exact (foreign_step hforeign e).trans ih

theorem step_run (hjob : job cfg sshKey source name = some (t, c)) :
    s.step sshKey source (.run name fails) = s.syncdataset t c fails := by
  simp only [step, hjob]

theorem first_run (hsource : s.source.snapshots = {0})
    (hempty : (s.replica c.target).snapshots = ∅) :
    0 ∈ (s.syncdataset t c false).source.held t ∧
      ∀ other, c.sendsHolds = true → other ≠ t → 0 ∈ s.source.held other →
        0 ∈ ((s.syncdataset t c false).replica c.target).held other := by
  have hnew : ((s.backups c.target).view t).newsyncsnap = some 0 :=
    newest_eq_some.mpr (by simp [backups, Backups.view, Pool.view, hsource])
  have hmatching : ((s.backups c.target).view t).matchingsnap ≠ some 0 := by
    intro hmatching
    have hmem : 0 ∈ (s.replica c.target).snapshots := mem_target_of_matchingsnap hmatching
    rw [hempty] at hmem
    exact absurd hmem (Finset.notMem_empty 0)
  have hsynced := syncdataset_synced false hnew hmatching
  constructor
  · rw [syncdataset, Backups.run_source_self]
    exact (hsynced.source 0).mpr ⟨.inl rfl, hmatching⟩
  · intro other hsend ht hheld
    simp only [syncdataset, Function.update_self]
    refine Backups.mem_run_target_held.mpr (.inr ⟨hsend, ?_, hsynced.received, ?_⟩)
    · rwa [Backups.run_source_other ht]
    · exact hempty ▸ Finset.notMem_empty 0

theorem foreign_sent (hjob : job cfg sshKey source name = some (t, c))
    (hjob' : job cfg sshKey source name' = some (t', c')) (hsend : c.sendsHolds = true)
    (hpath : c'.target ≠ c.target) :
    0 ∈ (((start {0}).after sshKey source [.run name' false, .run name false]).replica
      c.target).held t' := by
  have ht : t' ≠ t := ne_of_paths hjob hjob' hpath
  have hfirst : 0 ∈ ((start {0} : Site cfg).syncdataset t' c' false).source.held t' :=
    (first_run rfl rfl).1
  let s : Site cfg := (start {0}).syncdataset t' c' false
  have hempty : (s.replica c.target).snapshots = ∅ := by
    simp only [s, syncdataset, Function.update_of_ne hpath.symm]
    rfl
  simp only [after, List.foldl_cons, List.foldl_nil, step_run hjob, step_run hjob']
  exact (first_run (s := s) rfl hempty).2 t' hsend ht hfirst

end Site

section SendHolds

variable {cfg : Config}

theorem attrNames_disabled (h : cfg.enable = false) :
    cfg.cfgTargets = cfg.targets := by
  rw [Config.cfgTargets, if_neg (by simp [h])]

theorem get?_enabled (h : cfg.enable = true) (name : Str) :
    cfg.cfgTargets.get? name = if name = heartofgold then
      (cfg.withHeartofgold.get? name).map fun target =>
        { target with sendHolds := cfg.attrNames = [heartofgold] }
      else cfg.targets.get? name := by
  rw [Config.cfgTargets, if_pos h, AttrSet.get?_mapAttrs]
  split
  case isTrue heq => simp [heq]
  case isFalse hne =>
    rw [Config.withHeartofgold]
    simp only [AttrSet.get?_update, AttrSet.get?_listToAttrs_eq]
    simp [Ne.symm hne]

theorem subsingleton_of_attrNames (h : cfg.attrNames = [heartofgold]) (t t' : TargetName cfg) :
    t = t' := by
  have hmem : ∀ t : TargetName cfg, t.1 = heartofgold := fun t =>
    List.mem_singleton.mp (h ▸ t.2)
  exact Subtype.ext ((hmem t).trans (hmem t').symm)

theorem sendHolds_other {t t' : TargetName cfg} (ht : t' ≠ t) :
    sendHolds cfg t = true ↔
      OwnSendHolds cfg t ∧ ¬(cfg.enable = true ∧ t.1 = heartofgold) := by
  have hnames : cfg.attrNames ≠ [heartofgold] := fun h =>
    ht (subsingleton_of_attrNames h t' t)
  rw [sendHolds, OwnSendHolds]
  by_cases henable : cfg.enable = true
  · rw [get?_enabled henable]
    by_cases hname : t.1 = heartofgold
    · cases hget : cfg.withHeartofgold.get? t.1 <;> simp [hname, henable, hnames]
    · cases hget : cfg.targets.get? t.1 <;> simp [hname]
  · rw [attrNames_disabled (by simpa using henable)]
    cases hget : cfg.targets.get? t.1 <;> simp [henable]

end SendHolds

-- nothing will ever release those holds on other targets
theorem holds_stuck_iff (cfg : Config) (sshKey : Str → Str) (source : Str) :
    (∃ (snapshots : Finset Snapshot) (events : List Site.Event) (path : Str)
      (t' : TargetName cfg) (x : Snapshot), ¬Site.Writes sshKey source t' path ∧
        ∀ later : List Site.Event, x ∈ ((((Site.start snapshots : Site cfg).after sshKey source
          (events ++ later)).replica path).held t')) ↔
      ∃ name t c name' t' c', job cfg sshKey source name = some (t, c) ∧
        job cfg sshKey source name' = some (t', c') ∧ c'.target ≠ c.target ∧
        OwnSendHolds cfg t ∧ ¬(cfg.enable = true ∧ t.1 = heartofgold) := by
  constructor
  · rintro ⟨snapshots, events, path, t', x, hforeign, hheld⟩
    by_contra hnone
    have hspares : Site.Spares sshKey source cfg := by
      intro name t c name' t' c' hjob hjob' hsend
      by_contra hpath
      have ht : t' ≠ t := ne_of_paths hjob hjob' hpath
      rw [sendsHolds_job hjob, sendHolds_other ht] at hsend
      exact hnone ⟨name, t, c, name', t', c', hjob, hjob', hpath, hsend⟩
    exact hforeign (((Site.own_start snapshots).after hspares (events ++ [])).held path t' x
      (hheld []))
  · rintro ⟨name, t, c, name', t', c', hjob, hjob', hpath, hown⟩
    have ht : t' ≠ t := ne_of_paths hjob hjob' hpath
    have hsend : c.sendsHolds = true := by
      rw [sendsHolds_job hjob]
      exact (sendHolds_other ht).mpr hown
    have hforeign : ¬Site.Writes sshKey source t' c.target := by
      rintro ⟨name'', c'', hjob'', hpath''⟩
      exact hpath (job_unique hjob' hjob'' ▸ hpath'')
    refine ⟨{0}, [.run name' false, .run name false], c.target, t', 0, hforeign, fun later => ?_⟩
    rw [Site.after, List.foldl_append]
    exact Site.foreign_after hforeign later (Site.foreign_sent hjob hjob' hsend hpath)

def pair : Config where
  hostName := ['h']
  zpools := [['p']]
  enable := false
  targets := ⟨[(['a'], { default [['p']] ['a'] with sendHolds := true }),
    (['b'], default [['p']] ['b'])], by decide⟩

example :
    (["p-a".toList, "p-b".toList].map fun name =>
      (job pair id ['p'] name).map fun j => (j.1.1, j.2.target, j.2.sendsHolds)) =
      [some (['a'], "syncoid-h@a.isz.wtf:zpool/backup/h/p".toList, true),
        some (['b'], "syncoid-h@b.isz.wtf:zpool/backup/h/p".toList, false)] := by
  rfl

end Isz.Syncoid.Client
