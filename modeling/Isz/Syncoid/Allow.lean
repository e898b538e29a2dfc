import Isz.Library.AttrSet
import Mathlib.Data.List.Pairwise
import Mathlib.Data.List.ReduceOption
import Mathlib.Data.List.TakeWhile

namespace Isz.Syncoid

-- builtins.match "([^/@]+[^@]*)": the first class takes the longest run it can
def localDatasetName (d : Str) : List Str :=
  if d.takeWhile (fun c => c ≠ '/' ∧ c ≠ '@') ≠ [] ∧
      '@' ∉ d.dropWhile (fun c => c ≠ '/' ∧ c ≠ '@') then [d] else []

-- inside a POSIX bracket expression the backslash stands for itself
def isUnitNameChar (c : Char) : Bool :=
  c.isAlphanum || c == '_' || c == '.' || c == '\\' || c == '-'

-- builtins.split "[^a-zA-Z0-9_.\\-]+", every separator replaced by one "-"
def escapeUnitName : Str → Str
  | [] => []
  | c :: name =>
    if isUnitNameChar c then c :: escapeUnitName name
    else
      match name with
      | [] => ['-']
      | d :: _ => if isUnitNameChar d then '-' :: escapeUnitName name else escapeUnitName name

structure Command where
  source : Str
  target : Str
  localSourceAllow : List Str
  localTargetAllow : List Str

structure Request where
  command : Str
  dataset : Str
  permission : Str
  deriving DecidableEq

structure PermissionGroup where
  dataset : Str
  permission : Str
  commands : List Str
  deriving DecidableEq

structure Group where
  dataset : Str
  commands : List Str
  permissions : List Str
  deriving DecidableEq

def requests (commands : AttrSet Command) : List Request :=
  (commands.mapAttrsToList fun command c =>
    (localDatasetName c.source).flatMap (fun dataset =>
      c.localSourceAllow.map fun permission => ⟨command, dataset, permission⟩) ++
    (localDatasetName c.target).flatMap (fun dataset =>
      c.localTargetAllow.map fun permission => ⟨command, dataset, permission⟩)).flatten

def permissionKey (p : Request) : Str := p.dataset ++ '@' :: p.permission

-- group commands by (dataset, permission)
def permissionGroups (rs : List Request) : List PermissionGroup :=
  ((AttrSet.groupBy permissionKey rs).mapAttrsToList fun _ ps =>
    ps.head?.map fun p => ⟨p.dataset, p.permission, ps.map Request.command⟩).reduceOption

def commandsKey (p : PermissionGroup) : Str :=
  concatStringsSep ['@'] (p.commands ++ [p.dataset])

-- group permissions by (dataset, commands)
def commandGroups (ps : List PermissionGroup) : List Group :=
  ((AttrSet.groupBy commandsKey ps).mapAttrsToList fun _ ps =>
    ps.head?.map fun p => ⟨p.dataset, p.commands, ps.map PermissionGroup.permission⟩).reduceOption

def joined (commands : List Str) : Str := concatStringsSep ['@'] commands

def groups (commands : AttrSet Command) : List Group :=
  commandGroups (permissionGroups (requests commands))

def Group.Covers (g : Group) (r : Request) : Prop :=
  r.command ∈ g.commands ∧ r.dataset = g.dataset ∧ r.permission ∈ g.permissions

def requesters (rs : List Request) (dataset permission : Str) : List Str :=
  (rs.filter fun r => r.dataset = dataset ∧ r.permission = permission).map Request.command

theorem mem_requesters {rs : List Request} {c d p : Str} :
    c ∈ requesters rs d p ↔ ⟨c, d, p⟩ ∈ rs := by
  simp only [requesters, List.mem_map, List.mem_filter, decide_eq_true_eq]
  constructor
  · rintro ⟨⟨_, _, _⟩, ⟨hr, rfl, rfl⟩, rfl⟩
    exact hr
  · intro h
    exact ⟨_, ⟨h, rfl, rfl⟩, rfl⟩

theorem localDatasetName_not_mem {d dataset : Str} (h : dataset ∈ localDatasetName d) :
    '@' ∉ dataset := by
  simp only [localDatasetName] at h
  split at h
  case isTrue hmatch =>
    obtain rfl := List.mem_singleton.mp h
    rw [← List.takeWhile_append_dropWhile (p := fun c => decide (c ≠ '/' ∧ c ≠ '@')) (l := dataset),
      List.mem_append, not_or]
    refine ⟨fun hmem => ?_, hmatch.2⟩
    have := List.mem_takeWhile_imp hmem
    simp at this
  case isFalse => cases h

def AtFree (rs : List Request) : Prop := ∀ r ∈ rs, '@' ∉ r.dataset

theorem request_local {commands : AttrSet Command} {r : Request} (hr : r ∈ requests commands) :
    ∃ d, r.dataset ∈ localDatasetName d := by
  simp only [requests, AttrSet.mapAttrsToList, List.mem_flatten, List.mem_map] at hr
  obtain ⟨_, ⟨entry, -, rfl⟩, hr⟩ := hr
  simp only [List.mem_append, List.mem_flatMap, List.mem_map] at hr
  rcases hr with ⟨d, hd, p, -, rfl⟩ | ⟨d, hd, p, -, rfl⟩ <;> exact ⟨_, hd⟩

theorem requests_atFree (commands : AttrSet Command) : AtFree (requests commands) := by
  intro r hr
  obtain ⟨d, hd⟩ := request_local hr
  exact localDatasetName_not_mem hd

section Grouping

variable {rs : List Request} (hfree : AtFree rs)
include hfree

theorem permissionKey_inj {r r' : Request} (hr : r ∈ rs) (hr' : r' ∈ rs) :
    permissionKey r = permissionKey r' ↔ r.dataset = r'.dataset ∧ r.permission = r'.permission := by
  constructor
  · exact eq_of_append_cons (hfree r hr) (hfree r' hr')
  · rintro ⟨hd, hp⟩
    rw [permissionKey, permissionKey, hd, hp]

theorem mem_permissionGroups {g : PermissionGroup} :
    g ∈ permissionGroups rs ↔ ∃ r ∈ rs,
      g = ⟨r.dataset, r.permission, requesters rs r.dataset r.permission⟩ := by
  have hfilter : ∀ r ∈ rs, (rs.filter fun a => permissionKey a = permissionKey r) =
      rs.filter fun a => a.dataset = r.dataset ∧ a.permission = r.permission := fun r hr =>
    List.filter_congr fun a ha => decide_eq_decide.mpr (permissionKey_inj hfree ha hr)
  simp only [permissionGroups, AttrSet.mapAttrsToList, List.reduceOption_mem_iff, List.mem_map]
  constructor
  · rintro ⟨⟨k, ps⟩, hmem, hhead⟩
    obtain ⟨hk, rfl⟩ := AttrSet.mem_groupBy.mp hmem
    obtain ⟨p, hp, rfl⟩ := Option.map_eq_some_iff.mp hhead
    have hmem := List.mem_of_mem_head? hp
    simp only [List.mem_filter, decide_eq_true_eq] at hmem
    obtain ⟨hprs, rfl⟩ := hmem
    exact ⟨p, hprs, by rw [hfilter p hprs]; rfl⟩
  · rintro ⟨r, hr, rfl⟩
    refine ⟨(permissionKey r, _), AttrSet.mem_groupBy.mpr ⟨List.mem_map_of_mem hr, rfl⟩, ?_⟩
    have hne : (rs.filter fun a => permissionKey a = permissionKey r) ≠ [] :=
      List.ne_nil_of_mem (List.mem_filter.mpr ⟨hr, by simp⟩)
    obtain ⟨p, hp⟩ := Option.isSome_iff_exists.mp (List.isSome_head?.mpr hne)
    have hmem := List.mem_of_mem_head? hp
    simp only [List.mem_filter, decide_eq_true_eq] at hmem
    obtain ⟨hd, hperm⟩ := (permissionKey_inj hfree hmem.1 hr).mp hmem.2
    rw [Option.map_eq_some_iff]
    exact ⟨p, hp, by rw [hfilter r hr, hd, hperm]; rfl⟩

omit hfree in
theorem requesters_ne_nil {r : Request} (hr : r ∈ rs) :
    requesters rs r.dataset r.permission ≠ [] :=
  List.ne_nil_of_mem (mem_requesters.mpr hr)

theorem commandsKey_inj {p q : PermissionGroup} (hp : p ∈ permissionGroups rs)
    (hq : q ∈ permissionGroups rs) : commandsKey p = commandsKey q ↔
      joined p.commands = joined q.commands ∧ p.dataset = q.dataset := by
  obtain ⟨r, hr, rfl⟩ := (mem_permissionGroups hfree).mp hp
  obtain ⟨r', hr', rfl⟩ := (mem_permissionGroups hfree).mp hq
  simp only [commandsKey, intercalate_concat _ (requesters_ne_nil hr),
    intercalate_concat _ (requesters_ne_nil hr'), List.singleton_append]
  constructor
  · exact eq_of_append_cons_right (hfree r hr) (hfree r' hr')
  · rintro ⟨hc, hd⟩
    rw [joined, joined] at hc
    rw [hc, hd]

theorem commandGroup_spec {k : Str} {ps : List PermissionGroup} {g : Group}
    (hentry : (k, ps) ∈ (AttrSet.groupBy commandsKey (permissionGroups rs)).entries)
    (hg : (ps.head?.map fun p =>
      (⟨p.dataset, p.commands, ps.map PermissionGroup.permission⟩ : Group)) = some g) :
    (∃ r ∈ rs, g.dataset = r.dataset ∧ r.permission ∈ g.permissions ∧
      g.commands = requesters rs r.dataset r.permission) ∧
    ∀ permission ∈ g.permissions, ∃ r ∈ rs, r.dataset = g.dataset ∧ r.permission = permission ∧
      joined (requesters rs r.dataset r.permission) = joined g.commands ∧
      commandsKey ⟨r.dataset, r.permission, requesters rs r.dataset r.permission⟩ = k := by
  obtain ⟨hk, rfl⟩ := AttrSet.mem_groupBy.mp hentry
  obtain ⟨p, hp, rfl⟩ := Option.map_eq_some_iff.mp hg
  have hfirst := List.mem_of_mem_head? hp
  simp only [List.mem_filter, decide_eq_true_eq] at hfirst
  obtain ⟨hps, hkey⟩ := hfirst
  constructor
  · obtain ⟨r, hr, hpr⟩ := (mem_permissionGroups hfree).mp hps
    refine ⟨r, hr, by rw [hpr], ?_, by rw [hpr]⟩
    have : p.permission = r.permission := by rw [hpr]
    rw [← this]
    exact List.mem_map_of_mem (List.mem_of_mem_head? hp)
  · intro permission hperm
    obtain ⟨q, hq, rfl⟩ := List.mem_map.mp hperm
    simp only [List.mem_filter, decide_eq_true_eq] at hq
    obtain ⟨hjoined, hdataset⟩ := (commandsKey_inj hfree hq.1 hps).mp (hq.2.trans hkey.symm)
    obtain ⟨r, hr, hqr⟩ := (mem_permissionGroups hfree).mp hq.1
    subst hqr
    exact ⟨r, hr, hdataset, rfl, hjoined, hq.2⟩

omit hfree in
theorem mem_commandGroups {g : Group} : g ∈ commandGroups (permissionGroups rs) ↔
    ∃ entry ∈ (AttrSet.groupBy commandsKey (permissionGroups rs)).entries,
      (entry.2.head?.map fun p =>
        (⟨p.dataset, p.commands, entry.2.map PermissionGroup.permission⟩ : Group)) = some g := by
  simp only [commandGroups, AttrSet.mapAttrsToList, List.reduceOption_mem_iff, List.mem_map]

theorem exists_group {r : Request} (hr : r ∈ rs) :
    ∃ g ∈ commandGroups (permissionGroups rs), ∀ r' ∈ rs, r'.dataset = r.dataset →
      joined (requesters rs r'.dataset r'.permission) =
        joined (requesters rs r.dataset r.permission) →
      r'.dataset = g.dataset ∧ r'.permission ∈ g.permissions := by
  have hpg := (mem_permissionGroups hfree).mpr ⟨r, hr, rfl⟩
  set pg : PermissionGroup := ⟨r.dataset, r.permission, requesters rs r.dataset r.permission⟩
  have hself : pg ∈ (permissionGroups rs).filter fun q => commandsKey q = commandsKey pg :=
    List.mem_filter.mpr ⟨hpg, decide_eq_true rfl⟩
  obtain ⟨p, hp⟩ := Option.isSome_iff_exists.mp
    (List.isSome_head?.mpr (List.ne_nil_of_mem hself))
  have hfirst := List.mem_filter.mp (List.mem_of_mem_head? hp)
  have hdataset := ((commandsKey_inj hfree hpg hfirst.1).mp (of_decide_eq_true hfirst.2).symm).2
  refine ⟨_, mem_commandGroups.mpr ⟨_, AttrSet.mem_groupBy.mpr
    ⟨List.mem_map_of_mem hpg, rfl⟩, by rw [hp]; rfl⟩, fun r' hr' hd hjoined => ?_⟩
  have hpg' := (mem_permissionGroups hfree).mpr ⟨r', hr', rfl⟩
  have hkey := (commandsKey_inj hfree hpg' hpg).mpr ⟨hjoined, hd⟩
  exact ⟨hd.trans hdataset,
    List.mem_map.mpr ⟨_, List.mem_filter.mpr ⟨hpg', decide_eq_true hkey⟩, rfl⟩⟩

theorem groups_disjoint : (commandGroups (permissionGroups rs)).Pairwise fun g g' =>
    ¬(g.dataset = g'.dataset ∧ ∃ p, p ∈ g.permissions ∧ p ∈ g'.permissions) := by
  rw [commandGroups, AttrSet.mapAttrsToList, List.reduceOption, List.filterMap_map,
    List.pairwise_filterMap]
  have hkeys := List.pairwise_map.mp
    (AttrSet.groupBy commandsKey (permissionGroups rs)).sorted
  refine hkeys.imp_of_mem fun {a b} ha hb hlt g hg g' hg' => ?_
  rintro ⟨hdataset, p, hp, hp'⟩
  obtain ⟨r, -, hrd, hrp, -, hrk⟩ := (commandGroup_spec hfree ha hg).2 p hp
  obtain ⟨r', -, hrd', hrp', -, hrk'⟩ := (commandGroup_spec hfree hb hg').2 p hp'
  have hd : r.dataset = r'.dataset := by rw [hrd, hrd', hdataset]
  have hperm : r.permission = r'.permission := by rw [hrp, hrp']
  rw [hd, hperm, hrk'] at hrk
  exact hlt.ne hrk.symm

end Grouping

structure ExactPartition (rs : List Request) (gs : List Group) : Prop where
  covered : ∀ r ∈ rs, ∃ g ∈ gs, g.Covers r ∧ ∀ g' ∈ gs, g'.Covers r → g' = g
  requested : ∀ g ∈ gs, ∀ r, g.Covers r → r ∈ rs
  disjoint : gs.Pairwise fun g g' =>
    ¬(g.dataset = g'.dataset ∧ ∃ p, p ∈ g.permissions ∧ p ∈ g'.permissions)

def NamesSeparate (rs : List Request) : Prop :=
  ∀ r ∈ rs, ∀ r' ∈ rs, r.dataset = r'.dataset →
    joined (requesters rs r.dataset r.permission) =
      joined (requesters rs r'.dataset r'.permission) →
    ∀ c, c ∈ requesters rs r.dataset r.permission ↔ c ∈ requesters rs r'.dataset r'.permission

section Partition

variable {rs : List Request} (hfree : AtFree rs)
include hfree

theorem group_unique {g g' : Group} (hg : g ∈ commandGroups (permissionGroups rs))
    (hg' : g' ∈ commandGroups (permissionGroups rs)) {p : Str} (hd : g.dataset = g'.dataset)
    (hp : p ∈ g.permissions) (hp' : p ∈ g'.permissions) : g = g' := by
  by_contra hne
  have hsymm : Std.Symm fun g g' : Group =>
      ¬(g.dataset = g'.dataset ∧ ∃ p, p ∈ g.permissions ∧ p ∈ g'.permissions) :=
    ⟨fun a b h ⟨hd, p, hp, hp'⟩ => h ⟨hd.symm, p, hp', hp⟩⟩
  exact (groups_disjoint hfree).forall hg hg' hne ⟨hd, p, hp, hp'⟩

theorem mem_group_commands (hsep : NamesSeparate rs) {g : Group}
    (hg : g ∈ commandGroups (permissionGroups rs)) {p : Str} (hp : p ∈ g.permissions) (c : Str) :
    c ∈ g.commands ↔ ⟨c, g.dataset, p⟩ ∈ rs := by
  obtain ⟨entry, hentry, heq⟩ := mem_commandGroups.mp hg
  obtain ⟨⟨r0, hr0, hd0, -, hc0⟩, hall⟩ := commandGroup_spec hfree hentry heq
  obtain ⟨r, hr, hrd, hrp, hjoined, -⟩ := hall p hp
  rw [hc0] at hjoined ⊢
  rw [← hsep r hr r0 hr0 (hrd.trans hd0) hjoined c, mem_requesters, hrd, hrp]

theorem covered_of_separate (hsep : NamesSeparate rs) {r : Request} (hr : r ∈ rs) :
    ∃ g ∈ commandGroups (permissionGroups rs), g.Covers r := by
  obtain ⟨g, hg, hall⟩ := exists_group hfree hr
  obtain ⟨hd, hp⟩ := hall r hr rfl rfl
  refine ⟨g, hg, (mem_group_commands hfree hsep hg hp r.command).mpr ?_, hd, hp⟩
  rw [← hd]
  exact hr

theorem separate_of_partition (hpart : ExactPartition rs (commandGroups (permissionGroups rs))) :
    NamesSeparate rs := by
  have hmem : ∀ r ∈ rs, ∀ g ∈ commandGroups (permissionGroups rs), r.dataset = g.dataset →
      r.permission ∈ g.permissions →
      ∀ c, c ∈ requesters rs r.dataset r.permission ↔ c ∈ g.commands := by
    intro r hr g hg hd hp c
    rw [mem_requesters]
    constructor
    · intro hc
      obtain ⟨g', hg', ⟨hc', hd', hp'⟩, -⟩ := hpart.covered _ hc
      rwa [group_unique hfree hg hg' (hd.symm.trans hd') hp hp']
    · intro hc
      exact hpart.requested g hg ⟨c, r.dataset, r.permission⟩ ⟨hc, hd, hp⟩
  intro r hr r' hr' hd hjoined c
  obtain ⟨g, hg, hall⟩ := exists_group hfree hr
  obtain ⟨hdg, hpg⟩ := hall r hr rfl rfl
  obtain ⟨hdg', hpg'⟩ := hall r' hr' hd.symm hjoined.symm
  rw [hmem r hr g hg hdg hpg c, hmem r' hr' g hg hdg' hpg' c]

end Partition

theorem groups_partition_iff (commands : AttrSet Command) :
    ExactPartition (requests commands) (groups commands) ↔ NamesSeparate (requests commands) := by
  have hfree := requests_atFree commands
  refine ⟨separate_of_partition hfree, fun hsep => ⟨fun r hr => ?_, fun g hg r hcov => ?_,
    groups_disjoint hfree⟩⟩
  · obtain ⟨g, hg, hcov⟩ := covered_of_separate hfree hsep hr
    refine ⟨g, hg, hcov, fun g' hg' hcov' => ?_⟩
    exact group_unique hfree hg' hg (hcov'.2.1.symm.trans hcov.2.1) hcov'.2.2 hcov.2.2
  · obtain ⟨hc, hd, hp⟩ := hcov
    have := (mem_group_commands hfree hsep hg hp r.command).mp hc
    rwa [← hd] at this

def collidingCommands : AttrSet Command where
  entries := [
    ("a".toList, ⟨"p/d".toList, "u@h:p".toList, ["send".toList], []⟩),
    ("a@b".toList, ⟨"p/d".toList, "u@h:p".toList, ["hold".toList], []⟩),
    ("b".toList, ⟨"p/d".toList, "u@h:p".toList, ["send".toList], []⟩)]
  sorted := by decide

theorem collidingCommands_not_partitioned :
    ¬ExactPartition (requests collidingCommands) (groups collidingCommands) := by
  intro hpart
  have hgroups : groups collidingCommands =
      [⟨"p/d".toList, ["a@b".toList], ["hold".toList, "send".toList]⟩] := by decide
  have hrequested : (⟨"a".toList, "p/d".toList, "send".toList⟩ : Request) ∈
      requests collidingCommands := by decide
  obtain ⟨g, hg, ⟨hc, -, -⟩, -⟩ := hpart.covered _ hrequested
  rw [hgroups, List.mem_singleton] at hg
  subst hg
  exact absurd hc (by decide)

end Isz.Syncoid
