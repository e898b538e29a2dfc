import Isz.Syncoid.Naming

namespace Isz.Syncoid

structure Service where
  description : Str
  requires : List Str
  after : List Str
  deriving DecidableEq

-- none where allowUnitsByCommand has no attribute for the command
def service (commands : AttrSet Command) (name : Str) (c : Command) : Option Service :=
  ((allowUnitsByCommand commands).get? name).map fun commandAllowUnits =>
    { description := "Syncoid ZFS synchronization from ".toList ++ c.source ++ " to ".toList ++
        c.target
      requires := commandAllowUnits
      after := "zfs.target".toList :: commandAllowUnits }

def serviceName (name : Str) : Str := "syncoid-".toList ++ escapeUnitName name

-- of two commands with one service name mapAttrs' keeps the first
def services (commands : AttrSet Command) : AttrSet (Str × Command) :=
  AttrSet.listToAttrs (fun e => serviceName e.1) commands.entries

def unitsOf (commands : AttrSet Command) (c : Str) : List Str :=
  ((allowCommands commands).filter fun u => c ∈ u.commands).map AllowUnit.file

def Leading (rs : List Request) (r : Request) : Prop :=
  ∀ r' ∈ rs, r'.dataset = r.dataset →
    joined (requesters rs r'.dataset r'.permission) =
      joined (requesters rs r.dataset r.permission) →
    r.permission ≤ r'.permission

structure Served (rs : List Request) (c : Str) : Prop where
  asks : ∃ r ∈ rs, r.command = c ∧ Leading rs r
  once : ∀ r ∈ rs, r.command = c → Leading rs r → rs.count r = 1

def PermissionGroup.key (g : PermissionGroup) : Str := g.dataset ++ '@' :: g.permission

theorem key_le {g g' : PermissionGroup} (hd : g.dataset = g'.dataset) :
    g.key ≤ g'.key ↔ g.permission ≤ g'.permission := by
  rw [PermissionGroup.key, PermissionGroup.key, hd, ← not_lt, ← not_lt, not_iff_not]
  induction g'.dataset with
  | nil => simp
  | cons c d ih => simpa using ih

theorem permissionGroups_sorted (rs : List Request) :
    (permissionGroups rs).Pairwise fun g g' => g.key < g'.key := by
  rw [permissionGroups, AttrSet.mapAttrsToList, List.reduceOption, List.filterMap_map,
    List.pairwise_filterMap]
  have hkey : ∀ entry ∈ (AttrSet.groupBy permissionKey rs).entries, ∀ g,
      (entry.2.head?.map fun p => (⟨p.dataset, p.permission, entry.2.map Request.command⟩ :
        PermissionGroup)) = some g → g.key = entry.1 := by
    rintro ⟨k, ps⟩ hentry g hg
    obtain ⟨p, hp, rfl⟩ := Option.map_eq_some_iff.mp hg
    obtain ⟨-, rfl⟩ := AttrSet.mem_groupBy.mp hentry
    exact of_decide_eq_true (List.mem_filter.mp (List.mem_of_mem_head? hp)).2
  refine (List.pairwise_map.mp (AttrSet.groupBy permissionKey rs).sorted).imp_of_mem ?_
  intro entry entry' hentry hentry' hlt g hg g' hg'
  rwa [hkey entry hentry g hg, hkey entry' hentry' g' hg']

theorem head_filter_le {q : PermissionGroup → Bool} {gs : List PermissionGroup}
    (hsorted : gs.Pairwise fun g g' => g.key < g'.key) {p g : PermissionGroup}
    (hp : (gs.filter q).head? = some p) (hg : g ∈ gs.filter q) : p.key ≤ g.key := by
  obtain ⟨rest, hrest⟩ := List.head?_eq_some_iff.mp hp
  have hpair := hsorted.filter q
  rw [hrest] at hpair hg
  rcases List.mem_cons.mp hg with rfl | hg
  · exact le_rfl
  · exact ((List.pairwise_cons.mp hpair).1 g hg).le

theorem count_requesters (rs : List Request) (c d p : Str) :
    (requesters rs d p).count c = rs.count ⟨c, d, p⟩ := by
  rw [requesters, List.count_eq_countP, List.countP_map, List.countP_filter, List.count_eq_countP]
  refine List.countP_congr fun r _ => ?_
  obtain ⟨c', d', p'⟩ := r
  simp

section Leaders

variable {rs : List Request} (hfree : AtFree rs)
include hfree

theorem group_leader {g : Group} (hg : g ∈ commandGroups (permissionGroups rs)) :
    ∃ r ∈ rs, Leading rs r ∧ g.commands = requesters rs r.dataset r.permission := by
  obtain ⟨⟨k, ps⟩, hentry, heq⟩ := mem_commandGroups.mp hg
  obtain ⟨hk, rfl⟩ := AttrSet.mem_groupBy.mp hentry
  obtain ⟨p, hp, rfl⟩ := Option.map_eq_some_iff.mp heq
  obtain ⟨hps, hkey⟩ := List.mem_filter.mp (List.mem_of_mem_head? hp)
  obtain ⟨r, hr, rfl⟩ := (mem_permissionGroups hfree).mp hps
  refine ⟨r, hr, fun r' hr' hd hjoined => ?_, rfl⟩
  have hps' := (mem_permissionGroups hfree).mpr ⟨r', hr', rfl⟩
  have hkey' := (commandsKey_inj hfree hps' hps).mpr ⟨hjoined, hd⟩
  have hmem : (⟨r'.dataset, r'.permission, requesters rs r'.dataset r'.permission⟩ :
      PermissionGroup) ∈ (permissionGroups rs).filter fun q => commandsKey q = k :=
    List.mem_filter.mpr ⟨hps', decide_eq_true (hkey'.trans (of_decide_eq_true hkey))⟩
  exact (key_le hd.symm).mp (head_filter_le (permissionGroups_sorted rs) hp hmem)

theorem leader_group {r : Request} (hr : r ∈ rs) (hlead : Leading rs r) :
    ∃ g ∈ commandGroups (permissionGroups rs),
      g.commands = requesters rs r.dataset r.permission := by
  have hps := (mem_permissionGroups hfree).mpr ⟨r, hr, rfl⟩
  set pg : PermissionGroup := ⟨r.dataset, r.permission, requesters rs r.dataset r.permission⟩
  have hself : pg ∈ (permissionGroups rs).filter fun q => commandsKey q = commandsKey pg :=
    List.mem_filter.mpr ⟨hps, decide_eq_true rfl⟩
  obtain ⟨p, hp⟩ := Option.isSome_iff_exists.mp
    (List.isSome_head?.mpr (List.ne_nil_of_mem hself))
  refine ⟨_, mem_commandGroups.mpr ⟨_, AttrSet.mem_groupBy.mpr
    ⟨List.mem_map_of_mem hps, rfl⟩, by rw [hp]; rfl⟩, ?_⟩
  obtain ⟨hps', hkey⟩ := List.mem_filter.mp (List.mem_of_mem_head? hp)
  have hle := head_filter_le (permissionGroups_sorted rs) hp hself
  obtain ⟨r', hr', rfl⟩ := (mem_permissionGroups hfree).mp hps'
  obtain ⟨hjoined, hd⟩ := (commandsKey_inj hfree hps' hps).mp (of_decide_eq_true hkey)
  have hperm : r'.permission = r.permission :=
    le_antisymm ((key_le hd).mp hle) (hlead r' hr' hd hjoined)
  change requesters rs r'.dataset r'.permission = _
  rw [show r'.dataset = r.dataset from hd, hperm]

theorem exists_group_iff {c : Str} :
    (∃ g ∈ commandGroups (permissionGroups rs), c ∈ g.commands) ↔
      ∃ r ∈ rs, r.command = c ∧ Leading rs r := by
  constructor
  · rintro ⟨g, hg, hc⟩
    obtain ⟨r, hr, hlead, hcommands⟩ := group_leader hfree hg
    rw [hcommands, mem_requesters] at hc
    exact ⟨_, hc, rfl, hlead⟩
  · rintro ⟨r, hr, rfl, hlead⟩
    obtain ⟨g, hg, hcommands⟩ := leader_group hfree hr hlead
    refine ⟨g, hg, ?_⟩
    rw [hcommands, mem_requesters]
    exact hr

theorem count_le_one_iff {c : Str} :
    (∀ g ∈ commandGroups (permissionGroups rs), g.commands.count c ≤ 1) ↔
      ∀ r ∈ rs, r.command = c → Leading rs r → rs.count r = 1 := by
  constructor
  · rintro h r hr rfl hlead
    obtain ⟨g, hg, hcommands⟩ := leader_group hfree hr hlead
    have hle := h g hg
    rw [hcommands, count_requesters] at hle
    exact le_antisymm hle (List.one_le_count_iff.mpr hr)
  · intro h g hg
    obtain ⟨r, hr, hlead, hcommands⟩ := group_leader hfree hg
    rw [hcommands, count_requesters]
    by_cases hc : ⟨c, r.dataset, r.permission⟩ ∈ rs
    · exact (h _ hc rfl hlead).le
    · rw [List.count_eq_zero.mpr hc]
      exact Nat.zero_le 1

theorem served_iff {c : Str} : Served rs c ↔
    (∃ g ∈ commandGroups (permissionGroups rs), c ∈ g.commands) ∧
      ∀ g ∈ commandGroups (permissionGroups rs), g.commands.count c ≤ 1 := by
  rw [exists_group_iff hfree, count_le_one_iff hfree]
  exact ⟨fun h => ⟨h.asks, h.once⟩, fun h => ⟨h.1, h.2⟩⟩

end Leaders

section Repeated

variable {α β : Type} (n : α → Nat) (f : α → β)

theorem length_filter_le_replicate (l : List α) :
    (l.filter fun a => 0 < n a).length ≤
      (l.flatMap fun a => List.replicate (n a) (f a)).length := by
  induction l with
  | nil => exact Nat.zero_le _
  | cons a l ih =>
    rw [List.flatMap_cons, List.length_append, List.length_replicate, List.filter_cons]
    split
    case isTrue h =>
      rw [List.length_cons]
      have hpos := of_decide_eq_true h
      omega
    case isFalse => exact ih.trans (Nat.le_add_left _ _)

theorem replicate_eq_filter_iff (l : List α) :
    (l.flatMap fun a => List.replicate (n a) (f a)) = (l.filter fun a => 0 < n a).map f ↔
      ∀ a ∈ l, n a ≤ 1 := by
  induction l with
  | nil => simp
  | cons a l ih =>
    rw [List.flatMap_cons, List.forall_mem_cons, ← ih, List.filter_cons]
    have hlength := length_filter_le_replicate n f l
    match hn : n a with
    | 0 => simp
    | 1 => simp
    | k + 2 =>
      refine iff_of_false (fun heq => ?_) (fun h => by omega)
      have hlen := congrArg List.length heq
      rw [List.length_append, List.length_replicate, if_pos (by simp), List.length_map,
        List.length_cons] at hlen
      omega

end Repeated

section Requires

variable {commands : AttrSet Command}

theorem get?_allowUnitsByCommand (c : Str) :
    (allowUnitsByCommand commands).get? c =
      if ∃ u ∈ allowCommands commands, c ∈ u.commands then
        some ((allowCommands commands).flatMap fun u =>
          List.replicate (u.commands.count c) u.file)
      else none := by
  have hmem : c ∈ ((allowCommands commands).flatMap fun u =>
      u.commands.map fun command => (u.file, command)).map Prod.snd ↔
        ∃ u ∈ allowCommands commands, c ∈ u.commands := by
    simp [List.map_flatMap, List.map_map, Function.comp_def]
  have hfiles : (((allowCommands commands).flatMap fun u =>
      u.commands.map fun command => (u.file, command)).filter fun e => e.2 = c).map Prod.fst =
        (allowCommands commands).flatMap fun u =>
          List.replicate (u.commands.count c) u.file := by
    rw [List.filter_flatMap, List.map_flatMap]
    refine List.flatMap_congr fun u _ => ?_
    have heq : u.commands.count c = (u.commands.filter fun command => command = c).length := by
      simp [List.count_eq_countP, List.countP_eq_length_filter, Bool.beq_eq_decide_eq]
    rw [List.filter_map, List.map_map, heq]
    exact List.map_const'
  rw [allowUnitsByCommand, AttrSet.get?_mapAttrs, AttrSet.get?_groupBy]
  simp only [hmem]
  split
  · rw [Option.map_some, hfiles]
  · rfl

theorem allowCommands_perm (commands : AttrSet Command) :
    ((allowCommands commands).map AllowUnit.commands).Perm
      ((groups commands).map Group.commands) := by
  have hperm := (dedupeNames_attributes ((groups commands).map allowUnit)).map
    fun a : Str × List Str × List Str => a.2.1
  rw [List.map_map, List.map_map, List.map_map] at hperm
  exact hperm

theorem forall_allowCommands_iff {P : List Str → Prop} :
    (∀ u ∈ allowCommands commands, P u.commands) ↔ ∀ g ∈ groups commands, P g.commands := by
  have hperm := allowCommands_perm commands
  constructor
  · intro h g hg
    obtain ⟨u, hu, heq⟩ := List.mem_map.mp (hperm.mem_iff.mpr (List.mem_map_of_mem hg))
    exact heq ▸ h u hu
  · intro h u hu
    obtain ⟨g, hg, heq⟩ := List.mem_map.mp (hperm.mem_iff.mp (List.mem_map_of_mem hu))
    exact heq ▸ h g hg

theorem exists_allowCommands_iff {P : List Str → Prop} :
    (∃ u ∈ allowCommands commands, P u.commands) ↔ ∃ g ∈ groups commands, P g.commands := by
  have h : (¬∀ u ∈ allowCommands commands, ¬P u.commands) ↔
      ¬∀ g ∈ groups commands, ¬P g.commands :=
    not_congr (forall_allowCommands_iff (P := fun cs => ¬P cs))
  simpa only [not_forall, not_not, exists_prop] using h

theorem requires_iff (name : Str) (c : Command) :
    (∃ s, service commands name c = some s ∧ s.requires = unitsOf commands name) ↔
      Served (requests commands) name := by
  have hunits : unitsOf commands name =
      ((allowCommands commands).filter fun u => 0 < u.commands.count name).map AllowUnit.file := by
    simp only [unitsOf, List.count_pos_iff]
  rw [served_iff (requests_atFree commands), ← groups,
    ← exists_allowCommands_iff (P := fun cs => name ∈ cs),
    ← forall_allowCommands_iff (P := fun cs => cs.count name ≤ 1),
    ← replicate_eq_filter_iff (fun u : AllowUnit => u.commands.count name) AllowUnit.file,
    ← hunits]
  simp only [service, get?_allowUnitsByCommand]
  split
  case isTrue h =>
    simp [h]
  case isFalse h =>
    simp [h]

end Requires

theorem services_own_iff (commands : AttrSet Command) :
    (∀ e ∈ commands.entries, (services commands).get? (serviceName e.1) = some e) ↔
      (commands.entries.map fun e => serviceName e.1).Nodup := by
  constructor
  · intro h
    have hkeys : commands.entries.Nodup :=
      (List.pairwise_map.mp commands.sorted).imp fun hlt heq => hlt.ne (congrArg Prod.fst heq)
    refine hkeys.map_on fun e he e' he' heq => ?_
    exact Option.some.inj ((h e he).symm.trans (heq ▸ h e' he'))
  · intro h e he
    exact (AttrSet.get?_listToAttrs h).mpr ⟨he, rfl⟩

theorem every_command_served_iff (commands : AttrSet Command) :
    ((∀ e ∈ commands.entries, ∃ s, service commands e.1 e.2 = some s ∧
        s.requires = unitsOf commands e.1) ↔
      ∀ e ∈ commands.entries, Served (requests commands) e.1) ∧
    ((∀ e ∈ commands.entries, (services commands).get? (serviceName e.1) = some e) ↔
      (commands.entries.map fun e => serviceName e.1).Nodup) :=
  ⟨forall₂_congr fun e _ => requires_iff e.1 e.2, services_own_iff commands⟩

def remoteCommands : AttrSet Command where
  entries := [
    ("a".toList, ⟨"u@h:x".toList, "u@h:y".toList, ["send".toList], ["create".toList]⟩)]
  sorted := by decide

theorem remoteCommands_not_served :
    ¬∀ e ∈ remoteCommands.entries, ∃ s, service remoteCommands e.1 e.2 = some s ∧
      s.requires = unitsOf remoteCommands e.1 := by
  have hnone : service remoteCommands "a".toList
      ⟨"u@h:x".toList, "u@h:y".toList, ["send".toList], ["create".toList]⟩ = none := by decide
  intro h
  obtain ⟨s, hs, -⟩ := h _ List.mem_cons_self
  rw [hnone] at hs
  cases hs

end Isz.Syncoid
