import Isz.Library.AttrSet

namespace Isz.Syncoid.Client

structure Target where
  hostName : Str
  sources : List Str
  pool : Str
  sendHolds : Bool
  excludeDatasets : List Str
  deriving DecidableEq

structure Config where
  hostName : Str
  zpools : List Str
  enable : Bool
  targets : AttrSet Target

def default (zpools : List Str) (name : Str) : Target where
  hostName := name ++ ".isz.wtf".toList
  sources := zpools
  pool := "zpool".toList
  sendHolds := false
  excludeDatasets := zpools.map (· ++ "/nix".toList)

def heartofgold : Str := "heartofgold".toList

namespace Config

variable (cfg : Config)

-- what else is configured for heartofgold stays
def withHeartofgold : AttrSet Target :=
  let target := (cfg.targets.get? heartofgold).getD (default cfg.zpools heartofgold)
  cfg.targets.update (AttrSet.listToAttrs (fun _ => heartofgold)
    [{ target with hostName := "heartofgold.mgmt.isz.wtf".toList, pool := "zpool".toList }])

def attrNames : List Str :=
  (if cfg.enable then cfg.withHeartofgold else cfg.targets).entries.map Prod.fst

-- don't propagate holds if there are more than one target
def cfgTargets : AttrSet Target :=
  if cfg.enable then
    cfg.withHeartofgold.mapAttrs fun name target =>
      if name = heartofgold then { target with sendHolds := cfg.attrNames = [heartofgold] }
      else target
  else cfg.targets

end Config

structure Command where
  extraArgs : List Str
  sendOptions : Str
  recvOptions : Str
  source : Str
  target : Str
  sshKey : Str
  deriving DecidableEq

def commandName (source targetName : Str) : Str := source ++ '-' :: targetName

variable (cfg : Config) (sshKey : Str → Str)

def command (targetName : Str) (target : Target) (source : Str) : Command where
  extraArgs := ["--debug".toList, "--no-sync-snap".toList, "--use-hold".toList,
    "--identifier".toList, targetName]
  sendOptions := "Rw".toList ++ (if target.sendHolds then "h".toList else []) ++
    target.excludeDatasets.flatMap fun name => " X ".toList ++ name
  recvOptions := "v u o canmount=off o secondarycache=none o mountpoint=/srv/backup/".toList ++
    cfg.hostName ++ '/' :: source ++ " o com.sun:auto-snapshot=false o readonly=on".toList
  source := source
  target := "syncoid-".toList ++ cfg.hostName ++ '@' :: target.hostName ++ ':' :: target.pool ++
    "/backup/".toList ++ cfg.hostName ++ '/' :: source
  sshKey := sshKey targetName

def commands : AttrSet Command :=
  cfg.cfgTargets.concatMapAttrs fun targetName target =>
    (AttrSet.listToAttrs (commandName · targetName) target.sources).mapAttrs fun _ source =>
      command cfg sshKey targetName target source

def Separate (cfg : Config) : Prop :=
  ∀ name target name' target', cfg.cfgTargets.get? name = some target →
    cfg.cfgTargets.get? name' = some target' →
    ∀ source ∈ target.sources, ∀ source' ∈ target'.sources,
      commandName source name = commandName source' name' → name = name'

variable {cfg sshKey}

theorem commandName_inj {name source source' : Str}
    (h : commandName source name = commandName source' name) : source = source' :=
  List.append_cancel_right h

theorem separate_of_no_dash (h : ∀ name target, cfg.cfgTargets.get? name = some target →
    '-' ∉ name) : Separate cfg := by
  intro name target name' target' hname hname' source _ source' _ heq
  exact (eq_of_append_cons_right (h name target hname) (h name' target' hname') heq).2

theorem get?_own {targetName : Str} {target : Target} {k : Str} {c : Command} :
    ((AttrSet.listToAttrs (commandName · targetName) target.sources).mapAttrs fun _ source =>
      command cfg sshKey targetName target source).get? k = some c ↔
    ∃ source ∈ target.sources, commandName source targetName = k ∧
      command cfg sshKey targetName target source = c := by
  rw [AttrSet.get?_mapAttrs, AttrSet.get?_listToAttrs_eq, Option.map_eq_some_iff]
  constructor
  · rintro ⟨source, hfind, hc⟩
    exact ⟨source, List.mem_of_find?_eq_some hfind,
      of_decide_eq_true (List.find?_eq_some_iff_append.mp hfind).1, hc⟩
  · rintro ⟨source, hmem, rfl, hc⟩
    refine ⟨source, ?_, hc⟩
    cases hfind : target.sources.find? fun s => commandName s targetName =
        commandName source targetName with
    | none => simpa using List.find?_eq_none.mp hfind source hmem
    | some s =>
      have hs : commandName s targetName = commandName source targetName :=
        of_decide_eq_true (List.find?_eq_some_iff_append.mp hfind).1
      rw [commandName_inj hs]

theorem of_get?_commands {k : Str} {c : Command} (h : (commands cfg sshKey).get? k = some c) :
    ∃ targetName target, cfg.cfgTargets.get? targetName = some target ∧
      ∃ source ∈ target.sources, commandName source targetName = k ∧
        command cfg sshKey targetName target source = c := by
  rw [commands, AttrSet.get?_concatMapAttrs] at h
  obtain ⟨⟨targetName, target⟩, hentry, hown⟩ := List.mem_filterMap.mp (List.mem_of_getLast? h)
  exact ⟨targetName, target, AttrSet.get?_eq_some.mpr hentry, get?_own.mp hown⟩

theorem commands_complete_iff (cfg : Config) (sshKey : Str → Str) :
    (∀ name target, cfg.cfgTargets.get? name = some target → ∀ source ∈ target.sources,
      (commands cfg sshKey).get? (commandName source name) =
        some (command cfg sshKey name target source)) ↔
      Separate cfg := by
  constructor
  · intro h name target name' target' hname hname' source hsource source' hsource' heq
    have hc := h name target hname source hsource
    have hc' := h name' target' hname' source' hsource'
    rw [heq, hc'] at hc
    have hargs := congrArg (fun c => c.extraArgs.getLast?) (Option.some.inj hc)
    exact (Option.some.inj hargs).symm
  · intro hseparate name target hname source hsource
    have hsome : ((commands cfg sshKey).get? (commandName source name)).isSome := by
      rw [commands, AttrSet.get?_concatMapAttrs, List.getLast?_isSome]
      exact List.ne_nil_of_mem
        (List.mem_filterMap.mpr ⟨(name, target), AttrSet.get?_eq_some.mp hname,
          get?_own.mpr ⟨source, hsource, rfl, rfl⟩⟩)
    obtain ⟨c, hc⟩ := Option.isSome_iff_exists.mp hsome
    obtain ⟨name', target', hname', source', hsource', hk, rfl⟩ := of_get?_commands hc
    obtain rfl :=
      hseparate name' target' name target hname' hname source' hsource' source hsource hk
    obtain rfl := commandName_inj hk
    rw [hname] at hname'
    obtain rfl := Option.some.inj hname'
    exact hc

end Isz.Syncoid.Client
