import Isz.Syncoid.Allow
import Isz.Library.Runs
import Mathlib.Data.List.DropRight

namespace Isz.Syncoid

open Runs

structure AllowUnit where
  name : Str
  dataset : Str
  commands : List Str
  permissions : List Str
  deriving DecidableEq

def dedupeNames (units : List AllowUnit) : List AllowUnit :=
  ((AttrSet.groupBy AllowUnit.name units).mapAttrs fun _ elements =>
    if elements.length = 1 then elements
    else (elements.zipIdx 1).map fun (e, i) =>
      { e with name := e.name ++ '-' :: Nat.toDigits 10 i }).attrValues.flatten

def allowUnit (g : Group) : AllowUnit where
  name := "syncoidallow-".toList ++ escapeUnitName g.dataset
  dataset := g.dataset
  commands := g.commands
  permissions := g.permissions

def allowCommands (commands : AttrSet Command) : List AllowUnit :=
  dedupeNames ((groups commands).map allowUnit)

def allowUnits (commands : AttrSet Command) : AttrSet AllowUnit :=
  AttrSet.listToAttrs AllowUnit.name (allowCommands commands)

-- the permissions as zfs reads them back from the one argument that the scripts pass
def AllowUnit.delegated (u : AllowUnit) : List Str :=
  splitFields ',' (concatStringsSep [','] u.permissions)

def AllowUnit.file (u : AllowUnit) : Str := u.name ++ ".service".toList

def allowUnitsByCommand (commands : AttrSet Command) : AttrSet (List Str) :=
  (AttrSet.groupBy Prod.snd ((allowCommands commands).flatMap fun u =>
    u.commands.map fun command => (u.file, command))).mapAttrs fun _ us => us.map Prod.fst

-- the generated units that a command's `requires` names; none where the attribute is missing
def requiredUnits (commands : AttrSet Command) (c : Str) : Option (List AllowUnit) :=
  ((allowUnitsByCommand commands).get? c).map fun files =>
    (allowUnits commands).attrValues.filter fun u => u.file ∈ files

def dirOf (path : Str) : Str :=
  if '/' ∈ path then
    match (path.rdropWhile (· ≠ '/')).dropLast with
    | [] => ['/']
    | parent => parent
  else ['.']

structure Zfs where
  datasets : List Str
  delegations : List (Str × Str)

section Zfs

variable (known : Str → Bool)

-- zfs fails on a dataset that does not exist or a permission it does not know; the scripts go on
def accepts (permissions dataset : Str) (z : Zfs) : Bool :=
  dataset ∈ z.datasets ∧ ∀ p ∈ splitFields ',' permissions, known p

def zfsAllow (permissions dataset : Str) (z : Zfs) : Zfs :=
  if accepts known permissions dataset z then
    { z with
      delegations := z.delegations ++ (splitFields ',' permissions).map fun p => (dataset, p) }
  else z

def zfsUnallow (permissions dataset : Str) (z : Zfs) : Zfs :=
  if accepts known permissions dataset z then
    { z with delegations := z.delegations.filter fun e =>
        ¬(e.1 = dataset ∧ e.2 ∈ splitFields ',' permissions) }
  else z

def buildAllowCommand (permissions : List Str) (dataset : Str) (z : Zfs) : Zfs :=
  if dataset ∈ z.datasets then zfsAllow known (concatStringsSep [','] permissions) dataset z
  else if dirOf dataset ≠ ['.'] then
    zfsAllow known (concatStringsSep [','] permissions) (dirOf dataset) z
  else z

def buildUnallowCommand (permissions : List Str) (dataset : Str) (z : Zfs) : Zfs :=
  let z := zfsUnallow known (concatStringsSep [','] permissions) dataset z
  if dirOf dataset ≠ ['.'] then
    zfsUnallow known (concatStringsSep [','] permissions) (dirOf dataset) z
  else z

end Zfs

def place (dataset : Str) (z : Zfs) : Option Str :=
  if dataset ∈ z.datasets then some dataset
  else if dirOf dataset ≠ ['.'] ∧ dirOf dataset ∈ z.datasets then some (dirOf dataset)
  else none

structure ActiveUnit where
  unit : AllowUnit
  place : Option Str
  deriving DecidableEq

structure State where
  zfs : Zfs
  running : List Str
  active : List ActiveUnit

inductive Action where
  | start (command : Str)
  | finish (command : Str)
  | create (command : Str)

section Units

variable (known : Str → Bool)

def startUnit (s : State) (u : AllowUnit) : State :=
  if u ∈ s.active.map ActiveUnit.unit then s
  else
    { s with
      zfs := buildAllowCommand known u.permissions u.dataset s.zfs
      active := s.active ++ [⟨u, place u.dataset s.zfs⟩] }

def stopUnit (z : Zfs) (a : ActiveUnit) : Zfs :=
  buildUnallowCommand known a.unit.permissions a.unit.dataset z

end Units

def Within (a d : Str) : Prop := d = a ∨ a ++ ['/'] <+: d

def Holds (z : Zfs) (dataset permission : Str) : Prop :=
  ∃ a, Within a dataset ∧ (a, permission) ∈ z.delegations

theorem mem_dedupeNames {units : List AllowUnit} {u : AllowUnit} (h : u ∈ units) :
    ∃ name, { u with name := name } ∈ dedupeNames units := by
  have hentry : (u.name, units.filter fun a => a.name = u.name) ∈
      (AttrSet.groupBy AllowUnit.name units).entries :=
    AttrSet.mem_groupBy.mpr ⟨List.mem_map_of_mem h, rfl⟩
  have hmem : u ∈ units.filter fun a => a.name = u.name :=
    List.mem_filter.mpr ⟨h, decide_eq_true rfl⟩
  simp only [dedupeNames, AttrSet.attrValues, AttrSet.mapAttrs, List.map_map, List.mem_flatten,
    List.mem_map]
  by_cases hone : (units.filter fun a => a.name = u.name).length = 1
  · refine ⟨u.name, _, ⟨_, hentry, rfl⟩, ?_⟩
    simp only [Function.comp_apply, hone, if_true]
    exact hmem
  · obtain ⟨i, hi, hget⟩ := List.mem_iff_getElem.mp hmem
    refine ⟨u.name ++ '-' :: Nat.toDigits 10 (1 + i), _, ⟨_, hentry, rfl⟩, ?_⟩
    simp only [Function.comp_apply, hone, if_false, List.mem_map]
    refine ⟨(u, 1 + i), List.mem_iff_getElem.mpr ⟨i, by simpa using hi, ?_⟩, rfl⟩
    simp [hget]

theorem of_mem_dedupeNames {units : List AllowUnit} {u : AllowUnit} (h : u ∈ dedupeNames units) :
    ∃ u' ∈ units, u = { u' with name := u.name } := by
  simp only [dedupeNames, AttrSet.attrValues, AttrSet.mapAttrs, List.map_map, List.mem_flatten,
    List.mem_map] at h
  obtain ⟨_, ⟨⟨k, elements⟩, hentry, rfl⟩, hu⟩ := h
  obtain ⟨-, rfl⟩ := AttrSet.mem_groupBy.mp hentry
  simp only [Function.comp_apply] at hu
  split at hu
  case isTrue => exact ⟨u, List.mem_of_mem_filter hu, rfl⟩
  case isFalse =>
    obtain ⟨⟨u', i⟩, hmem, rfl⟩ := List.mem_map.mp hu
    exact ⟨u', List.mem_of_mem_filter (List.fst_mem_of_mem_zipIdx hmem), rfl⟩

theorem dirOf_within {d : Str} (hhead : d.head? ≠ some '/') (hdot : dirOf d ≠ ['.']) :
    Within (dirOf d) d := by
  have hslash : '/' ∈ d := by
    by_contra hno
    exact hdot (by simp [dirOf, hno])
  set q := d.rdropWhile (· ≠ '/') with hq
  have hne : q ≠ [] := fun hnil => by simpa using List.rdropWhile_eq_nil_iff.mp hnil _ hslash
  have hlast : q.getLast hne = '/' := by
    by_contra hother
    exact List.rdropWhile_last_not _ d hne (decide_eq_true hother)
  have hsplit : q.dropLast ++ ['/'] = q := hlast ▸ List.dropLast_append_getLast hne
  have hprefix : q <+: d := List.rdropWhile_prefix _ _
  simp only [dirOf, hslash, if_true, ← hq]
  cases hparent : q.dropLast with
  | nil =>
    rw [hparent, List.nil_append] at hsplit
    rw [← hsplit] at hprefix
    obtain ⟨rest, rfl⟩ := hprefix
    exact absurd rfl hhead
  | cons c parent =>
    right
    rw [hparent] at hsplit
    change (c :: parent) ++ ['/'] <+: d
    rwa [hsplit]

theorem localDatasetName_head {d dataset : Str} (h : dataset ∈ localDatasetName d) :
    dataset.head? ≠ some '/' := by
  simp only [localDatasetName] at h
  split at h
  case isTrue hmatch =>
    obtain rfl := List.mem_singleton.mp h
    intro hhead
    cases dataset with
    | nil => cases hhead
    | cons c rest =>
      obtain rfl := Option.some.inj hhead
      exact hmatch.1 (by simp)
  case isFalse => cases h

section Delegations

variable {known : Str → Bool}

variable (known) in
theorem place_eq {d x : Str} {z : Zfs} (h : place d z = some x) :
    x ∈ z.datasets ∧ (x = d ∨ dirOf d ≠ ['.'] ∧ x = dirOf d) ∧ ∀ permissions,
      buildAllowCommand known permissions d z =
        zfsAllow known (concatStringsSep [','] permissions) x z := by
  simp only [place] at h
  split at h
  case isTrue hd =>
    obtain rfl := Option.some.inj h
    exact ⟨hd, .inl rfl, fun _ => by simp [buildAllowCommand, hd]⟩
  case isFalse hd =>
    split at h
    case isTrue hparent =>
      obtain rfl := Option.some.inj h
      exact ⟨hparent.2, .inr ⟨hparent.1, rfl⟩, fun _ => by
        simp [buildAllowCommand, hd, hparent.1]⟩
    case isFalse => cases h

theorem zfsAllow_delegations (permissions x : Str) {z : Zfs} {e : Str × Str}
    (he : e ∈ z.delegations) : e ∈ (zfsAllow known permissions x z).delegations := by
  simp only [zfsAllow]
  split
  · exact List.mem_append_left _ he
  · exact he

theorem buildAllowCommand_delegations (permissions : List Str) (d : Str) (z : Zfs)
    {e : Str × Str} (he : e ∈ z.delegations) :
    e ∈ (buildAllowCommand known permissions d z).delegations := by
  simp only [buildAllowCommand]
  split_ifs
  · exact zfsAllow_delegations _ d he
  · exact zfsAllow_delegations _ (dirOf d) he
  · exact he

theorem mem_zfsAllow {permissions x p : Str} {z : Zfs} (hx : x ∈ z.datasets)
    (hknown : ∀ p ∈ splitFields ',' permissions, known p) (hp : p ∈ splitFields ',' permissions) :
    (x, p) ∈ (zfsAllow known permissions x z).delegations := by
  have haccepts : accepts known permissions x z := decide_eq_true ⟨hx, hknown⟩
  simp only [zfsAllow, haccepts, if_true]
  exact List.mem_append_right _ (List.mem_map_of_mem hp)

def Revokes (a : ActiveUnit) (e : Str × Str) : Prop :=
  e.2 ∈ a.unit.delegated ∧
    (e.1 = a.unit.dataset ∨ dirOf a.unit.dataset ≠ ['.'] ∧ e.1 = dirOf a.unit.dataset)

instance (a : ActiveUnit) (e : Str × Str) : Decidable (Revokes a e) :=
  inferInstanceAs (Decidable (_ ∧ (_ ∨ _ ∧ _)))

variable (known) in
theorem zfsUnallow_delegations {permissions x : Str} {z : Zfs} {e : Str × Str}
    (he : e ∈ z.delegations) (hkeep : e.2 ∈ splitFields ',' permissions → e.1 ≠ x) :
    e ∈ (zfsUnallow known permissions x z).delegations := by
  simp only [zfsUnallow]
  split
  · exact List.mem_filter.mpr ⟨he, decide_eq_true fun ⟨hx, hp⟩ => hkeep hp hx⟩
  · exact he

variable (known) in
theorem stopUnit_delegations {a : ActiveUnit} {z : Zfs} {e : Str × Str}
    (he : e ∈ z.delegations) (hkeep : ¬Revokes a e) :
    e ∈ (stopUnit known z a).delegations := by
  have hfirst := zfsUnallow_delegations known (x := a.unit.dataset) he
    fun hp hd => hkeep ⟨hp, .inl hd⟩
  simp only [stopUnit, buildUnallowCommand]
  split
  case isTrue hdot =>
    exact zfsUnallow_delegations known hfirst fun hp hd => hkeep ⟨hp, .inr ⟨hdot, hd⟩⟩
  case isFalse => exact hfirst

theorem foldl_stopUnit_delegations {as : List ActiveUnit} {z : Zfs} {e : Str × Str}
    (he : e ∈ z.delegations) (hkeep : ∀ a ∈ as, ¬Revokes a e) :
    e ∈ (as.foldl (stopUnit known) z).delegations := by
  induction as generalizing z with
  | nil => exact he
  | cons a as ih =>
    have ha := stopUnit_delegations known he (hkeep a List.mem_cons_self)
    exact ih ha fun b hb => hkeep b (List.mem_cons_of_mem _ hb)

def Backed (s : State) : Prop :=
  ∀ a ∈ s.active, ∀ x, a.place = some x →
    Within x a.unit.dataset ∧ ∀ p ∈ a.unit.delegated, (x, p) ∈ s.zfs.delegations

theorem startUnit_active {s : State} {u : AllowUnit} :
    u ∈ (startUnit known s u).active.map ActiveUnit.unit := by
  simp only [startUnit]
  split
  case isTrue h => exact h
  case isFalse => simp

theorem startUnit_active_mono {s : State} {u : AllowUnit} {a : ActiveUnit} (ha : a ∈ s.active) :
    a ∈ (startUnit known s u).active := by
  simp only [startUnit]
  split
  · exact ha
  · exact List.mem_append_left _ ha

theorem startUnit_backed {s : State} {u : AllowUnit} (h : Backed s)
    (hhead : u.dataset.head? ≠ some '/') (hknown : ∀ p ∈ u.delegated, known p) :
    Backed (startUnit known s u) := by
  simp only [startUnit]
  split
  case isTrue => exact h
  case isFalse =>
    intro a ha x hx
    rcases List.mem_append.mp ha with hold | hnew
    · obtain ⟨hwithin, hheld⟩ := h a hold x hx
      exact ⟨hwithin, fun p hp => buildAllowCommand_delegations _ _ _ (hheld p hp)⟩
    · obtain rfl := List.mem_singleton.mp hnew
      obtain ⟨hexists, hplace, hallow⟩ := place_eq known hx
      refine ⟨?_, fun p hp => ?_⟩
      · rcases hplace with rfl | ⟨hdot, rfl⟩
        · exact .inl rfl
        · exact dirOf_within hhead hdot
      · simp only [hallow]
        exact mem_zfsAllow hexists hknown hp

theorem foldl_startUnit {units : List AllowUnit} {s : State} (h : Backed s)
    (hhead : ∀ u ∈ units, u.dataset.head? ≠ some '/')
    (hknown : ∀ u ∈ units, ∀ p ∈ u.delegated, known p) :
    Backed (units.foldl (startUnit known) s) ∧
    (units.foldl (startUnit known) s).running = s.running ∧
    (∀ a ∈ s.active, a ∈ (units.foldl (startUnit known) s).active) ∧
    ∀ u ∈ units, u ∈ (units.foldl (startUnit known) s).active.map ActiveUnit.unit := by
  induction units generalizing s with
  | nil => exact ⟨h, rfl, fun a ha => ha, fun u hu => by cases hu⟩
  | cons u units ih =>
    obtain ⟨hbacked, hrunning, hmono, hactive⟩ := ih
      (startUnit_backed h (hhead u List.mem_cons_self) (hknown u List.mem_cons_self))
      (fun v hv => hhead v (List.mem_cons_of_mem _ hv))
      fun v hv => hknown v (List.mem_cons_of_mem _ hv)
    refine ⟨hbacked, hrunning.trans ?_, fun a ha => hmono a (startUnit_active_mono ha),
      fun v hv => ?_⟩
    · simp only [startUnit]
      split <;> rfl
    · rcases List.mem_cons.mp hv with rfl | hv
      · obtain ⟨a, ha, hunit⟩ := List.mem_map.mp startUnit_active
        exact List.mem_map.mpr ⟨a, hmono a ha, hunit⟩
      · exact hactive v hv

end Delegations

section Systemd

variable (known : Str → Bool) (commands : AttrSet Command)

def needed (running : List Str) (a : ActiveUnit) : Bool :=
  running.any fun c => a.unit ∈ (requiredUnits commands c).getD []

def others (s : State) (c : Str) : List Str := s.running.filter fun c' => c' ≠ c

def staying (s : State) (c : Str) : List ActiveUnit :=
  s.active.filter fun a => needed commands (others s c) a

def stopping (s : State) (c : Str) : List ActiveUnit :=
  s.active.filter fun a => !needed commands (others s c) a

def step (s : State) : Action → Option State
  | .start c =>
    if c ∈ s.running then none
    else (requiredUnits commands c).map fun units =>
      let s := units.foldl (startUnit known) s
      { s with running := s.running ++ [c] }
  | .finish c =>
    if c ∈ s.running then some
      { zfs := (stopping commands s c).foldl (stopUnit known) s.zfs
        running := others s c
        active := staying commands s c }
    else none
  | .create c =>
    if c ∈ s.running then (commands.get? c).map fun command =>
      { s with
        zfs := { s.zfs with datasets := s.zfs.datasets ++ localDatasetName command.target } }
    else none

def initial (z : Zfs) : State := ⟨z, [], []⟩

def AllKnown : Prop := ∀ u ∈ allowCommands commands, ∀ p ∈ u.delegated, known p

instance : Decidable (AllKnown known commands) :=
  inferInstanceAs (Decidable (∀ u ∈ allowCommands commands, ∀ p ∈ u.delegated, known p = true))

def KeepsDelegations (s : State) : Prop :=
  ∀ c ∈ s.running, ∀ r ∈ requests commands, r.command = c →
    (∀ a ∈ s.active, r.dataset = a.unit.dataset → r.permission ∈ a.unit.permissions →
      c ∈ a.unit.commands → a.place ≠ none) →
    ∀ p ∈ splitFields ',' r.permission, Holds s.zfs r.dataset p

theorem mem_requiredUnits (hnames : ((allowCommands commands).map AllowUnit.name).Nodup)
    {u : AllowUnit} {c : Str} (hu : u ∈ allowCommands commands) (hc : c ∈ u.commands) :
    u ∈ (requiredUnits commands c).getD [] := by
  set pairs := (allowCommands commands).flatMap fun u =>
    u.commands.map fun command => (u.file, command) with hpairs
  have hpair : (u.file, c) ∈ pairs :=
    List.mem_flatMap.mpr ⟨u, hu, List.mem_map_of_mem (f := fun command => (u.file, command)) hc⟩
  have hget : (allowUnitsByCommand commands).get? c =
      some ((pairs.filter fun e => e.2 = c).map Prod.fst) := by
    rw [allowUnitsByCommand, AttrSet.get?_mapAttrs, AttrSet.get?_groupBy,
      if_pos (List.mem_map_of_mem (f := Prod.snd) hpair), Option.map_some]
  have hvalue : u ∈ (allowUnits commands).attrValues :=
    AttrSet.mem_attrValues.mpr ⟨u.name, (AttrSet.get?_listToAttrs hnames).mpr ⟨hu, rfl⟩⟩
  simp only [requiredUnits, hget, Option.map_some, Option.getD_some]
  refine List.mem_filter.mpr ⟨hvalue, decide_eq_true ?_⟩
  exact List.mem_map_of_mem (f := Prod.fst) (List.mem_filter.mpr ⟨hpair, decide_eq_true rfl⟩)

theorem of_mem_requiredUnits {c : Str} {units : List AllowUnit} {u : AllowUnit}
    (hunits : requiredUnits commands c = some units) (hu : u ∈ units) :
    u ∈ allowCommands commands := by
  obtain ⟨files, -, rfl⟩ := Option.map_eq_some_iff.mp hunits
  obtain ⟨k, hget⟩ := AttrSet.mem_attrValues.mp (List.mem_of_mem_filter hu)
  exact AttrSet.of_get?_listToAttrs hget

theorem allowCommands_head {u : AllowUnit} (hu : u ∈ allowCommands commands) :
    u.dataset.head? ≠ some '/' := by
  obtain ⟨u', hu', heq⟩ := of_mem_dedupeNames hu
  obtain ⟨g, hg, rfl⟩ := List.mem_map.mp hu'
  obtain ⟨entry, hentry, hgroup⟩ := mem_commandGroups.mp hg
  obtain ⟨⟨r, hr, hdataset, -, -⟩, -⟩ :=
    commandGroup_spec (requests_atFree commands) hentry hgroup
  obtain ⟨d, hd⟩ := request_local hr
  have hsame : u.dataset = r.dataset := by
    rw [heq]
    exact hdataset
  rw [hsame]
  exact localDatasetName_head hd

structure Inv (s : State) : Prop where
  required : ∀ c ∈ s.running, ∀ u ∈ (requiredUnits commands c).getD [],
    u ∈ s.active.map ActiveUnit.unit
  backed : Backed s

def Spares (s : State) : Action → Prop
  | .start _ => True
  | .finish c => ∀ a ∈ stopping commands s c, ∀ b ∈ staying commands s c,
      ∀ x ∈ b.place, ∀ p ∈ b.unit.delegated, ¬Revokes a (x, p)
  | .create _ => True

instance (s : State) : (a : Action) → Decidable (Spares commands s a)
  | .start _ => inferInstanceAs (Decidable True)
  | .finish c => inferInstanceAs (Decidable (∀ a ∈ stopping commands s c,
      ∀ b ∈ staying commands s c, ∀ x ∈ b.place, ∀ p ∈ b.unit.delegated, ¬Revokes a (x, p)))
  | .create _ => inferInstanceAs (Decidable True)

variable {known commands}

theorem start_inv (hknown : AllKnown known commands) {s s' : State} {c : Str}
    (hinv : Inv commands s)
    (hstep : step known commands s (.start c) = some s') : Inv commands s' := by
  simp only [step] at hstep
  split at hstep
  case isTrue => cases hstep
  case isFalse =>
    obtain ⟨units, hunits, rfl⟩ := Option.map_eq_some_iff.mp hstep
    obtain ⟨hbacked, hrunning, hmono, hactive⟩ := foldl_startUnit hinv.backed
      (fun u hu => allowCommands_head commands (of_mem_requiredUnits commands hunits hu))
      fun u hu => hknown u (of_mem_requiredUnits commands hunits hu)
    refine ⟨fun c' hc' u hu => ?_, hbacked⟩
    rcases List.mem_append.mp hc' with hold | hnew
    · rw [hrunning] at hold
      obtain ⟨a, ha, hunit⟩ := List.mem_map.mp (hinv.required c' hold u hu)
      exact List.mem_map.mpr ⟨a, hmono a ha, hunit⟩
    · obtain rfl := List.mem_singleton.mp hnew
      rw [hunits, Option.getD_some] at hu
      exact hactive u hu

theorem finish_inv {s s' : State} {c : Str} (hinv : Inv commands s)
    (hspares : Spares commands s (.finish c))
    (hstep : step known commands s (.finish c) = some s') : Inv commands s' := by
  simp only [step] at hstep
  split at hstep
  case isTrue =>
    obtain rfl := Option.some.inj hstep
    refine ⟨fun c' hc' u hu => ?_, fun b hb x hx => ?_⟩
    · have hrunning := List.mem_of_mem_filter hc'
      obtain ⟨a, ha, rfl⟩ := List.mem_map.mp (hinv.required c' hrunning u hu)
      refine List.mem_map.mpr ⟨a, List.mem_filter.mpr ⟨ha, ?_⟩, rfl⟩
      exact List.any_eq_true.mpr ⟨c', hc', decide_eq_true hu⟩
    · obtain ⟨hwithin, hheld⟩ := hinv.backed b (List.mem_of_mem_filter hb) x hx
      refine ⟨hwithin, fun p hp => foldl_stopUnit_delegations (hheld p hp) fun a ha => ?_⟩
      exact hspares a ha b hb x hx p hp
  case isFalse => cases hstep

theorem create_inv {s s' : State} {c : Str} (hinv : Inv commands s)
    (hstep : step known commands s (.create c) = some s') : Inv commands s' := by
  simp only [step] at hstep
  split at hstep
  case isTrue =>
    obtain ⟨command, -, rfl⟩ := Option.map_eq_some_iff.mp hstep
    exact ⟨hinv.required, hinv.backed⟩
  case isFalse => cases hstep

theorem initial_inv (z : Zfs) : Inv commands (initial z) := by
  constructor
  · intro c hc
    cases hc
  · intro a ha
    cases ha

theorem inv_of_reachable (hknown : AllKnown known commands) {z : Zfs} {s : State}
    (h : Reachable (step known commands) (Spares commands) (initial z) s) : Inv commands s := by
  refine h.invariant (initial_inv z) ?_
  intro s a s' hinv hspares hstep
  cases a with
  | start c => exact start_inv hknown hinv hstep
  | finish c => exact finish_inv hinv hspares hstep
  | create c => exact create_inv hinv hstep

theorem covering_unit (hsep : NamesSeparate (requests commands)) {r : Request}
    (hr : r ∈ requests commands) : ∃ u ∈ allowCommands commands,
      r.command ∈ u.commands ∧ r.dataset = u.dataset ∧ r.permission ∈ u.permissions := by
  obtain ⟨g, hg, hcov⟩ := covered_of_separate (requests_atFree commands) hsep hr
  obtain ⟨name, hu⟩ := mem_dedupeNames (List.mem_map_of_mem (f := allowUnit) hg)
  exact ⟨_, hu, hcov⟩

theorem running_keeps_delegations
    (hnames : ((allowCommands commands).map AllowUnit.name).Nodup)
    (hsep : NamesSeparate (requests commands)) (hknown : AllKnown known commands) (z : Zfs)
    {s : State} (h : Reachable (step known commands) (Spares commands) (initial z) s) :
    KeepsDelegations commands s := by
  rintro c hc r hr rfl hplaced p hp
  have hinv := inv_of_reachable hknown h
  obtain ⟨u, hu, hcommand, hdataset, hperm⟩ := covering_unit hsep hr
  obtain ⟨a, ha, rfl⟩ := List.mem_map.mp
    (hinv.required r.command hc u (mem_requiredUnits commands hnames hu hcommand))
  obtain ⟨x, hx⟩ := Option.ne_none_iff_exists'.mp (hplaced a ha hdataset hperm hcommand)
  obtain ⟨hwithin, hheld⟩ := hinv.backed a ha x hx
  rw [hdataset]
  exact ⟨x, hwithin, hheld p (mem_splitFields_concatStringsSep hperm hp)⟩

end Systemd

def siblingCommands : AttrSet Command where
  entries := [
    ("a".toList, ⟨"u@h:x".toList, "pool/a".toList, [], ["create".toList]⟩),
    ("b".toList, ⟨"u@h:y".toList, "pool/b".toList, [], ["create".toList]⟩)]
  sorted := by decide

def delegable (permission : Str) : Bool := permission = "create".toList

def poolOnly : Zfs where
  datasets := ["pool".toList]
  delegations := []

example : ((allowCommands siblingCommands).map AllowUnit.name).Nodup := by decide

theorem siblingCommands_lose_delegation : ¬∀ s,
    Reachable (step delegable siblingCommands) (fun _ _ => True) (initial poolOnly) s →
    KeepsDelegations siblingCommands s := by
  intro hkeeps
  have hrun : run (step delegable siblingCommands) (fun _ _ => True) (initial poolOnly)
      [.start "a".toList, .start "b".toList, .finish "b".toList] = some {
        zfs := poolOnly
        running := ["a".toList]
        active := [⟨⟨"syncoidallow-pool-a".toList, "pool/a".toList, ["a".toList],
          ["create".toList]⟩, some "pool".toList⟩] } := by
    rfl
  have hlost := hkeeps _ (Reachable.first.run hrun) "a".toList (by decide)
    ⟨"a".toList, "pool/a".toList, "create".toList⟩ (by decide) rfl
    (fun a ha => by
      obtain rfl := List.mem_singleton.mp ha
      simp)
    "create".toList (by decide)
  obtain ⟨x, -, hx⟩ := hlost
  cases hx

theorem running_keeps_delegations_both_exist : KeepsDelegations siblingCommands {
    zfs := ⟨["pool".toList, "pool/a".toList, "pool/b".toList],
      [("pool/a".toList, "create".toList)]⟩
    running := ["a".toList]
    active := [⟨⟨"syncoidallow-pool-a".toList, "pool/a".toList, ["a".toList],
      ["create".toList]⟩, some "pool/a".toList⟩] } := by
  have hrequests : requests siblingCommands =
      [⟨"a".toList, "pool/a".toList, "create".toList⟩,
        ⟨"b".toList, "pool/b".toList, "create".toList⟩] := by decide
  have hsep : NamesSeparate (requests siblingCommands) := by
    simp only [NamesSeparate, hrequests, List.mem_cons, List.not_mem_nil, or_false]
    rintro r (rfl | rfl) r' (rfl | rfl) hdataset - c
    · rfl
    · exact absurd hdataset (by decide)
    · exact absurd hdataset (by decide)
    · rfl
  have hrun : run (step delegable siblingCommands) (Spares siblingCommands)
      (initial ⟨["pool".toList, "pool/a".toList, "pool/b".toList], []⟩)
      [.start "a".toList, .start "b".toList, .finish "b".toList] = some _ := rfl
  exact running_keeps_delegations (by decide) hsep (by decide) _ (Reachable.first.run hrun)

end Isz.Syncoid
