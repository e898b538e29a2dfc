import Isz.Dns.Convergence
import Mathlib.Algebra.GroupWithZero.Nat

namespace Isz.Dns

section Mute

variable {host resource : Str} {records : List Dict}

theorem scan_mute (entries recordsToAdd : List Dict) :
    (scan false host resource records entries recordsToAdd).mute =
      scan true host resource records entries recordsToAdd := by
  induction entries generalizing recordsToAdd with
  | nil => rfl
  | cons entry entries ih =>
    rw [scan, scan]
    split
    case isTrue => exact ih _
    case isFalse =>
      rw [Trace.mute_bind]
      refine bind_congr fun record => ?_
      split
      · split
        · exact ih _
        · rfl
      · simp only [Trace.mute_bind, ih]
        rfl

theorem insertAll_mute (server : Server) (entries : List Dict) :
    (insertAll false server resource entries).mute = insertAll true server resource entries := by
  induction entries with
  | nil => rfl
  | cons entry entries ih =>
    rw [insertAll, insertAll, Trace.mute_bind]
    refine bind_congr fun kwargs => ?_
    split
    · rw [Trace.mute_bind]
      refine bind_congr fun type => ?_
      split
      · exact ih
      · simp only [Trace.mute_bind, ih]
        rfl
    · simp only [Trace.mute_bind, ih]
      rfl

theorem updateResource_mute (env : Environment) (visit : Nat) (server : Server) (w : World) :
    (updateResource env false visit server resource records w).mute =
      updateResource env true visit server resource records w := by
  simp only [updateResource, Trace.mute_bind, scan_mute, insertAll_mute]
  rfl

end Mute

structure Rehearses (dry real : World → Run Nat) (w : World) : Prop where
  silent : (dry w).sent = []
  counts : ∀ count, (dry w).result = .ok count ↔
    (real w).Returns ∧ count = (real w).sent.length

theorem rehearses_mute {real : World → Run Nat} {w : World} (h : Counted (real w)) :
    Rehearses (fun w => (real w).mute) real w := by
  refine ⟨rfl, fun count => ⟨fun hcount => ⟨⟨count, hcount⟩, h count hcount⟩, ?_⟩⟩
  rintro ⟨⟨count', hcount⟩, rfl⟩
  exact hcount.trans (congrArg Except.ok (h count' hcount))

section InTurn

variable (env : Environment) {ι : Type} {dry real : ι → World → Run Nat} {w : World}

theorem inTurn_dry {is : List ι} (h : ∀ i ∈ is, Rehearses (dry i) (real i) w) :
    (inTurn env (is.map dry) w).sent = [] ∧ ∀ count,
      (inTurn env (is.map dry) w).result = .ok count ↔
        (∀ i ∈ is, (real i w).Returns) ∧ count = (is.map fun i => (real i w).sent.length).sum := by
  induction is with
  | nil =>
    refine ⟨rfl, fun count => ⟨fun hcount => ⟨nofun, ?_⟩, ?_⟩⟩
    · exact (Except.ok.inj hcount).symm
    · rintro ⟨-, rfl⟩
      rfl
  | cons i is ih =>
    obtain ⟨hi, his⟩ := List.forall_mem_cons.mp h
    obtain ⟨hsilent, hcounts⟩ := ih his
    rw [List.map_cons, inTurn, hi.silent]
    constructor
    · refine List.eq_nil_iff_forall_not_mem.mpr ?_
      refine Trace.forall_sent_bind (by simp [hi.silent]) fun count => ?_
      refine Trace.forall_sent_bind ?_ fun rest op hop => (by cases hop)
      intro op hop
      rw [show w.after env [] = w from rfl, hsilent] at hop
      cases hop
    · intro count
      simp only [Trace.bind_result_eq_ok, hi.counts, show w.after env [] = w from rfl, hcounts,
        List.forall_mem_cons, List.map_cons, List.sum_cons]
      constructor
      · rintro ⟨first, ⟨hfirst, rfl⟩, rest, ⟨hrest, rfl⟩, hsum⟩
        exact ⟨⟨hfirst, hrest⟩, (Except.ok.inj hsum).symm⟩
      · rintro ⟨⟨hfirst, hrest⟩, rfl⟩
        exact ⟨_, ⟨hfirst, rfl⟩, _, ⟨hrest, rfl⟩, rfl⟩

end InTurn

section Server

variable (env : Environment) (visit : Nat) (server : Server)

theorem passes_length {records : ServerRecords} (hdistinct : (records.map Prod.fst).Nodup)
    {w : World} (h : (inTurn env (passes env false visit server records) w).Returns) :
    (inTurn env (passes env false visit server records) w).sent.length =
      (records.map fun e =>
        (updateResource env false visit server e.1 e.2 w).sent.length).sum := by
  induction records generalizing w with
  | nil => rfl
  | cons e records ih =>
    simp only [List.map_cons, List.nodup_cons] at hdistinct
    have hne : ∀ e' ∈ records, e'.1 ≠ e.1 := fun e' he' heq =>
      hdistinct.1 (heq ▸ List.mem_map_of_mem (f := Prod.fst) he')
    have hsent := inTurn_sent env h
    obtain ⟨-, hrest⟩ := (inTurn_returns env).mp h
    simp only [passes, List.map_cons] at hsent ⊢
    rw [hsent, List.length_append, List.sum_cons]
    refine congrArg₂ (· + ·) rfl ((ih hdistinct.2 hrest).trans ?_)
    refine congrArg List.sum (List.map_congr_left fun e' he' => ?_)
    rw [updateResource_congr
      (updateResource_elsewhere env false visit server (hne e' he') e.2 w)]

theorem updateResource_rehearses (resource : Str) (records : List Dict) (w : World) :
    Rehearses (updateResource env true visit server resource records)
      (updateResource env false visit server resource records) w := by
  have h := rehearses_mute (counted_updateResource env visit server resource records w)
  simp only [updateResource_mute] at h
  exact h

theorem updateServer_rehearses (hosts : Hosts) (w : World) :
    Rehearses (updateServer env true hosts visit server)
      (updateServer env false hosts visit server) w := by
  cases hrecords : getRecordsByType env (w server.host).interfaces server.host hosts with
  | error fault =>
    have hraise : ∀ dryRun, updateServer env dryRun hosts visit server w = Trace.raise fault :=
      fun dryRun => by rw [updateServer, hrecords, Trace.lift_error_bind]
    refine ⟨by rw [hraise]; rfl, fun count => ?_⟩
    rw [hraise, hraise]
    constructor
    · intro h
      cases h
    · rintro ⟨⟨_, h⟩, -⟩
      cases h
  | ok records =>
    have hpasses : ∀ dryRun, updateServer env dryRun hosts visit server w =
        inTurn env (passes env dryRun visit server records) w := fun dryRun => by
      rw [updateServer, hrecords, Trace.lift_ok_bind]
      rfl
    have hdistinct := (getRecordsByType_grouped env _ hrecords).distinct
    obtain ⟨hsilent, hcounts⟩ := inTurn_dry env fun e (_ : e ∈ records) =>
      updateResource_rehearses env visit server e.1 e.2 w
    refine ⟨by rw [hpasses]; exact hsilent, fun count => ?_⟩
    rw [hpasses, hpasses, passes_return env false visit server hdistinct w]
    refine (hcounts count).trans (and_congr_right fun hall => ?_)
    rw [passes_length env visit server hdistinct
      ((passes_return env false visit server hdistinct w).mpr hall)]

end Server

theorem dnsUpdate_dry (env : Environment) (hosts : Hosts) (servers : List Server) (w : World)
    (count : Nat) : (dnsUpdate env true hosts servers w).result = .ok count ↔
      (∀ v ∈ servers.zipIdx, (updateServer env false hosts v.2 v.1 w).Returns) ∧
      count = (servers.zipIdx.map fun v =>
        (updateServer env false hosts v.2 v.1 w).sent.length).sum :=
  (inTurn_dry env fun v (_ : v ∈ servers.zipIdx) =>
    updateServer_rehearses env v.2 v.1 hosts w).2 count

end Isz.Dns
