import Isz.Dns.Reconcile

namespace Isz.Dns

section Tables

variable (env : Environment)

theorem after_own (w : World) (host resource : Str) (requests : List Request) :
    (w.after env (requests.map fun request => ⟨host, resource, request⟩) host).tables resource =
      requests.foldl (Table.apply env) ((w host).tables resource) := by
  induction requests generalizing w with
  | nil => rfl
  | cons request requests ih =>
    refine (ih (w.apply env ⟨host, resource, request⟩)).trans ?_
    simp [World.apply]

theorem after_congr {w w' : World} {host resource : Str}
    (h : (w' host).tables resource = (w host).tables resource) (ops : List Op) :
    (w'.after env ops host).tables resource = (w.after env ops host).tables resource := by
  induction ops generalizing w w' with
  | nil => exact h
  | cons op ops ih =>
    refine ih ?_
    simp only [World.apply]
    split
    · simp only [h]
    · exact h

theorem removes_entries (t : Table) (removed : List Str) :
    ((removed.map Request.remove).foldl (Table.apply env) t).entries =
      t.entries.filter fun e => ∀ id ∈ removed, e.lookup "id" ≠ some id := by
  induction removed generalizing t with
  | nil => simp
  | cons id removed ih =>
    rw [List.map_cons, List.foldl_cons, ih, Table.apply, Table.remove, List.filter_filter]
    refine List.filter_congr fun e _ => ?_
    simp only [List.forall_mem_cons, Bool.decide_and]
    exact Bool.and_comm _ _

def StoredAs (row kwargs : Dict) : Prop := ∃ id, row = stored id kwargs

theorem adds_entries (t : Table) (added : List Dict) : ∃ rows,
    ((added.map Request.add).foldl (Table.apply env) t).entries = t.entries ++ rows ∧
      List.Forall₂ StoredAs rows added := by
  induction added generalizing t with
  | nil => exact ⟨[], (List.append_nil _).symm, .nil⟩
  | cons kwargs added ih =>
    obtain ⟨rows, hentries, hrows⟩ := ih (t.add env kwargs)
    refine ⟨stored (env.newId t.entries) kwargs :: rows, ?_, .cons ⟨_, rfl⟩ hrows⟩
    exact hentries.trans (List.append_assoc _ _ _)

end Tables

theorem live_stored (id : Str) (kwargs : Dict) : Live (stored id kwargs) := by
  rw [Live, stored, Finmap.lookup_insert_of_ne _ (by decide), Finmap.lookup_insert]
  decide

section Lists

variable {resource : Str} {records : List Dict}

theorem kept_eq (t : Table) :
    (t.entries.filter fun e => ∀ id ∈ stale resource records t.entries, e.lookup "id" ≠ some id) =
      t.entries.filter fun e => ¬(Live e ∧ recordOf resource e ∉ records) := by
  refine List.filter_congr fun e he => decide_eq_decide.mpr ?_
  obtain ⟨id, hid⟩ := Finmap.mem_iff.mp (t.carries e he).1
  constructor
  · intro h hstale
    refine h id (List.mem_map.mpr ⟨e, List.mem_filter.mpr ⟨he, decide_eq_true hstale⟩, ?_⟩) hid
    rw [hid, Option.getD_some]
  · intro h id' hid' heq
    obtain ⟨e', hfilter, rfl⟩ := List.mem_map.mp hid'
    simp only [List.mem_filter, decide_eq_true_eq] at hfilter
    obtain ⟨he', hstale⟩ := hfilter
    obtain ⟨id'', hid''⟩ := Finmap.mem_iff.mp (t.carries e' he').1
    rw [hid'', Option.getD_some, ← hid''] at heq
    rw [List.inj_on_of_nodup_map t.distinct he he' heq] at h
    exact h hstale

theorem matched_append (entries entries' : List Dict) :
    matched resource records (entries ++ entries') =
      matched resource records entries ++ matched resource records entries' := by
  rw [matched, List.filter_append, List.map_append]
  rfl

theorem stale_append (entries entries' : List Dict) :
    stale resource records (entries ++ entries') =
      stale resource records entries ++ stale resource records entries' := by
  rw [stale, List.filter_append, List.map_append]
  rfl

theorem matched_kept (entries : List Dict) :
    matched resource records
        (entries.filter fun e => ¬(Live e ∧ recordOf resource e ∉ records)) =
      matched resource records entries := by
  rw [matched, matched, List.filter_filter]
  refine congrArg (List.map _) (List.filter_congr fun e _ => ?_)
  rw [← Bool.decide_and, decide_eq_decide]
  tauto

theorem stale_kept (entries : List Dict) :
    stale resource records
        (entries.filter fun e => ¬(Live e ∧ recordOf resource e ∉ records)) = [] := by
  rw [stale, List.filter_filter, List.map_eq_nil_iff, List.filter_eq_nil_iff]
  intro e _ h
  rw [← Bool.decide_and, decide_eq_true_eq] at h
  exact h.2 h.1

def Sticks (server : Server) (resource : Str) (r : Dict) : Prop :=
  ∀ id, recordOf resource (stored id (addKwargs server r)) = r

theorem rows_settle {server : Server} {rows taken : List Dict}
    (hrows : List.Forall₂ StoredAs rows (taken.map (addKwargs server)))
    (hsticks : ∀ r ∈ taken, Sticks server resource r) (hmem : ∀ r ∈ taken, r ∈ records) :
    matched resource records rows = taken ∧ stale resource records rows = [] := by
  induction taken generalizing rows with
  | nil =>
    cases hrows
    exact ⟨rfl, rfl⟩
  | cons r taken ih =>
    rw [List.map_cons] at hrows
    obtain ⟨row, rows, ⟨id, rfl⟩, hrest, rfl⟩ := List.forall₂_cons_right_iff.mp hrows
    obtain ⟨hsticks, hsticks'⟩ := List.forall_mem_cons.mp hsticks
    obtain ⟨hmem, hmem'⟩ := List.forall_mem_cons.mp hmem
    obtain ⟨hmatched, hstale⟩ := ih hrest hsticks' hmem'
    have hrecord : recordOf resource (stored id (addKwargs server r)) ∈ records := by
      rwa [hsticks id]
    constructor
    · rw [matched_keep ⟨live_stored _ _, hrecord⟩, hsticks id, hmatched]
    · rw [stale_skip fun h => h.2 hrecord, hstale]

theorem stale_eq_nil {entries : List Dict} : stale resource records entries = [] ↔
    ∀ e ∈ entries, Live e → recordOf resource e ∈ records := by
  rw [stale, List.map_eq_nil_iff, List.filter_eq_nil_iff]
  refine forall₂_congr fun e _ => ?_
  rw [decide_eq_true_eq, not_and, not_not]

theorem mem_matched_or_missing (entries : List Dict) {r : Dict} (hnodup : records.Nodup)
    (h : r ∈ records) :
    r ∈ matched resource records entries ∨ r ∈ missing resource records entries := by
  by_cases hm : r ∈ matched resource records entries
  · exact .inl hm
  · exact .inr (hnodup.mem_sdiff_iff.mpr ⟨h, hm⟩)

theorem sticks_new {server : Server} {r : Dict} (hold : server.oldDns = false)
    (hresource : r.lookup "_resource" = some resource) (hplain : Plain resource r) :
    Sticks server resource r := by
  intro id
  rw [addKwargs, if_neg (by simp [hold])]
  exact recordOf_stored id hresource hplain

end Lists

section Resource

variable (env : Environment) {visit : Nat} {server : Server} {resource : Str}
  {records : List Dict} {w : World}

def taken (server : Server) (resource : Str) (records entries : List Dict) : List Dict :=
  (missing resource records entries).filter fun r => ¬Skips server r

omit env in
theorem taken_nodup {entries : List Dict} (h : records.Nodup) :
    (taken server resource records entries).Nodup := (missing_nodup h).filter _

omit env in
theorem mem_taken {entries : List Dict} {r : Dict} :
    r ∈ taken server resource records entries ↔
      r ∈ missing resource records entries ∧ ¬Skips server r := by
  rw [taken, List.mem_filter, decide_eq_true_eq]

theorem updateResource_settles (hnodup : records.Nodup)
    (hresource : ∀ r ∈ records, "_resource" ∈ r)
    (hsticks : ∀ r ∈ taken server resource records (entriesOf w resource server.host),
      Sticks server resource r)
    (h : (updateResource env false visit server resource records w).Returns) :
    let w' := w.after env (updateResource env false visit server resource records w).sent
    stale resource records (entriesOf w' resource server.host) = [] ∧ ∃ added,
      added.Perm (taken server resource records (entriesOf w resource server.host)) ∧
      matched resource records (entriesOf w' resource server.host) =
        matched resource records (entriesOf w resource server.host) ++ added := by
  obtain ⟨ordered, hperm, hsent⟩ := updateResource_sent env hnodup hresource h
  set entries := entriesOf w resource server.host with hentries
  set added := ordered.filter fun r => ¬Skips server r with hadded
  have htaken : added.Perm (taken server resource records entries) := hperm.filter _
  have hops : (updateResource env false visit server resource records w).sent =
      ((stale resource records entries).map Request.remove).map
        (fun request => ⟨server.host, resource, request⟩) ++
      ((added.map (addKwargs server)).map Request.add).map
        fun request => ⟨server.host, resource, request⟩ := by
    rw [hsent, List.map_map, List.map_map, List.map_map]
    rfl
  set removes := (stale resource records entries).map Request.remove with hremoves
  set adds := (added.map (addKwargs server)).map Request.add with hadds
  have htable : (w.after env (updateResource env false visit server resource records w).sent
      server.host).tables resource =
      adds.foldl (Table.apply env) (removes.foldl (Table.apply env)
        ((w server.host).tables resource)) := by
    rw [hops, after_append, after_own env (w.after env _), after_own]
  obtain ⟨rows, hrows, hstored⟩ := adds_entries env
    (removes.foldl (Table.apply env) ((w server.host).tables resource))
    (added.map (addKwargs server))
  have hkept : (removes.foldl (Table.apply env) ((w server.host).tables resource)).entries =
      entries.filter fun e => ¬(Live e ∧ recordOf resource e ∉ records) :=
    (removes_entries env _ _).trans (kept_eq ((w server.host).tables resource))
  rw [hkept] at hrows
  have hafter : entriesOf (w.after env (updateResource env false visit server resource records
      w).sent) resource server.host =
      (entries.filter fun e => ¬(Live e ∧ recordOf resource e ∉ records)) ++ rows := by
    rw [entriesOf, htable, hrows]
  have hsettle : matched resource records rows = added ∧ stale resource records rows = [] :=
    rows_settle hstored (fun r hr => hsticks r (htaken.mem_iff.mp hr)) fun r hr =>
      ((mem_missing hnodup).mp (List.mem_of_mem_filter (htaken.mem_iff.mp hr))).1
  obtain ⟨hmatched, hstale⟩ := hsettle
  simp only [hafter]
  refine ⟨?_, added, htaken, ?_⟩
  · rw [stale_append, stale_kept, hstale, List.append_nil]
  · rw [matched_append, matched_kept, hmatched]

theorem updateResource_silent (hnodup : records.Nodup)
    (hresource : ∀ r ∈ records, "_resource" ∈ r)
    (h : (updateResource env false visit server resource records w).Returns) :
    (updateResource env false visit server resource records w).sent = [] ↔
      stale resource records (entriesOf w resource server.host) = [] ∧
      taken server resource records (entriesOf w resource server.host) = [] := by
  obtain ⟨ordered, hperm, hsent⟩ := updateResource_sent env hnodup hresource h
  have htaken : (ordered.filter fun r => ¬Skips server r).Perm
      (taken server resource records (entriesOf w resource server.host)) := hperm.filter _
  rw [hsent, List.append_eq_nil_iff, List.map_eq_nil_iff, List.map_eq_nil_iff,
    ← List.length_eq_zero_iff, ← List.length_eq_zero_iff, htaken.length_eq,
    List.length_eq_zero_iff, List.length_eq_zero_iff]

end Resource

end Isz.Dns
