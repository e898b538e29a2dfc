import Isz.Dns.Convergence

namespace Isz.Dns

section Lag

variable {resource : Str} {records : List Dict}

def lag (resource : Str) (records entries : List Dict) : Nat :=
  (stale resource records entries).length + (missing resource records entries).length

theorem length_le_filter_ne {α : Type} [DecidableEq α] {l : List α} (h : l.Nodup) (a : α) :
    l.length ≤ (l.filter fun x => x ≠ a).length + 1 := by
  have hone := List.le_length_erase (a := a) (l := l)
  have herase : l.erase a = l.filter fun x => x ≠ a := by
    rw [h.erase_eq_filter]
    exact List.filter_congr fun x _ => by by_cases hx : x = a <;> simp [hx]
  rw [herase] at hone
  omega

theorem missing_eq_filter (h : records.Nodup) (entries : List Dict) :
    missing resource records entries =
      records.filter fun r => r ∉ matched resource records entries := by
  rw [missing, h.sdiff_eq_filter]

theorem lag_add (hnodup : records.Nodup) (entries : List Dict) (row : Dict) :
    lag resource records entries ≤ lag resource records (entries ++ [row]) + 1 := by
  rw [lag, lag, stale_append, List.length_append, missing_eq_filter hnodup,
    missing_eq_filter hnodup, matched_append]
  by_cases h : Live row ∧ recordOf resource row ∈ records
  · have hone := length_le_filter_ne
      (hnodup.filter fun r => r ∉ matched resource records entries) (recordOf resource row)
    have hrow : matched resource records [row] = [recordOf resource row] := matched_keep h
    rw [hrow]
    rw [List.filter_filter] at hone
    have hsame : (records.filter fun r => decide (r ≠ recordOf resource row) &&
        decide (r ∉ matched resource records entries)) =
        records.filter fun r => r ∉ matched resource records entries ++ [recordOf resource row] :=
      List.filter_congr fun r _ => by simp [and_comm]
    rw [hsame] at hone
    omega
  · have hrow : matched resource records [row] = [] := matched_skip h
    rw [hrow, List.append_nil]
    omega

theorem stale_ids (resource : Str) (records : List Dict) (t : Table) :
    (stale resource records t.entries).Nodup ∧ ∀ id, stale resource records
      (t.entries.filter fun e => e.lookup "id" ≠ some id) =
        (stale resource records t.entries).filter fun id' => id' ≠ id := by
  have hid : ∀ e ∈ t.entries, e.lookup "id" = some ((e.lookup "id").getD []) := fun e he => by
    obtain ⟨id, hid⟩ := Finmap.mem_iff.mp (t.carries e he).1
    rw [hid]
    rfl
  refine ⟨?_, fun id => ?_⟩
  · refine List.Nodup.of_map some ?_
    rw [stale, List.map_map, List.map_congr_left (g := fun e => e.lookup "id")]
    · exact t.distinct.sublist (List.filter_sublist.map _)
    · intro e he
      exact (hid e (List.mem_of_mem_filter he)).symm
  · rw [stale, stale, List.filter_map, List.filter_filter, List.filter_filter]
    refine congrArg _ (List.filter_congr fun e he => ?_)
    have hiff : e.lookup "id" ≠ some id ↔ (e.lookup "id").getD [] ≠ id := by
      rw [hid e he]
      simp
    simp only [Function.comp, decide_eq_decide.mpr hiff]
    exact Bool.and_comm _ _

theorem lag_remove (hnodup : records.Nodup) (t : Table) (id : Str) :
    lag resource records t.entries ≤ lag resource records (t.remove id).entries + 1 := by
  obtain ⟨hids, hremove⟩ := stale_ids resource records t
  have hone := length_le_filter_ne hids id
  have hsubset : ∀ r ∈ matched resource records (t.remove id).entries,
      r ∈ matched resource records t.entries := by
    intro r hr
    obtain ⟨hmem, e, he, hlive, heq⟩ := mem_matched.mp hr
    exact mem_matched.mpr ⟨hmem, e, List.mem_of_mem_filter he, hlive, heq⟩
  have hmissing : (missing resource records t.entries).length ≤
      (missing resource records (t.remove id).entries).length := by
    rw [missing_eq_filter hnodup, missing_eq_filter hnodup]
    refine (List.monotone_filter_right _ fun r hr => ?_).length_le
    rw [decide_eq_true_eq] at hr ⊢
    exact fun h => hr (hsubset r h)
  rw [lag, lag]
  have hstale : stale resource records (t.remove id).entries = _ := hremove id
  rw [hstale]
  omega

theorem lag_apply (env : Environment) (hnodup : records.Nodup) (t : Table) (request : Request) :
    lag resource records t.entries ≤ lag resource records (t.apply env request).entries + 1 := by
  cases request with
  | remove id => exact lag_remove hnodup t id
  | add kwargs => exact lag_add hnodup t.entries _

theorem lag_foldl (env : Environment) (hnodup : records.Nodup) (t : Table)
    (requests : List Request) : lag resource records t.entries ≤
      requests.length + lag resource records (requests.foldl (Table.apply env) t).entries := by
  induction requests generalizing t with
  | nil => exact (Nat.zero_add _).ge
  | cons request requests ih =>
    have hfirst : lag resource records t.entries ≤
        lag resource records (t.apply env request).entries + 1 := lag_apply env hnodup t request
    have hrest := ih (t.apply env request)
    rw [List.length_cons, List.foldl_cons]
    omega

theorem lag_perm {records' : List Dict} (h : records.Perm records') (entries : List Dict) :
    lag resource records entries = lag resource records' entries := by
  have hmem : ∀ r, r ∈ records ↔ r ∈ records' := fun r => h.mem_iff
  have hmatched : matched resource records entries = matched resource records' entries := by
    simp only [matched, hmem]
  have hstale : stale resource records entries = stale resource records' entries := by
    simp only [stale, hmem]
  rw [lag, lag, hstale, missing, missing, hmatched, (h.diff_right _).length_eq]

end Lag

section World

variable (env : Environment) (host resource : Str)

def onTable (ops : List Op) : List Op :=
  ops.filter fun op => op.host = host ∧ op.resource = resource

theorem length_onTable_append (ops ops' : List Op) :
    (onTable host resource (ops ++ ops')).length =
      (onTable host resource ops).length + (onTable host resource ops').length := by
  rw [onTable, List.filter_append, List.length_append]
  rfl

variable {host resource} in
theorem apply_tables (w : World) {op : Op} (h : ¬(op.host = host ∧ op.resource = resource)) :
    (w.apply env op host).tables resource = (w host).tables resource := by
  rw [World.apply]
  split
  case isTrue hhost =>
    subst hhost
    exact if_neg fun hresource => h ⟨rfl, hresource.symm⟩
  case isFalse => rfl

theorem after_onTable (w : World) (ops : List Op) :
    (w.after env ops host).tables resource = ((onTable host resource ops).map Op.request).foldl
      (Table.apply env) ((w host).tables resource) := by
  induction ops generalizing w with
  | nil => rfl
  | cons op ops ih =>
    refine (ih (w.apply env op)).trans ?_
    by_cases hat : op.host = host ∧ op.resource = resource
    · obtain ⟨rfl, rfl⟩ := hat
      simp [onTable, World.apply]
    · have hsame : (w.apply env op host).tables resource = (w host).tables resource :=
        apply_tables env w hat
      rw [hsame, onTable, onTable, List.filter_cons_of_neg (by simpa using hat)]

variable {host resource} {records : List Dict} {hosts : Hosts}

theorem lag_le_length (hnodup : records.Nodup) (w : World)
    (hset : ∀ r, r ∈ records ↔ Required env hosts host w resource r) {ops : List Op}
    (hsync : InSync env hosts host (w.after env ops) resource) :
    lag resource records (entriesOf w resource host) ≤ (onTable host resource ops).length := by
  have hcarries := ((w.after env ops host).tables resource).carries
  have hsync' : ∀ r, (∃ e ∈ entriesOf (w.after env ops) resource host, Live e ∧
      recordOf resource e = r) ↔ r ∈ records := by
    intro r
    rw [hset, ← required_after ops, ← hsync r]
    refine exists_congr fun e => and_congr_right fun he => and_congr_right fun _ => ?_
    rw [mikrotikToRecord_eq (hcarries e he), Except.ok.injEq]
  have hstale : stale resource records (entriesOf (w.after env ops) resource host) = [] :=
    stale_eq_nil.mpr fun e he hlive => (hsync' _).mp ⟨e, he, hlive, rfl⟩
  have hmissing : missing resource records (entriesOf (w.after env ops) resource host) = [] := by
    rw [List.eq_nil_iff_forall_not_mem]
    intro r hr
    obtain ⟨hmem, hnone⟩ := (mem_missing hnodup).mp hr
    obtain ⟨e, he, hlive, heq⟩ := (hsync' r).mpr hmem
    exact hnone e he hlive heq
  have hle : lag resource records (entriesOf w resource host) ≤ _ :=
    lag_foldl env hnodup ((w host).tables resource) ((onTable host resource ops).map Op.request)
  rw [← after_onTable, List.length_map] at hle
  change lag resource records (entriesOf w resource host) ≤ _ +
    lag resource records (entriesOf (w.after env ops) resource host) at hle
  rw [lag, lag, hstale, hmissing] at hle
  exact hle

end World

section Prefixes

variable (env : Environment)

theorem prefix_append_cases {α : Type} {cut a b : List α} (h : cut <+: a ++ b) :
    cut <+: a ∨ ∃ rest, cut = a ++ rest ∧ rest <+: b := by
  rcases List.prefix_or_prefix_of_prefix h (List.prefix_append a b) with hle | ⟨rest, rfl⟩
  · exact .inl hle
  · exact .inr ⟨rest, rfl, (List.prefix_append_right_inj a).mp h⟩

theorem inTurn_cut (good : World → Prop) {passes : List (World → Run Nat)}
    (h : ∀ pass ∈ passes, ∀ w, good w → ∀ cut, cut <+: (pass w).sent → good (w.after env cut))
    {w : World} (hw : good w) :
    ∀ cut, cut <+: (inTurn env passes w).sent → good (w.after env cut) := by
  induction passes generalizing w with
  | nil =>
    intro cut hcut
    rw [List.prefix_nil.mp hcut]
    exact hw
  | cons pass passes ih =>
    intro cut hcut
    have hfirst := h pass List.mem_cons_self w hw
    have hrest := ih (fun pass' hpass' => h pass' (List.mem_cons_of_mem _ hpass'))
      (hfirst _ List.prefix_rfl)
    have hsent : (inTurn env (pass :: passes) w).sent <+:
        (pass w).sent ++ (inTurn env passes (w.after env (pass w).sent)).sent := by
      rw [inTurn]
      cases hresult : (pass w).result with
      | error fault =>
        have hx : pass w = ⟨(pass w).sent, .error fault⟩ := by rw [← hresult]
        rw [hx]
        exact List.prefix_append _ _
      | ok count =>
        rw [Trace.bind_sent hresult]
        refine (List.prefix_append_right_inj _).mpr ?_
        cases hrest' : (inTurn env passes (w.after env (pass w).sent)).result with
        | error fault =>
          have hx : inTurn env passes (w.after env (pass w).sent) =
              ⟨(inTurn env passes (w.after env (pass w).sent)).sent, .error fault⟩ := by
            rw [← hrest']
          rw [hx]
          exact List.prefix_rfl
        | ok rest =>
          rw [Trace.bind_sent hrest']
          simp
    rcases prefix_append_cases (hcut.trans hsent) with hle | ⟨rest, rfl, hle⟩
    · exact hfirst cut hle
    · rw [after_append]
      exact hrest rest hle

theorem inTurn_sent_forall {P : Op → Prop} (inv : World → Prop) {passes : List (World → Run Nat)}
    (h : ∀ pass ∈ passes, ∀ w, inv w →
      (∀ op ∈ (pass w).sent, P op) ∧ inv (w.after env (pass w).sent)) {w : World} (hw : inv w) :
    ∀ op ∈ (inTurn env passes w).sent, P op := by
  induction passes generalizing w with
  | nil =>
    intro op hop
    cases hop
  | cons pass passes ih =>
    obtain ⟨hfirst, hnext⟩ := h pass List.mem_cons_self w hw
    have hrest := ih (fun pass' hpass' => h pass' (List.mem_cons_of_mem _ hpass')) hnext
    refine Trace.forall_sent_bind hfirst fun count => ?_
    refine Trace.forall_sent_bind hrest fun rest op hop => ?_
    cases hop

end Prefixes

section Spares

variable (env : Environment) {host resource : Str} {records : List Dict}

def Spares (resource : Str) (records entries : List Dict) (op : Op) : Prop :=
  (∃ kwargs, op.request = .add kwargs) ∨ ∃ e ∈ entries, ∃ id, op.request = .remove id ∧
    e.lookup "id" = some id ∧ Live e ∧ recordOf resource e ∉ records

theorem emit_sent (dryRun : Bool) (op : Op) : ∀ op' ∈ (emit dryRun op).sent, op' = op := by
  intro op' hop
  cases dryRun with
  | true => cases hop
  | false => exact List.mem_singleton.mp hop

theorem scan_spares (dryRun : Bool) {entries : List Dict} (hcarries : ∀ e ∈ entries, Carries e)
    (recordsToAdd : List Dict) :
    ∀ op ∈ (scan dryRun host resource records entries recordsToAdd).sent,
      Spares resource records entries op := by
  induction entries generalizing recordsToAdd with
  | nil =>
    intro op hop
    cases hop
  | cons entry entries ih =>
    have hentry := hcarries entry List.mem_cons_self
    have hrest : ∀ recordsToAdd, ∀ op ∈ (scan dryRun host resource records entries
        recordsToAdd).sent, Spares resource records (entry :: entries) op := by
      intro recordsToAdd op hop
      refine (ih (fun e he => hcarries e (List.mem_cons_of_mem _ he)) _ op hop).imp_right ?_
      rintro ⟨e, he, hspared⟩
      exact ⟨e, List.mem_cons_of_mem _ he, hspared⟩
    by_cases hlive : Live entry
    · by_cases hmem : recordOf resource entry ∈ records
      · rw [scan_keep hentry hlive hmem]
        split
        · exact hrest _
        · intro op hop
          cases hop
      · obtain ⟨id, hid⟩ := Finmap.mem_iff.mp hentry.1
        rw [scan_stale hentry hid hlive hmem]
        refine Trace.forall_sent_bind (fun op hop => ?_) fun _ =>
          Trace.forall_sent_bind (hrest _) fun _ op hop => (by cases hop)
        rw [emit_sent dryRun _ op hop]
        exact .inr ⟨entry, List.mem_cons_self, id, rfl, hid, hlive, hmem⟩
    · rw [scan_skip hlive]
      exact hrest _

theorem insertAll_adds (dryRun : Bool) (server : Server) (taken : List Dict) :
    ∀ op ∈ (insertAll dryRun server resource taken).sent, ∃ kwargs, op.request = .add kwargs := by
  induction taken with
  | nil =>
    intro op hop
    cases hop
  | cons r taken ih =>
    have hcount : ∀ kwargs, ∀ op ∈ (emit dryRun ⟨server.host, resource, .add kwargs⟩ >>= fun _ =>
        insertAll dryRun server resource taken >>= fun count => pure (count + 1)).sent,
        ∃ kwargs, op.request = .add kwargs := by
      intro kwargs
      refine Trace.forall_sent_bind (fun op hop => ?_) fun _ =>
        Trace.forall_sent_bind ih fun _ op hop => (by cases hop)
      rw [emit_sent dryRun _ op hop]
      exact ⟨kwargs, rfl⟩
    rw [insertAll]
    refine Trace.forall_sent_bind (fun op hop => by cases hop) fun kwargs => ?_
    split
    · refine Trace.forall_sent_bind (fun op hop => by cases hop) fun type => ?_
      split
      · exact ih
      · exact Trace.forall_sent_bind (fun op hop => by cases hop) hcount
    · exact hcount kwargs

theorem updateResource_spares (dryRun : Bool) (visit : Nat) (server : Server) (w : World) :
    ∀ op ∈ (updateResource env dryRun visit server resource records w).sent,
      Spares resource records (entriesOf w resource server.host) op := by
  have hcarries := ((w server.host).tables resource).carries
  refine Trace.forall_sent_bind (scan_spares dryRun hcarries records) fun _ =>
    Trace.forall_sent_bind (fun op hop => by cases hop) fun ordered =>
    Trace.forall_sent_bind (fun op hop => ?_) fun _ op hop => (by cases hop)
  exact .inl (insertAll_adds dryRun server ordered op hop)

theorem mem_after {w : World} {e : Dict} (he : e ∈ entriesOf w resource host) {ops : List Op}
    (h : ∀ op ∈ ops, op.host = host → op.resource = resource → ∀ id,
      op.request = .remove id → e.lookup "id" ≠ some id) :
    e ∈ entriesOf (w.after env ops) resource host := by
  induction ops generalizing w with
  | nil => exact he
  | cons op ops ih =>
    refine ih ?_ fun op' hop' => h op' (List.mem_cons_of_mem _ hop')
    have hop := h op List.mem_cons_self
    by_cases hat : op.host = host ∧ op.resource = resource
    · obtain ⟨rfl, rfl⟩ := hat
      have htable : (w.apply env op op.host).tables op.resource =
          ((w op.host).tables op.resource).apply env op.request := by
        simp [World.apply]
      rw [entriesOf, htable]
      cases hrequest : op.request with
      | remove id => exact List.mem_filter.mpr ⟨he, by simpa using hop rfl rfl id hrequest⟩
      | add kwargs => exact List.mem_append_left _ he
    · have hsame : (w.apply env op host).tables resource = (w host).tables resource :=
        apply_tables env w hat
      rwa [entriesOf, hsame]

end Spares

section Keeps

variable (env : Environment) (hosts : Hosts) {host resource : Str}

def SameInterfaces (w w' : World) : Prop := ∀ host, (w' host).interfaces = (w host).interfaces

theorem SameInterfaces.after {w w' : World} (h : SameInterfaces w w') (ops : List Op) :
    SameInterfaces w (w'.after env ops) := fun host =>
  (after_interfaces env w' ops host).trans (h host)

theorem SameInterfaces.required {w w' : World} (h : SameInterfaces w w') (host resource : Str) :
    Required env hosts host w' resource = Required env hosts host w resource := by
  funext r
  rw [Required, Required, h host]

theorem updateServer_cases (dryRun : Bool) (visit : Nat) (server : Server) (w : World) :
    (updateServer env dryRun hosts visit server w).sent = [] ∨ ∃ records : ServerRecords,
      Grouped records (Requires env (w server.host).interfaces server.host hosts) ∧
      updateServer env dryRun hosts visit server w =
        inTurn env (passes env dryRun visit server records) w := by
  cases hrecords : getRecordsByType env (w server.host).interfaces server.host hosts with
  | error fault =>
    left
    rw [updateServer, hrecords, Trace.lift_error_bind]
    rfl
  | ok records =>
    refine .inr ⟨records, getRecordsByType_grouped env _ hrecords, ?_⟩
    rw [updateServer, hrecords, Trace.lift_ok_bind]
    rfl

def Right (w : World) (host resource : Str) (e : Dict) : Prop :=
  ¬Live e ∨ ∃ r, Required env hosts host w resource r ∧ mikrotikToRecord resource e = .ok r

theorem updateResource_keeps {dryRun : Bool} {visit : Nat} {server : Server} {w w' : World}
    (hsame : SameInterfaces w w') {e : Dict} (hright : Right env hosts w host resource e)
    {set : List Dict} {resource' : Str} (hset : ∀ r, r ∈ set ↔
      Requires env (w' server.host).interfaces server.host hosts resource' r)
    (he : e ∈ entriesOf w' resource host) {cut : List Op}
    (hcut : cut <+: (updateResource env dryRun visit server resource' set w').sent) :
    e ∈ entriesOf (w'.after env cut) resource host := by
  refine mem_after env he fun op hop hhost hresource id hrequest hid => ?_
  have hsent := hcut.subset hop
  obtain ⟨hto, hto'⟩ := sentTo_updateResource env dryRun visit server set w' op hsent
  rcases updateResource_spares env dryRun visit server w' op hsent with
    ⟨kwargs, hadd⟩ | ⟨row, hrow, id', hremove, hid', hlive, hnot⟩
  · rw [hadd] at hrequest
    cases hrequest
  · obtain rfl : id' = id := Request.remove.inj (hremove.symm.trans hrequest)
    obtain rfl : server.host = host := hto.symm.trans hhost
    obtain rfl : resource' = resource := hto'.symm.trans hresource
    obtain rfl : e = row := List.inj_on_of_nodup_map ((w' server.host).tables resource').distinct
      he hrow (hid.trans hid'.symm)
    rcases hright with hdynamic | ⟨r, hr, hrecord⟩
    · exact hdynamic hlive
    · rw [mikrotikToRecord_eq (Table.carries _ e he)] at hrecord
      obtain rfl := Except.ok.inj hrecord
      rw [← hsame.required env hosts] at hr
      exact hnot ((hset _).mpr hr)

theorem updateServer_keeps {dryRun : Bool} {visit : Nat} {server : Server} {w : World} {e : Dict}
    (hright : Right env hosts w host resource e) {w' : World}
    (hgood : SameInterfaces w w' ∧ e ∈ entriesOf w' resource host) {cut : List Op}
    (hcut : cut <+: (updateServer env dryRun hosts visit server w').sent) :
    SameInterfaces w (w'.after env cut) ∧ e ∈ entriesOf (w'.after env cut) resource host := by
  rcases updateServer_cases env hosts dryRun visit server w' with hnil | ⟨records, hgrouped, heq⟩
  · rw [hnil] at hcut
    rw [List.prefix_nil.mp hcut]
    exact hgood
  · rw [heq] at hcut
    refine inTurn_cut env (fun w'' => SameInterfaces w w'' ∧
      (w'' server.host).interfaces = (w' server.host).interfaces ∧
      e ∈ entriesOf w'' resource host) ?_ ⟨hgood.1, rfl, hgood.2⟩ cut hcut |>.imp_right And.right
    rintro pass hpass w'' ⟨hsame, hinterfaces, he⟩ cut hcut
    obtain ⟨⟨resource', set⟩, hmem, rfl⟩ := List.mem_map.mp hpass
    obtain ⟨-, -, hset⟩ := hgrouped.sets _ _ hmem
    rw [← hinterfaces] at hset
    exact ⟨hsame.after env cut, (after_interfaces env w'' cut server.host).trans hinterfaces,
      updateResource_keeps env hosts hsame hright hset he hcut⟩

theorem dnsUpdate_sentTo (dryRun : Bool) (servers : List Server) (w : World) :
    ∀ op ∈ (dnsUpdate env dryRun hosts servers w).sent, op.host ∈ servers.map Server.host ∧
      ∃ r, Required env hosts op.host w op.resource r := by
  refine inTurn_sent_forall env (SameInterfaces w) ?_ fun _ => rfl
  intro pass hpass w' hsame
  obtain ⟨⟨server, visit⟩, hv, rfl⟩ := List.mem_map.mp hpass
  refine ⟨fun op hop => ?_, hsame.after env _⟩
  change op ∈ (updateServer env dryRun hosts visit server w').sent at hop
  rcases updateServer_cases env hosts dryRun visit server w' with hnil | ⟨records, hgrouped, heq⟩
  · rw [hnil] at hop
    cases hop
  · rw [heq] at hop
    obtain ⟨hhost, hresource⟩ := passes_sentTo env dryRun visit server records w' op hop
    obtain ⟨⟨resource, set⟩, hmem, heq⟩ := List.mem_map.mp hresource
    obtain ⟨hne, -, hset⟩ := hgrouped.sets _ _ hmem
    obtain ⟨r, hr⟩ := List.exists_mem_of_ne_nil set hne
    refine ⟨?_, r, ?_⟩
    · rw [hhost]
      exact List.mem_map_of_mem (List.fst_mem_of_mem_zipIdx hv)
    · rw [← hsame.required env hosts, ← heq, hhost]
      exact (hset r).mp hr

end Keeps

theorem dnsUpdate_spares (env : Environment) (dryRun : Bool) (hosts : Hosts)
    (servers : List Server) (w : World) {cut : List Op}
    (hcut : cut <+: (dnsUpdate env dryRun hosts servers w).sent) (host resource : Str) :
    (∀ e ∈ entriesOf w resource host, Right env hosts w host resource e →
      e ∈ entriesOf (w.after env cut) resource host) ∧
    (host ∉ servers.map Server.host ∨ (∀ r, ¬Required env hosts host w resource r) →
      entriesOf (w.after env cut) resource host = entriesOf w resource host) := by
  constructor
  · intro e he hright
    refine (inTurn_cut env (fun w' => SameInterfaces w w' ∧
      e ∈ entriesOf w' resource host) ?_ ⟨fun _ => rfl, he⟩ cut hcut).2
    intro pass hpass w' hgood cut hcut
    obtain ⟨⟨server, visit⟩, -, rfl⟩ := List.mem_map.mp hpass
    exact updateServer_keeps env hosts hright hgood hcut
  · intro hunmanaged
    rw [entriesOf, entriesOf, after_tables env w]
    rintro op hop ⟨rfl, rfl⟩
    obtain ⟨hhost, r, hr⟩ := dnsUpdate_sentTo env hosts dryRun servers w op (hcut.subset hop)
    rcases hunmanaged with hnot | hnone
    · exact hnot hhost
    · exact hnone r hr

theorem dnsUpdate_spares_oldLease :
    let w' := leaseRouter.after plainEnvironment (dnsUpdate plainEnvironment false staticOnly
      [⟨"router".toList, false⟩] leaseRouter).sent
    (∀ e ∈ entriesOf leaseRouter dhcpLease "router".toList,
      Right plainEnvironment staticOnly leaseRouter "router".toList dhcpLease e →
        e ∈ entriesOf w' dhcpLease "router".toList) ∧
    ("router".toList ∉ [(⟨"router".toList, false⟩ : Server)].map Server.host ∨
        (∀ r, ¬Required plainEnvironment staticOnly "router".toList leaseRouter dhcpLease r) →
      entriesOf w' dhcpLease "router".toList =
        entriesOf leaseRouter dhcpLease "router".toList) :=
  dnsUpdate_spares plainEnvironment false staticOnly _ leaseRouter List.prefix_rfl _ dhcpLease

section Fewest

variable (env : Environment) {hosts : Hosts} {host resource : Str} {records : List Dict}

theorem updateResource_spends {visit : Nat} {server : Server} (hold : server.oldDns = false)
    {w : World} (hnodup : records.Nodup)
    (hset : ∀ r, r ∈ records ↔ Required env hosts server.host w resource r)
    (hplain : ∀ r ∈ records, Plain resource r)
    (h : (updateResource env false visit server resource records w).Returns) :
    (updateResource env false visit server resource records w).sent.length +
      lag resource records (entriesOf (w.after env
        (updateResource env false visit server resource records w).sent) resource server.host) =
      lag resource records (entriesOf w resource server.host) := by
  have hresource : ∀ r ∈ records, r.lookup "_resource" = some resource := fun r hr =>
    ((hset r).mp hr).1
  have hmem : ∀ r ∈ records, "_resource" ∈ r := fun r hr =>
    Finmap.mem_of_lookup_eq_some (hresource r hr)
  have hskips : ∀ l : List Dict, (l.filter fun r => ¬Skips server r) = l := fun l =>
    List.filter_eq_self.mpr fun r _ => decide_eq_true (not_skips hold r)
  obtain ⟨ordered, hperm, hsent⟩ := updateResource_sent env hnodup hmem h
  obtain ⟨hstale, added, htaken, hmatched⟩ := updateResource_settles env hnodup hmem
    (fun r hr => by
      have hr := ((mem_missing hnodup).mp (mem_taken.mp hr).1).1
      exact sticks_new hold (hresource r hr) (hplain r hr)) h
  have hmissing : missing resource records (entriesOf (w.after env (updateResource env false visit
      server resource records w).sent) resource server.host) = [] := by
    rw [missing_eq_filter hnodup, List.filter_eq_nil_iff]
    intro r hr
    rw [decide_eq_true_eq, not_not, hmatched, List.mem_append, htaken.mem_iff, taken, hskips]
    exact mem_matched_or_missing _ hnodup hr
  rw [lag, lag, hstale, hmissing, hsent, hskips, List.length_append, List.length_map,
    List.length_map, hperm.length_eq]
  rfl

theorem inTurn_spends (inv : World → Prop) (cost : List Op → Nat) (left : World → Nat)
    (hcost : ∀ ops ops', cost (ops ++ ops') = cost ops + cost ops')
    {passes : List (World → Run Nat)} (h : ∀ pass ∈ passes, ∀ w, inv w → (pass w).Returns →
      inv (w.after env (pass w).sent) ∧
        cost (pass w).sent + left (w.after env (pass w).sent) ≤ left w) {w : World} (hw : inv w)
    (hreturns : (inTurn env passes w).Returns) :
    cost (inTurn env passes w).sent + left (w.after env (inTurn env passes w).sent) ≤ left w := by
  induction passes generalizing w with
  | nil =>
    have hempty := hcost [] []
    rw [List.append_nil] at hempty
    change cost [] + left w ≤ left w
    omega
  | cons pass passes ih =>
    obtain ⟨hfirst, hrest⟩ := (inTurn_returns env).mp hreturns
    obtain ⟨hnext, hspent⟩ := h pass List.mem_cons_self w hw hfirst
    have := ih (fun pass' hpass' => h pass' (List.mem_cons_of_mem _ hpass')) hnext hrest
    rw [inTurn_sent env hreturns, hcost, after_append]
    omega

theorem exists_required_list (w : World) (host resource : Str) : ∃ records : List Dict,
    records.Nodup ∧ ∀ r, r ∈ records ↔ Required env hosts host w resource r := by
  classical
  refine ⟨((hosts.flatMap Prod.snd).filterMap fun r₀ =>
    (serverRecord env (w host).interfaces host r₀).toOption.join.filter
      fun r => r.lookup "_resource" = some resource).dedup, List.nodup_dedup _, fun r => ?_⟩
  rw [List.mem_dedup, List.mem_filterMap]
  constructor
  · rintro ⟨r₀, hr₀, hr⟩
    obtain ⟨hsome, hresource⟩ := Option.filter_eq_some_iff.mp hr
    cases hrecord : serverRecord env (w host).interfaces host r₀ with
    | error e =>
      rw [hrecord] at hsome
      cases hsome
    | ok x =>
      rw [hrecord] at hsome
      obtain rfl : x = some r := hsome
      exact ⟨of_decide_eq_true hresource, r₀, hr₀, hrecord⟩
  · rintro ⟨hresource, r₀, hr₀, hok⟩
    refine ⟨r₀, hr₀, ?_⟩
    rw [hok]
    exact Option.filter_eq_some_iff.mpr ⟨rfl, decide_eq_true hresource⟩

theorem onTable_of_sentTo {server : Server} {resource' : Str} {x : Run Nat}
    (hsent : SentTo server.host resource' x) :
    onTable host resource x.sent = if server.host = host ∧ resource' = resource then x.sent
      else [] := by
  split
  case isTrue hat =>
    exact List.filter_eq_self.mpr fun op hop => by
      obtain ⟨hhost, hresource⟩ := hsent op hop
      exact decide_eq_true ⟨hhost.trans hat.1, hresource.trans hat.2⟩
  case isFalse hat =>
    refine List.filter_eq_nil_iff.mpr fun op hop => ?_
    obtain ⟨hhost, hresource⟩ := hsent op hop
    rw [decide_eq_true_eq, hhost, hresource]
    exact hat

variable {w : World} (hnodup : records.Nodup)
  (hset : ∀ r, r ∈ records ↔ Required env hosts host w resource r)
  (hplain : ∀ r ∈ records, Plain resource r)
include hnodup hset hplain

theorem updateServer_spends {visit : Nat} {server : Server} (hold : server.oldDns = false)
    {w' : World} (hsame : SameInterfaces w w')
    (h : (updateServer env false hosts visit server w').Returns) :
    (onTable host resource (updateServer env false hosts visit server w').sent).length +
      lag resource records (entriesOf (w'.after env
        (updateServer env false hosts visit server w').sent) resource host) ≤
      lag resource records (entriesOf w' resource host) := by
  obtain ⟨count, hcount⟩ := h
  obtain ⟨recs, hgrouped, hpasses, hsent⟩ := updateServer_passes env hcount
  rw [hsent]
  refine inTurn_spends env (SameInterfaces w)
    (fun ops => (onTable host resource ops).length)
    (fun w => lag resource records (entriesOf w resource host))
    (length_onTable_append host resource) ?_ hsame hpasses
  intro pass hpass w'' hsame' hreturns
  refine ⟨hsame'.after env _, ?_⟩
  obtain ⟨⟨resource', set⟩, hmem, rfl⟩ := List.mem_map.mp hpass
  change (updateResource env false visit server resource' set w'').Returns at hreturns
  dsimp only
  rw [onTable_of_sentTo (sentTo_updateResource env false visit server set w'')]
  split
  case isTrue hat =>
    obtain ⟨rfl, rfl⟩ := hat
    obtain ⟨-, hnodup', hset'⟩ := hgrouped.sets _ _ hmem
    have hset'' : ∀ r, r ∈ set ↔ Required env hosts server.host w'' resource' r := fun r => by
      rw [hset' r, Required, hsame' server.host, ← hsame server.host]
    have hperm : records.Perm set := (List.perm_ext_iff_of_nodup hnodup hnodup').mpr fun r => by
      rw [hset, hset'', hsame'.required env hosts]
    rw [lag_perm hperm, lag_perm hperm]
    exact (updateResource_spends env hold hnodup' hset''
      (fun r hr => hplain r (hperm.mem_iff.mpr hr)) hreturns).le
  case isFalse hat =>
    rw [List.length_nil, Nat.zero_add, entriesOf, entriesOf, after_tables env w'']
    intro op hop hat'
    obtain ⟨hhost, hresource⟩ := sentTo_updateResource env false visit server set w'' op hop
    exact hat ⟨hhost.symm.trans hat'.1, hresource.symm.trans hat'.2⟩

theorem dnsUpdate_spends {servers : List Server} (hold : ∀ s ∈ servers, s.oldDns = false)
    (h : (dnsUpdate env false hosts servers w).Returns) :
    (onTable host resource (dnsUpdate env false hosts servers w).sent).length ≤
      lag resource records (entriesOf w resource host) := by
  refine Nat.le_of_add_right_le (inTurn_spends env (SameInterfaces w)
    (fun ops => (onTable host resource ops).length)
    (fun w => lag resource records (entriesOf w resource host))
    (length_onTable_append host resource) ?_ (fun _ => rfl) h)
  intro pass hpass w' hsame hreturns
  obtain ⟨⟨server, visit⟩, hv, rfl⟩ := List.mem_map.mp hpass
  exact ⟨hsame.after env _, updateServer_spends env hnodup hset hplain
    (hold server (List.fst_mem_of_mem_zipIdx hv)) hsame hreturns⟩

end Fewest

theorem length_le_of_onTable {ops ops' : List Op} (h : ∀ host resource,
    (onTable host resource ops).length ≤ (onTable host resource ops').length) :
    ops.length ≤ ops'.length := by
  have hcount : ∀ (l : List Op) (key : Str × Str),
      (l.map fun op => (op.host, op.resource)).count key =
        (onTable key.1 key.2 l).length := by
    intro l key
    rw [List.count_eq_countP, List.countP_map, List.countP_eq_length_filter, onTable]
    refine congrArg List.length (List.filter_congr fun op _ => ?_)
    rw [Bool.eq_iff_iff]
    simp [Prod.ext_iff]
  have hsubperm : (ops.map fun op => (op.host, op.resource)).Subperm
      (ops'.map fun op => (op.host, op.resource)) := by
    refine List.subperm_ext_iff.mpr fun key _ => ?_
    rw [hcount, hcount]
    exact h key.1 key.2
  simpa using hsubperm.length_le

theorem dnsUpdate_fewest (env : Environment) {hosts : Hosts} {servers : List Server}
    (hold : ∀ s ∈ servers, s.oldDns = false) {w : World}
    (h : (dnsUpdate env false hosts servers w).Returns) {ops : List Op}
    (hsync : ∀ server ∈ servers, ∀ resource,
      (∃ r, Required env hosts server.host w resource r) →
        InSync env hosts server.host (w.after env ops) resource) :
    (dnsUpdate env false hosts servers w).sent.length ≤ ops.length := by
  refine length_le_of_onTable fun host resource => ?_
  by_cases hmanaged : host ∈ servers.map Server.host ∧
      ∃ r, Required env hosts host w resource r
  · obtain ⟨hhost, hrequired⟩ := hmanaged
    obtain ⟨server, hserver, rfl⟩ := List.mem_map.mp hhost
    have hsynced := hsync server hserver resource hrequired
    obtain ⟨records, hnodup, hset⟩ := exists_required_list env w server.host resource
    have hplain : ∀ r ∈ records, Plain resource r := by
      intro r hr
      rw [hset, ← required_after ops] at hr
      obtain ⟨e, he, -, hrecord⟩ := (hsynced r).mpr hr
      rw [mikrotikToRecord_eq (Table.carries _ e he)] at hrecord
      obtain rfl := Except.ok.inj hrecord
      exact recordOf_plain resource e
    exact (dnsUpdate_spends env hnodup hset hplain hold h).trans
      (lag_le_length env hnodup w hset hsynced)
  · have hnil : onTable host resource (dnsUpdate env false hosts servers w).sent = [] := by
      refine List.filter_eq_nil_iff.mpr fun op hop => ?_
      rw [decide_eq_true_eq]
      rintro ⟨rfl, rfl⟩
      exact hmanaged (dnsUpdate_sentTo env hosts false servers w op hop)
    rw [hnil]
    exact Nat.zero_le _

theorem staticOnly_plain {w : World} (hinterfaces : SameInterfaces leaseRouter w) {resource : Str}
    {r : Dict} (hr : Required plainEnvironment staticOnly "router".toList w resource r) :
    Plain resource r := by
  rw [hinterfaces.required] at hr
  obtain ⟨hresource, r₀, hmem, hrecord⟩ := hr
  obtain rfl := List.mem_singleton.mp hmem
  have hself : serverRecord plainEnvironment ⟨[], []⟩ "router".toList staticRecord =
      .ok (some staticRecord) := rfl
  obtain rfl := Option.some.inj (Except.ok.inj (hself.symm.trans hrecord))
  obtain rfl : dnsStatic = resource := Option.some.inj hresource
  exact ⟨by decide, fun _ => by decide, fun heq => absurd heq dnsStatic_ne_dhcpLease⟩

theorem dnsUpdate_fewest_detour :
    let detour : Op := ⟨"router".toList, dnsStatic, .remove "*7".toList⟩
    (dnsUpdate plainEnvironment false staticOnly [⟨"router".toList, false⟩]
      leaseRouter).sent.length ≤
    (detour :: (dnsUpdate plainEnvironment false staticOnly [⟨"router".toList, false⟩]
      (leaseRouter.after plainEnvironment [detour])).sent).length := by
  intro detour
  have hold : ∀ s ∈ [(⟨"router".toList, false⟩ : Server)], s.oldDns = false := by simp
  refine dnsUpdate_fewest plainEnvironment hold ⟨1, rfl⟩ fun server hserver resource hrequired => ?_
  obtain rfl := List.mem_singleton.mp hserver
  have hsame : SameInterfaces leaseRouter (leaseRouter.after plainEnvironment [detour]) :=
    SameInterfaces.after plainEnvironment (fun _ => rfl) _
  rw [← hsame.required] at hrequired
  have hvisits : ∀ v ∈ [((⟨"router".toList, false⟩ : Server), 0)], v.1.oldDns = false := by simp
  exact updates_inSync hvisits (by simp) hrequired
    (fun r hr => staticOnly_plain hsame hr) ⟨1, rfl⟩

end Isz.Dns
