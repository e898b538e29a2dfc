import Isz.Dns.Zone

namespace Isz.Dns

def openEscape (s : Str) : Bool := s.foldl (fun escaped c => !escaped && c == '\\') false

-- rstrip also takes an escaped dot off the end of a name
def complete (s : Str) : Str := if openEscape s then s ++ ['.'] else s

-- the text that dnspython gives of an absolute name: it ends in the root's dot, and a dot that
-- ends a label is escaped
def Absolute (name : Str) : Prop :=
  ∃ s, name = s ++ ['.'] ∧ openEscape s = false ∧ ∀ t, s = t ++ ['.'] → openEscape t = true

def unregexp : Str → Str
  | '\\' :: '.' :: '*' :: s => '\\' :: '*' :: unregexp s
  | '\\' :: '.' :: s => '.' :: unregexp s
  | '.' :: '*' :: s => '*' :: unregexp s
  | c :: s => c :: unregexp s
  | [] => []

def number (s : Str) : Nat := Nat.ofDigitChars 10 s 0

def hexDigit (c : Char) : Nat := if c.isDigit then c.toNat - 48 else c.toNat - 55

def byteOf (high low : Char) : Fin 256 :=
  ⟨(16 * hexDigit high + hexDigit low) % 256, Nat.mod_lt _ (by decide)⟩

def euiOf : Str → List (Fin 256)
  | high :: low :: _ :: s => byteOf high low :: euiOf s
  | [high, low] => [byteOf high low]
  | _ => []

inductive Content where
  | address (address : Str)
  | target (target : Str)
  | exchange (preference : Nat) (exchange : Str)
  | service (priority weight port : Nat) (target : Str)
  | mac (eui : List (Fin 256))

def Rdata.content : Rdata → Option Content
  | .a address => some (.address address)
  | .aaaa address => some (.address address)
  | .cname target => some (.target target)
  | .mx preference exchange => some (.exchange preference exchange)
  | .srv priority weight port target => some (.service priority weight port target)
  | .eui48 eui => some (.mac eui)
  | .other _ => none

def ownerOf (r : Dict) : Option Str :=
  match r.lookup "name", r.lookup "regexp" with
  | some name, _ => some (complete name)
  | none, some regexp => some (complete (unregexp regexp.dropLast))
  | none, none => (r.lookup "comment").map complete

def contentOf (r : Dict) : Option Content :=
  ((r.lookup "mac-address").map fun mac => .mac (euiOf mac)) <|>
  ((r.lookup "forward-to").map .address) <|>
  ((r.lookup "address").map .address) <|>
  ((r.lookup "cname").map fun target => .target (target ++ ['.'])) <|>
  (do
    let preference ← r.lookup "mx-preference"
    let exchange ← r.lookup "mx-exchange"
    pure (.exchange (number preference) (exchange ++ ['.']))) <|>
  (do
    let priority ← r.lookup "srv-priority"
    let weight ← r.lookup "srv-weight"
    let port ← r.lookup "srv-port"
    let target ← r.lookup "srv-target"
    pure (.service (number priority) (number weight) (number port) (target ++ ['.'])))

def read (r : Dict) : Option (Str × Content) := do
  let owner ← ownerOf r
  let content ← contentOf r
  pure (owner, content)

def contents (rec : List Rdataset) : List Content :=
  rec.flatMap fun rds => rds.rds.filterMap fun rd => rd.rdata.content

structure Converts (skipRecords : List Str) (zone : Zone) (hosts : Hosts) : Prop where
  parsed : parseFile skipRecords zone = .ok hosts
  distinct : (hosts.map Prod.fst).Nodup
  exact : ∀ entry ∈ zone.items, entry.1.dropLast ∉ skipRecords → ∃ records,
    (entry.1.dropLast, records) ∈ hosts ∧
      (records.map read).Perm ((contents entry.2).map fun c => some (entry.1.dropLast, c))

def Rdata.targets : Rdata → List Str
  | .cname target => [target]
  | .mx _ exchange => [exchange]
  | .srv _ _ _ target => [target]
  | _ => []

-- from_file with relativize=False
structure NotRelativized (zone : Zone) : Prop where
  owners : ∀ entry ∈ zone.items, Absolute entry.1
  targets : ∀ entry ∈ zone.items, ∀ rds ∈ entry.2, ∀ rd ∈ rds.rds, ∀ target ∈ rd.rdata.targets,
    Absolute target

def FitsRd (owner : Str) (rd : Rd) : Prop :=
  match rd.rdata with
  | .a _ | .aaaa _ => True
  | .cname _ | .mx _ _ | .srv _ _ _ _ => isForward rd = false
  | .eui48 _ => isForward rd = false ∧ '*' ∉ owner ∧ ∀ c, comment rd = some c → complete c = owner
  | .other _ => False

def Convertible (skipRecords : List Str) (zone : Zone) : Prop :=
  ∀ entry ∈ zone.items, entry.1.dropLast ∉ skipRecords →
    ∀ rds ∈ entry.2, ∀ rd ∈ rds.rds, FitsRd entry.1.dropLast rd

section Text

theorem openEscape_concat (s : Str) (c : Char) :
    openEscape (s ++ [c]) = (!openEscape s && c == '\\') := by
  simp [openEscape]

theorem complete_rstrip {name : Str} (h : Absolute name) :
    complete (name.rdropWhile (· = '.')) = name.dropLast := by
  obtain ⟨s, rfl, hs, hdot⟩ := h
  rw [List.dropLast_concat, List.rdropWhile_concat_pos _ _ _ (by simp)]
  cases s using List.reverseRecOn with
  | nil => rfl
  | append_singleton t c =>
    by_cases hc : c = '.'
    · subst hc
      have ht := hdot t rfl
      have hstripped : t.rdropWhile (· = '.') = t := by
        cases t using List.reverseRecOn with
        | nil => rfl
        | append_singleton u c =>
          rw [openEscape_concat, Bool.and_eq_true, beq_iff_eq] at ht
          exact List.rdropWhile_concat_neg _ _ _ (by simp [ht.2])
      rw [List.rdropWhile_concat_pos _ _ _ (by simp), hstripped, complete, ht]
      rfl
    · rw [List.rdropWhile_concat_neg _ _ _ (by simpa using hc), complete, hs]
      rfl

def wildcardRegexp (name : Str) : Str :=
  (name.flatMap fun c => if c = '.' then ['\\', '.'] else [c]).flatMap
    (fun c => if c = '*' then ['.', '*'] else [c])

theorem wildcardRegexp_dot (s : Str) :
    wildcardRegexp ('.' :: s) = '\\' :: '.' :: wildcardRegexp s := rfl

theorem wildcardRegexp_star (s : Str) :
    wildcardRegexp ('*' :: s) = '.' :: '*' :: wildcardRegexp s := rfl

theorem wildcardRegexp_cons {c : Char} (hdot : c ≠ '.') (hstar : c ≠ '*') (s : Str) :
    wildcardRegexp (c :: s) = c :: wildcardRegexp s := by
  simp [wildcardRegexp, hdot, hstar]

theorem wildcardRegexp_ne_star (s t : Str) : wildcardRegexp s ≠ '*' :: t := by
  cases s with
  | nil => exact (List.cons_ne_nil _ _).symm
  | cons c s =>
    intro h
    by_cases hdot : c = '.'
    · subst hdot
      cases h
    · by_cases hstar : c = '*'
      · subst hstar
        cases h
      · rw [wildcardRegexp_cons hdot hstar] at h
        exact hstar (List.cons.inj h).1

theorem unregexp_cons {c : Char} {s : Str} (hslash : c ≠ '\\') (hdot : c ≠ '.') :
    unregexp (c :: s) = c :: unregexp s := by
  rw [unregexp] <;> simp_all

theorem unregexp_backslash (s : Str) :
    unregexp ('\\' :: wildcardRegexp s) = '\\' :: unregexp (wildcardRegexp s) := by
  cases s with
  | nil => rfl
  | cons c s =>
    by_cases hdot : c = '.'
    · subst hdot
      rfl
    · by_cases hstar : c = '*'
      · subst hstar
        rfl
      · rw [wildcardRegexp_cons hdot hstar]
        rw [unregexp] <;> simp_all

theorem unregexp_wildcardRegexp (name : Str) : unregexp (wildcardRegexp name) = name := by
  induction name with
  | nil => rfl
  | cons c name ih =>
    by_cases hdot : c = '.'
    · subst hdot
      rw [wildcardRegexp_dot, unregexp, ih]
      exact fun t => wildcardRegexp_ne_star name t
    · by_cases hstar : c = '*'
      · subst hstar
        rw [wildcardRegexp_star, unregexp, ih]
      · rw [wildcardRegexp_cons hdot hstar]
        by_cases hslash : c = '\\'
        · subst hslash
          rw [unregexp_backslash, ih]
        · rw [unregexp_cons hslash hdot, ih]

theorem unregexp_nameRegexp (name : Str) : unregexp (nameRegexp name).dropLast = name := by
  have hregexp : nameRegexp name = wildcardRegexp name ++ ['$'] := rfl
  rw [hregexp, List.dropLast_concat, unregexp_wildcardRegexp]

theorem number_str (n : Nat) : number (str n) = n := Nat.ofDigitChars_ten_toDigits

theorem hexByte_eq (x : Fin 256) : ∃ high low, hexByte x = [high, low] ∧ byteOf high low = x := by
  refine ⟨_, _, rfl, ?_⟩
  revert x
  decide +kernel

theorem euiOf_hexBytes (eui : List (Fin 256)) :
    euiOf (concatStringsSep [':'] (eui.map hexByte)) = eui := by
  induction eui with
  | nil => rfl
  | cons x eui ih =>
    obtain ⟨high, low, hx, hbyte⟩ := hexByte_eq x
    cases eui with
    | nil =>
      rw [List.map_singleton, hx]
      exact congrArg (fun b => [b]) hbyte
    | cons y eui =>
      have hjoin : concatStringsSep [':'] ((x :: y :: eui).map hexByte) =
          high :: low :: ':' :: concatStringsSep [':'] ((y :: eui).map hexByte) := by
        simp [concatStringsSep, List.intercalate, hx]
      rw [hjoin, euiOf, ih, hbyte]

end Text

section Records

variable {name : Str} {rec : List Rdataset} {rds : Rdataset} {rd : Rd}

theorem lookup_singleton_ne {key key' : String} (h : key' ≠ key) (value : Str) :
    (Finmap.singleton key value : Dict).lookup key' = none :=
  Finmap.lookup_eq_none.mpr fun hmem => h ((Finmap.mem_singleton _ _ _).mp hmem)

def headerKeys : List String := ["_resource", "type", "ttl", "comment", "name", "regexp"]

theorem header_none {key : String} (h : key ∉ headerKeys) :
    (header name rds rd).lookup key = none := by
  simp only [headerKeys, List.mem_cons, List.not_mem_nil, or_false, not_or] at h
  obtain ⟨hresource, htype, httl, hcomment, hname, hregexp⟩ := h
  simp only [header]
  cases comment rd <;> split <;>
    simp [Finmap.lookup_insert_of_ne, lookup_singleton_ne, hresource, htype, httl, hcomment, hname,
      hregexp]

theorem header_name : (header name rds rd).lookup "name" =
    if '*' ∈ name then none else some name := by
  simp only [header]
  cases comment rd <;> split <;> simp [Finmap.lookup_insert_of_ne, lookup_singleton_ne]

theorem header_regexp : (header name rds rd).lookup "regexp" =
    if '*' ∈ name then some (nameRegexp name) else none := by
  simp only [header]
  cases comment rd <;> split <;> simp [Finmap.lookup_insert_of_ne, lookup_singleton_ne]

theorem header_comment : (header name rds rd).lookup "comment" = comment rd := by
  simp only [header]
  cases comment rd <;> split <;> simp [Finmap.lookup_insert_of_ne, lookup_singleton_ne]

theorem ownerOf_header : ownerOf (header name rds rd) = some (complete name) := by
  rw [ownerOf, header_name, header_regexp]
  split_ifs
  · exact congrArg (fun s => some (complete s)) (unregexp_nameRegexp name)
  · rfl

theorem ownerOf_insert {r : Dict} {key : String} (h : key ∉ ["comment", "name", "regexp"])
    (value : Str) : ownerOf (r.insert key value) = ownerOf r := by
  simp only [List.mem_cons, List.not_mem_nil, or_false, not_or] at h
  obtain ⟨hcomment, hname, hregexp⟩ := h
  rw [ownerOf, ownerOf, Finmap.lookup_insert_of_ne _ (Ne.symm hname),
    Finmap.lookup_insert_of_ne _ (Ne.symm hregexp), Finmap.lookup_insert_of_ne _ (Ne.symm hcomment)]

theorem foldl_leaseAddress_lookup {key : String} (h : key ≠ "address") (out : Dict)
    (rec : List Rdataset) : (rec.foldl leaseAddress out).lookup key = out.lookup key := by
  induction rec generalizing out with
  | nil => rfl
  | cons rds rec ih =>
    have hstep : (leaseAddress out rds).lookup key = out.lookup key := by
      simp only [leaseAddress]
      split
      · rw [Finmap.lookup_insert_of_ne _ h]
      · rfl
    exact (ih _).trans hstep

theorem item_name : item (header name rds rd) "name" =
    if '*' ∈ name then .error (.keyError "name") else .ok name := by
  rw [item, header_name]
  split_ifs <;> rfl

theorem lease_wildcard {eui : List (Fin 256)} (h : '*' ∈ name) :
    lease rec (header name rds rd) eui = .error (.keyError "name") := by
  rw [lease, item_name, if_pos h]
  rfl

variable (name rec rds rd) in
theorem lease_read (eui : List (Fin 256)) (h : '*' ∉ name) :
    ∃ r, lease rec (header name rds rd) eui = .ok r ∧
      read r = some (complete ((comment rd).getD name), .mac eui) := by
  have hitem : item (header name rds rd) "name" = .ok name := by rw [item_name, if_neg h]
  rw [lease, hitem, header_comment]
  refine ⟨_, rfl, ?_⟩
  simp [read, ownerOf, contentOf, foldl_leaseAddress_lookup, Finmap.lookup_insert_of_ne,
    lookup_singleton_ne, euiOf_hexBytes]

theorem read_eq {r : Dict} {owner : Str} {content : Content} (howner : ownerOf r = some owner)
    (hcontent : contentOf r = some content) : read r = some (owner, content) := by
  rw [read, howner, hcontent]
  rfl

theorem mapRd_forward (h : isForward rd = true) {address : Str}
    (haddress : rd.rdata.address = .ok address) :
    ∃ r, mapRd name rec rds rd = .ok r ∧ read r = some (complete name, .address address) := by
  simp only [mapRd, h, if_true, haddress]
  refine ⟨_, rfl, read_eq ?_ ?_⟩
  · rw [ownerOf_insert (by decide), ownerOf_insert (by decide), ownerOf_header]
  · simp [contentOf, Finmap.lookup_insert_of_ne, header_none, headerKeys]

theorem mapRd_direct (h : isForward rd = false)
    (htargets : ∀ target ∈ rd.rdata.targets, Absolute target)
    (heui : ∀ eui, rd.rdata ≠ .eui48 eui) {content : Content}
    (hcontent : rd.rdata.content = some content) :
    ∃ r, mapRd name rec rds rd = .ok r ∧ read r = some (complete name, content) := by
  have htarget : ∀ target ∈ rd.rdata.targets, target.dropLast ++ ['.'] = target := by
    intro target hmem
    obtain ⟨s, rfl, -⟩ := htargets target hmem
    rw [List.dropLast_concat]
  have howner : ownerOf (header name rds rd) = some (complete name) := ownerOf_header
  simp only [mapRd, h, Bool.false_eq_true, if_false]
  cases hdata : rd.rdata with
  | a address | aaaa address =>
    rw [hdata] at hcontent
    obtain rfl := Option.some.inj hcontent
    refine ⟨_, rfl, read_eq ?_ ?_⟩
    · rw [ownerOf_insert (by decide), howner]
    · simp [contentOf, Finmap.lookup_insert_of_ne, header_none, headerKeys]
  | cname target =>
    rw [hdata] at hcontent
    obtain rfl := Option.some.inj hcontent
    refine ⟨_, rfl, read_eq ?_ ?_⟩
    · rw [ownerOf_insert (by decide), howner]
    · simp [contentOf, Finmap.lookup_insert_of_ne, header_none, headerKeys,
        htarget target (by simp [hdata, Rdata.targets])]
  | mx preference exchange =>
    rw [hdata] at hcontent
    obtain rfl := Option.some.inj hcontent
    refine ⟨_, rfl, read_eq ?_ ?_⟩
    · rw [ownerOf_insert (by decide), ownerOf_insert (by decide), howner]
    · simp [contentOf, Finmap.lookup_insert_of_ne, header_none, headerKeys, number_str,
        htarget exchange (by simp [hdata, Rdata.targets])]
  | srv priority weight port target =>
    rw [hdata] at hcontent
    obtain rfl := Option.some.inj hcontent
    refine ⟨_, rfl, read_eq ?_ ?_⟩
    · rw [ownerOf_insert (by decide), ownerOf_insert (by decide), ownerOf_insert (by decide),
        ownerOf_insert (by decide), howner]
    · simp [contentOf, Finmap.lookup_insert_of_ne, header_none, headerKeys, number_str,
        htarget target (by simp [hdata, Rdata.targets])]
  | eui48 eui => exact absurd hdata (heui eui)
  | other rdtype =>
    rw [hdata] at hcontent
    cases hcontent

theorem mem_complete (name : Str) : '*' ∈ complete name ↔ '*' ∈ name := by
  rw [complete]
  split_ifs <;> simp

theorem mapRd_lease {eui : List (Fin 256)} (h : isForward rd = false)
    (hdata : rd.rdata = .eui48 eui) :
    mapRd name rec rds rd = lease rec (header name rds rd) eui := by
  simp [mapRd, h, hdata]

theorem mapRd_read (h : FitsRd (complete name) rd)
    (htargets : ∀ target ∈ rd.rdata.targets, Absolute target) :
    ∃ content, rd.rdata.content = some content ∧
      ∃ r, mapRd name rec rds rd = .ok r ∧ read r = some (complete name, content) := by
  rw [FitsRd] at h
  cases hdata : rd.rdata with
  | a address | aaaa address =>
    refine ⟨_, rfl, ?_⟩
    cases hforward : isForward rd with
    | true => exact mapRd_forward hforward (by rw [hdata]; rfl)
    | false => exact mapRd_direct hforward htargets (by simp [hdata]) (by rw [hdata]; rfl)
  | cname target | mx preference exchange | srv priority weight port target =>
    rw [hdata] at h
    exact ⟨_, rfl, mapRd_direct h htargets (by simp [hdata]) (by rw [hdata]; rfl)⟩
  | eui48 eui =>
    rw [hdata] at h
    obtain ⟨hforward, hstar, hcomment⟩ := h
    obtain ⟨r, hr, hread⟩ := lease_read name rec rds rd eui (mt (mem_complete name).mpr hstar)
    refine ⟨_, rfl, r, (mapRd_lease hforward hdata).trans hr, ?_⟩
    cases hsome : comment rd with
    | none => rwa [hsome] at hread
    | some c =>
      rw [hsome, Option.getD_some, hcomment c hsome] at hread
      exact hread
  | other rdtype =>
    rw [hdata] at h
    exact h.elim

theorem mapRd_forward_error {e : Fault} (h : isForward rd = true)
    (haddress : rd.rdata.address = .error e) : mapRd name rec rds rd = .error e := by
  simp [mapRd, h, haddress]

theorem fits_of_mapRd {r : Dict} (h : mapRd name rec rds rd = .ok r)
    (howner : ∃ content, read r = some (complete name, content))
    (hcontent : rd.rdata.content ≠ none) : FitsRd (complete name) rd := by
  have hforward : ∀ e, rd.rdata.address = .error e → isForward rd = false := by
    intro e haddress
    by_contra hyes
    rw [mapRd_forward_error (Bool.eq_true_of_not_eq_false hyes) haddress] at h
    cases h
  rw [FitsRd]
  cases hdata : rd.rdata with
  | a address | aaaa address => trivial
  | cname target | mx preference exchange | srv priority weight port target =>
    exact hforward (.attributeError "address") (by rw [hdata]; rfl)
  | eui48 eui =>
    have hdirect := hforward (.attributeError "address") (by rw [hdata]; rfl)
    rw [mapRd_lease hdirect hdata] at h
    have hstar : '*' ∉ name := by
      intro hmem
      rw [lease_wildcard hmem] at h
      cases h
    refine ⟨hdirect, mt (mem_complete name).mp hstar, fun c hsome => ?_⟩
    obtain ⟨r', hr', hread⟩ := lease_read name rec rds rd eui hstar
    obtain rfl := Except.ok.inj (h.symm.trans hr')
    obtain ⟨content, hread'⟩ := howner
    rw [hsome, Option.getD_some] at hread
    exact (Prod.mk.inj (Option.some.inj (hread.symm.trans hread'))).1
  | other rdtype => exact absurd (by rw [hdata]; rfl) hcontent

end Records

section Record

variable {rec : List Rdataset}

def pairs (rec : List Rdataset) : List (Rdataset × Rd) :=
  rec.flatMap fun rds => rds.rds.map fun rd => (rds, rd)

theorem mem_pairs {rds : Rdataset} {rd : Rd} :
    (rds, rd) ∈ pairs rec ↔ rds ∈ rec ∧ rd ∈ rds.rds := by
  simp only [pairs, List.mem_flatMap, List.mem_map, Prod.mk.injEq]
  constructor
  · rintro ⟨rds, hrds, rd, hrd, rfl, rfl⟩
    exact ⟨hrds, hrd⟩
  · rintro ⟨hrds, hrd⟩
    exact ⟨rds, hrds, rd, hrd, rfl, rfl⟩

theorem contents_eq (rec : List Rdataset) :
    contents rec = (pairs rec).filterMap fun p => p.2.rdata.content := by
  simp [contents, pairs, List.filterMap_flatMap, List.filterMap_map]

theorem map_read_eq {owner : Str} {pairs : List (Rdataset × Rd)} {records : List Dict}
    (h : List.Forall₂ (fun p r => ∃ content, p.2.rdata.content = some content ∧
      read r = some (owner, content)) pairs records) :
    records.map read =
      (pairs.filterMap fun p => p.2.rdata.content).map fun c => some (owner, c) := by
  induction h with
  | nil => rfl
  | cons hpair _ ih =>
    obtain ⟨content, hcontent, hread⟩ := hpair
    rw [List.map_cons, ih, List.filterMap_cons, hcontent, List.map_cons, hread]

structure Exact (name : Str) (rec : List Rdataset) (records : List Dict) : Prop where
  mapped : mapRecord name rec = .ok records
  perm : (records.map read).Perm ((contents rec).map fun c => some (name.dropLast, c))

theorem exact_of_fits {name : Str} (hname : Absolute name)
    (htargets : ∀ rds ∈ rec, ∀ rd ∈ rds.rds, ∀ target ∈ rd.rdata.targets, Absolute target)
    (hfits : ∀ rds ∈ rec, ∀ rd ∈ rds.rds, FitsRd name.dropLast rd) :
    ∃ records, Exact name rec records := by
  have hpair : ∀ p ∈ pairs rec, ∃ content, p.2.rdata.content = some content ∧
      ∃ r, mapRd (name.rdropWhile (· = '.')) rec p.1 p.2 = .ok r ∧
        read r = some (name.dropLast, content) := by
    rintro ⟨rds, rd⟩ hmem
    obtain ⟨hrds, hrd⟩ := mem_pairs.mp hmem
    rw [← complete_rstrip hname] at hfits ⊢
    exact mapRd_read (hfits rds hrds rd hrd) (htargets rds hrds rd hrd)
  obtain ⟨records, hrecords⟩ := Except.exists_mapM fun p hp =>
    (hpair p hp).elim fun _ h => h.2.imp fun _ h => h.1
  refine ⟨records, hrecords, ?_⟩
  have hread : List.Forall₂ (fun p r => ∃ content, p.2.rdata.content = some content ∧
      read r = some (name.dropLast, content)) (pairs rec) records := by
    refine ((List.forall₂_and_left _ _).mpr ⟨hpair, Except.mapM_eq_ok.mp hrecords⟩).imp ?_
    rintro p r ⟨⟨content, hcontent, r', hr', hread⟩, hr⟩
    obtain rfl := Except.ok.inj (hr.symm.trans hr')
    exact ⟨content, hcontent, hread⟩
  rw [map_read_eq hread, contents_eq]

theorem fits_of_exact {name : Str} (hname : Absolute name) {records : List Dict}
    (h : Exact name rec records) : ∀ rds ∈ rec, ∀ rd ∈ rds.rds, FitsRd name.dropLast rd := by
  intro rds hrds rd hrd
  have hmem := mem_pairs.mpr ⟨hrds, hrd⟩
  obtain ⟨r, hr, hmap⟩ := Except.exists_mem_of_mapM h.mapped hmem
  have hcontent : rd.rdata.content ≠ none := by
    intro hnone
    have hlengths := (Except.mapM_eq_ok.mp h.mapped).length_eq
    have hfewer : (contents rec).length < (pairs rec).length := by
      rw [contents_eq, List.length_filterMap_lt_length_iff_exists]
      exact ⟨(rds, rd), hmem, hnone⟩
    have hperm := h.perm.length_eq
    rw [List.length_map, List.length_map] at hperm
    exact absurd (hlengths.trans hperm) hfewer.ne'
  have howner : ∃ content, read r = some (name.dropLast, content) := by
    have hread := h.perm.mem_iff.mp (List.mem_map_of_mem hr)
    obtain ⟨content, -, heq⟩ := List.mem_map.mp hread
    exact ⟨content, heq.symm⟩
  rw [← complete_rstrip hname] at howner ⊢
  exact fits_of_mapRd hmap howner hcontent

end Record

section File

variable {skipRecords : List Str} {zone : Zone}

theorem absolute_inj {name name' : Str} (h : Absolute name) (h' : Absolute name')
    (heq : name.dropLast = name'.dropLast) : name = name' := by
  obtain ⟨s, rfl, -⟩ := h
  obtain ⟨s', rfl, -⟩ := h'
  rw [List.dropLast_concat, List.dropLast_concat] at heq
  rw [heq]

theorem entry_inj {entry entry' : Str × List Rdataset} (h : entry ∈ zone.items)
    (h' : entry' ∈ zone.items) (heq : entry.1 = entry'.1) : entry = entry' :=
  List.inj_on_of_nodup_map zone.distinct h h' heq

def parseEntry (entry : Str × List Rdataset) : Except Fault (Str × List Dict) := do
  let records ← mapRecord entry.1 entry.2
  pure (entry.1.dropLast, records)

theorem parseEntry_eq_ok {entry : Str × List Rdataset} {host : Str × List Dict} :
    parseEntry entry = .ok host ↔
      mapRecord entry.1 entry.2 = .ok host.2 ∧ host.1 = entry.1.dropLast := by
  rw [parseEntry, Except.bind_eq_ok]
  constructor
  · rintro ⟨records, hrecords, heq⟩
    obtain rfl := Except.ok.inj heq
    exact ⟨hrecords, rfl⟩
  · rintro ⟨hrecords, hname⟩
    exact ⟨host.2, hrecords, by rw [← hname]; rfl⟩

theorem mem_listed {entry : Str × List Rdataset} :
    entry ∈ zone.items.filter (fun entry => entry.1.dropLast ∉ skipRecords) ↔
      entry ∈ zone.items ∧ entry.1.dropLast ∉ skipRecords := by
  rw [List.mem_filter, decide_eq_true_iff]

theorem map_fst_parsed {entries : List (Str × List Rdataset)} {hosts : Hosts}
    (h : entries.mapM parseEntry = .ok hosts) :
    hosts.map Prod.fst = entries.map fun entry => entry.1.dropLast := by
  have hentries := Except.mapM_eq_ok.mp h
  clear h
  induction hentries with
  | nil => rfl
  | cons hok _ ih => rw [List.map_cons, List.map_cons, ih, (parseEntry_eq_ok.mp hok).2]

theorem nodup_listed (hzone : NotRelativized zone) :
    ((zone.items.filter fun entry => entry.1.dropLast ∉ skipRecords).map
      fun entry => entry.1.dropLast).Nodup := by
  refine (zone.distinct.of_map.filter _).map_on fun entry hentry entry' hentry' heq => ?_
  obtain ⟨hentry, -⟩ := mem_listed.mp hentry
  obtain ⟨hentry', -⟩ := mem_listed.mp hentry'
  exact entry_inj hentry hentry' (absolute_inj (hzone.owners entry hentry)
    (hzone.owners entry' hentry') heq)

theorem exists_converts (hzone : NotRelativized zone) (h : Convertible skipRecords zone) :
    ∃ hosts, Converts skipRecords zone hosts := by
  have hexact : ∀ entry ∈ zone.items, entry.1.dropLast ∉ skipRecords →
      ∃ records, Exact entry.1 entry.2 records := fun entry hentry hskip =>
    exact_of_fits (hzone.owners entry hentry) (hzone.targets entry hentry) (h entry hentry hskip)
  have hparses : ∀ entry ∈ zone.items.filter fun entry => entry.1.dropLast ∉ skipRecords,
      ∃ host, parseEntry entry = .ok host := by
    intro entry hentry
    obtain ⟨records, hrecords⟩ := hexact entry (mem_listed.mp hentry).1 (mem_listed.mp hentry).2
    exact ⟨(entry.1.dropLast, records), parseEntry_eq_ok.mpr ⟨hrecords.mapped, rfl⟩⟩
  obtain ⟨hosts, hparsed⟩ := Except.exists_mapM hparses
  refine ⟨hosts, hparsed, ?_, ?_⟩
  · rw [map_fst_parsed hparsed]
    exact nodup_listed hzone
  · intro entry hentry hskip
    obtain ⟨records, hrecords⟩ := hexact entry hentry hskip
    obtain ⟨host, hhost, hok⟩ := Except.exists_mem_of_mapM hparsed (mem_listed.mpr ⟨hentry, hskip⟩)
    obtain ⟨hmapped, hname⟩ := parseEntry_eq_ok.mp hok
    obtain ⟨name, records'⟩ := host
    obtain rfl : name = entry.1.dropLast := hname
    obtain rfl := Except.ok.inj (hmapped.symm.trans hrecords.mapped)
    exact ⟨records', hhost, hrecords.perm⟩

theorem convertible_of_converts (hzone : NotRelativized zone) {hosts : Hosts}
    (h : Converts skipRecords zone hosts) : Convertible skipRecords zone := by
  intro entry hentry hskip
  obtain ⟨records, hmem, hperm⟩ := h.exact entry hentry hskip
  obtain ⟨entry', hentry', hok⟩ := Except.exists_of_mem_mapM h.parsed hmem
  obtain ⟨hmapped, hname⟩ := parseEntry_eq_ok.mp hok
  have hitem := (mem_listed.mp hentry').1
  have howner := absolute_inj (hzone.owners entry hentry) (hzone.owners entry' hitem) hname
  obtain rfl := entry_inj hentry hitem howner
  exact fits_of_exact (hzone.owners entry hentry) ⟨hmapped, hperm⟩

end File

theorem converts_iff (skipRecords : List Str) (zone : Zone) (hzone : NotRelativized zone) :
    (∃ hosts, Converts skipRecords zone hosts) ↔ Convertible skipRecords zone :=
  ⟨fun ⟨_, h⟩ => convertible_of_converts hzone h, exists_converts hzone⟩

def zoneOf (owner : Str) (rdata : Rdata) : Zone where
  items := [(owner, [⟨rdata.rdtype, 3600, [⟨none, rdata⟩], by simp, List.cons_ne_nil _ _⟩])]
  distinct := List.nodup_singleton _

theorem notRelativized_zoneOf {owner : Str} (rdata : Rdata) (howner : Absolute owner)
    (htargets : ∀ target ∈ rdata.targets, Absolute target) :
    NotRelativized (zoneOf owner rdata) := by
  constructor
  · intro entry hentry
    obtain rfl := List.mem_singleton.mp hentry
    exact howner
  · intro entry hentry rds hrds rd hrd
    obtain rfl := List.mem_singleton.mp hentry
    obtain rfl := List.mem_singleton.mp hrds
    obtain rfl := List.mem_singleton.mp hrd
    exact htargets

theorem absolute_wildcard : Absolute "*.isz.wtf.".toList := by
  refine ⟨"*.isz.wtf".toList, by decide, by decide, fun t h => ?_⟩
  have hlast := congrArg List.getLast? h
  rw [List.getLast?_concat] at hlast
  exact absurd hlast (by decide)

theorem converts_iff_wildcard :
    ∃ hosts, Converts [] (zoneOf "*.isz.wtf.".toList (.a "192.0.2.1".toList)) hosts := by
  have hzone := notRelativized_zoneOf (.a "192.0.2.1".toList) absolute_wildcard
    fun _ h => absurd h List.not_mem_nil
  refine (converts_iff _ _ hzone).mpr fun entry hentry _ rds hrds rd hrd => ?_
  obtain rfl := List.mem_singleton.mp hentry
  obtain rfl := List.mem_singleton.mp hrds
  obtain rfl := List.mem_singleton.mp hrd
  trivial

theorem wildcard_lease_keyError :
    parseFile [] (zoneOf "*.isz.wtf.".toList (.eui48 [0, 1, 2, 3, 4, 5])) =
        .error (.keyError "name") ∧
      ¬∀ skipRecords zone, NotRelativized zone → ∃ hosts, Converts skipRecords zone hosts := by
  have herror : parseFile [] (zoneOf "*.isz.wtf.".toList (.eui48 [0, 1, 2, 3, 4, 5])) =
      .error (.keyError "name") := rfl
  refine ⟨herror, fun h => ?_⟩
  have hzone := notRelativized_zoneOf (.eui48 [0, 1, 2, 3, 4, 5]) absolute_wildcard
    fun _ h => absurd h List.not_mem_nil
  obtain ⟨hosts, hconverts⟩ := h [] _ hzone
  cases herror.symm.trans hconverts.parsed

end Isz.Dns
