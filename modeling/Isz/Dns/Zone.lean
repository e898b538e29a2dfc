import Isz.Library.Dict
import Isz.Library.Except
import Isz.Library.Text

namespace Isz.Dns

abbrev Dict := Finmap fun _ : String => Str

inductive Fault where
  | keyError (key : String)
  | missingElement (record : Dict)
  | typeError
  | attributeError (name : String)

def item (d : Dict) (key : String) : Except Fault Str :=
  match d.lookup key with
  | some value => .ok value
  | none => .error (.keyError key)

inductive Rdtype where
  | A
  | AAAA
  | CNAME
  | MX
  | SRV
  | EUI48
  | other (name : Str)
  deriving DecidableEq

def Rdtype.name : Rdtype → Str
  | .A => "A".toList
  | .AAAA => "AAAA".toList
  | .CNAME => "CNAME".toList
  | .MX => "MX".toList
  | .SRV => "SRV".toList
  | .EUI48 => "EUI48".toList
  | .other name => name

inductive Rdata where
  | a (address : Str)
  | aaaa (address : Str)
  | cname (target : Str)
  | mx (preference : Nat) (exchange : Str)
  | srv (priority weight port : Nat) (target : Str)
  | eui48 (eui : List (Fin 256))
  | other (rdtype : Str)

def Rdata.rdtype : Rdata → Rdtype
  | .a _ => .A
  | .aaaa _ => .AAAA
  | .cname _ => .CNAME
  | .mx _ _ => .MX
  | .srv _ _ _ _ => .SRV
  | .eui48 _ => .EUI48
  | .other rdtype => .other rdtype

def Rdata.address : Rdata → Except Fault Str
  | .a address => .ok address
  | .aaaa address => .ok address
  | _ => .error (.attributeError "address")

structure Rd where
  rdcomment : Option Str
  rdata : Rdata

structure Rdataset where
  rdtype : Rdtype
  ttl : Nat
  rds : List Rd
  typed : ∀ rd ∈ rds, rd.rdata.rdtype = rdtype
  nonempty : rds ≠ []

structure Zone where
  items : List (Str × List Rdataset)
  distinct : (items.map Prod.fst).Nodup

def isSpace (c : Char) : Bool :=
  let n := c.toNat
  (9 ≤ n && n ≤ 13) || (28 ≤ n && n ≤ 32) || n == 133 || n == 160 || n == 5760 ||
    (8192 ≤ n && n ≤ 8202) || n == 8232 || n == 8233 || n == 8239 || n == 8287 || n == 12288

def strip (s : Str) : Str := (s.dropWhile isSpace).rdropWhile isSpace

def str (n : Nat) : Str := Nat.toDigits 10 n

def toTtl (seconds : Nat) : Str :=
  let (m, s) := (seconds / 60, seconds % 60)
  let (h, m) := (m / 60, m % 60)
  let (d, h) := (h / 24, h % 24)
  let out := []
  let out := if d > 0 then out ++ str d ++ ['d'] else out
  let out := if h > 0 then out ++ str h ++ ['h'] else out
  let out := if m > 0 then out ++ str m ++ ['m'] else out
  if s > 0 ∨ out = [] then out ++ str s ++ ['s'] else out

def dnsStatic : Str := "/ip/dns/static".toList

def dhcpLease : Str := "/ip/dhcp-server/lease".toList

def hexByte (x : Fin 256) : Str :=
  [(Nat.digitChar (x / 16)).toUpper, (Nat.digitChar (x % 16)).toUpper]

-- name.replace(".", r"\.").replace("*", ".*") + "$"
def nameRegexp (name : Str) : Str :=
  (name.flatMap fun c => if c = '.' then ['\\', '.'] else [c]).flatMap
    (fun c => if c = '*' then ['.', '*'] else [c]) ++ ['$']

def comment (rd : Rd) : Option Str :=
  match rd.rdcomment with
  | none => none
  | some [] => none
  | some c => some (strip c)

def isForward (rd : Rd) : Bool :=
  match comment rd with
  | none => false
  | some c => "FWD".toList.isPrefixOf c

def header (name : Str) (rds : Rdataset) (rd : Rd) : Dict :=
  let out : Dict := ((Finmap.singleton "_resource" dnsStatic).insert "type" rds.rdtype.name).insert
    "ttl" (toTtl rds.ttl)
  let out := match comment rd with
    | some c => out.insert "comment" c
    | none => out
  if '*' ∈ name then out.insert "regexp" (nameRegexp name) else out.insert "name" name

def leaseAddress (out : Dict) (rds : Rdataset) : Dict :=
  match rds.rdtype, rds.rds with
  | .A, ⟨_, .a address⟩ :: _ => out.insert "address" address
  | _, _ => out

def lease (rec : List Rdataset) (out : Dict) (eui : List (Fin 256)) : Except Fault Dict := do
  let name ← item out "name"
  let lease : Dict := ((Finmap.singleton "_resource" dhcpLease).insert "mac-address"
    (concatStringsSep [':'] (eui.map hexByte))).insert "comment" ((out.lookup "comment").getD name)
  pure (rec.foldl leaseAddress lease)

def mapRd (name : Str) (rec : List Rdataset) (rds : Rdataset) (rd : Rd) : Except Fault Dict :=
  let out := header name rds rd
  if isForward rd then do
    let address ← rd.rdata.address
    pure ((out.insert "type" "FWD".toList).insert "forward-to" address)
  else
    match rd.rdata with
    | .a address => pure (out.insert "address" address)
    | .aaaa address => pure (out.insert "address" address)
    | .cname target => pure (out.insert "cname" target.dropLast)
    | .mx preference exchange =>
      pure ((out.insert "mx-preference" (str preference)).insert "mx-exchange" exchange.dropLast)
    | .srv priority weight port target =>
      pure ((((out.insert "srv-priority" (str priority)).insert "srv-weight" (str weight)).insert
        "srv-port" (str port)).insert "srv-target" target.dropLast)
    | .eui48 eui => lease rec out eui
    | .other _ => pure out

def mapRecord (name : Str) (rec : List Rdataset) : Except Fault (List Dict) :=
  let name := name.rdropWhile (· = '.')
  (rec.flatMap fun rds => rds.rds.map fun rd => (rds, rd)).mapM fun (rds, rd) =>
    mapRd name rec rds rd

abbrev Hosts := List (Str × List Dict)

def parseFile (skipRecords : List Str) (zone : Zone) : Except Fault Hosts :=
  (zone.items.filter fun (name, _) => name.dropLast ∉ skipRecords).mapM fun (name, rec) => do
    let records ← mapRecord name rec
    pure (name.dropLast, records)

def parseFiles (inputs : List (List Str × Zone)) : Except Fault Hosts :=
  inputs.foldlM (fun data (skipRecords, zone) => do
    let parsed ← parseFile skipRecords zone
    pure (parsed.foldl (fun data (name, records) => assign data name records) data)) []

def Resourced (r : Dict) : Prop := "_resource" ∈ r

theorem insert_resourced {r : Dict} (h : Resourced r) (key : String) (value : Str) :
    Resourced (r.insert key value) := Finmap.mem_insert.mpr (.inr h)

theorem header_resourced (name : Str) (rds : Rdataset) (rd : Rd) :
    Resourced (header name rds rd) := by
  have hfirst : Resourced (Finmap.singleton "_resource" dnsStatic) := by
    simp [Resourced]
  simp only [header]
  cases comment rd with
  | none =>
    split <;> exact insert_resourced (insert_resourced (insert_resourced hfirst _ _) _ _) _ _
  | some c =>
    split <;> exact insert_resourced
      (insert_resourced (insert_resourced (insert_resourced hfirst _ _) _ _) _ _) _ _

theorem leaseAddress_resourced {out : Dict} (h : Resourced out) (rds : Rdataset) :
    Resourced (leaseAddress out rds) := by
  simp only [leaseAddress]
  split
  · exact insert_resourced h _ _
  · exact h

theorem foldl_leaseAddress_resourced {out : Dict} (h : Resourced out) (rec : List Rdataset) :
    Resourced (rec.foldl leaseAddress out) := by
  induction rec generalizing out with
  | nil => exact h
  | cons rds rec ih => exact ih (leaseAddress_resourced h rds)

theorem lease_resourced {rec : List Rdataset} {out r : Dict} {eui : List (Fin 256)}
    (h : lease rec out eui = .ok r) : Resourced r := by
  obtain ⟨name, -, hr⟩ := Except.bind_eq_ok.mp h
  obtain rfl := Except.ok.inj hr
  refine foldl_leaseAddress_resourced (insert_resourced (insert_resourced ?_ _ _) _ _) rec
  simp [Resourced]

theorem mapRd_resourced {name : Str} {rec : List Rdataset} {rds : Rdataset} {rd : Rd} {r : Dict}
    (h : mapRd name rec rds rd = .ok r) : Resourced r := by
  have hout := header_resourced name rds rd
  simp only [mapRd] at h
  split at h
  case isTrue =>
    obtain ⟨address, -, hr⟩ := Except.bind_eq_ok.mp h
    obtain rfl := Except.ok.inj hr
    exact insert_resourced (insert_resourced hout _ _) _ _
  case isFalse =>
    cases hdata : rd.rdata with
    | a address | aaaa address | cname address =>
      rw [hdata] at h
      obtain rfl := Except.ok.inj h
      exact insert_resourced hout _ _
    | mx preference exchange =>
      rw [hdata] at h
      obtain rfl := Except.ok.inj h
      exact insert_resourced (insert_resourced hout _ _) _ _
    | srv priority weight port target =>
      rw [hdata] at h
      obtain rfl := Except.ok.inj h
      exact insert_resourced (insert_resourced (insert_resourced (insert_resourced hout _ _) _ _)
        _ _) _ _
    | eui48 eui =>
      rw [hdata] at h
      exact lease_resourced h
    | other rdtype =>
      rw [hdata] at h
      obtain rfl := Except.ok.inj h
      exact hout

def TypedStatic (r : Dict) : Prop := "type" ∈ r → r.lookup "_resource" = some dnsStatic

theorem insert_static {r : Dict} (h : r.lookup "_resource" = some dnsStatic) (key : String)
    (hkey : "_resource" ≠ key) (value : Str) :
    (r.insert key value).lookup "_resource" = some dnsStatic := by
  rwa [Finmap.lookup_insert_of_ne _ hkey]

theorem header_static (name : Str) (rds : Rdataset) (rd : Rd) :
    (header name rds rd).lookup "_resource" = some dnsStatic := by
  have hfirst : (Finmap.singleton "_resource" dnsStatic : Dict).lookup "_resource" =
      some dnsStatic := Finmap.lookup_singleton_eq
  have htyped := insert_static (insert_static hfirst "type" (by decide) rds.rdtype.name)
    "ttl" (by decide) (toTtl rds.ttl)
  simp only [header]
  cases comment rd with
  | none => split <;> exact insert_static htyped _ (by decide) _
  | some c => split <;> exact insert_static (insert_static htyped _ (by decide) _) _ (by decide) _

theorem leaseAddress_untyped {out : Dict} (h : "type" ∉ out) (rds : Rdataset) :
    "type" ∉ leaseAddress out rds := by
  simp only [leaseAddress]
  split
  · simpa [Finmap.mem_insert] using h
  · exact h

theorem foldl_leaseAddress_untyped {out : Dict} (h : "type" ∉ out) (rec : List Rdataset) :
    "type" ∉ rec.foldl leaseAddress out := by
  induction rec generalizing out with
  | nil => exact h
  | cons rds rec ih => exact ih (leaseAddress_untyped h rds)

theorem lease_untyped {rec : List Rdataset} {out r : Dict} {eui : List (Fin 256)}
    (h : lease rec out eui = .ok r) : "type" ∉ r := by
  obtain ⟨name, -, hr⟩ := Except.bind_eq_ok.mp h
  obtain rfl := Except.ok.inj hr
  refine foldl_leaseAddress_untyped ?_ rec
  simp [Finmap.mem_insert]

theorem mapRd_typedStatic {name : Str} {rec : List Rdataset} {rds : Rdataset} {rd : Rd} {r : Dict}
    (h : mapRd name rec rds rd = .ok r) : TypedStatic r := by
  have hout := header_static name rds rd
  simp only [mapRd] at h
  split at h
  case isTrue =>
    obtain ⟨address, -, hr⟩ := Except.bind_eq_ok.mp h
    obtain rfl := Except.ok.inj hr
    exact fun _ => insert_static (insert_static hout _ (by decide) _) _ (by decide) _
  case isFalse =>
    cases hdata : rd.rdata with
    | a address | aaaa address | cname address =>
      rw [hdata] at h
      obtain rfl := Except.ok.inj h
      exact fun _ => insert_static hout _ (by decide) _
    | mx preference exchange =>
      rw [hdata] at h
      obtain rfl := Except.ok.inj h
      exact fun _ => insert_static (insert_static hout _ (by decide) _) _ (by decide) _
    | srv priority weight port target =>
      rw [hdata] at h
      obtain rfl := Except.ok.inj h
      exact fun _ => insert_static (insert_static (insert_static (insert_static hout _ (by decide)
        _) _ (by decide) _) _ (by decide) _) _ (by decide) _
    | eui48 eui =>
      rw [hdata] at h
      exact fun htype => absurd htype (lease_untyped h)
    | other rdtype =>
      rw [hdata] at h
      obtain rfl := Except.ok.inj h
      exact fun _ => hout

section Files

variable {P : Dict → Prop}
  (hmap : ∀ {name rec rds rd r}, mapRd name rec rds rd = .ok r → P r)
include hmap

theorem mapRecord_forall {name : Str} {rec : List Rdataset} {records : List Dict}
    (h : mapRecord name rec = .ok records) : ∀ r ∈ records, P r := by
  intro r hr
  obtain ⟨⟨rds, rd⟩, -, hok⟩ := Except.exists_of_mem_mapM h hr
  exact hmap hok

theorem parseFile_forall {skipRecords : List Str} {zone : Zone} {hosts : Hosts}
    (h : parseFile skipRecords zone = .ok hosts) : ∀ e ∈ hosts, ∀ r ∈ e.2, P r := by
  intro e he
  obtain ⟨⟨name, rec⟩, -, hok⟩ := Except.exists_of_mem_mapM h he
  obtain ⟨records, hrecords, heq⟩ := Except.bind_eq_ok.mp hok
  obtain rfl := Except.ok.inj heq
  exact mapRecord_forall hmap hrecords

omit hmap in
theorem foldl_assign_forall {data parsed : Hosts} (hdata : ∀ e ∈ data, ∀ r ∈ e.2, P r)
    (hparsed : ∀ e ∈ parsed, ∀ r ∈ e.2, P r) :
    ∀ e ∈ parsed.foldl (fun data (name, records) => assign data name records) data,
      ∀ r ∈ e.2, P r := by
  induction parsed generalizing data with
  | nil => exact hdata
  | cons e parsed ih =>
    refine ih ?_ fun e' he' => hparsed e' (List.mem_cons_of_mem _ he')
    intro e' he'
    rcases mem_assign he' with hold | rfl
    · exact hdata e' hold
    · exact hparsed e List.mem_cons_self

theorem parseFiles_forall {inputs : List (List Str × Zone)} {hosts : Hosts}
    (h : parseFiles inputs = .ok hosts) : ∀ e ∈ hosts, ∀ r ∈ e.2, P r := by
  refine Except.foldlM_invariant (fun hosts : Hosts => ∀ e ∈ hosts, ∀ r ∈ e.2, P r) ?_ ?_ h
  · rintro data ⟨skipRecords, zone⟩ data' hdata hstep
    obtain ⟨parsed, hparsed, heq⟩ := Except.bind_eq_ok.mp hstep
    obtain rfl := Except.ok.inj heq
    exact foldl_assign_forall hdata (parseFile_forall hmap hparsed)
  · intro e he
    cases he

end Files

def AllResourced (hosts : Hosts) : Prop := ∀ e ∈ hosts, ∀ r ∈ e.2, Resourced r

theorem parseFiles_resourced {inputs : List (List Str × Zone)} {hosts : Hosts}
    (h : parseFiles inputs = .ok hosts) : AllResourced hosts :=
  parseFiles_forall mapRd_resourced h

end Isz.Dns
