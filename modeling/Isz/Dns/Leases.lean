import Isz.Dns.Router
import Isz.Library.Grouping

namespace Isz.Dns

section Assignment

variable (env : Environment) (interfaces : Interfaces) (address : Str)

def OnInterface (interface : Str) : Prop :=
  ∃ entry ∈ interfaces.addresses, entry.1 = interface ∧
    env.contains (env.cidr entry.2) address = true

instance (interface : Str) : Decidable (OnInterface env interfaces address interface) :=
  inferInstanceAs (Decidable (∃ entry ∈ _, _))

def Serves (name : Str) : Prop :=
  ∃ server ∈ interfaces.dhcpServers, server.2 = name ∧
    OnInterface env interfaces address server.1

def InOneNetwork : Prop :=
  ∀ entry ∈ interfaces.addresses, ∀ entry' ∈ interfaces.addresses,
    env.contains (env.cidr entry.2) address = true →
    env.contains (env.cidr entry'.2) address = true → env.cidr entry.2 = env.cidr entry'.2

instance : Decidable (InOneNetwork env interfaces address) :=
  have := env.decEq
  inferInstanceAs (Decidable (∀ entry ∈ _, ∀ entry' ∈ _, _))

def RightServer : Prop :=
  ∀ name, getDhcpServerForAddress env interfaces address = some name ↔
    Serves env interfaces address name

def lastAddress (interface : Str) : Option Str :=
  (interfaces.addresses.filter fun entry => entry.1 = interface).getLast?.map Prod.snd

structure Lossless : Prop where
  oneName : ∀ name name', Serves env interfaces address name → Serves env interfaces address name' →
    name = name'
  kept : ∀ name, Serves env interfaces address name →
    ∃ server ∈ interfaces.dhcpServers, ∃ last ∈ lastAddress interfaces server.1,
      env.contains (env.cidr last) address = true

def servedNetworks : List (env.Network × Str) :=
  interfaces.dhcpServers.filterMap fun server =>
    (lastAddress interfaces server.1).map fun last => (env.cidr last, server.2)

end Assignment

section Joins

variable {env : Environment} {interfaces : Interfaces} {address : Str}

theorem lastAddress_mem {interface last : Str} (h : last ∈ lastAddress interfaces interface) :
    (interface, last) ∈ interfaces.addresses := by
  obtain ⟨⟨i, a⟩, hlast, rfl⟩ := Option.map_eq_some_iff.mp h
  obtain ⟨hmem, hinterface⟩ := List.mem_filter.mp (List.mem_of_getLast? hlast)
  rw [decide_eq_true_iff] at hinterface
  exact hinterface ▸ hmem

theorem mem_servedNetworks {entry : env.Network × Str} :
    entry ∈ servedNetworks env interfaces ↔ ∃ server ∈ interfaces.dhcpServers,
      ∃ last ∈ lastAddress interfaces server.1, (env.cidr last, server.2) = entry := by
  simp only [servedNetworks, List.mem_filterMap, Option.map_eq_some_iff, Option.mem_def]

theorem serves_of_served {entry : env.Network × Str} (h : entry ∈ servedNetworks env interfaces)
    (hcontains : env.contains entry.1 address = true) :
    Serves env interfaces address entry.2 := by
  obtain ⟨server, hserver, last, hlast, rfl⟩ := mem_servedNetworks.mp h
  exact ⟨server, hserver, rfl, _, lastAddress_mem hlast, rfl, hcontains⟩

theorem dhcpServerByNetwork_eq :
    dhcpServerByNetwork env interfaces =
      let _ := env.decEq
      (servedNetworks env interfaces).foldl (fun out x => assign out x.1 x.2) [] := by
  let _ := env.decEq
  have hnetwork : ∀ interface, (interfaces.addresses.foldl (fun networks entry =>
      assign networks entry.1 (env.cidr entry.2)) []).lookup interface =
        (lastAddress interfaces interface).map env.cidr := by
    intro interface
    rw [Grouping.lookup_foldl_assign Prod.fst fun entry => env.cidr entry.2, List.lookup_nil,
      Option.or_none, lastAddress, Option.map_map]
    rfl
  rw [dhcpServerByNetwork, servedNetworks, List.foldl_filterMap]
  refine List.foldl_ext _ _ _ fun out server _ => ?_
  simp only [hnetwork]
  cases lastAddress interfaces server.1 <;> rfl

theorem getDhcpServerForAddress_eq (h : InOneNetwork env interfaces address) :
    getDhcpServerForAddress env interfaces address =
      ((servedNetworks env interfaces).filter fun entry =>
        env.contains entry.1 address).getLast?.map Prod.snd := by
  let _ := env.decEq
  rw [getDhcpServerForAddress, dhcpServerByNetwork_eq]
  refine congrArg (Option.map Prod.snd) (find?_foldl_assign
    (p := fun network => env.contains network address) fun entry hentry entry' hentry' => ?_)
  obtain ⟨server, -, last, hlast, rfl⟩ := mem_servedNetworks.mp hentry
  obtain ⟨server', -, last', hlast', rfl⟩ := mem_servedNetworks.mp hentry'
  exact h _ (lastAddress_mem hlast) _ (lastAddress_mem hlast')

theorem rightServer_iff (h : InOneNetwork env interfaces address) :
    RightServer env interfaces address ↔ Lossless env interfaces address := by
  rw [RightServer, getDhcpServerForAddress_eq h]
  constructor
  · intro hright
    refine ⟨fun name name' hname hname' => ?_, fun name hname => ?_⟩
    · exact Option.some.inj (((hright name).mpr hname).symm.trans ((hright name').mpr hname'))
    · obtain ⟨entry, hlast, -⟩ := Option.map_eq_some_iff.mp ((hright name).mpr hname)
      obtain ⟨hentry, hcontains⟩ := List.mem_filter.mp (List.mem_of_getLast? hlast)
      obtain ⟨server, hserver, last, hlastAddress, rfl⟩ := mem_servedNetworks.mp hentry
      exact ⟨server, hserver, last, hlastAddress, hcontains⟩
  · rintro hlossless name
    constructor
    · intro hname
      obtain ⟨entry, hlast, rfl⟩ := Option.map_eq_some_iff.mp hname
      obtain ⟨hentry, hcontains⟩ := List.mem_filter.mp (List.mem_of_getLast? hlast)
      exact serves_of_served hentry hcontains
    · intro hname
      obtain ⟨server, hserver, last, hlast, hcontains⟩ := hlossless.kept name hname
      have hserved : (env.cidr last, server.2) ∈ (servedNetworks env interfaces).filter
          fun entry => env.contains entry.1 address :=
        List.mem_filter.mpr ⟨mem_servedNetworks.mpr ⟨server, hserver, last, hlast, rfl⟩, hcontains⟩
      have hfound := List.getLast?_eq_some_getLast (List.ne_nil_of_mem hserved)
      obtain ⟨hentry, hlastContains⟩ := List.mem_filter.mp (List.mem_of_getLast? hfound)
      rw [hfound, Option.map_some,
        hlossless.oneName _ name (serves_of_served hentry hlastContains) hname]

end Joins

-- netaddr on addresses with the prefix length 24
def slash24 : Environment where
  Network := List Str
  decEq := inferInstance
  cidr := fun address => (address.splitOn '.').take 3
  contains := fun network address => (address.splitOn '.').take 3 = network
  iter := plainEnvironment.iter
  iter_perm := plainEnvironment.iter_perm
  newId := plainEnvironment.newId
  newId_fresh := plainEnvironment.newId_fresh

def twoNetworks : Interfaces where
  addresses := [("lan".toList, "192.168.1.1/24".toList), ("guest".toList, "10.0.0.1/24".toList)]
  dhcpServers := [("guest".toList, "dhcp2".toList), ("lan".toList, "dhcp1".toList)]

theorem rightServer_iff_twoNetworks :
    RightServer slash24 twoNetworks "192.168.1.5".toList := by
  have hone : InOneNetwork slash24 twoNetworks "192.168.1.5".toList := by decide
  refine (rightServer_iff hone).mpr ⟨fun name name' hname hname' => ?_, fun name _ => ?_⟩
  · have hserves : ∀ server ∈ twoNetworks.dhcpServers,
        OnInterface slash24 twoNetworks "192.168.1.5".toList server.1 →
          server.2 = "dhcp1".toList := by decide
    obtain ⟨server, hserver, rfl, hon⟩ := hname
    obtain ⟨server', hserver', rfl, hon'⟩ := hname'
    rw [hserves server hserver hon, hserves server' hserver' hon']
  · exact ⟨("lan".toList, "dhcp1".toList), by decide, "192.168.1.1/24".toList, by decide,
      by decide⟩

def twoAddresses : Interfaces where
  addresses := [("lan".toList, "192.168.1.1/24".toList), ("lan".toList, "10.0.0.1/24".toList)]
  dhcpServers := [("lan".toList, "dhcp1".toList)]

theorem twoAddresses_lost : InOneNetwork slash24 twoAddresses "192.168.1.5".toList ∧
    getDhcpServerForAddress slash24 twoAddresses "192.168.1.5".toList = none ∧
    ¬RightServer slash24 twoAddresses "192.168.1.5".toList := by
  have hnone : getDhcpServerForAddress slash24 twoAddresses "192.168.1.5".toList = none := by
    decide
  refine ⟨by decide, hnone, fun hright => ?_⟩
  have hserves : Serves slash24 twoAddresses "192.168.1.5".toList "dhcp1".toList :=
    ⟨("lan".toList, "dhcp1".toList), by decide, rfl, ("lan".toList, "192.168.1.1/24".toList),
      by decide, rfl, by decide⟩
  cases hnone.symm.trans ((hright "dhcp1".toList).mpr hserves)

end Isz.Dns
