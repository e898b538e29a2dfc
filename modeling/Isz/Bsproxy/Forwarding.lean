import Isz.Library.Cascade

namespace Isz.Bsproxy

def maxPacketSize : ℕ := 8192

structure Interface where
  index : ℕ
  name : String
  address : UInt32
  link : ℕ
  deriving DecidableEq

structure Host where
  interfaces : List Interface
  inputInterfaces : List String
  outputInterfaces : List String
  distinct : (interfaces.map Interface.index).Nodup
  deriving DecidableEq

structure Packet where
  msg : List UInt8
  ttl : ℕ
  source : UInt32
  deriving DecidableEq

structure Reception where
  host : Host
  ipiIfindex : ℕ
  ipiSpecDst : UInt32
  packet : Packet
  deriving DecidableEq

def interfaceNameByIndex (host : Host) (index : ℕ) : Option String :=
  (host.interfaces.find? fun interface => interface.index = index).map Interface.name

def outputInterfaceIndices (host : Host) : List ℕ :=
  (host.interfaces.filter fun interface => interface.name ∈ host.outputInterfaces).map
    Interface.index

-- a name that is looked up for the log raises KeyError for an unknown interface
def recv (reception : Reception) : Option (List (ℕ × Packet)) :=
  (interfaceNameByIndex reception.host reception.ipiIfindex).map fun name =>
    if 1 < reception.packet.ttl ∧ name ∈ reception.host.inputInterfaces then
      (outputInterfaceIndices reception.host).map fun i =>
        (i, ⟨reception.packet.msg.take maxPacketSize, 1, reception.ipiSpecDst⟩)
    else []

def stations (hosts : List Host) : List (Host × Interface) :=
  hosts.flatMap fun host => host.interfaces.map fun interface => (host, interface)

def arrival (packet : Packet) (station : Host × Interface) : Reception :=
  ⟨station.1, station.2.index, station.2.address, packet⟩

-- a broadcast is heard on all interfaces of its link, the sender's own included
def broadcast (hosts : List Host) (link : ℕ) (packet : Packet) : List Reception :=
  ((stations hosts).filter fun station => station.2.link = link).map (arrival packet)

def sendmsg (hosts : List Host) (host : Host) (sent : ℕ × Packet) : List Reception :=
  match host.interfaces.find? fun interface => interface.index = sent.1 with
  | none => []
  | some interface => broadcast hosts interface.link sent.2

def forward (hosts : List Host) (reception : Reception) : List Reception :=
  ((recv reception).getD []).flatMap (sendmsg hosts reception.host)

inductive Event where
  | broadcast (link : ℕ) (packet : Packet)
  | recv (reception : Reception)
  | lose (reception : Reception)

def Event.work (hosts : List Host) : Event → Cascade.Event Reception
  | .broadcast link packet => .add (Bsproxy.broadcast hosts link packet)
  | .recv reception => .take reception
  | .lose reception => .drop reception

def Event.loses : Event → Bool
  | .lose _ => true
  | _ => false

def Event.receives : Event → Bool
  | .recv _ => true
  | _ => false

def run (hosts : List Host) (events : List Event) : Option (Cascade.Work Reception) :=
  Cascade.run (fun reception => forward hosts reception) ⟨0, 0⟩ (events.map (Event.work hosts))

def copies (hosts : List Host) (link : ℕ) (packet : Packet) : List (ℕ × Packet) :=
  if 1 < packet.ttl then
    ((stations hosts).filter fun station =>
      station.2.link = link ∧ station.2.name ∈ station.1.inputInterfaces).flatMap fun station =>
        (station.1.interfaces.filter fun out =>
          out.name ∈ station.1.outputInterfaces).map fun out =>
            (out.link, ⟨packet.msg.take maxPacketSize, 1, station.2.address⟩)
  else []

def heard (hosts : List Host) (link : ℕ) (packet : Packet) : List Reception :=
  broadcast hosts link packet ++
    (copies hosts link packet).flatMap fun copy => broadcast hosts copy.1 copy.2

def Event.heard (hosts : List Host) : Event → List Reception
  | .broadcast link packet => Bsproxy.heard hosts link packet
  | _ => []

section Interfaces

variable {hosts : List Host} {host : Host} {interface : Interface}

theorem find_index (h : interface ∈ host.interfaces) :
    (host.interfaces.find? fun other => other.index = interface.index) = some interface := by
  cases hfind : host.interfaces.find? fun other => other.index = interface.index with
  | none => exact absurd (decide_eq_true rfl) (List.find?_eq_none.mp hfind interface h)
  | some other =>
    have hindex : other.index = interface.index := by simpa using List.find?_some hfind
    exact congrArg some (List.inj_on_of_nodup_map host.distinct
      (List.mem_of_find?_eq_some hfind) h hindex)

theorem mem_stations {station : Host × Interface} (h : station ∈ stations hosts) :
    station.2 ∈ station.1.interfaces := by
  obtain ⟨host, -, hmem⟩ := List.mem_flatMap.mp h
  obtain ⟨interface, hinterface, rfl⟩ := List.mem_map.mp hmem
  exact hinterface

theorem recv_arrival {station : Host × Interface} (h : station ∈ stations hosts)
    (packet : Packet) : recv (arrival packet station) = some
      (if 1 < packet.ttl ∧ station.2.name ∈ station.1.inputInterfaces then
        (outputInterfaceIndices station.1).map fun i =>
          (i, ⟨packet.msg.take maxPacketSize, 1, station.2.address⟩)
      else []) := by
  rw [recv, interfaceNameByIndex, arrival, find_index (mem_stations h)]
  rfl

theorem sendmsg_index (h : interface ∈ host.interfaces) (packet : Packet) :
    sendmsg hosts host (interface.index, packet) = broadcast hosts interface.link packet := by
  rw [sendmsg, find_index h]

theorem forward_arrival {station : Host × Interface} (h : station ∈ stations hosts)
    (packet : Packet) : forward hosts (arrival packet station) =
      if 1 < packet.ttl ∧ station.2.name ∈ station.1.inputInterfaces then
        (station.1.interfaces.filter fun out => out.name ∈ station.1.outputInterfaces).flatMap
          fun out => broadcast hosts out.link
            ⟨packet.msg.take maxPacketSize, 1, station.2.address⟩
      else [] := by
  rw [forward, recv_arrival h, Option.getD_some]
  split
  case isTrue =>
    rw [outputInterfaceIndices, List.map_map, List.flatMap_map]
    refine List.flatMap_congr fun out hout => ?_
    exact sendmsg_index (List.mem_of_mem_filter hout) _
  case isFalse => rfl

theorem filter_flatMap_ite {α β : Type} (l : List α) (p : α → Bool) (f : α → List β) :
    (l.filter p).flatMap f = l.flatMap fun a => if p a then f a else [] := by
  induction l with
  | nil => rfl
  | cons a l ih =>
    rw [List.filter_cons, List.flatMap_cons, ← ih]
    split <;> rfl

theorem heard_eq (hosts : List Host) (link : ℕ) (packet : Packet) :
    heard hosts link packet =
      broadcast hosts link packet ++ (broadcast hosts link packet).flatMap (forward hosts) := by
  have hforward : (broadcast hosts link packet).flatMap (forward hosts) =
      ((stations hosts).filter fun station => station.2.link = link).flatMap fun station =>
        if 1 < packet.ttl ∧ station.2.name ∈ station.1.inputInterfaces then
          (station.1.interfaces.filter fun out => out.name ∈ station.1.outputInterfaces).flatMap
            fun out => broadcast hosts out.link
              ⟨packet.msg.take maxPacketSize, 1, station.2.address⟩
        else [] := by
    rw [broadcast, List.flatMap_map]
    refine List.flatMap_congr fun station hstation => ?_
    exact forward_arrival (List.mem_of_mem_filter hstation) packet
  rw [heard, hforward, copies]
  congr 1
  split
  case isTrue httl =>
    simp only [httl, true_and, List.flatMap_assoc, List.flatMap_map]
    rw [filter_flatMap_ite, filter_flatMap_ite]
    refine List.flatMap_congr fun station _ => ?_
    by_cases hlink : station.2.link = link <;> simp [hlink]
  case isFalse httl => simp [httl]

end Interfaces

section Once

variable {hosts : List Host} {reception reception' : Reception}

def rank (reception : Reception) : ℕ := if 1 < reception.packet.ttl then 1 else 0

theorem mem_broadcast {link : ℕ} {packet : Packet}
    (h : reception ∈ broadcast hosts link packet) :
    reception.packet = packet ∧ recv reception ≠ none := by
  obtain ⟨station, hstation, rfl⟩ := List.mem_map.mp h
  rw [recv_arrival (List.mem_of_mem_filter hstation)]
  exact ⟨rfl, nofun⟩

theorem mem_heard {link : ℕ} {packet : Packet} (h : reception ∈ heard hosts link packet) :
    recv reception ≠ none := by
  obtain hfirst | hcopy := List.mem_append.mp h
  · exact (mem_broadcast hfirst).2
  · obtain ⟨copy, -, hmem⟩ := List.mem_flatMap.mp hcopy
    exact (mem_broadcast hmem).2

theorem mem_recv {sent : ℕ × Packet} (h : sent ∈ (recv reception).getD []) :
    1 < reception.packet.ttl ∧ sent.2.ttl = 1 := by
  rw [recv] at h
  cases hname : interfaceNameByIndex reception.host reception.ipiIfindex with
  | none => simp [hname] at h
  | some name =>
    rw [hname, Option.map_some, Option.getD_some] at h
    split at h
    case isTrue hforwarded =>
      obtain ⟨i, -, rfl⟩ := List.mem_map.mp h
      exact ⟨hforwarded.1, rfl⟩
    case isFalse => cases h

theorem mem_forward (h : reception' ∈ forward hosts reception) :
    1 < reception.packet.ttl ∧ reception'.packet.ttl = 1 := by
  obtain ⟨sent, hsent, hmem⟩ := List.mem_flatMap.mp h
  obtain ⟨httl, hone⟩ := mem_recv hsent
  rw [sendmsg] at hmem
  split at hmem
  case h_1 => cases hmem
  case h_2 => exact ⟨httl, (mem_broadcast hmem).1 ▸ hone⟩

theorem rank_forward (hosts : List Host) (reception : Reception) :
    ∀ reception' ∈ (forward hosts reception : Multiset Reception),
      rank reception' < rank reception := by
  intro reception' h
  obtain ⟨httl, hone⟩ := mem_forward (Multiset.mem_coe.mp h)
  rw [rank, rank, if_pos httl, if_neg hone.le.not_gt]
  exact Nat.zero_lt_one

theorem forward_forward (h : reception' ∈ forward hosts reception) :
    forward hosts reception' = [] := by
  refine List.eq_nil_iff_forall_not_mem.mpr fun reception'' h' => ?_
  exact (mem_forward h).2.le.not_gt (mem_forward h').1

theorem whole_cast (receptions : List Reception)
    (h : ∀ reception ∈ receptions, forward hosts reception = []) :
    Cascade.whole (fun reception => forward hosts reception) rank
      (receptions : Multiset Reception) = receptions := by
  induction receptions with
  | nil => exact Cascade.whole_zero
  | cons reception receptions ih =>
    rw [← Multiset.cons_coe, Cascade.whole_cons (rank_forward hosts), h _ List.mem_cons_self,
      ih fun r hr => h r (List.mem_cons_of_mem _ hr)]
    rw [Multiset.coe_nil, Cascade.whole_zero, zero_add]

theorem whole_receptions (receptions : List Reception) :
    Cascade.whole (fun reception => forward hosts reception) rank
      (receptions : Multiset Reception) =
        (receptions ++ receptions.flatMap (forward hosts) : List Reception) := by
  induction receptions with
  | nil => exact Cascade.whole_zero
  | cons reception receptions ih =>
    rw [← Multiset.cons_coe, Cascade.whole_cons (rank_forward hosts), ih,
      whole_cast _ fun _ => forward_forward]
    rw [Multiset.coe_add, Multiset.cons_coe, Multiset.coe_eq_coe, List.flatMap_cons,
      List.cons_append, List.perm_cons, ← List.append_assoc, ← List.append_assoc]
    exact List.perm_append_comm.append_right _

theorem whole_added (events : List Event) :
    Cascade.whole (fun reception => forward hosts reception) rank
      (Cascade.added (events.map (Event.work hosts))) =
        (events.flatMap (Event.heard hosts) : List Reception) := by
  induction events with
  | nil => exact Cascade.whole_zero
  | cons event events ih =>
    rw [List.map_cons, Cascade.added, List.map_cons, List.sum_cons, ← Cascade.added,
      Cascade.whole_add, ih, List.flatMap_cons, ← Multiset.coe_add]
    congr 1
    cases event with
    | broadcast link packet =>
      rw [Event.heard, heard_eq]
      exact whole_receptions _
    | recv reception => exact Cascade.whole_zero
    | lose reception => exact Cascade.whole_zero

end Once

theorem heard_once (hosts : List Host) (events : List Event) {work : Cascade.Work Reception}
    (hrun : run hosts events = some work) :
    work.done ≤ (events.flatMap (Event.heard hosts) : List Reception) ∧
      events.countP Event.receives ≤ (events.flatMap (Event.heard hosts)).length ∧
      (∀ reception ∈ work.done, recv reception ≠ none) ∧
      ((∀ event ∈ events, event.loses = false) → work.pending = 0 →
        work.done = (events.flatMap (Event.heard hosts) : List Reception)) := by
  obtain ⟨hle, heq⟩ := Cascade.whole_run (rank_forward hosts) hrun
  rw [whole_added] at hle heq
  have hzero : Cascade.Work.whole (fun reception => forward hosts reception) rank
      (⟨0, 0⟩ : Cascade.Work Reception) = 0 := by
    rw [Cascade.Work.whole, Cascade.whole_zero, add_zero]
  rw [hzero, zero_add] at hle heq
  have hdone : work.done ≤ (events.flatMap (Event.heard hosts) : List Reception) :=
    (Multiset.le_add_right _ _).trans hle
  refine ⟨hdone, ?_, fun reception hmem => ?_, fun hloses hpending => ?_⟩
  · have hcard := Cascade.card_done hrun
    have hcount : (events.map (Event.work hosts)).countP Cascade.Event.takes =
        events.countP Event.receives := by
      rw [List.countP_map]
      refine List.countP_congr fun event _ => ?_
      cases event <;> simp [Event.work, Event.receives, Cascade.Event.takes]
    rw [hcount, Multiset.card_zero, zero_add] at hcard
    exact hcard ▸ Multiset.card_le_card hdone
  · obtain ⟨event, -, hevent⟩ := List.mem_flatMap.mp (Multiset.mem_of_le hdone hmem)
    cases event with
    | broadcast link packet => exact mem_heard hevent
    | recv reception => cases hevent
    | lose reception => cases hevent
  · have hdrops : ∀ event ∈ events.map (Event.work hosts), event.drops = false := by
      intro event hevent
      obtain ⟨event, hmem, rfl⟩ := List.mem_map.mp hevent
      have hloses' := hloses event hmem
      cases event with
      | lose reception => cases hloses'
      | _ => rfl
    rw [← heq hdrops, Cascade.Work.whole, hpending, Cascade.whole_zero, add_zero]

def looped : List Host :=
  [⟨[⟨2, "eth0", 10, 0⟩, ⟨3, "eth1", 11, 1⟩], ["eth0"], ["eth1"], by decide⟩,
    ⟨[⟨2, "eth0", 20, 1⟩, ⟨3, "eth1", 21, 0⟩], ["eth0"], ["eth1"], by decide⟩]

def receptions : List Reception :=
  let packet : Packet := ⟨[66], 64, 30⟩
  let forwarded : Packet := ⟨[66], 1, 10⟩
  (looped.head?.toList.flatMap fun host => [⟨host, 2, 10, packet⟩, ⟨host, 3, 11, forwarded⟩]) ++
    looped.tail.flatMap fun host => [⟨host, 3, 21, packet⟩, ⟨host, 2, 20, forwarded⟩]

theorem heard_once_looped : ∃ work : Cascade.Work Reception,
    run looped (.broadcast 0 ⟨[66], 64, 30⟩ :: receptions.map .recv) = some work ∧
      work.done = (receptions : Multiset Reception) := by
  have hheard := heard_once looped (.broadcast 0 ⟨[66], 64, 30⟩ :: receptions.map .recv) rfl
  exact ⟨_, rfl, (hheard.2.2.2 (by decide) rfl).trans (by decide)⟩

end Isz.Bsproxy
