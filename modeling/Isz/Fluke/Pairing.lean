import Isz.Fluke.Protocol

namespace Isz.Fluke

open Runs

def Quiet (s : State) : Prop := s.toMeter = [] ∧ s.executing = none ∧ s.fromMeter = []

instance (s : State) : Decidable (Quiet s) := inferInstanceAs (Decidable (_ ∧ _ ∧ _))

def Fut.answers : Fut → Bool
  | .done r => !(answer r.resp).raises
  | _ => false

def enters (s : State) : Action → Bool
  | .start .init => true
  | .start .format => false
  | .start (.ask _) => s.conn = .ready
  | .resume c _ => s.pc c = .waiting true false ∨
      s.pc c = .connecting true false ∧ s.conn = .ready ∨
      c = .init ∧ s.pc c = .shielded false ∧ (s.fut c).answers
  | _ => false

def interrupts (s : State) : Action → Bool
  | .resume c _ => s.pc c = .shielded true ∨ s.pc c = .shielded false ∧ s.fut c = .cancelled
  | _ => false

def Action.caller : Action → Option Caller
  | .start c => some c
  | .resume c _ => some c
  | _ => none

structure Unmixed (s : State) (a : Action) : Prop where
  own : interrupts s a → s.slot = a.caller
  quiet : enters s a → s.slot = none → Quiet s

instance (s : State) (a : Action) : Decidable (Unmixed s a) :=
  decidable_of_iff ((interrupts s a → s.slot = a.caller) ∧ (enters s a → s.slot = none → Quiet s))
    ⟨fun h => ⟨h.1, h.2⟩, fun h => ⟨h.own, h.quiet⟩⟩

def Genuine (c : Caller) (asked : Bool) : Outcome → Prop
  | .received r => r.owner = c
  | .cancelled => asked = true
  | .typeError => False

def PcGenuine (c : Caller) (asked : Bool) : Pc → Prop
  | .idle => True
  | .connecting _ cancelled => cancelled = true → asked = true
  | .waiting _ cancelled => cancelled = true → asked = true
  | .shielded cancelled => cancelled = true → asked = true
  | .interrupting holder _ => holder = c ∧ asked = true
  | .finished outcome => Genuine c asked outcome

structure Owed (s : State) (c : Caller) : Prop where
  toMeter : ∀ m ∈ s.toMeter, m.owner = c
  executing : ∀ d, s.executing = some d → d = c
  fromMeter : ∀ r ∈ s.fromMeter, r.owner = c

structure Paired (s : State) : Prop where
  owed : ∀ c, s.slot = some c → Owed s c
  done : ∀ c r, s.fut c = .done r → r.owner = c
  dropped : ∀ c, s.fut c = .cancelled → s.asked c = true
  genuine : ∀ c, PcGenuine c (s.asked c) (s.pc c)

theorem initial_paired : Paired initial where
  owed := fun c h => by cases h
  done := fun c r h => by cases h
  dropped := fun c h => by cases h
  genuine := fun c => trivial

section Steps

variable {s : State} {c : Caller}

theorem Owed.congr {s' : State} (h : Owed s c) (hto : s'.toMeter = s.toMeter)
    (hexecuting : s'.executing = s.executing) (hfrom : s'.fromMeter = s.fromMeter) :
    Owed s' c where
  toMeter := hto ▸ h.toMeter
  executing := hexecuting ▸ h.executing
  fromMeter := hfrom ▸ h.fromMeter

theorem setPc_paired (h : Paired s) {pc : Pc} (hpc : PcGenuine c (s.asked c) pc) :
    Paired (s.setPc c pc) where
  owed := fun d hslot => (h.owed d hslot).congr rfl rfl rfl
  done := h.done
  dropped := h.dropped
  genuine := fun d => by
    simp only [State.setPc, Function.update_apply]
    split
    case isTrue heq =>
      subst heq
      exact hpc
    case isFalse => exact h.genuine d

theorem notify_genuine {asked : Bool} {pc : Pc} (h : PcGenuine c asked pc) :
    PcGenuine c asked pc.notify := by
  cases pc <;> exact h

theorem notifyAll_paired (h : Paired s) : Paired s.notifyAll where
  owed := fun d hslot => (h.owed d hslot).congr rfl rfl rfl
  done := h.done
  dropped := h.dropped
  genuine := fun d => notify_genuine (h.genuine d)

theorem passOn_paired (h : Paired s) (next : Option Caller) : Paired (s.passOn next) := by
  cases next with
  | none => exact h
  | some d => exact setPc_paired h (notify_genuine (h.genuine d))

theorem conn_paired (h : Paired s) (conn : ConnectionState) : Paired { s with conn := conn } where
  owed := fun d hslot => (h.owed d hslot).congr rfl rfl rfl
  done := h.done
  dropped := h.dropped
  genuine := h.genuine

theorem takeSlot_paired (h : Paired s) (hquiet : Quiet s) :
    Paired (({ s with slot := some c }.setFut c .pending).write (State.command c)) := by
  obtain ⟨hto, hexecuting, hfrom⟩ := hquiet
  refine ⟨fun d hd => ?_, fun d r hfut => ?_, fun d hfut => ?_, h.genuine⟩
  · obtain rfl := Option.some.inj hd
    refine ⟨fun m hm => ?_, fun d hd => ?_, fun r hr => ?_⟩
    · simp only [State.write, State.setFut, hto, List.nil_append, List.mem_singleton] at hm
      subst hm
      cases c <;> rfl
    · cases hexecuting.symm.trans hd
    · cases hfrom ▸ hr
  · simp only [State.write, State.setFut, Function.update_apply] at hfut
    split at hfut
    · cases hfut
    · exact h.done d r hfut
  · simp only [State.write, State.setFut, Function.update_apply] at hfut
    split at hfut
    · cases hfut
    · exact h.dropped d hfut

theorem enterAsk_paired (h : Paired s) (hquiet : s.slot = none → Quiet s) :
    Paired (s.enterAsk c) := by
  simp only [State.enterAsk]
  cases hslot : s.slot with
  | some d => exact setPc_paired h nofun
  | none =>
    have htaken := takeSlot_paired (c := c) h (hquiet hslot)
    exact setPc_paired htaken nofun

theorem finish_paired (h : Paired s) {outcome : Outcome}
    (hgenuine : PcGenuine c (s.asked c) (.finished outcome))
    (hquiet : ∀ r, outcome = .received r → (answer r.resp).raises = false → c = .init →
      s.slot = none → Quiet s) : Paired (s.finish c outcome) := by
  have hfinished := setPc_paired h hgenuine
  simp only [State.finish]
  split
  · exact hfinished
  · split
    case isTrue => exact hfinished
    case isFalse hraises =>
      exact enterAsk_paired hfinished (hquiet _ rfl (by simpa using hraises) rfl)
  · split
    · exact hfinished
    · exact notifyAll_paired (conn_paired hfinished _)
  · exact conn_paired hfinished _
  · exact hfinished

theorem interrupt_paired (h : Paired s) (hslot : s.slot = some c) (hasked : s.asked c = true) :
    Paired (s.interrupt c) := by
  have hwritten : Paired (s.write (.interrupt c)) := by
    refine ⟨fun d hd => ?_, h.done, h.dropped, h.genuine⟩
    obtain rfl := Option.some.inj (hslot.symm.trans hd)
    refine ⟨fun m hm => ?_, (h.owed c hslot).executing, (h.owed c hslot).fromMeter⟩
    rcases List.mem_append.mp hm with hm | hm
    · exact (h.owed c hslot).toMeter m hm
    · obtain rfl := List.mem_singleton.mp hm
      rfl
  have hgenuine : PcGenuine c (s.asked c) (.interrupting c false) := ⟨rfl, hasked⟩
  have hheld : (s.write (.interrupt c)).slot = some c := hslot
  simp only [State.interrupt, hheld]
  exact setPc_paired hwritten hgenuine

theorem enterConnect_paired (h : Paired s)
    (hquiet : s.conn = .ready → s.slot = none → Quiet s) : Paired (s.enterConnect c) := by
  simp only [State.enterConnect]
  split
  case isTrue hready => exact enterAsk_paired h (hquiet hready)
  case isFalse => exact setPc_paired h nofun

theorem start_paired {s' : State} (h : Paired s) (hunmixed : Unmixed s (.start c))
    (hstep : s.start c = some s') : Paired s' := by
  simp only [State.start] at hstep
  split at hstep
  · obtain rfl := Option.some.inj hstep
    have hnotified := notifyAll_paired (conn_paired h .connecting)
    exact enterAsk_paired hnotified (hunmixed.quiet rfl)
  · obtain rfl := Option.some.inj hstep
    exact enterConnect_paired h fun hready => hunmixed.quiet (decide_eq_true hready)
  · cases hstep

theorem finish_cancelled_paired (h : Paired s) (hasked : s.asked c = true) :
    Paired (s.finish c .cancelled) :=
  finish_paired h hasked nofun

theorem resume_connecting {s' : State} {next : Option Caller} {notified cancelled : Bool}
    (h : Paired s) (hpc : s.pc c = .connecting notified cancelled)
    (hunmixed : Unmixed s (.resume c next)) (hstep : s.resume c next = some s') : Paired s' := by
  have hgenuine := h.genuine c
  rw [hpc] at hgenuine
  simp only [State.resume, hpc] at hstep
  cases cancelled with
  | true =>
    obtain rfl := Option.some.inj hstep
    exact passOn_paired (finish_cancelled_paired h (hgenuine rfl)) next
  | false =>
    cases notified with
    | true =>
      obtain rfl := Option.some.inj hstep
      exact enterConnect_paired h fun hready => hunmixed.quiet
        (decide_eq_true (.inr (.inl ⟨hpc, hready⟩)))
    | false => cases hstep

theorem resume_waiting {s' : State} {next : Option Caller} {notified cancelled : Bool}
    (h : Paired s) (hpc : s.pc c = .waiting notified cancelled)
    (hunmixed : Unmixed s (.resume c next)) (hstep : s.resume c next = some s') : Paired s' := by
  have hgenuine := h.genuine c
  rw [hpc] at hgenuine
  simp only [State.resume, hpc] at hstep
  cases cancelled with
  | true =>
    obtain rfl := Option.some.inj hstep
    exact passOn_paired (finish_cancelled_paired h (hgenuine rfl)) next
  | false =>
    cases notified with
    | true =>
      obtain rfl := Option.some.inj hstep
      exact enterAsk_paired h (hunmixed.quiet (decide_eq_true (.inl hpc)))
    | false => cases hstep

theorem resume_shielded {s' : State} {next : Option Caller} {cancelled : Bool}
    (h : Paired s) (hpc : s.pc c = .shielded cancelled)
    (hunmixed : Unmixed s (.resume c next)) (hstep : s.resume c next = some s') : Paired s' := by
  have hgenuine := h.genuine c
  rw [hpc] at hgenuine
  simp only [State.resume, hpc] at hstep
  cases cancelled with
  | true =>
    obtain rfl := Option.some.inj hstep
    exact interrupt_paired h (hunmixed.own (decide_eq_true (.inl hpc))) (hgenuine rfl)
  | false =>
    cases hfut : s.fut c with
    | pending =>
      rw [hfut] at hstep
      cases hstep
    | done r =>
      rw [hfut] at hstep
      obtain rfl := Option.some.inj hstep
      refine finish_paired h (h.done c r hfut) fun r' hr' hok hinit => ?_
      obtain rfl := Outcome.received.inj hr'
      have hanswers : (s.fut c).answers = true := by simp [hfut, Fut.answers, hok]
      exact hunmixed.quiet (decide_eq_true (.inr (.inr ⟨hinit, hpc, hanswers⟩)))
    | cancelled =>
      rw [hfut] at hstep
      obtain rfl := Option.some.inj hstep
      exact interrupt_paired h (hunmixed.own (decide_eq_true (.inr ⟨hpc, hfut⟩))) (h.dropped c hfut)

theorem resume_interrupting {s' : State} {next : Option Caller} {holder : Caller}
    {cancelled : Bool} (h : Paired s) (hpc : s.pc c = .interrupting holder cancelled)
    (hstep : s.resume c next = some s') : Paired s' := by
  have hgenuine := h.genuine c
  rw [hpc] at hgenuine
  obtain ⟨rfl, hasked⟩ := hgenuine
  simp only [State.resume, hpc] at hstep
  cases cancelled with
  | true =>
    obtain rfl := Option.some.inj hstep
    exact finish_cancelled_paired h hasked
  | false =>
    cases hfut : s.fut holder with
    | pending =>
      simp only [hfut] at hstep
      cases hstep
    | done r =>
      simp only [hfut] at hstep
      obtain rfl := Option.some.inj hstep
      split
      case isTrue hraises =>
        refine finish_paired h (h.done holder r hfut) fun r' hr' hok => ?_
        obtain rfl := Outcome.received.inj hr'
        cases hraises.symm.trans hok
      case isFalse => exact finish_cancelled_paired h hasked
    | cancelled =>
      simp only [hfut] at hstep
      obtain rfl := Option.some.inj hstep
      exact finish_cancelled_paired h hasked

theorem resume_paired {s' : State} {next : Option Caller} (h : Paired s)
    (hunmixed : Unmixed s (.resume c next)) (hstep : s.resume c next = some s') : Paired s' := by
  cases hpc : s.pc c with
  | idle =>
    simp only [State.resume, hpc] at hstep
    cases hstep
  | connecting notified cancelled => exact resume_connecting h hpc hunmixed hstep
  | waiting notified cancelled => exact resume_waiting h hpc hunmixed hstep
  | shielded cancelled => exact resume_shielded h hpc hunmixed hstep
  | interrupting holder cancelled => exact resume_interrupting h hpc hstep
  | finished outcome =>
    simp only [State.resume, hpc] at hstep
    cases hstep

theorem asked_paired (h : Paired s) (n : Nat) :
    Paired { s with asked := Function.update s.asked (.ask n) true } := by
  have hasked : ∀ d, s.asked d = true → Function.update s.asked (.ask n) true d = true := by
    intro d hd
    rw [Function.update_apply]
    split
    · rfl
    · exact hd
  refine ⟨fun d hslot => (h.owed d hslot).congr rfl rfl rfl, h.done,
    fun d hfut => hasked d (h.dropped d hfut), fun d => ?_⟩
  have hgenuine := h.genuine d
  revert hgenuine
  cases s.pc d with
  | idle => exact fun _ => trivial
  | connecting notified cancelled | waiting notified cancelled | shielded cancelled =>
    exact fun hgenuine hcancelled => hasked d (hgenuine hcancelled)
  | interrupting holder cancelled => exact fun hgenuine => ⟨hgenuine.1, hasked d hgenuine.2⟩
  | finished outcome =>
    cases outcome with
    | received r => exact id
    | cancelled => exact hasked d
    | typeError => exact id

theorem setFut_cancelled_paired (h : Paired s) (hasked : s.asked c = true) :
    Paired (s.setFut c .cancelled) := by
  refine ⟨fun d hslot => (h.owed d hslot).congr rfl rfl rfl, fun d r hfut => ?_,
    fun d hfut => ?_, h.genuine⟩
  · simp only [State.setFut, Function.update_apply] at hfut
    split at hfut
    · cases hfut
    · exact h.done d r hfut
  · simp only [State.setFut, Function.update_apply] at hfut
    split at hfut
    case isTrue heq =>
      subst heq
      exact hasked
    case isFalse => exact h.dropped d hfut

theorem cancel_paired {s' : State} {n : Nat} (h : Paired s) (hstep : s.cancel n = some s') :
    Paired s' := by
  have hnow := asked_paired h n
  have hasked : Function.update s.asked (.ask n) true (.ask n) = true :=
    Function.update_self _ _ _
  cases hpc : s.pc (.ask n) with
  | idle =>
    simp only [State.cancel, hpc] at hstep
    cases hstep
  | connecting notified cancelled | waiting notified cancelled | shielded cancelled =>
    simp only [State.cancel, hpc] at hstep
    obtain rfl := Option.some.inj hstep
    exact setPc_paired hnow fun _ => hasked
  | interrupting holder cancelled =>
    have hgenuine := h.genuine (.ask n)
    rw [hpc] at hgenuine
    obtain ⟨rfl, -⟩ := hgenuine
    have hset := setPc_paired (c := .ask n) hnow
      (show PcGenuine (.ask n) _ (.interrupting (.ask n) true) from ⟨rfl, hasked⟩)
    simp only [State.cancel, hpc] at hstep
    cases hfut : s.fut (.ask n) with
    | pending =>
      simp only [State.setPc, hfut] at hstep
      obtain rfl := Option.some.inj hstep
      exact setFut_cancelled_paired hset hasked
    | done r | cancelled =>
      simp only [State.setPc, hfut] at hstep
      obtain rfl := Option.some.inj hstep
      exact hset
  | finished outcome =>
    simp only [State.cancel, hpc] at hstep
    cases hstep

theorem take_paired {s' : State} (h : Paired s) (hstep : s.take = some s') : Paired s' := by
  simp only [State.take] at hstep
  split at hstep
  case h_1 d rest hexecuting hto =>
    obtain rfl := Option.some.inj hstep
    refine ⟨fun e hslot => ⟨fun m hm => ?_, fun d' hd' => ?_, (h.owed e hslot).fromMeter⟩,
      h.done, h.dropped, h.genuine⟩
    · exact (h.owed e hslot).toMeter m (hto ▸ List.mem_cons_of_mem _ hm)
    · obtain rfl := Option.some.inj hd'
      exact (h.owed e hslot).toMeter (.line d) (hto ▸ List.mem_cons_self)
  case h_2 => cases hstep

theorem prompt_paired (h : Paired s) {d : Caller} (resp : Str) {rest : List Message}
    (hto : ∀ m ∈ rest, m ∈ s.toMeter) (howner : ∀ e, s.slot = some e → d = e) :
    Paired { s with
      executing := none, toMeter := rest, fromMeter := s.fromMeter ++ [⟨d, resp⟩] } := by
  refine ⟨fun e hslot => ⟨fun m hm => ?_, nofun, fun r hr => ?_⟩, h.done, h.dropped, h.genuine⟩
  · exact (h.owed e hslot).toMeter m (hto m hm)
  · rcases List.mem_append.mp hr with hr | hr
    · exact (h.owed e hslot).fromMeter r hr
    · obtain rfl := List.mem_singleton.mp hr
      exact howner e hslot

theorem abort_paired {s' : State} {resp : Str} (h : Paired s) (hstep : s.abort resp = some s') :
    Paired s' := by
  simp only [State.abort] at hstep
  split at hstep
  case h_1 d rest hto =>
    obtain rfl := Option.some.inj hstep
    refine prompt_paired h resp (fun m hm => hto ▸ List.mem_cons_of_mem _ hm) fun e hslot => ?_
    exact (h.owed e hslot).toMeter (.interrupt d) (hto ▸ List.mem_cons_self)
  case h_2 => cases hstep

theorem reply_paired {s' : State} {resp : Str} (h : Paired s) (hstep : s.reply resp = some s') :
    Paired s' := by
  simp only [State.reply] at hstep
  split at hstep
  case h_1 d hexecuting =>
    obtain rfl := Option.some.inj hstep
    exact prompt_paired h resp (fun m hm => hm) fun e hslot =>
      (h.owed e hslot).executing d hexecuting
  case h_2 => cases hstep

theorem fromMeter_paired (h : Paired s) {r : Response} {rest : List Response}
    (hfrom : s.fromMeter = r :: rest) : Paired { s with fromMeter := rest } :=
  ⟨fun e hslot => ⟨(h.owed e hslot).toMeter, (h.owed e hslot).executing,
    fun r' hr' => (h.owed e hslot).fromMeter r' (hfrom ▸ List.mem_cons_of_mem _ hr')⟩,
    h.done, h.dropped, h.genuine⟩

theorem dataReceived_paired {s' : State} (h : Paired s) (hstep : s.dataReceived = some s') :
    Paired s' := by
  simp only [State.dataReceived] at hstep
  split at hstep
  case h_1 => cases hstep
  case h_2 r rest hfrom hslot =>
    obtain rfl := Option.some.inj hstep
    exact fromMeter_paired h hfrom
  case h_3 r rest d hfrom hslot =>
    have howner := (h.owed d hslot).fromMeter r (hfrom ▸ List.mem_cons_self)
    split at hstep
    case h_1 =>
      obtain rfl := Option.some.inj hstep
      refine ⟨nofun, fun e r' hfut => ?_, fun e hfut => ?_, h.genuine⟩
      · simp only [State.setFut, Function.update_apply] at hfut
        split at hfut
        case isTrue heq =>
          obtain rfl := Fut.done.inj hfut
          rw [howner, heq]
        case isFalse => exact h.done e r' hfut
      · simp only [State.setFut, Function.update_apply] at hfut
        split at hfut
        case isTrue => cases hfut
        case isFalse => exact h.dropped e hfut
    case h_2 =>
      obtain rfl := Option.some.inj hstep
      exact fromMeter_paired h hfrom

end Steps

theorem paired_of_reachable {s : State} (h : Reachable step Unmixed initial s) : Paired s := by
  refine h.invariant initial_paired ?_
  intro s a s' hpaired hunmixed hstep
  cases a with
  | start c => exact start_paired hpaired hunmixed hstep
  | resume c next => exact resume_paired hpaired hunmixed hstep
  | cancel n => exact cancel_paired hpaired hstep
  | take => exact take_paired hpaired hstep
  | abort resp => exact abort_paired hpaired hstep
  | reply resp => exact reply_paired hpaired hstep
  | dataReceived => exact dataReceived_paired hpaired hstep

theorem outcomes_genuine {s : State} (h : Reachable step Unmixed initial s) (c : Caller)
    (outcome : Outcome) (hfinished : s.pc c = .finished outcome) :
    Genuine c (s.asked c) outcome := by
  have hgenuine := (paired_of_reachable h).genuine c
  rwa [hfinished] at hgenuine

def startUp : List Action :=
  [.start .init, .abort "=".toList, .dataReceived, .resume .init none, .take, .reply "=".toList,
    .dataReceived, .resume .format none]

theorem outcomes_genuine_two_asks : ∃ s : State, s.pc (.ask 1) = .finished .cancelled ∧
    Genuine (.ask 0) (s.asked (.ask 0)) (.received ⟨.ask 0, "1.5\r\n=".toList⟩) := by
  have hrun : run step Unmixed initial (startUp ++
      [.start (.ask 0), .take, .reply "1.5\r\n=".toList, .dataReceived, .resume (.ask 0) none,
        .start (.ask 1), .take, .cancel 1, .resume (.ask 1) none, .abort "=".toList,
        .dataReceived, .resume (.ask 1) none]) = some _ := rfl
  exact ⟨_, rfl, outcomes_genuine (Reachable.first.run hrun) (.ask 0) _ rfl⟩

theorem cancelled_prompt_goes_astray : ¬∀ s, Reachable step (fun _ _ => True) initial s →
    ∀ c outcome, s.pc c = .finished outcome → Genuine c (s.asked c) outcome := by
  intro hgenuine
  have hrun : run step (fun _ _ => True) initial (startUp ++
      [.start (.ask 0), .take, .reply "1.5\r\n=".toList, .cancel 0, .resume (.ask 0) none,
        .dataReceived, .start (.ask 1), .abort "=".toList, .dataReceived,
        .resume (.ask 1) none]) = some _ := rfl
  have howner := hgenuine _ (Reachable.first.run hrun) (.ask 1)
    (.received ⟨.ask 0, "=".toList⟩) rfl
  cases howner

end Isz.Fluke
