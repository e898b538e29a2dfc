import Isz.Fluke.Pairing

namespace Isz.Fluke

open Runs

structure Unsent (s : State) (c : Caller) : Prop where
  toMeter : ∀ m ∈ s.toMeter, m.owner ≠ c
  executing : s.executing ≠ some c
  fromMeter : ∀ r ∈ s.fromMeter, r.owner ≠ c

def Pc.early : Pc → Bool
  | .idle | .connecting _ _ | .waiting _ _ => true
  | _ => false

def Pc.running : Pc → Bool
  | .idle | .finished _ => false
  | _ => true

structure Sent (s : State) : Prop where
  unsent : ∀ c, (s.pc c).early = true → Unsent s c
  format : s.pc .format ≠ .idle → ∃ outcome, s.pc .init = .finished outcome

def Live (s : State) : Caller → Prop
  | .init => ∀ outcome, s.pc .init ≠ .finished outcome
  | .format => ∃ outcome, s.pc .init = .finished outcome
  | .ask _ => True

theorem initial_sent : Sent initial where
  unsent := fun c _ =>
    ⟨fun _ h => absurd h List.not_mem_nil, (Option.some_ne_none c).symm,
      fun _ h => absurd h List.not_mem_nil⟩
  format := fun h => absurd rfl h

section Steps

variable {s : State} {c : Caller}

theorem Unsent.congr {s' : State} (h : Unsent s c) (hto : s'.toMeter = s.toMeter)
    (hexecuting : s'.executing = s.executing) (hfrom : s'.fromMeter = s.fromMeter) :
    Unsent s' c where
  toMeter := hto ▸ h.toMeter
  executing := hexecuting ▸ h.executing
  fromMeter := hfrom ▸ h.fromMeter

theorem Sent.congr {s' : State} (h : Sent s) (hto : s'.toMeter = s.toMeter)
    (hexecuting : s'.executing = s.executing) (hfrom : s'.fromMeter = s.fromMeter)
    (hpc : s'.pc = s.pc) : Sent s' where
  unsent := fun d hearly => (h.unsent d (hpc ▸ hearly)).congr hto hexecuting hfrom
  format := hpc ▸ h.format

theorem Sent.live (h : Sent s) (hrunning : (s.pc c).running = true) : Live s c := by
  cases c with
  | init =>
    intro outcome hfinished
    rw [hfinished] at hrunning
    cases hrunning
  | format =>
    refine h.format fun hidle => ?_
    rw [hidle] at hrunning
    cases hrunning
  | ask n => trivial

theorem Sent.format_idle (h : Sent s) (hlive : Live s .init) : s.pc .format = .idle := by
  by_contra hidle
  obtain ⟨outcome, hfinished⟩ := h.format hidle
  exact hlive outcome hfinished

theorem setPc_self {pc : Pc} : (s.setPc c pc).pc c = pc := by
  simp only [State.setPc, Function.update_self]

theorem setPc_of_ne {d : Caller} {pc : Pc} (h : d ≠ c) : (s.setPc c pc).pc d = s.pc d := by
  simp only [State.setPc, Function.update_of_ne h]

theorem setPc_sent (h : Sent s) {pc : Pc} (hlive : Live s c)
    (hearly : pc.early = true → (s.pc c).early = true) : Sent (s.setPc c pc) where
  unsent := fun d hd => by
    simp only [State.setPc, Function.update_apply] at hd
    split at hd
    case isTrue heq =>
      subst heq
      exact (h.unsent d (hearly hd)).congr rfl rfl rfl
    case isFalse => exact (h.unsent d hd).congr rfl rfl rfl
  format := by
    intro hidle
    cases c with
    | init => exact absurd (h.format_idle hlive) hidle
    | format => exact hlive
    | ask n => exact h.format hidle

theorem setPc_late_sent (h : Sent s) {pc : Pc} (hlive : Live s c) (hlate : pc.early = false) :
    Sent (s.setPc c pc) :=
  setPc_sent h hlive fun hearly => absurd (hlate.symm.trans hearly) Bool.false_ne_true

theorem notify_early (pc : Pc) : pc.notify.early = pc.early := by
  cases pc <;> rfl

theorem notify_idle {pc : Pc} (h : pc.notify ≠ .idle) : pc ≠ .idle := by
  rintro rfl
  exact h rfl

theorem notified_sent (h : Sent s) {pc : Caller → Pc}
    (hpc : ∀ d, pc d = s.pc d ∨ pc d = (s.pc d).notify) : Sent { s with pc } where
  unsent := fun d hd => by
    refine (h.unsent d ?_).congr rfl rfl rfl
    rcases hpc d with heq | heq
    · exact heq ▸ hd
    · exact notify_early _ ▸ heq ▸ hd
  format := by
    intro hidle
    have hbefore : s.pc .format ≠ .idle := by
      rcases hpc .format with heq | heq
      · exact heq ▸ hidle
      · exact notify_idle (heq ▸ hidle)
    obtain ⟨outcome, hfinished⟩ := h.format hbefore
    refine ⟨outcome, ?_⟩
    change pc .init = _
    rcases hpc .init with heq | heq <;> rw [heq, hfinished]
    rfl

theorem notifyAll_sent (h : Sent s) : Sent s.notifyAll := notified_sent h fun _ => .inr rfl

theorem passOn_sent (h : Sent s) (next : Option Caller) : Sent (s.passOn next) := by
  cases next with
  | none => exact h
  | some d =>
    refine notified_sent h fun e => ?_
    rw [Function.update_apply]
    split
    case isTrue heq => exact .inr (heq ▸ rfl)
    case isFalse => exact .inl rfl

theorem write_sent (h : Sent s) {m : Message} (hlate : (s.pc m.owner).early = false) :
    Sent (s.write m) where
  unsent := fun d hd => by
    have hunsent := h.unsent d hd
    refine ⟨fun m' hm' => ?_, hunsent.executing, hunsent.fromMeter⟩
    rcases List.mem_append.mp hm' with hm' | hm'
    · exact hunsent.toMeter m' hm'
    · obtain rfl := List.mem_singleton.mp hm'
      rintro rfl
      cases hlate.symm.trans hd
  format := h.format

theorem command_owner (c : Caller) : (State.command c).owner = c := by
  cases c <;> rfl

theorem enterAsk_sent (h : Sent s) (hlive : Live s c) (hearly : (s.pc c).early = true) :
    Sent (s.enterAsk c) := by
  simp only [State.enterAsk]
  cases hslot : s.slot with
  | some d => exact setPc_sent h hlive fun _ => hearly
  | none =>
    have hslotted : Sent ({ s with slot := some c }.setFut c .pending) := h.congr rfl rfl rfl rfl
    have hlive' : Live ({ s with slot := some c }.setFut c .pending) c := by
      cases c <;> exact hlive
    have htaken : Sent (({ s with slot := some c }.setFut c .pending).setPc c (.shielded false)) :=
      setPc_late_sent hslotted hlive' rfl
    refine write_sent (m := State.command c) htaken ?_
    simp [command_owner, State.setPc, Pc.early]

theorem enterConnect_sent (h : Sent s) (hlive : Live s c) (hearly : (s.pc c).early = true) :
    Sent (s.enterConnect c) := by
  simp only [State.enterConnect]
  split
  · exact enterAsk_sent h hlive hearly
  · exact setPc_sent h hlive fun _ => hearly

theorem format_after_init (h : Sent s) (hlive : Live s .init) (outcome : Outcome) :
    Live (s.setPc .init (.finished outcome)) .format ∧
      ((s.setPc .init (.finished outcome)).pc .format).early = true := by
  have hinit : (s.setPc .init (.finished outcome)).pc .init = .finished outcome :=
    setPc_self
  have hformat : (s.setPc .init (.finished outcome)).pc .format = s.pc .format :=
    setPc_of_ne (by decide)
  refine ⟨⟨outcome, hinit⟩, ?_⟩
  rw [hformat, h.format_idle hlive]
  rfl

theorem finish_sent (h : Sent s) (hlive : Live s c) (outcome : Outcome) :
    Sent (s.finish c outcome) := by
  have hfinished : Sent (s.setPc c (.finished outcome)) := setPc_late_sent h hlive rfl
  simp only [State.finish]
  split
  · exact hfinished
  · split
    · exact hfinished
    · exact enterAsk_sent hfinished (format_after_init h hlive _).1
        (format_after_init h hlive _).2
  · split
    · exact hfinished
    · exact notifyAll_sent (hfinished.congr rfl rfl rfl rfl)
  · exact hfinished.congr rfl rfl rfl rfl
  · exact hfinished

theorem interrupt_sent (h : Sent s) {cancelled : Bool} (hpc : s.pc c = .shielded cancelled) :
    Sent (s.interrupt c) := by
  have hwritten : Sent (s.write (.interrupt c)) :=
    write_sent h (show (s.pc c).early = false from hpc ▸ rfl)
  have hlive : Live (s.write (.interrupt c)) c :=
    hwritten.live (show (s.pc c).running = true from hpc ▸ rfl)
  simp only [State.interrupt]
  split
  · exact finish_sent hwritten hlive _
  · exact setPc_late_sent hwritten hlive rfl

theorem start_sent {s' : State} (h : Sent s) (hstep : s.start c = some s') : Sent s' := by
  simp only [State.start] at hstep
  split at hstep
  case h_1 hpc =>
    obtain rfl := Option.some.inj hstep
    have hidle : (s.pc .init).notify = .idle := by rw [hpc]; rfl
    have hnotified : Sent { s with conn := .connecting }.notifyAll :=
      notifyAll_sent (h.congr rfl rfl rfl rfl)
    refine enterAsk_sent hnotified (fun outcome hfinished => ?_) ?_
    · cases hidle.symm.trans hfinished
    · exact congrArg Pc.early hidle
  case h_2 n hpc =>
    obtain rfl := Option.some.inj hstep
    exact enterConnect_sent h trivial (congrArg Pc.early hpc)
  case h_3 => cases hstep

theorem resume_sent {s' : State} {next : Option Caller} (h : Sent s)
    (hstep : s.resume c next = some s') : Sent s' := by
  simp only [State.resume] at hstep
  split at hstep
  case h_1 hpc =>
    obtain rfl := Option.some.inj hstep
    exact passOn_sent (finish_sent h (h.live (congrArg Pc.running hpc)) _) next
  case h_2 hpc =>
    obtain rfl := Option.some.inj hstep
    exact enterConnect_sent h (h.live (congrArg Pc.running hpc)) (congrArg Pc.early hpc)
  case h_3 hpc =>
    obtain rfl := Option.some.inj hstep
    exact passOn_sent (finish_sent h (h.live (congrArg Pc.running hpc)) _) next
  case h_4 hpc =>
    obtain rfl := Option.some.inj hstep
    exact enterAsk_sent h (h.live (congrArg Pc.running hpc)) (congrArg Pc.early hpc)
  case h_5 hpc =>
    obtain rfl := Option.some.inj hstep
    exact interrupt_sent h hpc
  case h_6 hpc =>
    split at hstep
    · cases hstep
    · obtain rfl := Option.some.inj hstep
      exact finish_sent h (h.live (congrArg Pc.running hpc)) _
    · obtain rfl := Option.some.inj hstep
      exact interrupt_sent h hpc
  case h_7 hpc =>
    obtain rfl := Option.some.inj hstep
    exact finish_sent h (h.live (congrArg Pc.running hpc)) _
  case h_8 hpc =>
    split at hstep
    · cases hstep
    · obtain rfl := Option.some.inj hstep
      exact finish_sent h (h.live (congrArg Pc.running hpc)) _
    · obtain rfl := Option.some.inj hstep
      exact finish_sent h (h.live (congrArg Pc.running hpc)) _
  case h_9 => cases hstep

theorem cancel_sent {s' : State} {n : Nat} (h : Sent s) (hstep : s.cancel n = some s') :
    Sent s' := by
  have hasked : Sent { s with asked := Function.update s.asked (.ask n) true } :=
    h.congr rfl rfl rfl rfl
  cases hpc : s.pc (.ask n) with
  | idle | finished outcome =>
    simp only [State.cancel, hpc] at hstep
    cases hstep
  | connecting notified cancelled | waiting notified cancelled | shielded cancelled =>
    simp only [State.cancel, hpc] at hstep
    obtain rfl := Option.some.inj hstep
    exact setPc_sent hasked trivial fun hearly => (congrArg Pc.early hpc).trans hearly
  | interrupting holder cancelled =>
    have hset : Sent ({ s with asked := Function.update s.asked (.ask n) true }.setPc (.ask n)
        (.interrupting holder true)) :=
      setPc_late_sent hasked trivial rfl
    simp only [State.cancel, hpc] at hstep
    split at hstep <;> obtain rfl := Option.some.inj hstep
    · exact hset.congr rfl rfl rfl rfl
    · exact hset

theorem take_sent {s' : State} (h : Sent s) (hstep : s.take = some s') : Sent s' := by
  simp only [State.take] at hstep
  split at hstep
  case h_1 d rest hexecuting hto =>
    obtain rfl := Option.some.inj hstep
    refine ⟨fun e he => ?_, h.format⟩
    have hunsent := h.unsent e he
    refine ⟨fun m hm => hunsent.toMeter m (hto ▸ List.mem_cons_of_mem _ hm), fun heq => ?_,
      hunsent.fromMeter⟩
    exact hunsent.toMeter (.line d) (hto ▸ List.mem_cons_self) (Option.some.inj heq)
  case h_2 => cases hstep

theorem prompt_sent (h : Sent s) {d : Caller} (resp : Str) {rest : List Message}
    (hto : ∀ m ∈ rest, m ∈ s.toMeter) (howner : ∀ e, Unsent s e → d ≠ e) :
    Sent { s with
      executing := none, toMeter := rest, fromMeter := s.fromMeter ++ [⟨d, resp⟩] } := by
  refine ⟨fun e he => ?_, h.format⟩
  have hunsent := h.unsent e he
  refine ⟨fun m hm => hunsent.toMeter m (hto m hm), (Option.some_ne_none e).symm, fun r hr => ?_⟩
  rcases List.mem_append.mp hr with hr | hr
  · exact hunsent.fromMeter r hr
  · obtain rfl := List.mem_singleton.mp hr
    exact howner e hunsent

theorem abort_sent {s' : State} {resp : Str} (h : Sent s) (hstep : s.abort resp = some s') :
    Sent s' := by
  simp only [State.abort] at hstep
  split at hstep
  case h_1 d rest hto =>
    obtain rfl := Option.some.inj hstep
    refine prompt_sent h resp (fun m hm => hto ▸ List.mem_cons_of_mem _ hm) fun e he => ?_
    exact he.toMeter (.interrupt d) (hto ▸ List.mem_cons_self)
  case h_2 => cases hstep

theorem reply_sent {s' : State} {resp : Str} (h : Sent s) (hstep : s.reply resp = some s') :
    Sent s' := by
  simp only [State.reply] at hstep
  split at hstep
  case h_1 d hexecuting =>
    obtain rfl := Option.some.inj hstep
    refine prompt_sent h resp (fun m hm => hm) fun e he heq => ?_
    exact he.executing (heq ▸ hexecuting)
  case h_2 => cases hstep

theorem dataReceived_sent {s' : State} (h : Sent s) (hstep : s.dataReceived = some s') :
    Sent s' := by
  have hrest : ∀ {r : Response} {rest : List Response}, s.fromMeter = r :: rest →
      Sent { s with fromMeter := rest } := by
    intro r rest hfrom
    refine ⟨fun e he => ?_, h.format⟩
    have hunsent := h.unsent e he
    exact ⟨hunsent.toMeter, hunsent.executing, fun r' hr' =>
      hunsent.fromMeter r' (hfrom ▸ List.mem_cons_of_mem _ hr')⟩
  simp only [State.dataReceived] at hstep
  split at hstep
  case h_1 => cases hstep
  case h_2 r rest hfrom hslot =>
    obtain rfl := Option.some.inj hstep
    exact hrest hfrom
  case h_3 r rest d hfrom hslot =>
    split at hstep <;> obtain rfl := Option.some.inj hstep
    · exact (hrest hfrom).congr rfl rfl rfl rfl
    · exact hrest hfrom

end Steps

theorem sent_of_reachable {allowed : State → Action → Prop} {s : State}
    (h : Reachable step allowed initial s) : Sent s := by
  refine h.invariant initial_sent fun s a s' hsent _ hstep => ?_
  cases a with
  | start c => exact start_sent hsent hstep
  | resume c next => exact resume_sent hsent hstep
  | cancel n => exact cancel_sent hsent hstep
  | take => exact take_sent hsent hstep
  | abort resp => exact abort_sent hsent hstep
  | reply resp => exact reply_sent hsent hstep
  | dataReceived => exact dataReceived_sent hsent hstep

section Mixed

variable {s s' : State} {c : Caller}

theorem finish_typeError : s.finish c .typeError = s.setPc c (.finished .typeError) := by
  cases c <;> rfl

theorem interrupt_not_paired (hslot : s.slot ≠ some c) : ¬Paired (s.interrupt c) := by
  intro hpaired
  have hgenuine := hpaired.genuine c
  cases hheld : s.slot with
  | none =>
    have hfinished : (s.interrupt c).pc c = .finished .typeError := by
      simp only [State.interrupt, State.write, hheld]
      rw [finish_typeError, setPc_self]
    rw [hfinished] at hgenuine
    exact hgenuine
  | some holder =>
    have hwaits : (s.interrupt c).pc c = .interrupting holder false := by
      simp only [State.interrupt, State.write, hheld]
      exact setPc_self
    rw [hwaits] at hgenuine
    exact hslot (hgenuine.1 ▸ hheld)

theorem enterAsk_quiet (hpaired : Paired (s.enterAsk c)) (hslot : s.slot = none)
    (hunsent : Unsent s c) : Quiet s := by
  simp only [State.enterAsk, hslot] at hpaired
  have howed := hpaired.owed c rfl
  refine ⟨List.eq_nil_iff_forall_not_mem.mpr fun m hm => ?_, ?_,
    List.eq_nil_iff_forall_not_mem.mpr fun r hr => ?_⟩
  · exact hunsent.toMeter m hm (howed.toMeter m (List.mem_append_left _ hm))
  · cases hexecuting : s.executing with
    | none => rfl
    | some d => exact absurd (howed.executing d hexecuting ▸ hexecuting) hunsent.executing
  · exact hunsent.fromMeter r hr (howed.fromMeter r hr)

theorem finish_init {r : Response} (hanswers : (Fut.done r).answers = true) :
    s.finish .init (.received r) =
      (s.setPc .init (.finished (.received r))).enterAsk .format := by
  have hraises : (answer r.resp).raises = false := by simpa [Fut.answers] using hanswers
  simp [State.finish, hraises]

theorem interrupts_step {next : Option Caller}
    (h : interrupts s (.resume c next) = true) (hstep : step s (.resume c next) = some s') :
    s' = s.interrupt c := by
  rcases of_decide_eq_true h with hpc | ⟨hpc, hfut⟩
  · simp only [step, State.resume, hpc] at hstep
    exact (Option.some.inj hstep).symm
  · simp only [step, State.resume, hpc, hfut] at hstep
    exact (Option.some.inj hstep).symm

theorem start_quiet (hsent : Sent s) (henters : enters s (.start c) = true)
    (hslot : s.slot = none) (hstep : s.start c = some s') (hpaired : Paired s') : Quiet s := by
  cases c with
  | init =>
    cases hpc : s.pc .init <;> simp only [State.start, hpc] at hstep <;> cases hstep
    have hunsent := hsent.unsent .init (congrArg Pc.early hpc)
    exact enterAsk_quiet (s := { s with conn := .connecting }.notifyAll) hpaired hslot
      (hunsent.congr rfl rfl rfl)
  | format => cases henters
  | ask n =>
    have hready : s.conn = .ready := of_decide_eq_true henters
    cases hpc : s.pc (.ask n) <;> simp only [State.start, hpc] at hstep <;> cases hstep
    rw [State.enterConnect, if_pos hready] at hpaired
    exact enterAsk_quiet hpaired hslot (hsent.unsent _ (congrArg Pc.early hpc))

theorem resume_quiet {next : Option Caller} (hsent : Sent s)
    (henters : enters s (.resume c next) = true) (hslot : s.slot = none)
    (hstep : s.resume c next = some s') (hpaired : Paired s') : Quiet s := by
  rcases of_decide_eq_true henters with hpc | ⟨hpc, hready⟩ | ⟨rfl, hpc, hanswers⟩
  · simp only [State.resume, hpc] at hstep
    obtain rfl := Option.some.inj hstep
    exact enterAsk_quiet hpaired hslot (hsent.unsent c (congrArg Pc.early hpc))
  · simp only [State.resume, hpc] at hstep
    obtain rfl := Option.some.inj hstep
    rw [State.enterConnect, if_pos hready] at hpaired
    exact enterAsk_quiet hpaired hslot (hsent.unsent c (congrArg Pc.early hpc))
  · cases hfut : s.fut .init with
    | pending | cancelled =>
      rw [hfut] at hanswers
      cases hanswers
    | done r =>
      rw [hfut] at hanswers
      simp only [State.resume, hpc, hfut] at hstep
      obtain rfl := Option.some.inj hstep
      rw [finish_init hanswers] at hpaired
      have hlive : Live s .init := hsent.live (congrArg Pc.running hpc)
      have hformat : (s.pc .format).early = true := congrArg Pc.early (hsent.format_idle hlive)
      exact enterAsk_quiet (s := s.setPc .init (.finished (.received r))) hpaired hslot
        ((hsent.unsent .format hformat).congr rfl rfl rfl)

end Mixed

-- the condition is exact: a step that breaks it hands a prompt to the wrong call
theorem mixed_not_paired {allowed : State → Action → Prop} {s s' : State} {a : Action}
    (hreach : Reachable step allowed initial s) (h : ¬Unmixed s a) (hstep : step s a = some s') :
    ¬Paired s' := by
  have hsent := sent_of_reachable hreach
  intro hpaired
  refine h ⟨fun hinterrupts => ?_, fun henters hslot => ?_⟩
  · cases a with
    | resume c next =>
      by_contra hslot
      obtain rfl := interrupts_step hinterrupts hstep
      exact interrupt_not_paired hslot hpaired
    | _ => cases hinterrupts
  · cases a with
    | start c => exact start_quiet hsent henters hslot hstep hpaired
    | resume c next => exact resume_quiet hsent henters hslot hstep hpaired
    | _ => cases henters

end Isz.Fluke
