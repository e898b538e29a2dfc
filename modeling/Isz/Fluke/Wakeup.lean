import Isz.Fluke.Pairing

namespace Isz.Fluke

open Runs

def Blocked (s : State) (c : Caller) : Prop := ∃ cancelled, s.pc c = .waiting false cancelled

def Notified (s : State) (c : Caller) : Prop :=
  ∃ cancelled, s.pc c = .waiting true cancelled ∨ s.pc c = .connecting true cancelled

def LostWakeup (s : State) : Prop :=
  s.slot = none ∧ (∀ c, ¬Notified s c) ∧ ∃ c, Blocked s c

def Awake (s : State) : Prop := s.slot = none → ∀ c, ¬Blocked s c

def Uncontended (s : State) : Action → Prop
  | .dataReceived => s.fromMeter ≠ [] → (∃ c, s.slot = some c ∧ s.fut c = .pending) →
      ∀ c, ¬Blocked s c
  | _ => True

section Steps

variable {s : State} {c : Caller}

theorem setPc_awake (h : Awake s) {pc : Pc}
    (hpc : s.slot = none → ∀ cancelled, pc ≠ .waiting false cancelled) : Awake (s.setPc c pc) := by
  rintro hslot d ⟨cancelled, hd⟩
  simp only [State.setPc, Function.update_apply] at hd
  split at hd
  case isTrue => exact hpc hslot cancelled hd
  case isFalse => exact h hslot d ⟨cancelled, hd⟩

theorem notify_not_blocked (pc : Pc) (cancelled : Bool) (h : pc.notify = .waiting false cancelled) :
    False := by
  cases pc <;> cases h

theorem notifyAll_awake : Awake s.notifyAll := by
  rintro - d ⟨cancelled, hd⟩
  exact notify_not_blocked _ _ hd

theorem passOn_awake (h : Awake s) (next : Option Caller) : Awake (s.passOn next) := by
  cases next with
  | none => exact h
  | some d => exact setPc_awake h fun _ cancelled hd => notify_not_blocked _ _ hd

theorem awake_of_slot (h : s.slot = some c) : Awake s := by
  intro hnone
  cases h.symm.trans hnone

theorem enterAsk_awake (c : Caller) : Awake (s.enterAsk c) := by
  simp only [State.enterAsk]
  cases hslot : s.slot with
  | some d => exact awake_of_slot (c := d) hslot
  | none => exact awake_of_slot (c := c) rfl

theorem finish_awake (h : Awake s) (outcome : Outcome) : Awake (s.finish c outcome) := by
  have hfinished : Awake (s.setPc c (.finished outcome)) := setPc_awake h (by rintro _ _ ⟨⟩)
  simp only [State.finish]
  split
  · exact hfinished
  · split
    · exact hfinished
    · exact enterAsk_awake _
  · split
    · exact hfinished
    · exact notifyAll_awake
  · exact hfinished
  · exact hfinished

theorem interrupt_awake (h : Awake s) : Awake (s.interrupt c) := by
  have hwritten : Awake (s.write (.interrupt c)) := h
  simp only [State.interrupt]
  split
  · exact finish_awake hwritten _
  · exact setPc_awake hwritten (by rintro _ _ ⟨⟩)

theorem enterConnect_awake (h : Awake s) : Awake (s.enterConnect c) := by
  simp only [State.enterConnect]
  split
  · exact enterAsk_awake c
  · exact setPc_awake h (by rintro _ _ ⟨⟩)

theorem start_awake {s' : State} (h : Awake s) (hstep : s.start c = some s') : Awake s' := by
  simp only [State.start] at hstep
  split at hstep
  · obtain rfl := Option.some.inj hstep
    exact enterAsk_awake _
  · obtain rfl := Option.some.inj hstep
    exact enterConnect_awake h
  · cases hstep

theorem resume_awake {s' : State} {next : Option Caller} (h : Awake s)
    (hstep : s.resume c next = some s') : Awake s' := by
  simp only [State.resume] at hstep
  split at hstep
  · obtain rfl := Option.some.inj hstep
    exact passOn_awake (finish_awake h _) next
  · obtain rfl := Option.some.inj hstep
    exact enterConnect_awake h
  · obtain rfl := Option.some.inj hstep
    exact passOn_awake (finish_awake h _) next
  · obtain rfl := Option.some.inj hstep
    exact enterAsk_awake c
  · obtain rfl := Option.some.inj hstep
    exact interrupt_awake h
  · split at hstep
    · cases hstep
    · obtain rfl := Option.some.inj hstep
      exact finish_awake h _
    · obtain rfl := Option.some.inj hstep
      exact interrupt_awake h
  · obtain rfl := Option.some.inj hstep
    exact finish_awake h _
  · split at hstep
    · cases hstep
    · obtain rfl := Option.some.inj hstep
      exact finish_awake h _
    · obtain rfl := Option.some.inj hstep
      exact finish_awake h _
  · cases hstep

theorem cancel_awake {s' : State} {n : Nat} (h : Awake s) (hstep : s.cancel n = some s') :
    Awake s' := by
  have hasked : Awake { s with asked := Function.update s.asked (.ask n) true } := h
  cases hpc : s.pc (.ask n) with
  | idle | finished outcome =>
    simp only [State.cancel, hpc] at hstep
    cases hstep
  | connecting notified cancelled | shielded cancelled =>
    simp only [State.cancel, hpc] at hstep
    obtain rfl := Option.some.inj hstep
    exact setPc_awake hasked (by rintro _ _ ⟨⟩)
  | waiting notified cancelled =>
    simp only [State.cancel, hpc] at hstep
    obtain rfl := Option.some.inj hstep
    refine setPc_awake hasked fun hslot _ heq => ?_
    -- it was blocked before it was cancelled
    obtain ⟨rfl, -⟩ := Pc.waiting.inj heq
    exact h hslot (.ask n) ⟨cancelled, hpc⟩
  | interrupting holder cancelled =>
    have hset := setPc_awake (c := .ask n) hasked
      (show _ → ∀ _, Pc.interrupting holder true ≠ _ by rintro _ _ ⟨⟩)
    simp only [State.cancel, hpc] at hstep
    split at hstep
    · obtain rfl := Option.some.inj hstep
      exact hset
    · obtain rfl := Option.some.inj hstep
      exact hset

theorem dataReceived_awake {s' : State} (h : Awake s) (huncontended : Uncontended s .dataReceived)
    (hstep : s.dataReceived = some s') : Awake s' := by
  simp only [State.dataReceived] at hstep
  split at hstep
  case h_1 => cases hstep
  case h_2 r rest hfrom hslot =>
    obtain rfl := Option.some.inj hstep
    exact h
  case h_3 r rest d hfrom hslot =>
    split at hstep
    case h_1 hfut =>
      obtain rfl := Option.some.inj hstep
      rintro - c ⟨cancelled, hc⟩
      exact huncontended (hfrom ▸ List.cons_ne_nil _ _) ⟨d, hslot, hfut⟩ c ⟨cancelled, hc⟩
    case h_2 =>
      obtain rfl := Option.some.inj hstep
      exact awake_of_slot hslot

theorem take_awake {s' : State} (h : Awake s) (hstep : s.take = some s') : Awake s' := by
  simp only [State.take] at hstep
  split at hstep
  · obtain rfl := Option.some.inj hstep
    exact h
  · cases hstep

theorem abort_awake {s' : State} {resp : Str} (h : Awake s) (hstep : s.abort resp = some s') :
    Awake s' := by
  simp only [State.abort] at hstep
  split at hstep
  · obtain rfl := Option.some.inj hstep
    exact h
  · cases hstep

theorem reply_awake {s' : State} {resp : Str} (h : Awake s) (hstep : s.reply resp = some s') :
    Awake s' := by
  simp only [State.reply] at hstep
  split at hstep
  · obtain rfl := Option.some.inj hstep
    exact h
  · cases hstep

end Steps

theorem awake_of_reachable {s : State} (h : Reachable step Uncontended initial s) : Awake s := by
  refine h.invariant (fun _ c hblocked => ?_) ?_
  · obtain ⟨cancelled, hc⟩ := hblocked
    cases hc
  · intro s a s' hawake huncontended hstep
    cases a with
    | start c => exact start_awake hawake hstep
    | resume c next => exact resume_awake hawake hstep
    | cancel n => exact cancel_awake hawake hstep
    | take => exact take_awake hawake hstep
    | abort resp => exact abort_awake hawake hstep
    | reply resp => exact reply_awake hawake hstep
    | dataReceived => exact dataReceived_awake hawake huncontended hstep

-- the condition is exact: a prompt that breaks it leaves a waiter behind a free slot
theorem contended_not_awake {s s' : State} {a : Action} (h : ¬Uncontended s a)
    (hstep : step s a = some s') : ¬Awake s' := by
  cases a with
  | dataReceived =>
    simp only [Uncontended, not_forall, not_not] at h
    obtain ⟨hfrom, ⟨d, hslot, hfut⟩, c, hblocked⟩ := h
    obtain ⟨r, rest, hcons⟩ := List.exists_cons_of_ne_nil hfrom
    simp only [step, State.dataReceived, hcons, hslot, hfut] at hstep
    obtain rfl := Option.some.inj hstep
    exact fun hawake => hawake rfl c hblocked
  | _ => exact absurd trivial h

theorem no_lost_wakeup {s : State} (h : Reachable step Uncontended initial s) :
    Awake s ∧ ¬LostWakeup s := by
  have hawake := awake_of_reachable h
  refine ⟨hawake, ?_⟩
  rintro ⟨hslot, -, c, hblocked⟩
  exact hawake hslot c hblocked

theorem no_lost_wakeup_one_ask : ∃ s : State, s.conn = .ready ∧ s.slot = none ∧
    s.fut (.ask 0) = .done ⟨.ask 0, "1.5\r\n=".toList⟩ ∧ Awake s ∧ ¬LostWakeup s := by
  have h0 : Reachable step Uncontended initial initial := Reachable.first
  have h1 := h0.next (show Uncontended _ (.start .init) from trivial) rfl
  have h2 := h1.next (show Uncontended _ (.abort "=".toList) from trivial) rfl
  have h3 := h2.next (show Uncontended _ .dataReceived from
    fun _ _ c ⟨_, hc⟩ => by rcases c with _ | _ | _ <;> cases hc) rfl
  have h4 := h3.next (show Uncontended _ (.resume .init none) from trivial) rfl
  have h5 := h4.next (show Uncontended _ .take from trivial) rfl
  have h6 := h5.next (show Uncontended _ (.reply "=".toList) from trivial) rfl
  have h7 := h6.next (show Uncontended _ .dataReceived from
    fun _ _ c ⟨_, hc⟩ => by rcases c with _ | _ | _ <;> cases hc) rfl
  have h8 := h7.next (show Uncontended _ (.resume .format none) from trivial) rfl
  have h9 := h8.next (show Uncontended _ (.start (.ask 0)) from trivial) rfl
  have h10 := h9.next (show Uncontended _ .take from trivial) rfl
  have h11 := h10.next (show Uncontended _ (.reply "1.5\r\n=".toList) from trivial) rfl
  have h12 := h11.next (show Uncontended _ .dataReceived from
    fun _ _ c ⟨_, hc⟩ => by rcases c with _ | _ | _ | _ <;> cases hc) rfl
  exact ⟨_, rfl, rfl, rfl, no_lost_wakeup h12⟩

def Action.cancels : Action → Bool
  | .cancel _ => true
  | _ => false

theorem prompt_wakes_nobody : ¬∀ s, Reachable step (fun _ a => a.cancels = false) initial s →
    s.conn = .ready → ¬LostWakeup s := by
  intro hnone
  have hrun : run step (fun _ a => a.cancels = false) initial (startUp ++
      [.start (.ask 0), .start (.ask 1), .take, .reply "1.5\r\n=".toList, .dataReceived]) =
      some _ := rfl
  refine hnone _ (Reachable.first.run hrun) rfl ⟨rfl, ?_, .ask 1, false, rfl⟩
  rintro c ⟨cancelled, hc | hc⟩
  · rcases c with _ | _ | _ | _ | _ <;> cases hc
  · rcases c with _ | _ | _ | _ | _ <;> cases hc

end Isz.Fluke
