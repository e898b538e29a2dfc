import Mathlib.Data.List.Induction

namespace Runs

variable {State Action : Type}

-- the states of the runs whose every step is allowed where it is taken
inductive Reachable (step : State → Action → Option State) (allowed : State → Action → Prop)
    (first : State) : State → Prop where
  | first : Reachable step allowed first first
  | next {s s' : State} {a : Action} : Reachable step allowed first s → allowed s a →
      step s a = some s' → Reachable step allowed first s'

variable {step : State → Action → Option State} {allowed : State → Action → Prop}
  {first : State}

theorem Reachable.invariant {inv : State → Prop} (hfirst : inv first)
    (hnext : ∀ s a s', inv s → allowed s a → step s a = some s' → inv s') {s : State}
    (h : Reachable step allowed first s) : inv s := by
  induction h with
  | first => exact hfirst
  | next _ hallowed hstep ih => exact hnext _ _ _ ih hallowed hstep

theorem Reachable.append {allowed' : State → Action → Prop} {s s' : State}
    (h : Reachable step allowed first s) (h' : Reachable step allowed' s s')
    (himp : ∀ s a, allowed' s a → allowed s a) : Reachable step allowed first s' := by
  induction h' with
  | first => exact h
  | next _ hallowed hstep ih => exact ih.next (himp _ _ hallowed) hstep

variable (step allowed) in
def run [∀ s a, Decidable (allowed s a)] : State → List Action → Option State
  | s, [] => some s
  | s, a :: rest => if allowed s a then (step s a).bind fun s' => run s' rest else none

theorem Reachable.run [∀ s a, Decidable (allowed s a)] {actions : List Action} {s s' : State}
    (h : Reachable step allowed first s) (hrun : run step allowed s actions = some s') :
    Reachable step allowed first s' := by
  induction actions generalizing s with
  | nil =>
    obtain rfl := Option.some.inj hrun
    exact h
  | cons a rest ih =>
    simp only [Runs.run] at hrun
    split at hrun
    case isTrue hallowed =>
      obtain ⟨next, hstep, hrest⟩ := Option.bind_eq_some_iff.mp hrun
      exact ih (h.next hallowed hstep) hrest
    case isFalse => cases hrun

section Each

variable {S E : Type} (advance : S → E → S) (fits : S → E → Prop)

def Each : S → List E → Prop
  | _, [] => True
  | s, e :: events => fits s e ∧ Each (advance s e) events

variable {advance fits} {good inv : S → Prop}

theorem forall_scanl_iff_each (hgood : ∀ s, inv s → good s) {events : List E}
    (hstep : ∀ s, inv s → ∀ e ∈ events, (good (advance s e) ↔ fits s e) ∧
      (good (advance s e) → inv (advance s e))) {s : S} (h : inv s) :
    (∀ s' ∈ events.scanl advance s, good s') ↔ Each advance fits s events := by
  induction events generalizing s with
  | nil => simp [Each, hgood s h]
  | cons e events ih =>
    obtain ⟨hiff, hkeeps⟩ := hstep s h e List.mem_cons_self
    have htail : ∀ s, inv s → ∀ e ∈ events, (good (advance s e) ↔ fits s e) ∧
        (good (advance s e) → inv (advance s e)) :=
      fun s hs e he => hstep s hs e (List.mem_cons_of_mem _ he)
    rw [List.scanl_cons, List.forall_mem_cons, Each]
    constructor
    · rintro ⟨-, hrest⟩
      have hnext : good (advance s e) := hrest _ (by cases events <;> simp)
      exact ⟨hiff.mp hnext, (ih htail (hkeeps hnext)).mp hrest⟩
    · rintro ⟨hfits, hrest⟩
      exact ⟨hgood s h, (ih htail (hkeeps (hiff.mpr hfits))).mpr hrest⟩

end Each

section AtEach

variable {E : Type} {P Q : List E → E → Prop}

def AtEach (P : List E → E → Prop) (events : List E) : Prop :=
  ∀ before e, before ++ [e] <+: events → P before e

theorem atEach_nil : AtEach P [] := by
  intro before e h
  simp at h

theorem atEach_concat {events : List E} {e : E} :
    AtEach P (events ++ [e]) ↔ AtEach P events ∧ P events e := by
  constructor
  · intro h
    refine ⟨fun before e' hbefore => h before e' (hbefore.trans (List.prefix_append _ _)), ?_⟩
    exact h events e List.prefix_rfl
  · rintro ⟨hevents, hlast⟩ before e' hbefore
    rcases List.prefix_concat_iff.mp hbefore with heq | hbefore
    · obtain ⟨rfl, he⟩ := List.append_inj' heq rfl
      rwa [List.singleton_inj.mp he]
    · exact hevents before e' hbefore

theorem atEach_iff (inv : List E → Prop) (hfirst : inv [])
    (hnext : ∀ before e, inv before → (P before e ↔ Q before e) ∧
      (Q before e → inv (before ++ [e]))) (events : List E) :
    AtEach P events ↔ AtEach Q events := by
  suffices (AtEach P events ↔ AtEach Q events) ∧ (AtEach Q events → inv events) from this.1
  induction events using List.reverseRecOn with
  | nil => exact ⟨iff_of_true atEach_nil atEach_nil, fun _ => hfirst⟩
  | append_singleton events e ih =>
    obtain ⟨hiff, hkeeps⟩ := ih
    rw [atEach_concat, atEach_concat, hiff]
    constructor
    · exact and_congr_right fun h => (hnext events e (hkeeps h)).1
    · rintro ⟨h, hlast⟩
      exact (hnext events e (hkeeps h)).2 hlast

end AtEach

end Runs
