import Mathlib.Algebra.Order.Group.Multiset
import Mathlib.Data.Multiset.Bind

namespace Cascade

variable {Item : Type}

structure Work (Item : Type) where
  pending : Multiset Item
  done : Multiset Item

inductive Event (Item : Type) where
  | add (items : Multiset Item)
  | take (item : Item)
  | drop (item : Item)

def Event.added : Event Item → Multiset Item
  | .add items => items
  | _ => 0

def Event.drops : Event Item → Bool
  | .drop _ => true
  | _ => false

def Event.takes : Event Item → Bool
  | .take _ => true
  | _ => false

variable (spawn : Item → Multiset Item)

def step [DecidableEq Item] (work : Work Item) : Event Item → Option (Work Item)
  | .add items => some { work with pending := work.pending + items }
  | .take item =>
    if item ∈ work.pending then
      some ⟨work.pending.erase item + spawn item, item ::ₘ work.done⟩
    else none
  | .drop item =>
    if item ∈ work.pending then some { work with pending := work.pending.erase item } else none

def run [DecidableEq Item] (work : Work Item) (events : List (Event Item)) :
    Option (Work Item) :=
  events.foldlM (step spawn) work

def total : ℕ → Item → Multiset Item
  | 0, item => {item}
  | n + 1, item => item ::ₘ (spawn item).bind (total n)

def added (events : List (Event Item)) : Multiset Item := (events.map Event.added).sum

section Total

variable {spawn} {rank : Item → ℕ}
  (hrank : ∀ item, ∀ item' ∈ spawn item, rank item' < rank item)

include hrank

theorem spawn_eq_zero {item : Item} (h : rank item ≤ 0) : spawn item = 0 := by
  refine Multiset.eq_zero_of_forall_notMem fun item' hmem => ?_
  exact absurd (hrank item item' hmem) (Nat.not_lt.mpr (h.trans (Nat.zero_le _)))

theorem total_eq {m n : ℕ} {item : Item} (hm : rank item ≤ m) (hn : rank item ≤ n) :
    total spawn m item = total spawn n item := by
  induction m generalizing n item with
  | zero =>
    cases n with
    | zero => rfl
    | succ n => simp [total, spawn_eq_zero hrank hm]
  | succ m ih =>
    cases n with
    | zero => simp [total, spawn_eq_zero hrank hn]
    | succ n =>
      rw [total, total]
      refine congrArg _ (Multiset.bind_congr fun item' hmem => ?_)
      have hlt := hrank item item' hmem
      exact ih (Nat.le_of_lt_succ (hlt.trans_le hm)) (Nat.le_of_lt_succ (hlt.trans_le hn))

theorem total_rank (item : Item) : total spawn (rank item) item =
    item ::ₘ (spawn item).bind fun item' => total spawn (rank item') item' := by
  rw [total_eq hrank le_rfl (Nat.le_succ _), total]
  refine congrArg _ (Multiset.bind_congr fun item' hmem => ?_)
  exact total_eq hrank (hrank item item' hmem).le le_rfl

end Total

section Run

variable (rank : Item → ℕ)

def whole (items : Multiset Item) : Multiset Item :=
  items.bind fun item => total spawn (rank item) item

def Work.whole (work : Work Item) : Multiset Item :=
  work.done + Cascade.whole spawn rank work.pending

variable {spawn rank} (hrank : ∀ item, ∀ item' ∈ spawn item, rank item' < rank item)

@[simp] theorem whole_zero : whole spawn rank 0 = 0 := Multiset.zero_bind _

theorem whole_add (items items' : Multiset Item) :
    whole spawn rank (items + items') = whole spawn rank items + whole spawn rank items' :=
  Multiset.add_bind items items' _

include hrank in
theorem whole_cons (item : Item) (items : Multiset Item) :
    whole spawn rank (item ::ₘ items) =
      item ::ₘ (whole spawn rank (spawn item) + whole spawn rank items) := by
  rw [whole, Multiset.cons_bind, total_rank hrank, Multiset.cons_add]
  rfl

variable [DecidableEq Item] {work work' : Work Item} {event : Event Item}
  {events : List (Event Item)}

include hrank

theorem whole_step (hstep : step spawn work event = some work') :
    work'.whole spawn rank ≤ work.whole spawn rank + whole spawn rank event.added ∧
      (event.drops = false →
        work'.whole spawn rank = work.whole spawn rank + whole spawn rank event.added) := by
  cases event with
  | add items =>
    cases hstep
    have heq : Work.whole spawn rank { work with pending := work.pending + items } =
        work.whole spawn rank + whole spawn rank items := by
      rw [Work.whole, Work.whole, whole_add, add_assoc]
    exact ⟨heq.le, fun _ => heq⟩
  | take item =>
    simp only [step] at hstep
    split at hstep
    case isTrue hmem =>
      cases hstep
      have heq : Work.whole spawn rank ⟨work.pending.erase item + spawn item, item ::ₘ work.done⟩ =
          work.whole spawn rank := by
        conv_rhs => rw [Work.whole, ← Multiset.cons_erase hmem, whole_cons hrank]
        rw [Work.whole, whole_add, Multiset.cons_add, Multiset.add_cons,
          add_comm (whole spawn rank (work.pending.erase item))]
      constructor
      · rw [heq]
        exact Multiset.le_add_right _ _
      · intro _
        rw [heq]
        simp [Event.added]
    case isFalse => cases hstep
  | drop item =>
    simp only [step] at hstep
    split at hstep
    case isTrue hmem =>
      cases hstep
      refine ⟨?_, nofun⟩
      have hle : whole spawn rank (work.pending.erase item) ≤ whole spawn rank work.pending :=
        Multiset.le_iff_exists_add.mpr ⟨total spawn (rank item) item, by
          conv_lhs => rw [whole, ← Multiset.cons_erase hmem, Multiset.cons_bind, add_comm]
          rfl⟩
      change _ ≤ work.whole spawn rank + whole spawn rank 0
      rw [whole_zero, add_zero]
      exact add_le_add_right hle _
    case isFalse => cases hstep

theorem whole_run (hrun : run spawn work events = some work') :
    work'.whole spawn rank ≤ work.whole spawn rank + whole spawn rank (added events) ∧
      ((∀ event ∈ events, event.drops = false) →
        work'.whole spawn rank = work.whole spawn rank + whole spawn rank (added events)) := by
  induction events generalizing work with
  | nil =>
    obtain rfl := Option.some.inj hrun
    simp [added]
  | cons event events ih =>
    rw [run, List.foldlM_cons] at hrun
    obtain ⟨next, hstep, hrest⟩ := Option.bind_eq_some_iff.mp hrun
    obtain ⟨hle, heq⟩ := whole_step hrank hstep
    obtain ⟨hle', heq'⟩ := ih hrest
    rw [added, List.map_cons, List.sum_cons, whole_add, ← add_assoc, ← added]
    refine ⟨hle'.trans (add_le_add_left hle _), fun hdrops => ?_⟩
    rw [heq' fun event hmem => hdrops event (List.mem_cons_of_mem _ hmem),
      heq (hdrops event List.mem_cons_self)]

omit hrank in
theorem card_done (hrun : run spawn work events = some work') :
    work'.done.card = work.done.card + events.countP Event.takes := by
  induction events generalizing work with
  | nil =>
    obtain rfl := Option.some.inj hrun
    rfl
  | cons event events ih =>
    rw [run, List.foldlM_cons] at hrun
    obtain ⟨next, hstep, hrest⟩ := Option.bind_eq_some_iff.mp hrun
    rw [ih hrest, List.countP_cons]
    cases event with
    | add items =>
      cases hstep
      rfl
    | take item =>
      simp only [step] at hstep
      split at hstep <;> cases hstep
      simp [Event.takes, Nat.add_assoc, Nat.add_comm 1]
    | drop item =>
      simp only [step] at hstep
      split at hstep <;> cases hstep
      rfl

end Run

end Cascade
