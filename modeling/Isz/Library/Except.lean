import Mathlib.Data.List.Forall2
import Mathlib.Logic.Function.Basic

namespace Except

variable {ε α β : Type}

@[simp] theorem ok_bind (a : α) (f : α → Except ε β) : (ok a >>= f) = f a := rfl

@[simp] theorem error_bind (e : ε) (f : α → Except ε β) : (error e >>= f) = error e := rfl

@[simp] theorem pure_eq_ok (a : α) : (pure a : Except ε α) = ok a := rfl

theorem bind_eq_ok {x : Except ε α} {f : α → Except ε β} {b : β} :
    (x >>= f) = ok b ↔ ∃ a, x = ok a ∧ f a = ok b := by
  cases x with
  | ok a => simp
  | error e => simp

theorem exists_of_mem_mapM {f : α → Except ε β} {as : List α} {bs : List β}
    (h : as.mapM f = ok bs) {b : β} (hb : b ∈ bs) : ∃ a ∈ as, f a = ok b := by
  induction as generalizing bs with
  | nil =>
    obtain rfl := Except.ok.inj h
    cases hb
  | cons a as ih =>
    rw [List.mapM_cons] at h
    obtain ⟨b', hb', hrest⟩ := bind_eq_ok.mp h
    obtain ⟨bs', hbs', heq⟩ := bind_eq_ok.mp hrest
    obtain rfl := Except.ok.inj heq
    rcases List.mem_cons.mp hb with rfl | hb
    · exact ⟨a, List.mem_cons_self, hb'⟩
    · obtain ⟨a', ha', hf⟩ := ih hbs' hb
      exact ⟨a', List.mem_cons_of_mem _ ha', hf⟩

theorem mapM_eq_ok {f : α → Except ε β} {as : List α} {bs : List β} :
    as.mapM f = ok bs ↔ List.Forall₂ (fun a b => f a = ok b) as bs := by
  induction as generalizing bs with
  | nil => simp [eq_comm]
  | cons a as ih =>
    rw [List.mapM_cons, bind_eq_ok, List.forall₂_cons_left_iff]
    constructor
    · rintro ⟨b, hb, hrest⟩
      obtain ⟨bs', hbs', heq⟩ := bind_eq_ok.mp hrest
      obtain rfl := Except.ok.inj heq
      exact ⟨b, bs', hb, ih.mp hbs', rfl⟩
    · rintro ⟨b, bs', hb, hbs', rfl⟩
      refine ⟨b, hb, ?_⟩
      rw [ih.mpr hbs', ok_bind, pure_eq_ok]

theorem exists_mapM {f : α → Except ε β} {as : List α} (h : ∀ a ∈ as, ∃ b, f a = ok b) :
    ∃ bs, as.mapM f = ok bs := by
  induction as with
  | nil => exact ⟨[], rfl⟩
  | cons a as ih =>
    obtain ⟨b, hb⟩ := h a List.mem_cons_self
    obtain ⟨bs, hbs⟩ := ih fun a' ha' => h a' (List.mem_cons_of_mem _ ha')
    refine ⟨b :: bs, ?_⟩
    rw [List.mapM_cons, hb, ok_bind, hbs, ok_bind, pure_eq_ok]

theorem exists_mem_of_mapM {f : α → Except ε β} {as : List α} {bs : List β}
    (h : as.mapM f = ok bs) {a : α} (ha : a ∈ as) : ∃ b ∈ bs, f a = ok b := by
  have hpairs := mapM_eq_ok.mp h
  clear h
  induction hpairs with
  | nil => cases ha
  | cons hb _ ih =>
    rcases List.mem_cons.mp ha with rfl | ha
    · exact ⟨_, List.mem_cons_self, hb⟩
    · obtain ⟨b, hmem, hf⟩ := ih ha
      exact ⟨b, List.mem_cons_of_mem _ hmem, hf⟩

theorem mapM_ok {f : α → Except ε β} {g : α → β} {as : List α} (h : ∀ a ∈ as, f a = ok (g a)) :
    as.mapM f = ok (as.map g) := by
  induction as with
  | nil => rfl
  | cons a as ih =>
    rw [List.mapM_cons, h a List.mem_cons_self, ok_bind,
      ih fun b hb => h b (List.mem_cons_of_mem a hb)]
    rfl

theorem foldlM_invariant (inv : β → Prop) {f : β → α → Except ε β} {as : List α}
    (hstep : ∀ b a b', inv b → f b a = ok b' → inv b') {b b' : β} (hb : inv b)
    (h : as.foldlM f b = ok b') : inv b' := by
  induction as generalizing b with
  | nil =>
    obtain rfl := Except.ok.inj h
    exact hb
  | cons a as ih =>
    rw [List.foldlM_cons] at h
    obtain ⟨next, hnext, hrest⟩ := bind_eq_ok.mp h
    exact ih (hstep b a next hb hnext) hrest

theorem foldlM_ok {f : β → α → Except ε β} {g : β → α → β} {as : List α}
    (h : ∀ b, ∀ a ∈ as, f b a = ok (g b a)) (b : β) : as.foldlM f b = ok (as.foldl g b) := by
  induction as generalizing b with
  | nil => rfl
  | cons a as ih =>
    rw [List.foldlM_cons, h b a List.mem_cons_self, ok_bind,
      ih fun b' a' ha' => h b' a' (List.mem_cons_of_mem a ha')]
    rfl

theorem foldlM_update {ι : Type} [DecidableEq ι] {l : List ι} (hnodup : l.Nodup)
    {f : ι → β → Except ε β} {g g' : ι → β} :
    l.foldlM (fun g i => do return Function.update g i (← f i (g i))) g = ok g' ↔
      (∀ i ∈ l, f i (g i) = ok (g' i)) ∧ ∀ i ∉ l, g' i = g i := by
  induction l generalizing g with
  | nil => simp [funext_iff, eq_comm]
  | cons i l ih =>
    obtain ⟨hi, hnodup⟩ := List.nodup_cons.mp hnodup
    rw [List.foldlM_cons, bind_eq_ok, List.forall_mem_cons]
    constructor
    · rintro ⟨next, hnext, hrest⟩
      obtain ⟨b, hb, heq⟩ := bind_eq_ok.mp hnext
      obtain rfl := Except.ok.inj heq
      obtain ⟨hall, hother⟩ := (ih hnodup).mp hrest
      refine ⟨⟨?_, fun j hj => ?_⟩, fun j hj => ?_⟩
      · rw [hother i hi, Function.update_self]
        exact hb
      · have hne : j ≠ i := fun heq => hi (heq ▸ hj)
        exact Function.update_of_ne hne b g ▸ hall j hj
      · obtain ⟨hne, hj⟩ := not_or.mp (mt List.mem_cons.mpr hj)
        exact (hother j hj).trans (Function.update_of_ne hne b g)
    · rintro ⟨⟨hb, hall⟩, hother⟩
      refine ⟨Function.update g i (g' i), by rw [hb]; rfl, (ih hnodup).mpr ⟨?_, ?_⟩⟩
      · intro j hj
        have hne : j ≠ i := fun heq => hi (heq ▸ hj)
        exact (Function.update_of_ne hne (g' i) g).symm ▸ hall j hj
      · intro j hj
        by_cases heq : j = i
        · rw [heq, Function.update_self]
        · rw [Function.update_of_ne heq]
          exact hother j fun hmem => (List.mem_cons.mp hmem).elim heq hj

theorem foldlM_error {f : β → α → Except ε β} {as : List α}
    (h : ∃ a ∈ as, ∀ b, ∃ e, f b a = error e) (b : β) : ∃ e, as.foldlM f b = error e := by
  induction as generalizing b with
  | nil =>
    obtain ⟨a, ha, -⟩ := h
    cases ha
  | cons a as ih =>
    rw [List.foldlM_cons]
    cases hf : f b a with
    | error e => exact ⟨e, rfl⟩
    | ok b' =>
      refine ih ?_ b'
      obtain ⟨a', ha', herror⟩ := h
      rcases List.mem_cons.mp ha' with rfl | hmem
      · obtain ⟨e, he⟩ := herror b
        rw [hf] at he
        cases he
      · exact ⟨a', hmem, herror⟩

theorem exists_step_of_foldlM {f : β → α → Except ε β} {as : List α} {b b' : β}
    (h : as.foldlM f b = ok b') {a : α} (ha : a ∈ as) : ∃ b₁ b₂, f b₁ a = ok b₂ := by
  induction as generalizing b with
  | nil => cases ha
  | cons a₁ as ih =>
    rw [List.foldlM_cons] at h
    obtain ⟨next, hnext, hrest⟩ := bind_eq_ok.mp h
    rcases List.mem_cons.mp ha with rfl | ha
    · exact ⟨b, next, hnext⟩
    · exact ih hrest ha

end Except
