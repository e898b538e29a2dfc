import Mathlib.Data.List.Basic

-- what is on its way to a broker, what it retains and what is on its way to the subscriber
structure Topic (M : Type) where
  published : List M
  retained : Option M
  delivered : List M
  subscribed : Bool

namespace Topic

variable {M : Type}

def start : Topic M := ⟨[], none, [], true⟩

def publish (t : Topic M) (m : M) : Topic M := { t with published := t.published ++ [m] }

def relay (t : Topic M) : Option (Topic M) :=
  match t.published with
  | [] => none
  | m :: published => some
    { t with
      published
      retained := some m
      delivered := if t.subscribed then t.delivered ++ [m] else t.delivered }

def receive (t : Topic M) : Option (M × Topic M) :=
  match t.delivered with
  | [] => none
  | m :: delivered => some (m, { t with delivered })

-- a new session gets the retained message and no other
def subscribe (t : Topic M) : Topic M :=
  { t with delivered := t.retained.toList, subscribed := true }

def unsubscribe (t : Topic M) : Topic M := { t with delivered := [], subscribed := false }

-- the publisher's connection breaks
def lose (t : Topic M) (kept : ℕ) : Topic M := { t with published := t.published.take kept }

theorem relay_eq_some {t t' : Topic M} (h : t.relay = some t') :
    ∃ m published, t.published = m :: published ∧ t' =
      { t with
        published
        retained := some m
        delivered := if t.subscribed then t.delivered ++ [m] else t.delivered } := by
  rw [relay] at h
  split at h
  case h_1 => cases h
  case h_2 m published hpublished => exact ⟨m, published, hpublished, (Option.some.inj h).symm⟩

theorem receive_eq_some {t t' : Topic M} {m : M} (h : t.receive = some (m, t')) :
    ∃ delivered, t.delivered = m :: delivered ∧ t' = { t with delivered } := by
  rw [receive] at h
  split at h
  case h_1 => cases h
  case h_2 m' delivered hdelivered =>
    obtain ⟨rfl, rfl⟩ := Prod.mk.inj (Option.some.inj h)
    exact ⟨delivered, hdelivered, rfl⟩

section Newest

def newest (t : Topic M) : Option M := t.published.getLast?.or t.retained

variable {t t' : Topic M} {m : M}

@[simp] theorem newest_publish : (t.publish m).newest = some m := by
  simp [newest, publish]

theorem newest_relay (h : t.relay = some t') : t'.newest = t.newest := by
  obtain ⟨m, published, hpublished, rfl⟩ := relay_eq_some h
  cases published with
  | nil => simp [newest, hpublished]
  | cons m' published => simp [newest, hpublished, List.getLast?_cons]

theorem newest_receive (h : t.receive = some (m, t')) : t'.newest = t.newest := by
  obtain ⟨delivered, -, rfl⟩ := receive_eq_some h
  rfl

theorem newest_drained (h : t.published = []) : t.newest = t.retained := by
  rw [newest, h]
  rfl

end Newest

section InSync

def InSync (t : Topic M) (seen : Option M) : Prop :=
  t.subscribed = true → t.retained.isSome = true → t.delivered.getLast?.or seen = t.retained

variable {t t' : Topic M} {m : M} {seen : Option M}

theorem inSync_start : (start : Topic M).InSync seen := by
  intro _ h
  cases h

theorem InSync.publish (h : t.InSync seen) : (t.publish m).InSync seen := h

theorem InSync.lose (h : t.InSync seen) (kept : ℕ) : (t.lose kept).InSync seen := h

theorem inSync_relay (hrelay : t.relay = some t') : t'.InSync seen := by
  obtain ⟨m, published, -, rfl⟩ := relay_eq_some hrelay
  intro hsubscribed _
  simp_all

theorem InSync.receive (h : t.InSync seen) (hreceive : t.receive = some (m, t')) :
    t'.InSync (some m) := by
  obtain ⟨delivered, hdelivered, rfl⟩ := receive_eq_some hreceive
  intro hsubscribed hretained
  have hlast := h hsubscribed hretained
  rw [hdelivered, List.getLast?_cons] at hlast
  rw [← hlast]
  cases delivered.getLast? <;> rfl

theorem inSync_subscribe : t.subscribe.InSync seen := by
  intro _ h
  obtain ⟨m, hm⟩ := Option.isSome_iff_exists.mp h
  simp_all [subscribe]

theorem inSync_unsubscribe : t.unsubscribe.InSync seen := by
  intro h
  cases h

theorem InSync.drained (h : t.InSync seen) (hsubscribed : t.subscribed = true)
    (hdelivered : t.delivered = []) (hretained : t.retained = some m) : seen = some m := by
  have hlast := h hsubscribed (by rw [hretained]; rfl)
  rwa [hdelivered, hretained] at hlast

end InSync

section All

structure All (P : M → Prop) (t : Topic M) : Prop where
  published : ∀ m ∈ t.published, P m
  retained : ∀ m, t.retained = some m → P m
  delivered : ∀ m ∈ t.delivered, P m

variable {P : M → Prop} {t t' : Topic M} {m : M}

theorem all_start : (start : Topic M).All P :=
  ⟨by simp [start], by simp [start], by simp [start]⟩

theorem All.publish (h : t.All P) (hm : P m) : (t.publish m).All P where
  published := by
    intro m' hm'
    rcases List.mem_append.mp hm' with hm' | hm'
    · exact h.published m' hm'
    · exact List.mem_singleton.mp hm' ▸ hm
  retained := h.retained
  delivered := h.delivered

theorem All.lose (h : t.All P) (kept : ℕ) : (t.lose kept).All P where
  published := fun m hm => h.published m (List.mem_of_mem_take hm)
  retained := h.retained
  delivered := h.delivered

theorem All.relay (h : t.All P) (hrelay : t.relay = some t') : t'.All P := by
  obtain ⟨m, published, hpublished, rfl⟩ := relay_eq_some hrelay
  have hm : P m := h.published m (hpublished ▸ List.mem_cons_self)
  constructor
  · exact fun m' hm' => h.published m' (hpublished ▸ List.mem_cons_of_mem m hm')
  · rintro m' ⟨⟩
    exact hm
  · intro m' hm'
    dsimp only at hm'
    split at hm'
    · rcases List.mem_append.mp hm' with hm' | hm'
      · exact h.delivered m' hm'
      · exact List.mem_singleton.mp hm' ▸ hm
    · exact h.delivered m' hm'

theorem All.receive (h : t.All P) (hreceive : t.receive = some (m, t')) : t'.All P ∧ P m := by
  obtain ⟨delivered, hdelivered, rfl⟩ := receive_eq_some hreceive
  refine ⟨⟨h.published, h.retained, fun m' hm' => h.delivered m' ?_⟩, h.delivered m ?_⟩
  · exact hdelivered ▸ List.mem_cons_of_mem m hm'
  · exact hdelivered ▸ List.mem_cons_self

theorem All.subscribe (h : t.All P) : t.subscribe.All P :=
  ⟨h.published, h.retained, fun m hm => h.retained m (Option.mem_toList.mp hm)⟩

theorem All.unsubscribe (h : t.All P) : t.unsubscribe.All P :=
  ⟨h.published, h.retained, fun _ hm => absurd hm List.not_mem_nil⟩

end All

section Upstream

def Upstream (P : M → Prop) (t : Topic M) : Prop :=
  (∀ m ∈ t.published, P m) ∧ ∃ m, t.retained = some m ∧ P m

variable {P : M → Prop} {t t' : Topic M} {m : M}

theorem Upstream.publish (h : t.Upstream P) (hm : P m) : (t.publish m).Upstream P := by
  refine ⟨fun m' hm' => ?_, h.2⟩
  rcases List.mem_append.mp hm' with hm' | hm'
  · exact h.1 m' hm'
  · exact List.mem_singleton.mp hm' ▸ hm

theorem Upstream.lose (h : t.Upstream P) (kept : ℕ) : (t.lose kept).Upstream P :=
  ⟨fun m hm => h.1 m (List.mem_of_mem_take hm), h.2⟩

theorem Upstream.relay (h : t.Upstream P) (hrelay : t.relay = some t') : t'.Upstream P := by
  obtain ⟨m, published, hpublished, rfl⟩ := relay_eq_some hrelay
  refine ⟨fun m' hm' => h.1 m' (hpublished ▸ List.mem_cons_of_mem m hm'), m, rfl, ?_⟩
  exact h.1 m (hpublished ▸ List.mem_cons_self)

theorem Upstream.receive (h : t.Upstream P) (hreceive : t.receive = some (m, t')) :
    t'.Upstream P := by
  obtain ⟨delivered, -, rfl⟩ := receive_eq_some hreceive
  exact h

theorem Upstream.all (h : t.Upstream P) (hdelivered : ∀ m ∈ t.delivered, P m) : t.All P := by
  obtain ⟨hpublished, m, hm, hP⟩ := h
  refine ⟨hpublished, fun m' hm' => ?_, hdelivered⟩
  obtain rfl := Option.some.inj (hm.symm.trans hm')
  exact hP

end Upstream

end Topic
