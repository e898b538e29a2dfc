import Mathlib.Data.List.Basic

-- what a program asked of the outside world, in order, and how it ended
structure Trace (Op Fault α : Type) where
  sent : List Op
  result : Except Fault α

namespace Trace

variable {Op Fault α β : Type}

def bind (x : Trace Op Fault α) (f : α → Trace Op Fault β) : Trace Op Fault β :=
  match x.result with
  | .ok a => ⟨x.sent ++ (f a).sent, (f a).result⟩
  | .error fault => ⟨x.sent, .error fault⟩

instance : Monad (Trace Op Fault) where
  pure a := ⟨[], .ok a⟩
  bind := Trace.bind

def lift (result : Except Fault α) : Trace Op Fault α := ⟨[], result⟩

def raise (fault : Fault) : Trace Op Fault α := ⟨[], .error fault⟩

def send (op : Op) : Trace Op Fault Unit := ⟨[op], .ok ()⟩

def Returns (x : Trace Op Fault α) : Prop := ∃ a, x.result = .ok a

@[simp] theorem pure_eq (a : α) : (pure a : Trace Op Fault α) = ⟨[], .ok a⟩ := rfl

@[simp] theorem ok_bind (sent : List Op) (a : α) (f : α → Trace Op Fault β) :
    ((⟨sent, .ok a⟩ : Trace Op Fault α) >>= f) = ⟨sent ++ (f a).sent, (f a).result⟩ := rfl

@[simp] theorem error_bind (sent : List Op) (fault : Fault) (f : α → Trace Op Fault β) :
    ((⟨sent, .error fault⟩ : Trace Op Fault α) >>= f) = ⟨sent, .error fault⟩ := rfl

@[simp] theorem lift_ok_bind (a : α) (f : α → Trace Op Fault β) :
    (lift (.ok a) >>= f) = f a := rfl

@[simp] theorem lift_error_bind (fault : Fault) (f : α → Trace Op Fault β) :
    (lift (.error fault) >>= f) = raise fault := rfl

theorem forall_sent_bind {P : Op → Prop} {x : Trace Op Fault α} {f : α → Trace Op Fault β}
    (hx : ∀ op ∈ x.sent, P op) (hf : ∀ a, ∀ op ∈ (f a).sent, P op) :
    ∀ op ∈ (x >>= f).sent, P op := by
  obtain ⟨sent, result⟩ := x
  cases result with
  | ok a =>
    intro op hop
    rcases List.mem_append.mp hop with hop | hop
    · exact hx op hop
    · exact hf a op hop
  | error fault => exact hx

theorem bind_result_eq_ok {x : Trace Op Fault α} {f : α → Trace Op Fault β} {b : β} :
    (x >>= f).result = .ok b ↔ ∃ a, x.result = .ok a ∧ (f a).result = .ok b := by
  obtain ⟨sent, result⟩ := x
  cases result with
  | ok a => simp
  | error fault => simp

theorem returns_bind {x : Trace Op Fault α} {f : α → Trace Op Fault β} :
    (x >>= f).Returns ↔ ∃ a, x.result = .ok a ∧ (f a).Returns := by
  simp only [Returns, bind_result_eq_ok]
  constructor
  · rintro ⟨b, a, ha, hb⟩
    exact ⟨a, ha, b, hb⟩
  · rintro ⟨a, ha, b, hb⟩
    exact ⟨b, a, ha, hb⟩

theorem bind_sent {x : Trace Op Fault α} {a : α} (h : x.result = .ok a)
    (f : α → Trace Op Fault β) : (x >>= f).sent = x.sent ++ (f a).sent := by
  obtain ⟨sent, result⟩ := x
  obtain rfl : result = .ok a := h
  rfl

theorem eq_of_ok {x : Trace Op Fault α} {a : α} (h : x.result = .ok a) : x = ⟨x.sent, .ok a⟩ := by
  rw [← h]

theorem bind_eq_ok {x : Trace Op Fault α} {f : α → Trace Op Fault β} {sent : List Op} {b : β} :
    (x >>= f) = ⟨sent, .ok b⟩ ↔ ∃ a, x.result = .ok a ∧ (f a).result = .ok b ∧
      sent = x.sent ++ (f a).sent := by
  obtain ⟨sent', result⟩ := x
  cases result with
  | ok a => simp [and_comm, eq_comm]
  | error fault => simp

theorem lift_bind_eq_ok {x : Except Fault α} {f : α → Trace Op Fault β} {sent : List Op} {b : β} :
    (lift x >>= f) = ⟨sent, .ok b⟩ ↔ ∃ a, x = .ok a ∧ f a = ⟨sent, .ok b⟩ := by
  cases x with
  | ok a => simp
  | error fault => simp [raise]

theorem send_bind_eq_ok {op : Op} {f : Unit → Trace Op Fault β} {sent : List Op} {b : β} :
    (send op >>= f) = ⟨sent, .ok b⟩ ↔ ∃ rest, f () = ⟨rest, .ok b⟩ ∧ sent = op :: rest := by
  rw [send, ok_bind]
  cases f () with
  | mk rest result => simp [eq_comm, and_comm, and_assoc]

theorem forM_eq_ok {as : List α} {f : α → Trace Op Fault Unit} {sent : List Op} :
    as.forM f = ⟨sent, .ok ()⟩ ↔ (∀ a ∈ as, (f a).result = .ok ()) ∧
      sent = as.flatMap fun a => (f a).sent := by
  induction as generalizing sent with
  | nil => simp [List.forM, eq_comm]
  | cons a as ih =>
    have hcons : (a :: as).forM f = (f a >>= fun _ => as.forM f) := rfl
    rw [hcons, bind_eq_ok, List.forall_mem_cons, List.flatMap_cons]
    constructor
    · rintro ⟨⟨⟩, ha, hrest, rfl⟩
      obtain ⟨hall, heq⟩ := ih.mp (eq_of_ok hrest)
      exact ⟨⟨ha, hall⟩, by rw [heq]⟩
    · rintro ⟨⟨ha, hall⟩, rfl⟩
      have hrest := ih.mpr ⟨hall, rfl⟩
      exact ⟨(), ha, by rw [hrest], by rw [hrest]⟩

theorem forM_iff {as : List α} {f : α → Trace Op Fault Unit} {P : α → Prop} {g : α → List Op}
    (h : ∀ a ∈ as, ∀ sent, f a = ⟨sent, .ok ()⟩ ↔ P a ∧ sent = g a) {sent : List Op} :
    as.forM f = ⟨sent, .ok ()⟩ ↔ (∀ a ∈ as, P a) ∧ sent = as.flatMap g := by
  have hresult : ∀ a ∈ as, ((f a).result = .ok () ↔ P a) ∧ (P a → (f a).sent = g a) := by
    intro a ha
    refine ⟨⟨fun hok => ((h a ha _).mp (eq_of_ok hok)).1, ?_⟩, ?_⟩
    · exact fun hP => by rw [(h a ha _).mpr ⟨hP, rfl⟩]
    · exact fun hP => by rw [(h a ha _).mpr ⟨hP, rfl⟩]
  rw [forM_eq_ok]
  constructor
  · rintro ⟨hok, rfl⟩
    have hall : ∀ a ∈ as, P a := fun a ha => (hresult a ha).1.mp (hok a ha)
    exact ⟨hall, List.flatMap_congr fun a ha => (hresult a ha).2 (hall a ha)⟩
  · rintro ⟨hall, rfl⟩
    exact ⟨fun a ha => (hresult a ha).1.mpr (hall a ha),
      List.flatMap_congr fun a ha => ((hresult a ha).2 (hall a ha)).symm⟩

def mute (x : Trace Op Fault α) : Trace Op Fault α := ⟨[], x.result⟩

theorem mute_bind (x : Trace Op Fault α) (f : α → Trace Op Fault β) :
    (x >>= f).mute = x.mute >>= fun a => (f a).mute := by
  obtain ⟨sent, result⟩ := x
  cases result with
  | ok a => rfl
  | error fault => rfl

end Trace
