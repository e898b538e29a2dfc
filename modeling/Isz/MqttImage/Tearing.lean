import Isz.MqttImage.Protocol

namespace Isz.MqttImage

open Runs

variable {Data Image : Type} {png : Png Data Image} {s s' : System Image} {e : Event Data}
  {sizes : List Size}

def asks (sizes : List Size) : Event Data → Bool
  | .draw size _ => size ∈ sizes
  | _ => true

structure Mixed (sizes : List Size) (size : Size) : Prop where
  width : size.width ∈ 1024 :: sizes.map Size.width
  height : size.height ∈ 100 :: sizes.map Size.height

def Sending.Asked (sizes : List Size) : Sending → Prop
  | .idle => True
  | .width w => w ∈ 1024 :: sizes.map Size.width
  | .size s => Mixed sizes s

structure Asked (sizes : List Size) (s : System Image) : Prop where
  topic : s.size.All (· ∈ sizes)
  handling : ∀ payload, s.grapher.handling = some payload → payload ∈ sizes
  size : Mixed sizes s.grapher.size
  sending : s.grapher.sending.Asked sizes

theorem mixed_init : Mixed sizes Grapher.init.size := ⟨List.mem_cons_self, List.mem_cons_self⟩

theorem asked_start : Asked sizes (.start : System Image) where
  topic := Topic.all_start
  handling := nofun
  size := mixed_init
  sending := trivial

theorem mixed_width {size payload : Size} (h : Mixed sizes size) (hpayload : payload ∈ sizes) :
    Mixed sizes ⟨payload.width, size.height⟩ :=
  ⟨List.mem_cons_of_mem _ (List.mem_map.mpr ⟨payload, hpayload, rfl⟩), h.height⟩

theorem mixed_height {size payload : Size} (h : Mixed sizes size) (hpayload : payload ∈ sizes) :
    Mixed sizes ⟨size.width, payload.height⟩ :=
  ⟨h.width, List.mem_cons_of_mem _ (List.mem_map.mpr ⟨payload, hpayload, rfl⟩)⟩

theorem Asked.sending_step (h : Asked sizes s) (hstep : step png s e = some s') :
    s'.grapher.sending.Asked sizes := by
  rcases sending_cases hstep with hsending | hsending | hsending | ⟨width, hold, hsending⟩ <;>
    rw [hsending]
  · exact h.sending
  · trivial
  · exact h.size.width
  · have hwidth := h.sending
    rw [hold] at hwidth
    exact ⟨hwidth, h.size.height⟩

theorem Asked.step (h : Asked sizes s) (hasks : asks sizes e = true)
    (hstep : step png s e = some s') : Asked sizes s' := by
  have hsending := h.sending_step hstep
  cases sizeStep hstep with
  | still htopic hsize hhandling =>
    exact ⟨htopic ▸ h.topic, hhandling ▸ h.handling, hsize ▸ h.size, hsending⟩
  | requested _ htopic hgrapher =>
    exact ⟨htopic ▸ h.topic.publish (of_decide_eq_true hasks), hgrapher ▸ h.handling,
      hgrapher ▸ h.size, hsending⟩
  | relayed hrelay hgrapher =>
    exact ⟨h.topic.relay hrelay, hgrapher ▸ h.handling, hgrapher ▸ h.size, hsending⟩
  | setWidth hreceive hsize hhandling =>
    obtain ⟨htopic, hpayload⟩ := h.topic.receive hreceive
    refine ⟨htopic, fun payload heq => ?_, hsize ▸ mixed_width h.size hpayload, hsending⟩
    exact Option.some.inj (hhandling.symm.trans heq) ▸ hpayload
  | setHeight hold htopic hsize hhandling =>
    refine ⟨htopic ▸ h.topic, fun payload heq => ?_,
      hsize ▸ mixed_height h.size (h.handling _ hold), hsending⟩
    cases hhandling.symm.trans heq
  | rebooted htopic hgrapher =>
    exact ⟨htopic ▸ h.topic.lose _, hgrapher ▸ h.handling, hgrapher ▸ h.size, hsending⟩
  | reconnected htopic hgrapher =>
    exact ⟨htopic ▸ h.topic.lose _, hgrapher ▸ h.handling, hgrapher ▸ h.size, hsending⟩
  | restarted htopic hgrapher =>
    refine ⟨htopic ▸ h.topic.subscribe, fun payload heq => ?_, ?_, hsending⟩
    · rw [hgrapher] at heq
      cases heq
    · rw [hgrapher]
      exact mixed_init
  | disconnected htopic hgrapher =>
    exact ⟨htopic ▸ h.topic.unsubscribe, hgrapher ▸ h.handling, hgrapher ▸ h.size, hsending⟩

-- what send_graphs may have read of the two attributes
def Reads (png : Png Data Image) (sizes : List Size) (size : Size) : Prop :=
  ∃ events s, run (step png) (fun _ e => asks sizes e) .start events = some s ∧
    s.grapher.sending = .size size

section Torn

variable {size size' : Size}

theorem reads_own : Reads png sizes ⟨1024, 100⟩ :=
  ⟨[.readWidth, .readHeight], _, rfl, rfl⟩

theorem reads_height (hzero : ⟨0, 0⟩ ∉ sizes) (hsize : size ∈ sizes) :
    Reads png sizes ⟨1024, size.height⟩ := by
  have hne : size ≠ ⟨0, 0⟩ := fun h => hzero (h ▸ hsize)
  refine ⟨[.readWidth, .draw size true, .relaySize, .setWidth, .setHeight, .readHeight], ?_⟩
  simp [run, asks, hsize, step, System.sendSizeRequest, System.start, Widget.init, Grapher.init,
    Topic.start, Topic.publish, Topic.relay, Topic.receive, hne]

theorem reads_width (hzero : ⟨0, 0⟩ ∉ sizes) (hsize : size ∈ sizes) :
    Reads png sizes ⟨size.width, 100⟩ := by
  have hne : size ≠ ⟨0, 0⟩ := fun h => hzero (h ▸ hsize)
  refine ⟨[.draw size true, .relaySize, .setWidth, .readWidth, .readHeight], ?_⟩
  simp [run, asks, hsize, step, System.sendSizeRequest, System.start, Widget.init, Grapher.init,
    Topic.start, Topic.publish, Topic.relay, Topic.receive, hne]

theorem reads_both (hzero : ⟨0, 0⟩ ∉ sizes) (hsize : size ∈ sizes) (hsize' : size' ∈ sizes) :
    Reads png sizes ⟨size.width, size'.height⟩ := by
  have hne : size ≠ ⟨0, 0⟩ := fun h => hzero (h ▸ hsize)
  by_cases heq : size' = size
  · subst heq
    refine ⟨[.draw size' true, .relaySize, .setWidth, .setHeight, .readWidth, .readHeight], ?_⟩
    simp [run, asks, hsize, step, System.sendSizeRequest, System.start, Widget.init, Grapher.init,
      Topic.start, Topic.publish, Topic.relay, Topic.receive, hne]
  · refine ⟨[.draw size true, .relaySize, .setWidth, .setHeight, .readWidth, .draw size' true,
      .relaySize, .setWidth, .setHeight, .readHeight], ?_⟩
    simp [run, asks, hsize, hsize', step, System.sendSizeRequest, System.start, Widget.init,
      Grapher.init, Topic.start, Topic.publish, Topic.relay, Topic.receive, hne, heq]

end Torn

theorem attributes_read_iff (png : Png Data Image) (sizes : List Size) (hzero : ⟨0, 0⟩ ∉ sizes)
    (size : Size) : Reads png sizes size ↔ Mixed sizes size := by
  constructor
  · rintro ⟨events, s, hrun, hsending⟩
    have hasked : Asked sizes s :=
      (Reachable.first.run hrun).invariant asked_start fun _ _ _ h hallowed hstep =>
        h.step hallowed hstep
    have hmixed := hasked.sending
    rwa [hsending] at hmixed
  · rintro ⟨hwidth, hheight⟩
    obtain ⟨width, height⟩ := size
    rcases List.mem_cons.mp hwidth with rfl | hwidth <;>
      rcases List.mem_cons.mp hheight with rfl | hheight
    · exact reads_own
    · obtain ⟨size, hsize, rfl⟩ := List.mem_map.mp hheight
      exact reads_height hzero hsize
    · obtain ⟨size, hsize, rfl⟩ := List.mem_map.mp hwidth
      exact reads_width hzero hsize
    · obtain ⟨size, hsize, rfl⟩ := List.mem_map.mp hwidth
      obtain ⟨size', hsize', rfl⟩ := List.mem_map.mp hheight
      exact reads_both hzero hsize hsize'

theorem attributes_read_torn :
    Reads plain [⟨600, 150⟩, ⟨800, 200⟩] ⟨600, 200⟩ ∧
      ¬Reads plain [⟨600, 150⟩, ⟨800, 200⟩] ⟨600, 300⟩ := by
  constructor
  · exact (attributes_read_iff plain _ (by decide) _).mpr ⟨by decide, by decide⟩
  · intro h
    exact absurd ((attributes_read_iff plain _ (by decide) _).mp h).height (by decide)

end Isz.MqttImage
