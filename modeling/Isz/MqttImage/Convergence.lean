import Isz.MqttImage.Protocol

namespace Isz.MqttImage

open Runs

variable {Data Image : Type} {png : Png Data Image} {s s' : System Image} {e : Event Data}
  {size : Size}

section Inv

def Png.decoded (png : Png Data Image) (payload : Image) : Option Image :=
  (png.openRAM payload).map fun _ => payload

theorem updateImage_imageData (png : Png Data Image) (widget : Widget Image) (payload : Image) :
    (widget.updateImage png payload).imageData = png.decoded payload := by
  rw [Widget.updateImage, Png.decoded]
  cases png.openRAM payload <;> rfl

structure Inv (png : Png Data Image) (s : System Image) : Prop where
  sizes : ∃ seen, s.size.InSync seen ∧
    ∀ payload, seen = some payload → s.grapher.handling.getD s.grapher.size = payload
  width : ∀ payload, s.grapher.handling = some payload → s.grapher.size.width = payload.width
  images : ∃ seen, s.image.InSync seen ∧ s.widget.imageData = seen.bind png.decoded
  subscribed : s.image.subscribed = true

theorem inv_start : Inv png (.start : System Image) where
  sizes := ⟨none, Topic.inSync_start, by simp⟩
  width := by simp [System.start, Grapher.init]
  images := ⟨none, Topic.inSync_start, rfl⟩
  subscribed := rfl

theorem Inv.sizes_step (h : Inv png s) (hstep : SizeStep s e s') :
    (∃ seen, s'.size.InSync seen ∧
      ∀ payload, seen = some payload → s'.grapher.handling.getD s'.grapher.size = payload) ∧
    ∀ payload, s'.grapher.handling = some payload → s'.grapher.size.width = payload.width := by
  obtain ⟨seen, hsync, hseen⟩ := h.sizes
  cases hstep with
  | still htopic hsize hhandling =>
    rw [htopic, hsize, hhandling]
    exact ⟨h.sizes, h.width⟩
  | requested _ htopic hgrapher =>
    rw [htopic, hgrapher]
    exact ⟨⟨seen, hsync.publish, hseen⟩, h.width⟩
  | relayed hrelay hgrapher =>
    rw [hgrapher]
    exact ⟨⟨seen, Topic.inSync_relay hrelay, hseen⟩, h.width⟩
  | setWidth hreceive hsize hhandling =>
    refine ⟨⟨some _, hsync.receive hreceive, ?_⟩, ?_⟩
    · rintro payload ⟨⟩
      rw [hhandling]
      rfl
    · rintro payload hpayload
      obtain rfl := Option.some.inj (hhandling.symm.trans hpayload)
      rw [hsize]
  | setHeight hold htopic hsize hhandling =>
    rw [htopic, hsize, hhandling]
    refine ⟨⟨seen, hsync, fun payload hpayload => ?_⟩, fun _ hnone => by cases hnone⟩
    rw [← hseen payload hpayload, hold, Option.getD_none, Option.getD_some, h.width _ hold]
  | rebooted htopic hgrapher =>
    rw [htopic, hgrapher]
    exact ⟨⟨seen, hsync.lose _, hseen⟩, h.width⟩
  | reconnected htopic hgrapher =>
    rw [htopic, hgrapher]
    exact ⟨⟨seen, hsync.lose _, hseen⟩, h.width⟩
  | restarted htopic hgrapher =>
    rw [htopic, hgrapher]
    exact ⟨⟨none, Topic.inSync_subscribe, by simp⟩, by simp [Grapher.init]⟩
  | disconnected htopic hgrapher =>
    rw [htopic, hgrapher]
    exact ⟨⟨seen, Topic.inSync_unsubscribe, hseen⟩, h.width⟩

theorem Inv.images_step (h : Inv png s) (hstep : ImageStep png s e s') :
    (∃ seen, s'.image.InSync seen ∧ s'.widget.imageData = seen.bind png.decoded) ∧
      s'.image.subscribed = true := by
  obtain ⟨seen, hsync, hseen⟩ := h.images
  cases hstep with
  | still htopic hdata =>
    rw [htopic, hdata]
    exact ⟨⟨seen, hsync, hseen⟩, h.subscribed⟩
  | published _ htopic hwidget =>
    rw [htopic, hwidget]
    exact ⟨⟨seen, hsync.publish, hseen⟩, h.subscribed⟩
  | relayed hrelay hwidget =>
    rw [hwidget]
    refine ⟨⟨seen, Topic.inSync_relay hrelay, hseen⟩, ?_⟩
    obtain ⟨_, _, -, heq⟩ := Topic.relay_eq_some hrelay
    rw [heq]
    exact h.subscribed
  | updated hreceive hwidget =>
    refine ⟨⟨some _, hsync.receive hreceive, ?_⟩, ?_⟩
    · rw [hwidget, updateImage_imageData]
      rfl
    · obtain ⟨_, -, heq⟩ := Topic.receive_eq_some hreceive
      rw [heq]
      exact h.subscribed
  | rebooted htopic hwidget =>
    rw [htopic, hwidget]
    exact ⟨⟨none, Topic.inSync_subscribe, rfl⟩, rfl⟩
  | reconnected htopic hwidget =>
    rw [htopic, hwidget]
    exact ⟨⟨seen, Topic.inSync_subscribe, hseen⟩, rfl⟩
  | restarted htopic hwidget =>
    rw [htopic, hwidget]
    exact ⟨⟨seen, hsync.lose _, hseen⟩, h.subscribed⟩
  | disconnected htopic hwidget =>
    rw [htopic, hwidget]
    exact ⟨⟨seen, hsync.lose _, hseen⟩, h.subscribed⟩

theorem Inv.step (h : Inv png s) (hstep : step png s e = some s') : Inv png s' where
  sizes := (h.sizes_step (sizeStep hstep)).1
  width := (h.sizes_step (sizeStep hstep)).2
  images := (h.images_step (imageStep hstep)).1
  subscribed := (h.images_step (imageStep hstep)).2

theorem Inv.reachable {allowed : System Image → Event Data → Prop} (h : Inv png s)
    (hreach : Reachable (MqttImage.step png) allowed s s') : Inv png s' :=
  hreach.invariant h fun _ _ _ hinv _ hstep => hinv.step hstep

end Inv

section Phases

def keeps (size : Size) : Event Data → Bool
  | .draw size' _ => size' = size
  | _ => true

def widgetStays : Event Data → Bool
  | .reboot _ | .reconnect _ => false
  | _ => true

def grapherStays : Event Data → Bool
  | .restart _ | .disconnect _ => false
  | _ => true

def isPublish : Event Data → Bool
  | .publish _ => true
  | _ => false

structure Requested (size : Size) (s : System Image) : Prop where
  last : s.widget.last = size
  newest : s.size.newest = some size

theorem Requested.step (h : Requested size s) (hkeeps : keeps size e = true)
    (hstays : widgetStays e = true) (hstep : step png s e = some s') : Requested size s' := by
  cases sizeStep hstep with
  | still htopic _ _ hlast => exact ⟨hlast.trans h.last, htopic ▸ h.newest⟩
  | requested hne =>
    exact absurd ((of_decide_eq_true hkeeps).trans h.last.symm) hne
  | relayed hrelay _ hwidget =>
    exact ⟨hwidget ▸ h.last, (Topic.newest_relay hrelay).trans h.newest⟩
  | setWidth hreceive _ _ hwidget =>
    exact ⟨hwidget ▸ h.last, (Topic.newest_receive hreceive).trans h.newest⟩
  | setHeight _ htopic _ _ hwidget => exact ⟨hwidget ▸ h.last, htopic ▸ h.newest⟩
  | rebooted => cases hstays
  | reconnected => cases hstays
  | restarted htopic _ hwidget => exact ⟨hwidget ▸ h.last, htopic ▸ h.newest⟩
  | disconnected htopic _ hwidget => exact ⟨hwidget ▸ h.last, htopic ▸ h.newest⟩

def Retained (size : Size) (s : System Image) : Prop := s.size.Upstream (· = size)

theorem Retained.step (h : Retained size s) (hkeeps : keeps size e = true)
    (hstep : step png s e = some s') : Retained size s' := by
  rw [Retained] at h ⊢
  cases sizeStep hstep with
  | still htopic => exact htopic ▸ h
  | requested _ htopic => exact htopic ▸ h.publish (of_decide_eq_true hkeeps)
  | relayed hrelay => exact h.relay hrelay
  | setWidth hreceive => exact h.receive hreceive
  | setHeight _ htopic => exact htopic ▸ h
  | rebooted htopic => exact htopic ▸ h.lose _
  | reconnected htopic => exact htopic ▸ h.lose _
  | restarted htopic => exact htopic ▸ h
  | disconnected htopic => exact htopic ▸ h

structure Handled (size : Size) (s : System Image) : Prop where
  topic : s.size.All (· = size)
  handling : ∀ payload, s.grapher.handling = some payload → payload = size
  size : s.grapher.size = size

theorem Handled.step (h : Handled size s) (hkeeps : keeps size e = true)
    (hstays : grapherStays e = true) (hstep : step png s e = some s') : Handled size s' := by
  cases sizeStep hstep with
  | still htopic hsize hhandling =>
    exact ⟨htopic ▸ h.topic, hhandling ▸ h.handling, hsize.trans h.size⟩
  | requested _ htopic hgrapher =>
    exact ⟨htopic ▸ h.topic.publish (of_decide_eq_true hkeeps), hgrapher ▸ h.handling,
      hgrapher ▸ h.size⟩
  | relayed hrelay hgrapher =>
    exact ⟨h.topic.relay hrelay, hgrapher ▸ h.handling, hgrapher ▸ h.size⟩
  | setWidth hreceive hsize hhandling =>
    obtain ⟨htopic, rfl⟩ := h.topic.receive hreceive
    refine ⟨htopic, fun payload hpayload => ?_, ?_⟩
    · exact (Option.some.inj (hhandling.symm.trans hpayload)).symm
    · rw [hsize, h.size]
  | setHeight hold htopic hsize hhandling =>
    refine ⟨htopic ▸ h.topic, fun payload hpayload => ?_, ?_⟩
    · cases hhandling.symm.trans hpayload
    · rw [hsize, h.size, h.handling _ hold]
  | rebooted htopic hgrapher =>
    exact ⟨htopic ▸ h.topic.lose _, hgrapher ▸ h.handling, hgrapher ▸ h.size⟩
  | reconnected htopic hgrapher =>
    exact ⟨htopic ▸ h.topic.lose _, hgrapher ▸ h.handling, hgrapher ▸ h.size⟩
  | restarted => cases hstays
  | disconnected => cases hstays

def Fresh (size : Size) (s : System Image) : Prop :=
  match s.grapher.sending with
  | .idle => True
  | .width width => width = size.width
  | .size size' => size' = size

theorem Fresh.step (h : Fresh size s) (hhandled : Handled size s)
    (hstep : step png s e = some s') : Fresh size s' := by
  rw [Fresh] at h ⊢
  rcases sending_cases hstep with hsending | hsending | hsending | ⟨width, hold, hsending⟩ <;>
    rw [hsending]
  · exact h
  · trivial
  · exact congrArg Size.width hhandled.size
  · rw [hold] at h
    rw [h, hhandled.size]

def Current (png : Png Data Image) (size : Size) (s : System Image) : Prop :=
  ∃ data, s.image.newest = some (png.savefig data size)

theorem Current.step (h : Current png size s) (hfresh : Fresh size s)
    (hstays : grapherStays e = true) (hstep : step png s e = some s') :
    Current png size s' := by
  obtain ⟨data, hdata⟩ := h
  cases imageStep hstep with
  | still htopic => exact ⟨data, htopic ▸ hdata⟩
  | published hsending htopic =>
    rw [Fresh, hsending] at hfresh
    subst hfresh
    exact ⟨_, htopic ▸ Topic.newest_publish⟩
  | relayed hrelay => exact ⟨data, (Topic.newest_relay hrelay).trans hdata⟩
  | updated hreceive => exact ⟨data, (Topic.newest_receive hreceive).trans hdata⟩
  | rebooted htopic => exact ⟨data, htopic ▸ hdata⟩
  | reconnected htopic => exact ⟨data, htopic ▸ hdata⟩
  | restarted => cases hstays
  | disconnected => cases hstays

def Stage (png : Png Data Image) (size : Size) (published : ℕ) (s : System Image) : Prop :=
  Handled size s ∧ (1 ≤ published → Fresh size s) ∧ (2 ≤ published → Current png size s)

theorem publish_fresh {data : Data} (hstep : step png s (.publish data) = some s') :
    Fresh size s' := by
  simp only [MqttImage.step] at hstep
  split at hstep <;> cases hstep
  trivial

theorem publish_current {data : Data} (h : Fresh size s)
    (hstep : step png s (.publish data) = some s') : Current png size s' := by
  simp only [MqttImage.step] at hstep
  split at hstep <;> cases hstep
  rename_i hsending
  rw [Fresh, hsending] at h
  subst h
  exact ⟨data, Topic.newest_publish⟩

theorem Stage.step {published : ℕ} (h : Stage png size published s) (hkeeps : keeps size e = true)
    (hstays : grapherStays e = true) (hstep : step png s e = some s') :
    Stage png size (published + if isPublish e then 1 else 0) s' := by
  obtain ⟨hhandled, hfresh, hcurrent⟩ := h
  refine ⟨hhandled.step hkeeps hstays hstep, ?_⟩
  cases e with
  | publish data =>
    refine ⟨fun _ => publish_fresh hstep, fun hpublished => ?_⟩
    exact publish_current (hfresh (Nat.le_of_succ_le_succ hpublished)) hstep
  | _ =>
    exact ⟨fun hpublished => (hfresh hpublished).step hhandled hstep, fun hpublished =>
      (hcurrent hpublished).step (hfresh (Nat.le_of_succ_le hpublished)) hstays hstep⟩

theorem Stage.run {published : ℕ} (events : List (Event Data)) (h : Stage png size published s)
    (hrun : run (MqttImage.step png) (fun _ e => keeps size e && grapherStays e) s events =
      some s') : Stage png size (published + events.countP isPublish) s' := by
  induction events generalizing s published with
  | nil =>
    obtain rfl := Option.some.inj hrun
    exact h
  | cons e events ih =>
    simp only [Runs.run] at hrun
    split at hrun
    case isTrue hallowed =>
      obtain ⟨next, hstep, hrest⟩ := Option.bind_eq_some_iff.mp hrun
      obtain ⟨hkeeps, hstays⟩ := Bool.and_eq_true_iff.mp hallowed
      rw [List.countP_cons, Nat.add_comm (events.countP isPublish), ← Nat.add_assoc]
      exact ih (h.step hkeeps hstays hstep) hrest
    case isFalse => cases hrun

theorem requested_start (hlast : s.widget.last ≠ size) :
    Requested size (s.sendSizeRequest size true) := by
  rw [System.sendSizeRequest, if_neg hlast.symm, if_pos rfl]
  exact ⟨rfl, Topic.newest_publish⟩

theorem Requested.retained (h : Requested size s) (hsent : s.size.published = []) :
    Retained size s := by
  refine ⟨fun m hm => ?_, size, ?_, rfl⟩
  · rw [hsent] at hm
    cases hm
  · exact (Topic.newest_drained hsent).symm.trans h.newest

theorem Inv.handled (h : Inv png s) (hupstream : Retained size s)
    (hdelivered : s.size.delivered = []) (hhandling : s.grapher.handling = none)
    (hsubscribed : s.size.subscribed = true) : Handled size s := by
  obtain ⟨seen, hsync, hseen⟩ := h.sizes
  obtain ⟨-, m, hretained, rfl⟩ := id hupstream
  constructor
  · exact hupstream.all fun m hm => by
      rw [hdelivered] at hm
      cases hm
  · intro payload hpayload
    cases hhandling.symm.trans hpayload
  · have htarget := hseen m (hsync.drained hsubscribed hdelivered hretained)
    rwa [hhandling] at htarget

theorem Inv.shown (h : Inv png s) (hcurrent : Current png size s)
    (hopens : ∀ data, (png.openRAM (png.savefig data size)).isSome)
    (hpublished : s.image.published = []) (hdelivered : s.image.delivered = []) :
    ∃ data, s.widget.imageData = some (png.savefig data size) := by
  obtain ⟨seen, hsync, hdata⟩ := h.images
  obtain ⟨data, hnewest⟩ := hcurrent
  rw [Topic.newest_drained hpublished] at hnewest
  have hseen := hsync.drained h.subscribed hdelivered hnewest
  obtain ⟨opened, hopened⟩ := Option.isSome_iff_exists.mp (hopens data)
  refine ⟨data, ?_⟩
  rw [hdata, hseen, Option.bind_some, Png.decoded, hopened, Option.map_some]

end Phases

theorem shows_requested (png : Png Data Image) (size : Size)
    (hopens : ∀ data, (png.openRAM (png.savefig data size)).isSome)
    {before sending handling graphs : List (Event Data)} {s sent handled shown : System Image}
    (hbefore : run (step png) (fun _ _ => True) .start before = some s)
    (hlast : s.widget.last ≠ size)
    (hsending : run (step png) (fun _ e => keeps size e && widgetStays e)
      (s.sendSizeRequest size true) sending = some sent)
    (hsent : sent.size.published = [])
    (hhandling : run (step png) (fun _ e => keeps size e) sent handling = some handled)
    (hdelivered : handled.size.delivered = []) (hnone : handled.grapher.handling = none)
    (hsubscribed : handled.size.subscribed = true)
    (hgraphs : run (step png) (fun _ e => keeps size e && grapherStays e) handled graphs =
      some shown)
    (htwice : 2 ≤ graphs.countP isPublish)
    (hpublished : shown.image.published = []) (hshown : shown.image.delivered = []) :
    ∃ data, shown.widget.imageData = some (png.savefig data size) := by
  have hinv : Inv png s := inv_start.reachable (Reachable.first.run hbefore)
  have hinvRequested : Inv png (s.sendSizeRequest size true) :=
    hinv.step (e := .draw size true) rfl
  have hreachSent := Reachable.first.run hsending
  have hinvSent : Inv png sent := hinvRequested.reachable hreachSent
  have hrequested : Requested size sent :=
    hreachSent.invariant (requested_start hlast) fun _ _ _ h hallowed hstep =>
      h.step (Bool.and_eq_true_iff.mp hallowed).1 (Bool.and_eq_true_iff.mp hallowed).2 hstep
  have hreachHandled := Reachable.first.run hhandling
  have hretained : Retained size handled :=
    hreachHandled.invariant (hrequested.retained hsent) fun _ _ _ h hallowed hstep =>
      h.step hallowed hstep
  have hinvHandled : Inv png handled := hinvSent.reachable hreachHandled
  have hstage : Stage png size 0 handled :=
    ⟨hinvHandled.handled hretained hdelivered hnone hsubscribed, nofun, nofun⟩
  have hcurrent : Current png size shown :=
    (hstage.run graphs hgraphs).2.2 (by rwa [Nat.zero_add])
  exact (hinvHandled.reachable (Reachable.first.run hgraphs)).shown hcurrent hopens hpublished
    hshown

def redrawn : System Size :=
  ⟨⟨⟨800, 200⟩, some ⟨800, 200⟩, some ⟨800, 200⟩⟩, ⟨⟨800, 200⟩, none, .idle⟩,
    ⟨[], some ⟨800, 200⟩, [], true⟩, ⟨[], some ⟨800, 200⟩, [], true⟩⟩

theorem shows_requested_torn :
    ∃ data, redrawn.widget.imageData = some (plain.savefig data ⟨800, 200⟩) :=
  @shows_requested Unit Size plain ⟨800, 200⟩ (fun _ => rfl)
    [.draw ⟨600, 100⟩ true, .relaySize, .setWidth, .readWidth]
    [.setHeight, .relaySize, .draw ⟨800, 200⟩ false]
    [.setWidth, .setHeight, .readHeight]
    [.publish (), .readWidth, .readHeight, .relayImage, .publish (), .relayImage, .updateImage,
      .updateImage]
    ⟨⟨⟨600, 100⟩, none, none⟩, ⟨⟨600, 100⟩, some ⟨600, 100⟩, .width 600⟩,
      ⟨[], some ⟨600, 100⟩, [], true⟩, .start⟩
    ⟨⟨⟨800, 200⟩, none, none⟩, ⟨⟨600, 100⟩, none, .width 600⟩,
      ⟨[], some ⟨800, 200⟩, [⟨800, 200⟩], true⟩, .start⟩
    ⟨⟨⟨800, 200⟩, none, none⟩, ⟨⟨800, 200⟩, none, .size ⟨600, 200⟩⟩,
      ⟨[], some ⟨800, 200⟩, [], true⟩, .start⟩
    redrawn rfl (by decide) rfl rfl rfl rfl rfl rfl rfl (by decide) rfl rfl

end Isz.MqttImage
