import Isz.Library.Retained
import Isz.Library.Runs

namespace Isz.MqttImage

open Runs

structure Size where
  width : Int
  height : Int
  deriving DecidableEq

-- matplotlib's image of the data at a size, and what PNGdec makes of an image
structure Png (Data Image : Type) where
  savefig : Data → Size → Image
  openRAM : Image → Option Size

structure Widget (Image : Type) where
  last : Size
  imageData : Option Image
  preferred : Option Size

inductive Sending where
  | idle
  | width (width : Int)
  | size (size : Size)
  deriving DecidableEq

structure Grapher where
  size : Size
  -- on_message has set the width and not yet the height
  handling : Option Size
  sending : Sending

structure System (Image : Type) where
  widget : Widget Image
  grapher : Grapher
  size : Topic Size
  image : Topic Image

variable {Data Image : Type}

def Widget.init : Widget Image := ⟨⟨0, 0⟩, none, none⟩

def Grapher.init : Grapher := ⟨⟨1024, 100⟩, none, .idle⟩

def System.start : System Image := ⟨.init, .init, .start, .start⟩

def Widget.updateImage (png : Png Data Image) (widget : Widget Image) (payload : Image) :
    Widget Image :=
  match png.openRAM payload with
  | none => { widget with imageData := none }
  | some size => { widget with imageData := some payload, preferred := some size }

-- publish fails while there is no connection
def System.sendSizeRequest (s : System Image) (size : Size) (connected : Bool) : System Image :=
  if size = s.widget.last then s
  else if connected then
    { s with widget := { s.widget with last := size }, size := s.size.publish size }
  else s

inductive Event (Data : Type) where
  | draw (size : Size) (connected : Bool)
  | relaySize
  | setWidth
  | setHeight
  | readWidth
  | readHeight
  | publish (data : Data)
  | fail
  | relayImage
  | updateImage
  | reboot (kept : ℕ)
  | reconnect (kept : ℕ)
  | restart (kept : ℕ)
  | disconnect (kept : ℕ)

-- on_message runs on the client's own thread, between any two steps of send_graphs
def step (png : Png Data Image) (s : System Image) : Event Data → Option (System Image)
  | .draw size connected => some (s.sendSizeRequest size connected)
  | .relaySize => s.size.relay.map fun size => { s with size }
  | .setWidth =>
    if s.grapher.handling.isSome then none
    else s.size.receive.map fun received =>
      { s with
        grapher :=
          { s.grapher with
            size := ⟨received.1.width, s.grapher.size.height⟩
            handling := some received.1 }
        size := received.2 }
  | .setHeight => s.grapher.handling.map fun payload =>
    { s with
      grapher :=
        { s.grapher with
          size := ⟨s.grapher.size.width, payload.height⟩
          handling := none } }
  | .readWidth =>
    match s.grapher.sending with
    | .idle => some { s with grapher := { s.grapher with sending := .width s.grapher.size.width } }
    | _ => none
  | .readHeight =>
    match s.grapher.sending with
    | .width width => some
      { s with grapher := { s.grapher with sending := .size ⟨width, s.grapher.size.height⟩ } }
    | _ => none
  | .publish data =>
    match s.grapher.sending with
    | .size size => some
      { s with
        grapher := { s.grapher with sending := .idle }
        image := s.image.publish (png.savefig data size) }
    | _ => none
  | .fail => some { s with grapher := { s.grapher with sending := .idle } }
  | .relayImage => s.image.relay.map fun image => { s with image }
  | .updateImage => s.image.receive.map fun received =>
    { s with widget := s.widget.updateImage png received.1, image := received.2 }
  -- setup subscribes, and the client does so again when it has lost its connection
  | .reboot kept => some
    { s with widget := .init, size := s.size.lose kept, image := s.image.subscribe }
  | .reconnect kept => some { s with size := s.size.lose kept, image := s.image.subscribe }
  -- run_mqtt subscribes once
  | .restart kept => some
    { s with grapher := .init, size := s.size.subscribe, image := s.image.lose kept }
  | .disconnect kept => some
    { s with size := s.size.unsubscribe, image := s.image.lose kept }

section Steps

inductive SizeStep (s : System Image) : Event Data → System Image → Prop where
  | still {e : Event Data} {s' : System Image} : s'.size = s.size →
      s'.grapher.size = s.grapher.size → s'.grapher.handling = s.grapher.handling →
      s'.widget.last = s.widget.last → SizeStep s e s'
  | requested {size : Size} {s' : System Image} : size ≠ s.widget.last →
      s'.size = s.size.publish size → s'.grapher = s.grapher → s'.widget.last = size →
      SizeStep s (.draw size true) s'
  | relayed {s' : System Image} : s.size.relay = some s'.size → s'.grapher = s.grapher →
      s'.widget = s.widget → SizeStep s .relaySize s'
  | setWidth {payload : Size} {s' : System Image} :
      s.size.receive = some (payload, s'.size) →
      s'.grapher.size = ⟨payload.width, s.grapher.size.height⟩ →
      s'.grapher.handling = some payload → s'.widget = s.widget → SizeStep s .setWidth s'
  | setHeight {payload : Size} {s' : System Image} : s.grapher.handling = some payload →
      s'.size = s.size → s'.grapher.size = ⟨s.grapher.size.width, payload.height⟩ →
      s'.grapher.handling = none → s'.widget = s.widget → SizeStep s .setHeight s'
  | rebooted {kept : ℕ} {s' : System Image} : s'.size = s.size.lose kept →
      s'.grapher = s.grapher → SizeStep s (.reboot kept) s'
  | reconnected {kept : ℕ} {s' : System Image} : s'.size = s.size.lose kept →
      s'.grapher = s.grapher → SizeStep s (.reconnect kept) s'
  | restarted {kept : ℕ} {s' : System Image} : s'.size = s.size.subscribe →
      s'.grapher = .init → s'.widget = s.widget → SizeStep s (.restart kept) s'
  | disconnected {kept : ℕ} {s' : System Image} : s'.size = s.size.unsubscribe →
      s'.grapher = s.grapher → s'.widget = s.widget → SizeStep s (.disconnect kept) s'

inductive ImageStep (png : Png Data Image) (s : System Image) :
    Event Data → System Image → Prop where
  | still {e : Event Data} {s' : System Image} : s'.image = s.image →
      s'.widget.imageData = s.widget.imageData → ImageStep png s e s'
  | published {data : Data} {size : Size} {s' : System Image} :
      s.grapher.sending = .size size → s'.image = s.image.publish (png.savefig data size) →
      s'.widget = s.widget → ImageStep png s (.publish data) s'
  | relayed {s' : System Image} : s.image.relay = some s'.image → s'.widget = s.widget →
      ImageStep png s .relayImage s'
  | updated {payload : Image} {s' : System Image} :
      s.image.receive = some (payload, s'.image) →
      s'.widget = s.widget.updateImage png payload → ImageStep png s .updateImage s'
  | rebooted {kept : ℕ} {s' : System Image} : s'.image = s.image.subscribe →
      s'.widget = .init → ImageStep png s (.reboot kept) s'
  | reconnected {kept : ℕ} {s' : System Image} : s'.image = s.image.subscribe →
      s'.widget = s.widget → ImageStep png s (.reconnect kept) s'
  | restarted {kept : ℕ} {s' : System Image} : s'.image = s.image.lose kept →
      s'.widget = s.widget → ImageStep png s (.restart kept) s'
  | disconnected {kept : ℕ} {s' : System Image} : s'.image = s.image.lose kept →
      s'.widget = s.widget → ImageStep png s (.disconnect kept) s'

variable {png : Png Data Image} {s s' : System Image} {e : Event Data}

theorem updateImage_last (png : Png Data Image) (widget : Widget Image) (payload : Image) :
    (widget.updateImage png payload).last = widget.last := by
  rw [Widget.updateImage]
  split <;> rfl

theorem sizeStep (h : step png s e = some s') : SizeStep s e s' := by
  cases e with
  | draw size connected =>
    obtain rfl := Option.some.inj h
    rw [System.sendSizeRequest]
    split_ifs with hlast hconnected
    · exact .still rfl rfl rfl rfl
    · subst hconnected
      exact .requested hlast rfl rfl rfl
    · exact .still rfl rfl rfl rfl
  | relaySize =>
    obtain ⟨size, hrelay, rfl⟩ := Option.map_eq_some_iff.mp h
    exact .relayed hrelay rfl rfl
  | setWidth =>
    simp only [step] at h
    split at h
    · cases h
    · obtain ⟨⟨payload, size⟩, hreceive, rfl⟩ := Option.map_eq_some_iff.mp h
      exact .setWidth hreceive rfl rfl rfl
  | setHeight =>
    obtain ⟨payload, hhandling, rfl⟩ := Option.map_eq_some_iff.mp h
    exact .setHeight hhandling rfl rfl rfl rfl
  | readWidth =>
    simp only [step] at h
    split at h <;> cases h
    exact .still rfl rfl rfl rfl
  | readHeight =>
    simp only [step] at h
    split at h <;> cases h
    exact .still rfl rfl rfl rfl
  | publish data =>
    simp only [step] at h
    split at h <;> cases h
    exact .still rfl rfl rfl rfl
  | fail => cases h; exact .still rfl rfl rfl rfl
  | relayImage =>
    obtain ⟨image, -, rfl⟩ := Option.map_eq_some_iff.mp h
    exact .still rfl rfl rfl rfl
  | updateImage =>
    obtain ⟨received, -, rfl⟩ := Option.map_eq_some_iff.mp h
    exact .still rfl rfl rfl (updateImage_last png _ _)
  | reboot kept => cases h; exact .rebooted rfl rfl
  | reconnect kept => cases h; exact .reconnected rfl rfl
  | restart kept => cases h; exact .restarted rfl rfl rfl
  | disconnect kept => cases h; exact .disconnected rfl rfl rfl

theorem imageStep (h : step png s e = some s') : ImageStep png s e s' := by
  cases e with
  | draw size connected =>
    obtain rfl := Option.some.inj h
    rw [System.sendSizeRequest]
    split_ifs <;> exact .still rfl rfl
  | relaySize =>
    obtain ⟨size, -, rfl⟩ := Option.map_eq_some_iff.mp h
    exact .still rfl rfl
  | setWidth =>
    simp only [step] at h
    split at h
    · cases h
    · obtain ⟨received, -, rfl⟩ := Option.map_eq_some_iff.mp h
      exact .still rfl rfl
  | setHeight =>
    obtain ⟨payload, -, rfl⟩ := Option.map_eq_some_iff.mp h
    exact .still rfl rfl
  | readWidth =>
    simp only [step] at h
    split at h <;> cases h
    exact .still rfl rfl
  | readHeight =>
    simp only [step] at h
    split at h <;> cases h
    exact .still rfl rfl
  | publish data =>
    simp only [step] at h
    split at h <;> cases h
    exact .published ‹_› rfl rfl
  | fail => cases h; exact .still rfl rfl
  | relayImage =>
    obtain ⟨image, hrelay, rfl⟩ := Option.map_eq_some_iff.mp h
    exact .relayed hrelay rfl
  | updateImage =>
    obtain ⟨⟨payload, image⟩, hreceive, rfl⟩ := Option.map_eq_some_iff.mp h
    exact .updated hreceive rfl
  | reboot kept => cases h; exact .rebooted rfl rfl
  | reconnect kept => cases h; exact .reconnected rfl rfl
  | restart kept => cases h; exact .restarted rfl rfl
  | disconnect kept => cases h; exact .disconnected rfl rfl

theorem sending_cases (h : step png s e = some s') :
    s'.grapher.sending = s.grapher.sending ∨ s'.grapher.sending = .idle ∨
    s'.grapher.sending = .width s.grapher.size.width ∨
    ∃ width, s.grapher.sending = .width width ∧
      s'.grapher.sending = .size ⟨width, s.grapher.size.height⟩ := by
  cases e with
  | readWidth =>
    simp only [step] at h
    split at h <;> cases h
    exact .inr (.inr (.inl rfl))
  | readHeight =>
    simp only [step] at h
    split at h <;> cases h
    exact .inr (.inr (.inr ⟨_, ‹_›, rfl⟩))
  | publish data =>
    simp only [step] at h
    split at h <;> cases h
    exact .inr (.inl rfl)
  | fail => cases h; exact .inr (.inl rfl)
  | restart kept => cases h; exact .inr (.inl rfl)
  | draw size connected =>
    obtain rfl := Option.some.inj h
    rw [System.sendSizeRequest]
    split_ifs <;> exact .inl rfl
  | setWidth =>
    simp only [step] at h
    split at h
    · cases h
    · obtain ⟨received, -, rfl⟩ := Option.map_eq_some_iff.mp h
      exact .inl rfl
  | setHeight | relaySize | relayImage | updateImage =>
    obtain ⟨_, -, rfl⟩ := Option.map_eq_some_iff.mp h
    exact .inl rfl
  | reboot kept | reconnect kept | disconnect kept => cases h; exact .inl rfl

end Steps

def plain : Png Unit Size := ⟨fun _ size => size, some⟩

end Isz.MqttImage
