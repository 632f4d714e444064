set_option autoImplicit false

/-!
What can be attached to the bus. Every access is shown to every device, so a device looks at the
address itself.
-/

namespace Micro65

class Device (δ : Type) where
  name : δ → String
  /-- A read changes a device that hands out what is waiting in it. There is no answer to a read of
  an address that the device does not claim. -/
  read : δ → UInt16 → Option UInt8 × δ
  /-- The bytes are those that the device transmits. -/
  write : δ → UInt16 → UInt8 → δ × List UInt8
  tick : δ → δ := id
  powerup : δ → δ := id
  /-- The device requests an interrupt. -/
  irq : δ → Bool := fun _ => false
  nmi : δ → Bool := fun _ => false

/-- Devices of two kinds on one bus. -/
instance {α β : Type} [Device α] [Device β] : Device (α ⊕ β) where
  name := Sum.elim Device.name Device.name
  read
    | .inl device, address =>
      let (answer, device) := Device.read device address
      (answer, .inl device)
    | .inr device, address =>
      let (answer, device) := Device.read device address
      (answer, .inr device)
  write
    | .inl device, address, data =>
      let (device, sent) := Device.write device address data
      (.inl device, sent)
    | .inr device, address, data =>
      let (device, sent) := Device.write device address data
      (.inr device, sent)
  tick := Sum.map Device.tick Device.tick
  powerup := Sum.map Device.powerup Device.powerup
  irq := Sum.elim Device.irq Device.irq
  nmi := Sum.elim Device.nmi Device.nmi

end Micro65
