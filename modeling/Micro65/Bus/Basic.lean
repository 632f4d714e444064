import Micro65.Bus.Device
import Micro65.Cpu.Registers

set_option autoImplicit false

/-!
The bus: devices and the interrupt lines. Of several devices that answer a read the one attached last
wins.
-/

namespace Micro65

structure Bus (δ : Type) where
  devices : List δ := []
  irqLine : Bool := false
  nmiLine : Bool := false
  resetLine : Bool := false
  /-- A write since the last tick is to halt the machine. -/
  haltRequested : Bool := false

namespace Bus

variable {δ : Type} [Device δ]

def attach (bus : Bus δ) (device : δ) : Bus δ := { bus with devices := bus.devices ++ [device] }

def irq (bus : Bus δ) : Bool := bus.irqLine || bus.devices.any Device.irq

def nmi (bus : Bus δ) : Bool := bus.nmiLine || bus.devices.any Device.nmi

/-- The last answer to a read, and the devices after it. -/
def readDevices (address : UInt16) : List δ → Option UInt8 × List δ
  | [] => (none, [])
  | device :: rest =>
    let (answer, device) := Device.read device address
    let (later, rest) := readDevices address rest
    (later <|> answer, device :: rest)

/-- Zero is read where no device answers. -/
def read (bus : Bus δ) (address : UInt16) : UInt8 × Bus δ :=
  let { devices, irqLine, nmiLine, resetLine, haltRequested } := bus
  let (answer, devices) := readDevices address devices
  (answer.getD 0x00, { devices, irqLine, nmiLine, resetLine, haltRequested })

/-- Low byte first. -/
def readWord (bus : Bus δ) (address : UInt16) : UInt16 × Bus δ :=
  let (low, bus) := bus.read address
  let (high, bus) := bus.read (address + 1)
  (wordOf low high, bus)

/-- Bytes at consecutive addresses, which wrap at the end of memory. -/
def readBytes (bus : Bus δ) (address : UInt16) : Nat → List UInt8 × Bus δ
  | 0 => ([], bus)
  | count + 1 =>
    let (value, bus) := bus.read address
    let (values, bus) := readBytes bus (address + 1) count
    (value :: values, bus)

/-- The devices after a write, and what they transmit. -/
def writeDevices (address : UInt16) (data : UInt8) : List δ → List δ × List UInt8
  | [] => ([], [])
  | device :: rest =>
    let (device, sent) := Device.write device address data
    let (rest, later) := writeDevices address data rest
    (device :: rest, sent ++ later)

def write (bus : Bus δ) (address : UInt16) (data : UInt8) : Bus δ × List UInt8 :=
  let { devices, irqLine, nmiLine, resetLine, haltRequested } := bus
  let (devices, sent) := writeDevices address data devices
  ({ devices, irqLine, nmiLine, resetLine, haltRequested }, sent)

/-- Ticks every device and forgets a requested halt. -/
def tick (bus : Bus δ) : Bus δ :=
  { bus with devices := bus.devices.map Device.tick, haltRequested := false }

def powerup (bus : Bus δ) : Bus δ := { bus with devices := bus.devices.map Device.powerup }

end Bus
end Micro65
