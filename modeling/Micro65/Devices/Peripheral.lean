import Micro65.Bus.Device
import Micro65.Devices.Block
import Micro65.Devices.Serial

set_option autoImplicit false

/-!
The devices that a machine can be described with. Memory keeps its contents when the machine comes up
again.
-/

namespace Micro65

inductive Peripheral where
  | ram (block : Block)
  | rom (block : Block)
  | serial (link : Serial)

namespace Peripheral

def name : Peripheral → String
  | ram block => "RAM " ++ block.span.text
  | rom block => "ROM " ++ block.span.text
  | serial link => "Serial TX=$" ++ Text.hexWord link.tx ++ " RX=$" ++ Text.hexWord link.rx

def read (device : Peripheral) (address : UInt16) : Option UInt8 × Peripheral :=
  match device with
  | ram block => (block.get? address, ram block)
  | rom block => (block.get? address, rom block)
  | serial link =>
    let (answer, link) := link.read address
    (answer, serial link)

/-- A ROM ignores what is written to it. -/
def write (device : Peripheral) (address : UInt16) (data : UInt8) : Peripheral × List UInt8 :=
  match device with
  | ram block => (ram (block.set address data), [])
  | rom block => (rom block, [])
  | serial link =>
    let (link, sent) := link.write address data
    (serial link, sent)

instance : Device Peripheral where
  name := name
  read := read
  write := write

end Peripheral
end Micro65
