import Micro65.Monitor.Console
import Micro65.Yaml.Document

set_option autoImplicit false

/-!
Descriptions of machines: the devices on the bus, and what the monitor halts on. What is not described
takes its default.
-/

namespace Micro65

inductive DeviceConfig where
  | ram (first last : UInt16)
  /-- Without an image of its own a ROM takes the image that the machine is built with. -/
  | rom (first last : UInt16) (image : Option String) (offset : Option Nat)
  /-- The input is what waits to be read. -/
  | serial (tx rx : UInt16) (input : Option String)
  deriving DecidableEq, Repr

structure MonitorConfig where
  flags : HaltFlags := {}
  breakpoints : List UInt16 := []
  busBreakpoints : List UInt16 := []
  watches : List UInt16 := []
  deriving DecidableEq, Repr

/-- Half of the address space is RAM, and the upper half is ROM. -/
def defaultDevices : List DeviceConfig := [.ram 0x0000 0x7FFF, .rom 0x8000 0xFFFF none none]

structure MachineConfig where
  devices : List DeviceConfig := defaultDevices
  monitor : MonitorConfig := {}
  deriving DecidableEq, Repr

def MonitorConfig.console (config : MonitorConfig) : Console where
  flags := config.flags
  breakpoints := config.breakpoints
  busBreakpoints := config.busBreakpoints
  watches := config.watches

open Yaml

namespace DeviceConfig

/-- Names of the fields of a kind of device, in order. -/
def fieldNames? : String → Option (List String)
  | "ram" => some ["from", "to"]
  | "rom" => some ["from", "to", "image", "offset"]
  | "serial" => some ["tx", "rx", "input"]
  | _ => none

/-- A field goes by its name or by its number. -/
def fieldName? (names : List String) (key : Node) : Option String :=
  match key.scalar? with
  | some (.text name) => some name
  | some (.natural number) => if number < UInt64.size then some (names.getD number "") else none
  | _ => none

/-- A number of 16 bits. Zero may have a minus sign. -/
def word? (node : Node) : Option UInt16 :=
  if node.scalar? = some (.negative 0) then some 0 else node.word?

def offset? (node : Node) : Option Nat :=
  if node.scalar? = some (.negative 0) then some 0 else node.natural?

def ofFields? (kind : String) (fields : List (String × Node)) : Option DeviceConfig :=
  match kind with
  | "ram" => do return .ram (← required? "from" fields word?) (← required? "to" fields word?)
  | "rom" => do
    let image ← optional? "image" fields none (nullable? Node.text?)
    let offset ← optional? "offset" fields none (nullable? offset?)
    return .rom (← required? "from" fields word?) (← required? "to" fields word?) image offset
  | "serial" => do
    let input ← optional? "input" fields none (nullable? Node.text?)
    return .serial (← required? "tx" fields word?) (← required? "rx" fields word?) input
  | _ => none

/-- A key that names the kind of the device. -/
def isType (key : Node) : Bool := key.scalar? == some (.text "type")

/-- A device is a mapping with its kind under `type`, or the sequence of its kind and its fields in
order. Unknown fields are ignored. -/
def ofNode? (node : Node) : Option DeviceConfig := do
  match node with
  | .mapping entries =>
    let ([(_, kind)], others) := entries.partition fun entry => isType entry.1 | none
    let kind ← kind.written?
    let names ← fieldNames? kind
    if !(Node.mapping others).fits 2 then none
    ofFields? kind (← others.mapM fun (key, value) => do return (← fieldName? names key, value))
  | .sequence (kind :: values) =>
    let kind ← kind.written?
    let names ← fieldNames? kind
    if !(Node.sequence values).fits 2 || names.length < values.length then none
    ofFields? kind (names.zip values)
  | _ => none

end DeviceConfig

namespace MonitorConfig

def flag? (name : String) (fields : List (String × Node)) : Option Bool :=
  optional? name fields false Node.bool?

def words? (name : String) (fields : List (String × Node)) : Option (List UInt16) :=
  optional? name fields [] fun node => do (← node.items?).mapM Node.word?

def listNames : List String := ["breakpoints", "bus_breakpoints", "watches"]

/-- Flags and lists of addresses stand side by side. Unknown fields are ignored. -/
def ofNode? (node : Node) : Option MonitorConfig := do
  let fields ← node.fields?
  if !(fields.filter (!listNames.contains ·.1)).all (·.2.fits 2) then none
  return {
    flags := {
      started := ← flag? "started" fields
      step := ← flag? "step" fields
      reset := ← flag? "reset" fields
      nmi := ← flag? "nmi" fields
      irq := ← flag? "irq" fields
      brk := ← flag? "brk" fields }
    breakpoints := ← words? "breakpoints" fields
    busBreakpoints := ← words? "bus_breakpoints" fields
    watches := ← words? "watches" fields }

end MonitorConfig

namespace MachineConfig

def ofNode? (node : Node) : Option MachineConfig := do
  let fields ← node.fields?
  return {
    devices := ← optional? "devices" fields defaultDevices fun node => do
      (← node.items?).mapM DeviceConfig.ofNode?
    monitor := ← optional? "debugger" fields {} MonitorConfig.ofNode? }

def read? (text : String) : Option MachineConfig := do ofNode? (← Yaml.read? text)

end MachineConfig
end Micro65
