import Micro65.Bus.Basic
import Micro65.Devices.Peripheral
import Micro65.Machine.Config
import Micro65.Machine.Schedule.Reader

set_option autoImplicit false

/-!
Building the bus of a described machine. Devices are built in order, and the first failure ends the
building. Images come from wherever the caller reads them.
-/

namespace Micro65

/-- Why a machine cannot be set up. -/
inductive SetupError where
  | configOpen (path : String)
  | configParse (source : String)
  | imageOpen (path : String)
  | image (error : LoadError)
  | inverted (range : InvertedRange)
  deriving DecidableEq, Repr

namespace SetupError

/-- The kind of a failure, by a name that does not depend on its particulars. -/
def kind : SetupError → String
  | .configOpen .. => "ConfigOpen"
  | .configParse .. => "ConfigParse"
  | .imageOpen .. => "ImageOpen"
  | .image .. => "ImageTooLarge"
  | .inverted .. => "RangeInverted"

def message : SetupError → String
  | configOpen path => "Failed to open config: " ++ path
  | configParse source => "Failed to parse config: " ++ source
  | imageOpen path => "Failed to open image: " ++ path
  | image error => error.message
  | inverted range => range.message

end SetupError

/-- The name of a text that comes from no file. -/
def inlineSource : String := "<inline>"

def MachineConfig.parse (text : String) : Except SetupError MachineConfig :=
  (MachineConfig.read? text).elim (.error (.configParse inlineSource)) .ok

def Schedule.parse (text : String) : Except SetupError Schedule :=
  (Schedule.read? text).elim (.error (.configParse inlineSource)) .ok

variable {m : Type → Type} [Monad m]

/-- Reads an image, as bytes. -/
def openImage (readFile : String → m (Option ByteArray)) (path : String) :
    ExceptT SetupError m (List UInt8) := do
  match ← readFile path with
  | some content => return content.toList
  | none => throw (.imageOpen path)

namespace DeviceConfig

def span (first last : UInt16) : Except SetupError Span := (Span.make first last).mapError .inverted

/-- A device as it is when the machine is built. An image of a ROM's own goes before the common
image. -/
def build (readFile : String → m (Option ByteArray)) (image : Option (List UInt8)) :
    DeviceConfig → ExceptT SetupError m Peripheral
  | ram first last => do return .ram (.empty (← span first last))
  | rom first last path offset => do
    let block := Block.empty (← span first last)
    let data ← match path with
      | some path => some <$> openImage readFile path
      | none => pure image
    match data with
    | some data => return .rom (← (block.place data offset).mapError SetupError.image)
    | none => return .rom block
  | serial tx rx input => do
    return .serial { tx, rx, input := (input.getD "").toUTF8.toList }

end DeviceConfig

/-- The bus with all devices attached, in order. -/
def MachineConfig.build (readFile : String → m (Option ByteArray)) (image : Option (List UInt8))
    (config : MachineConfig) : ExceptT SetupError m (Bus Peripheral) :=
  config.devices.foldlM (fun bus device => do return bus.attach (← device.build readFile image)) {}

end Micro65
