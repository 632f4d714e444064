import Micro65.Bus.Basic
import Micro65.Devices.Peripheral
import Micro65.Proofs.Devices.Block

set_option autoImplicit false

/-!
Accesses to a bus. Every device is shown every access, so what accesses do to a bus they do to each
device on its own. Where memory is the last to claim an address, the bus reads there what was last
written there.
-/

namespace Micro65

/-! ### Devices -/

inductive Access where
  | read (address : UInt16)
  | write (address : UInt16) (data : UInt8)
  deriving DecidableEq, Repr

variable {δ : Type} [Device δ]

namespace Device

/-- What an access leaves of a device. -/
def after (device : δ) : Access → δ
  | .read address => (Device.read device address).2
  | .write address data => (Device.write device address data).1

/-- The device never answers a read of the address, whatever it has been shown before. -/
def Quiet (address : UInt16) (device : δ) : Prop :=
  ∀ accesses : List Access, (Device.read (accesses.foldl after device) address).1 = none

theorem Quiet.after {address : UInt16} {device : δ} (quiet : Quiet address device) (access : Access) :
    Quiet address (Device.after device access) :=
  fun accesses => quiet (access :: accesses)

end Device

namespace Bus

theorem readDevices_snd (address : UInt16) (devices : List δ) :
    (readDevices address devices).2 = devices.map (Device.after · (.read address)) := by
  induction devices with
  | nil => rfl
  | cons device rest inductionHypothesis =>
    rw [List.map_cons, ← inductionHypothesis]
    rfl

theorem writeDevices_fst (address : UInt16) (data : UInt8) (devices : List δ) :
    (writeDevices address data devices).1 = devices.map (Device.after · (.write address data)) := by
  induction devices with
  | nil => rfl
  | cons device rest inductionHypothesis =>
    rw [List.map_cons, ← inductionHypothesis]
    rfl

theorem writeDevices_snd (address : UInt16) (data : UInt8) (devices : List δ) :
    (writeDevices address data devices).2 =
      devices.flatMap fun device => (Device.write device address data).2 := by
  induction devices with
  | nil => rfl
  | cons device rest inductionHypothesis =>
    rw [List.flatMap_cons, ← inductionHypothesis]
    rfl

theorem readDevices_fst_cons (address : UInt16) (device : δ) (rest : List δ) :
    (readDevices address (device :: rest)).1 =
      ((readDevices address rest).1 <|> (Device.read device address).1) := rfl

theorem readDevices_of_quiet {address : UInt16} {devices : List δ}
    (quiet : ∀ device ∈ devices, Device.Quiet address device) :
    (readDevices address devices).1 = none := by
  induction devices with
  | nil => rfl
  | cons device rest inductionHypothesis =>
    rw [readDevices_fst_cons, inductionHypothesis fun device member =>
      quiet device (List.mem_cons_of_mem _ member)]
    exact quiet device List.mem_cons_self []

end Bus

/-! ### Memory on a bus -/

/-- A kind of device that is plain memory: it answers with its cells, and keeps what is written. -/
structure IsRam (ram : Block → δ) : Prop where
  read : ∀ block address, Device.read (ram block) address = (block.get? address, ram block)
  write : ∀ block address data,
    (Device.write (ram block) address data).1 = ram (block.set address data)

theorem Peripheral.isRam : IsRam Peripheral.ram := ⟨fun _ _ => rfl, fun _ _ _ => rfl⟩

/-- Memory holds a byte at an address, and no device that was attached later answers there. -/
inductive Serves (ram : Block → δ) (address : UInt16) (value : UInt8) : List δ → Prop where
  | here {block : Block} {later : List δ} (held : block.get? address = some value)
      (quiet : ∀ device ∈ later, Device.Quiet address device) : Serves ram address value (ram block :: later)
  | later {device : δ} {rest : List δ} (serves : Serves ram address value rest) :
      Serves ram address value (device :: rest)

namespace Serves

variable {ram : Block → δ} {address : UInt16} {value : UInt8} {devices : List δ}

theorem answer (isRam : IsRam ram) (serves : Serves ram address value devices) :
    (Bus.readDevices address devices).1 = some value := by
  induction serves with
  | here held quiet =>
    rw [Bus.readDevices_fst_cons, Bus.readDevices_of_quiet quiet, isRam.read, held]
    rfl
  | later serves inductionHypothesis =>
    rw [Bus.readDevices_fst_cons, inductionHypothesis]
    rfl

/-- Reads, at whatever address, leave every byte. -/
theorem after_read (isRam : IsRam ram) (serves : Serves ram address value devices) (other : UInt16) :
    Serves ram address value (devices.map (Device.after · (.read other))) := by
  induction serves with
  | @here block later held quiet =>
    have same : Device.after (ram block) (.read other) = ram block :=
      congrArg Prod.snd (isRam.read block other)
    rw [List.map_cons, same]
    refine .here held ?_
    rw [List.forall_mem_map]
    exact fun device member => (quiet device member).after _
  | later serves inductionHypothesis => exact .later inductionHypothesis

theorem after_write (isRam : IsRam ram) (serves : Serves ram address value devices)
    (written : UInt16) (data : UInt8) :
    Serves ram address (if address = written then data else value)
      (devices.map (Device.after · (.write written data))) := by
  induction serves with
  | @here block later held quiet =>
    have changed : Device.after (ram block) (.write written data) = ram (block.set written data) :=
      isRam.write block written data
    rw [List.map_cons, changed]
    refine .here (Block.get?_set_of_some held written data) ?_
    rw [List.forall_mem_map]
    exact fun device member => (quiet device member).after _
  | later serves inductionHypothesis => exact .later inductionHypothesis

end Serves

/-! ### Peripherals -/

namespace Serial

theorem read_fst (link : Serial) (address : UInt16) :
    (link.read address).1 = if address = link.rx then some (link.input.head?.getD nothing) else none := by
  unfold read
  split
  · cases link.input <;> rfl
  · rfl

theorem read_snd (link : Serial) (address : UInt16) :
    (link.read address).2 =
      { link with input := if address = link.rx then link.input.tail else link.input } := by
  obtain ⟨tx, rx, input, connected, sent⟩ := link
  unfold read
  dsimp only
  split
  · cases input <;> rfl
  · rfl

theorem read_eq_none_iff (link : Serial) (address : UInt16) :
    (link.read address).1 = none ↔ address ≠ link.rx := by
  rw [read_fst]
  split <;> simp_all

theorem rx_read (link : Serial) (address : UInt16) : (link.read address).2.rx = link.rx := by
  rw [read_snd]

theorem rx_write (link : Serial) (address : UInt16) (data : UInt8) :
    (link.write address data).1.rx = link.rx := by
  unfold write
  split <;> rfl

end Serial

namespace Peripheral

/-- No access makes a device answer where it did not answer before. -/
theorem read_after_eq_none {device : Peripheral} {address : UInt16}
    (unclaimed : (Device.read device address).1 = none) (access : Access) :
    (Device.read (Device.after device access) address).1 = none := by
  cases device with
  | ram block =>
    cases access with
    | read other => exact unclaimed
    | write other data =>
      change (block.set other data).get? address = none
      rw [Block.get?_eq_none_iff, Block.span_set]
      exact (Block.get?_eq_none_iff block address).1 unclaimed
  | rom block => cases access <;> exact unclaimed
  | serial link =>
    have other := (link.read_eq_none_iff address).1 unclaimed
    cases access with
    | read first =>
      refine ((link.read first).2.read_eq_none_iff address).2 ?_
      rw [Serial.rx_read]
      exact other
    | write first data =>
      refine ((link.write first data).1.read_eq_none_iff address).2 ?_
      rw [Serial.rx_write]
      exact other

/-- A device that does not claim an address stays quiet there. -/
theorem quiet_of_read {device : Peripheral} {address : UInt16}
    (unclaimed : (Device.read device address).1 = none) : Device.Quiet address device := by
  intro accesses
  induction accesses generalizing device with
  | nil => exact unclaimed
  | cons access rest inductionHypothesis =>
    exact inductionHypothesis (read_after_eq_none unclaimed access)

end Peripheral

end Micro65
