import Micro65.Bus.Board
import Micro65.Proofs.Bus.Accesses

set_option autoImplicit false

/-!
The bus as a flat memory whose addresses have owners. The owner of an address is the device attached
last of those that claim it. Every device is shown every cycle of the bus, owner or not, so what it
holds is a matter of its own kind and of the history of the bus, and not of the devices beside it.
-/

namespace Micro65

/-! ### Histories -/

/-- What can happen on a bus. -/
inductive Bus.Cycle where
  | access (access : Access)
  | tick
  deriving DecidableEq, Repr

namespace Bus.Cycle

variable {address : UInt16} {history later : List Cycle}

/-- The bytes written to an address, in order. -/
def written (address : UInt16) (history : List Cycle) : List UInt8 :=
  history.filterMap fun
    | .access (.write other data) => if address = other then some data else none
    | .access (.read _) | .tick => none

/-- How often an address has been read. -/
def reads (address : UInt16) (history : List Cycle) : Nat := history.count (.access (.read address))

theorem written_append :
    written address (history ++ later) = written address history ++ written address later :=
  List.filterMap_append

theorem reads_append : reads address (history ++ later) = reads address history + reads address later :=
  List.count_append

theorem written_write (other : UInt16) (data : UInt8) :
    written address [.access (.write other data)] = if address = other then [data] else [] := by
  split
  next same => simp [written, same]
  next different => simp [written, different]

theorem reads_read (other : UInt16) :
    reads address [.access (.read other)] = if address = other then 1 else 0 := by
  rw [reads, List.count_singleton]
  by_cases same : address = other
  · subst same
    simp
  · simp [same, Ne.symm same]

/-- A write leaves what has been written elsewhere. -/
theorem written_insert_write (history later : List Cycle) {other : UInt16} (different : address ≠ other)
    (data : UInt8) :
    written address (history ++ .access (.write other data) :: later) =
      written address (history ++ later) := by
  rw [List.append_cons, written_append, written_append, written_append, written_write,
    if_neg different, List.append_nil]

theorem reads_insert_write (history later : List Cycle) (other : UInt16) (data : UInt8) :
    reads address (history ++ .access (.write other data) :: later) = reads address (history ++ later) := by
  rw [List.append_cons, reads_append, reads_append, reads_append]
  rfl

end Bus.Cycle

open Bus.Cycle (written reads)

/-- What a cycle of the bus leaves of a device. -/
def Device.afterCycle {δ : Type} [Device δ] (device : δ) : Bus.Cycle → δ
  | .access access => Device.after device access
  | .tick => Device.tick device

namespace Board

variable {δ μ : Type} [Device δ] [Monitor μ]

def afterCycle (board : Board δ μ) : Bus.Cycle → Board δ μ
  | .access (.read address) => (board.read address).2
  | .access (.write address data) => board.write address data
  | .tick => { board with bus := board.bus.tick }

def afterAll (board : Board δ μ) (history : List Bus.Cycle) : Board δ μ := history.foldl afterCycle board

theorem afterAll_append (board : Board δ μ) (history later : List Bus.Cycle) :
    board.afterAll (history ++ later) = (board.afterAll history).afterAll later := List.foldl_append

theorem devices_afterCycle (board : Board δ μ) (cycle : Bus.Cycle) :
    (board.afterCycle cycle).bus.devices = board.bus.devices.map (Device.afterCycle · cycle) := by
  match cycle with
  | .access (.read address) => exact Bus.readDevices_snd address _
  | .access (.write address data) => exact Bus.writeDevices_fst address data _
  | .tick => rfl

theorem devices_afterAll (board : Board δ μ) (history : List Bus.Cycle) :
    (board.afterAll history).bus.devices = board.bus.devices.map (history.foldl Device.afterCycle) := by
  induction history generalizing board with
  | nil => exact (List.map_id _).symm
  | cons cycle rest inductionHypothesis =>
    change ((board.afterCycle cycle).afterAll rest).bus.devices = _
    rw [inductionHypothesis, devices_afterCycle, List.map_map]
    rfl

end Board

/-! ### Peripherals -/

/-- What a write makes a link transmit. -/
theorem Serial.write_eq (link : Serial) (address : UInt16) (data : UInt8) :
    link.write address data =
      let bytes := if link.connected then written link.tx [.access (.write address data)] else []
      ({ link with sent := bytes.reverse ++ link.sent }, bytes) := by
  rw [Bus.Cycle.written_write]
  obtain ⟨tx, rx, input, connected, sent⟩ := link
  unfold write
  dsimp only
  cases connected with
  | true =>
    by_cases same : address = tx
    · simp [same]
    · simp [same, Ne.symm same]
  | false => simp

namespace Peripheral

/-- Whether the device answers a read of the address. -/
def Claims (device : Peripheral) (address : UInt16) : Prop :=
  match device with
  | ram block | rom block => block.span.first ≤ address ∧ address ≤ block.span.last
  | serial link => address = link.rx

instance (device : Peripheral) (address : UInt16) : Decidable (device.Claims address) :=
  match device with
  | ram block | rom block =>
    inferInstanceAs (Decidable (block.span.first ≤ address ∧ address ≤ block.span.last))
  | serial link => inferInstanceAs (Decidable (address = link.rx))

/-- What a device holds at an address that it claims, after a history that found its memory cleared. -/
def holds (device : Peripheral) (history : List Bus.Cycle) (address : UInt16) : UInt8 :=
  match device with
  | ram _ => (written address history).getLast?.getD 0x00
  | rom block => (block.get? address).getD 0x00
  | serial link => link.input[reads address history]?.getD Serial.nothing

/-- What a read leaves of a device: a serial link loses the next byte. -/
def taken (address : UInt16) : Peripheral → Peripheral
  | ram block => ram block
  | rom block => rom block
  | serial link =>
    serial { link with input := if address = link.rx then link.input.tail else link.input }

/-- Bytes that a device has transmitted, in order. -/
def transmitted : Peripheral → List UInt8
  | serial link => link.transmitted
  | ram _ | rom _ => []

/-- Bytes that a device transmits in the course of a history. -/
def transmits (device : Peripheral) (history : List Bus.Cycle) : List UInt8 :=
  match device with
  | serial link => if link.connected then written link.tx history else []
  | ram _ | rom _ => []

theorem transmits_of_unwritten {history : List Bus.Cycle}
    (unwritten : ∀ address, written address history = []) (device : Peripheral) :
    device.transmits history = [] := by
  cases device with
  | ram block => rfl
  | rom block => rfl
  | serial link =>
    change (if link.connected then written link.tx history else []) = []
    rw [unwritten, ite_self]

theorem transmits_append (device : Peripheral) (history later : List Bus.Cycle) :
    device.transmits (history ++ later) = device.transmits history ++ device.transmits later := by
  cases device with
  | ram block => rfl
  | rom block => rfl
  | serial link =>
    unfold transmits
    dsimp only
    rw [Bus.Cycle.written_append]
    split <;> rfl

theorem write_snd (device : Peripheral) (address : UInt16) (data : UInt8) :
    (Device.write device address data).2 = device.transmits [.access (.write address data)] := by
  cases device with
  | ram block => rfl
  | rom block => rfl
  | serial link => exact congrArg Prod.snd (link.write_eq address data)

/-- What a device holds at an address is a matter of the cycles at that address. -/
theorem holds_congr {history other : List Bus.Cycle} {address : UInt16}
    (sameWritten : written address history = written address other)
    (sameReads : reads address history = reads address other) (device : Peripheral) :
    device.holds history address = device.holds other address := by
  unfold holds
  rw [sameWritten, sameReads]

theorem taken_eq (address : UInt16) (device : Peripheral) :
    Device.after device (.read address) = device.taken address := by
  cases device with
  | ram block => rfl
  | rom block => rfl
  | serial link => exact congrArg serial (link.read_snd address)

/-- What a device has become after a history of the bus. -/
inductive Follows (history : List Bus.Cycle) : Peripheral → Peripheral → Prop where
  | ram {before after : Block} (span : after.span = before.span)
      (cells : ∀ address value, before.get? address = some value →
        after.get? address = some ((written address history).getLast?.getD value)) :
      Follows history (.ram before) (.ram after)
  | rom {block : Block} : Follows history (.rom block) (.rom block)
  | serial {link : Serial} :
      Follows history (.serial link) (.serial
        { link with
          input := link.input.drop (reads link.rx history)
          sent := ((serial link).transmits history).reverse ++ link.sent })

namespace Follows

variable {history later : List Bus.Cycle} {before between after : Peripheral}

theorem nil (device : Peripheral) : Follows [] device device := by
  cases device with
  | ram block => exact .ram rfl fun _ _ held => held
  | rom block => exact .rom
  | serial link =>
    have unchanged : Follows [] (.serial link) _ := .serial
    rwa [transmits_of_unwritten fun _ => rfl] at unchanged

theorem append (first : Follows history before between) (second : Follows later between after) :
    Follows (history ++ later) before after := by
  cases first with
  | ram span cells =>
    cases second with
    | ram span' cells' =>
      refine .ram (span'.trans span) fun address value held => ?_
      rw [cells' address _ (cells address value held), Bus.Cycle.written_append, List.getLast?_append,
        Option.getD_or]
  | rom =>
    cases second
    exact .rom
  | @serial link =>
    cases second
    have both : Follows (history ++ later) (.serial link) _ := .serial
    rw [transmits_append, Bus.Cycle.reads_append, ← List.drop_drop, List.reverse_append,
      List.append_assoc] at both
    exact both

theorem cycle (device : Peripheral) (cycle : Bus.Cycle) :
    Follows [cycle] device (Device.afterCycle device cycle) := by
  cases device with
  | ram block =>
    match cycle with
    | .access (.read _) | .tick => exact .ram rfl fun _ _ held => held
    | .access (.write other data) =>
      refine .ram (block.span_set other data) fun address value held => ?_
      rw [Block.get?_set_of_some held, Bus.Cycle.written_write]
      split <;> rfl
  | rom block =>
    match cycle with
    | .access (.read _) | .access (.write _ _) | .tick => exact .rom
  | serial link =>
    -- The link as it is to be after the cycle, which each kind of cycle makes of it.
    have expected : Follows [cycle] (.serial link) _ := .serial
    match cycle with
    | .access (.read other) =>
      change Follows _ _ (.serial (link.read other).2)
      rw [transmits_of_unwritten fun _ => rfl, Bus.Cycle.reads_read] at expected
      rw [Serial.read_snd]
      by_cases same : link.rx = other
      · rw [if_pos same, List.drop_one] at expected
        rw [if_pos same.symm]
        exact expected
      · rw [if_neg same] at expected
        rw [if_neg (Ne.symm same)]
        exact expected
    | .access (.write other data) =>
      change Follows _ _ (.serial (link.write other data).1)
      rw [Serial.write_eq]
      exact expected
    | .tick =>
      rw [transmits_of_unwritten fun _ => rfl] at expected
      exact expected

theorem run (device : Peripheral) (history : List Bus.Cycle) :
    Follows history device (history.foldl Device.afterCycle device) := by
  induction history generalizing device with
  | nil => exact .nil device
  | cons cycle rest inductionHypothesis =>
    exact (Follows.cycle device cycle).append (inductionHypothesis _)

theorem transmitted_eq (follows : Follows history before after) :
    after.transmitted = before.transmitted ++ before.transmits history := by
  cases follows with
  | ram span cells => rfl
  | rom => rfl
  | serial =>
    exact List.reverse_append.trans (congrArg _ (List.reverse_reverse _))

theorem transmits_eq (follows : Follows history before after) (later : List Bus.Cycle) :
    after.transmits later = before.transmits later := by
  cases follows <;> rfl

theorem read_eq (follows : Follows history before after)
    (fresh : ∀ block, before = .ram block → block = .empty block.span) (address : UInt16) :
    (Device.read after address).1 =
      if before.Claims address then some (before.holds history address) else none := by
  cases follows with
  | @ram before after span cells =>
    have cleared := fresh before rfl
    change after.get? address = _
    split
    next inside =>
      obtain ⟨value, held⟩ := before.exists_get?_of_mem inside.1 inside.2
      have zero : value = 0x00 := Block.eq_zero_of_get?_empty (cleared ▸ held)
      rw [cells address value held, zero]
      rfl
    next outside =>
      refine Block.get?_eq_none_of_outside ?_
      rw [span]
      exact outside
  | @rom block =>
    change block.get? address = _
    split
    next inside =>
      obtain ⟨value, held⟩ := block.exists_get?_of_mem inside.1 inside.2
      change _ = some ((block.get? address).getD 0x00)
      rw [held]
      rfl
    next outside => exact Block.get?_eq_none_of_outside outside
  | @serial link =>
    change (Serial.read _ address).1 = _
    rw [Serial.read_fst]
    change (if address = link.rx then _ else none) = if address = link.rx then _ else none
    split
    next same =>
      rw [List.head?_drop, same]
      rfl
    next => rfl

end Follows

/-- The device that answers for an address: of those that claim it, the one attached last. -/
def owner? (devices : List Peripheral) (address : UInt16) : Option Peripheral :=
  devices.reverse.find? (·.Claims address)

theorem owner?_cons (device : Peripheral) (rest : List Peripheral) (address : UInt16) :
    owner? (device :: rest) address =
      (owner? rest address <|> if device.Claims address then some device else none) := by
  unfold owner?
  rw [List.reverse_cons, List.find?_append, List.find?_singleton]
  simp

end Peripheral

/-! ### The bus -/

/-- If every device answers where it claims the address, the owner's answer is the one that counts. -/
theorem Bus.readDevices_eq_owner {address : UInt16} {devices : List Peripheral}
    {run : Peripheral → Peripheral} {held : Peripheral → UInt8}
    (each : ∀ device ∈ devices,
      (Device.read (run device) address).1 = if device.Claims address then some (held device) else none) :
    (readDevices address (devices.map run)).1 = (Peripheral.owner? devices address).map held := by
  induction devices with
  | nil => rfl
  | cons device rest inductionHypothesis =>
    rw [List.map_cons, readDevices_fst_cons, each device List.mem_cons_self, Peripheral.owner?_cons,
      inductionHypothesis fun device member => each device (List.mem_cons_of_mem _ member)]
    split
    · cases Peripheral.owner? rest address <;> rfl
    · cases Peripheral.owner? rest address <;> rfl

namespace Board

variable {μ : Type}

/-- What each of the devices would answer to a read. -/
def answers (board : Board Peripheral μ) (address : UInt16) : List (Option UInt8) :=
  board.bus.devices.map fun device => (Device.read device address).1

/-- Memory that has not been written holds zeros. -/
def Fresh (board : Board Peripheral μ) : Prop :=
  ∀ block, Peripheral.ram block ∈ board.bus.devices → block = .empty block.span

theorem read_snd (board : Board Peripheral μ) (address : UInt16) :
    (board.read address).2 =
      { board with
        bus := { board.bus with devices := board.bus.devices.map (Peripheral.taken address) } } := by
  have taken := Bus.readDevices_snd address board.bus.devices
  simp only [Peripheral.taken_eq] at taken
  rw [← taken]
  rfl

variable {board : Board Peripheral μ}

theorem Fresh.read_eq (fresh : board.Fresh) (history : List Bus.Cycle) (address : UInt16)
    (device : Peripheral) (member : device ∈ board.bus.devices) :
    (Device.read (history.foldl Device.afterCycle device) address).1 =
      if device.Claims address then some (device.holds history address) else none :=
  (Peripheral.Follows.run device history).read_eq (fun block same => fresh block (same ▸ member)) address

variable [Monitor μ]

theorem Fresh.answers_eq (fresh : board.Fresh) (history : List Bus.Cycle) (address : UInt16) :
    (board.afterAll history).answers address =
      board.bus.devices.map fun device =>
        if device.Claims address then some (device.holds history address) else none := by
  rw [answers, devices_afterAll, List.map_map]
  exact List.map_congr_left (fresh.read_eq history address)

theorem Fresh.read_afterAll (fresh : board.Fresh) (history : List Bus.Cycle) (address : UInt16) :
    ((board.afterAll history).read address).1 =
      ((Peripheral.owner? board.bus.devices address).map (·.holds history address)).getD 0x00 := by
  rw [← Bus.readDevices_eq_owner (fresh.read_eq history address), ← devices_afterAll]
  rfl

theorem transmitted_afterAll (board : Board Peripheral μ) (history : List Bus.Cycle) :
    (board.afterAll history).bus.devices.map Peripheral.transmitted =
      board.bus.devices.map fun device => device.transmitted ++ device.transmits history := by
  rw [devices_afterAll, List.map_map]
  exact List.map_congr_left fun device _ => (Peripheral.Follows.run device history).transmitted_eq

theorem write_afterAll (board : Board Peripheral μ) (history : List Bus.Cycle) (address : UInt16)
    (data : UInt8) :
    ((board.afterAll history).bus.write address data).2 =
      board.bus.devices.flatMap (·.transmits [.access (.write address data)]) := by
  change (Bus.writeDevices address data (board.afterAll history).bus.devices).2 = _
  rw [Bus.writeDevices_snd, devices_afterAll, List.flatMap_map]
  congr 1
  funext device
  exact (Peripheral.write_snd _ address data).trans
    ((Peripheral.Follows.run device history).transmits_eq _)

/-- The bus is a flat memory whose addresses have owners. After whatever has happened, a read is answered
with what the owner of the address holds, and with zero where there is none. It takes a byte from
each link that receives there and changes nothing else; a write is seen at no other address,
neither by the bus nor by a device that is hidden behind another; and each link that is
connected transmits what is written to its address, each byte once and in order. -/
theorem refines_owned_memory (fresh : board.Fresh) (history : List Bus.Cycle) (address : UInt16) :
    ((board.afterAll history).read address).1 =
      ((Peripheral.owner? board.bus.devices address).map (·.holds history address)).getD 0x00 ∧
    ((board.afterAll history).read address).2 =
      { board.afterAll history with
        bus := { (board.afterAll history).bus with
          devices := (board.afterAll history).bus.devices.map (Peripheral.taken address) } } ∧
    (∀ data later other, other ≠ address →
      ((((board.afterAll history).write address data).afterAll later).read other).1 =
        (((board.afterAll history).afterAll later).read other).1 ∧
      (((board.afterAll history).write address data).afterAll later).answers other =
        ((board.afterAll history).afterAll later).answers other) ∧
    (board.afterAll history).bus.devices.map Peripheral.transmitted =
      board.bus.devices.map (fun device => device.transmitted ++ device.transmits history) ∧
    ∀ data, ((board.afterAll history).bus.write address data).2 =
      board.bus.devices.flatMap (·.transmits [.access (.write address data)]) := by
  refine ⟨fresh.read_afterAll history address, read_snd _ address, ?_, transmitted_afterAll board history,
    write_afterAll board history address⟩
  intro data later other different
  have longer : ((board.afterAll history).write address data).afterAll later =
      board.afterAll (history ++ .access (.write address data) :: later) := by
    rw [afterAll_append]
    rfl
  have same := Peripheral.holds_congr (Bus.Cycle.written_insert_write history later different data)
    (Bus.Cycle.reads_insert_write history later _ data)
  rw [longer, ← afterAll_append]
  constructor
  · rw [fresh.read_afterAll, fresh.read_afterAll]
    simp only [same]
  · rw [fresh.answers_eq, fresh.answers_eq]
    simp only [same]

/-- A memory of two cells, the first of them behind a link and the second behind a read-only cell. The
link gives its one byte away, and what is written to the read-only cell is transmitted. -/
theorem refines_owned_memory_hidden :
    let board : Board Peripheral Silent :=
      { bus := { devices :=
          [.ram (.empty ⟨0x0000, 0x0001, by decide⟩), .rom ⟨⟨0x0001, 0x0001, by decide⟩, #v[0xEA]⟩,
            .serial { tx := 0x0001, rx := 0x0000, input := [0x41] }] }
        monitor := .silent }
    let history : List Bus.Cycle :=
      [.access (.write 0x0001 0x48), .access (.read 0x0000), .tick, .access (.write 0x0001 0x49)]
    board.Fresh ∧ ((board.afterAll history).read 0x0000).1 = 0xFF ∧
      ((board.afterAll history).read 0x0001).1 = 0xEA ∧
      (board.afterAll history).bus.devices.map Peripheral.transmitted = [[], [], [0x48, 0x49]] := by
  intro board history
  have fresh : board.Fresh := by
    rintro block (_ | ⟨_, _ | ⟨_, _ | ⟨_, ⟨⟩⟩⟩⟩)
    rfl
  obtain ⟨received, _, _, transmitted, _⟩ := refines_owned_memory fresh history 0x0000
  obtain ⟨fixed, _⟩ := refines_owned_memory fresh history 0x0001
  refine ⟨fresh, received.trans ?_, fixed.trans ?_, transmitted.trans ?_⟩
  all_goals decide +kernel

end Board
end Micro65
