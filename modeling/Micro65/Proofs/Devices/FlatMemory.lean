import Micro65.Devices.Peripheral
import Micro65.Proofs.Assembly.Stores
import Micro65.Proofs.Cpu.Operand
import Micro65.Proofs.Devices.Block

set_option autoImplicit false

/-!
Memory that covers the whole address space. Bytes put at consecutive addresses are read back there,
also where the addresses wrap, and a board with nothing but such memory is not changed by reading.
-/

namespace Micro65

def Span.Full (span : Span) : Prop := span.first = 0x0000 ∧ span.last = 0xFFFF

namespace Block

theorem exists_get?_of_full {block : Block} (full : block.span.Full) (address : UInt16) :
    ∃ value, block.get? address = some value := by
  obtain ⟨first, last⟩ := full
  refine block.exists_get?_of_mem ?_ ?_
  · rw [first, UInt16.le_iff_toNat_le]
    exact Nat.zero_le _
  · rw [last, UInt16.le_iff_toNat_le]
    exact Nat.le_of_lt_succ address.toNat_lt

theorem get?_set {block : Block} (full : block.span.Full) (address other : UInt16) (data : UInt8) :
    (block.set address data).get? other =
      if other = address then some data else block.get? other := by
  obtain ⟨value, held⟩ := exists_get?_of_full full other
  rw [get?_set_of_some held, held]
  split <;> rfl

/-- Writes bytes to their addresses, one after the other. -/
def put (block : Block) (bytes : List (UInt16 × UInt8)) : Block :=
  bytes.foldl (fun block (address, byte) => block.set address byte) block

theorem get?_put_of_not_mem {block : Block} {bytes : List (UInt16 × UInt8)} {address : UInt16}
    (absent : address ∉ bytes.map (·.1)) : (block.put bytes).get? address = block.get? address := by
  induction bytes generalizing block with
  | nil => rfl
  | cons first rest inductionHypothesis =>
    rw [List.map_cons, List.mem_cons, not_or] at absent
    exact (inductionHypothesis absent.2).trans (get?_set_of_ne absent.1 block first.2)

end Block

/-- Bytes at consecutive addresses are there, if they are no more than there are addresses. -/
theorem Block.carries_put {block : Block} (full : block.span.Full) {bytes : List UInt8}
    {address : UInt16} (fits : bytes.length ≤ 0x10000) :
    Exec.Carries (fun other => ((block.put (addressed address bytes)).get? other).getD 0x00) address
      bytes := by
  induction bytes generalizing block address with
  | nil => trivial
  | cons byte rest inductionHypothesis =>
    have fullAfter : (block.set address byte).span.Full := by
      rw [span_set]
      exact full
    rw [addressed_cons]
    refine ⟨?_, inductionHypothesis fullAfter (Nat.le_of_succ_le fits)⟩
    -- The first address would come again only after all the others.
    have absent : address ∉ (addressed (address + 1) rest).map (·.1) := by
      intro member
      obtain ⟨position, inside, same⟩ := mem_addressed_iff.1 member
      rw [List.length_cons] at fits
      have numbers := congrArg UInt16.toNat same
      have bound := address.toNat_lt
      rw [UInt16.toNat_add, UInt16.toNat_add, UInt16.toNat_ofNat', UInt16.toNat_one] at numbers
      omega
    change (((block.set address byte).put (addressed (address + 1) rest)).get? address).getD 0x00 =
      byte
    rw [get?_put_of_not_mem absent, get?_set full, if_pos rfl]
    rfl

/-- A board with nothing but memory. -/
theorem Board.holds_of_memory {μ : Type} {board : Board Peripheral μ} {block : Block}
    (devices : board.bus.devices = [.ram block]) :
    board.Holds fun address => (block.get? address).getD 0x00 := by
  intro address
  obtain ⟨⟨devices', _, _, _, _⟩, _, _⟩ := board
  dsimp only at devices
  subst devices
  rfl

end Micro65
