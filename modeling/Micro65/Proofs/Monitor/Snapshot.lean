import Micro65.Cpu.Clock
import Micro65.Monitor.Console
import Micro65.Monitor.Trace
import Micro65.Proofs.Cpu.Masking

set_option autoImplicit false

/-!
Snapshots of the registers. A report of the status overwrites all that a snapshot says of the registers,
whatever it said before; and from a snapshot that shows the registers they can be read back, but for the
bit of the status byte that has no name.
-/

namespace Micro65

/-! ### Flags as bits -/

namespace Flag

theorem name_inj {flag other : Flag} : flag.name = other.name ↔ flag = other := by
  cases flag <;> cases other <;> decide

/-- The position of a flag in the status byte. -/
def bit : Flag → Nat
  | carry => 0
  | zero => 1
  | irqDisable => 2
  | decimal => 3
  | brk => 4
  | overflow => 6
  | negative => 7

theorem toBitVec_mask (flag : Flag) : flag.mask.toBitVec = BitVec.twoPow 8 flag.bit := by
  cases flag <;> rfl

/-- Every position but one has a flag. -/
theorem exists_bit : ∀ position < 8, position ≠ 5 → ∃ flag ∈ all, flag.bit = position := by
  decide

end Flag

namespace Status

theorem has_eq_getLsbD (status : Status) (flag : Flag) :
    status.has flag = status.byte.toBitVec.getLsbD flag.bit := by
  have nonzero : BitVec.twoPow 8 flag.bit ≠ 0#8 := by cases flag <;> decide
  have same : status.has flag = (status.byte.toBitVec &&& BitVec.twoPow 8 flag.bit != 0#8) := by
    rw [← Flag.toBitVec_mask, ← UInt8.toBitVec_and, Bool.eq_iff_iff, bne_iff_ne, has, bne_iff_ne,
      Ne, Ne, ← UInt8.toBitVec_inj]
    rfl
  rw [same, BitVec.and_twoPow]
  cases status.byte.toBitVec.getLsbD flag.bit <;> simp [nonzero]

/-- A status is its flags, and the bit that is none. -/
theorem ext_of_has {status other : Status} (flags : ∀ flag, status.has flag = other.has flag)
    (rest : status.byte.toBitVec.getLsbD 5 = other.byte.toBitVec.getLsbD 5) : status = other := by
  obtain ⟨byte⟩ := status
  obtain ⟨byte'⟩ := other
  rw [mk.injEq, ← UInt8.toBitVec_inj]
  refine BitVec.eq_of_getLsbD_eq fun position inside => ?_
  by_cases unnamed : position = 5
  · rw [unnamed]
    exact rest
  · obtain ⟨flag, -, rfl⟩ := Flag.exists_bit position inside unnamed
    simpa only [has_eq_getLsbD] using flags flag

/-- The bit that is no flag stays as it is. -/
theorem getLsbD_set (status : Status) (flag : Flag) (on : Bool) :
    (status.set flag on).byte.toBitVec.getLsbD 5 = status.byte.toBitVec.getLsbD 5 := by
  have unnamed : flag.mask.toBitVec.getLsbD 5 = false := by cases flag <;> rfl
  cases on with
  | false =>
    change (status.byte &&& ~~~flag.mask).toBitVec.getLsbD 5 = _
    rw [UInt8.toBitVec_and, BitVec.getLsbD_and, UInt8.toBitVec_not, BitVec.getLsbD_not, unnamed]
    exact Bool.and_true _
  | true =>
    change (status.byte ||| flag.mask).toBitVec.getLsbD 5 = _
    rw [UInt8.toBitVec_or, BitVec.getLsbD_or, unnamed, Bool.or_false]

theorem has_foldl_set (flags : List Flag) (value : Flag → Bool) (status : Status) (flag : Flag) :
    (flags.foldl (fun status flag => status.set flag (value flag)) status).has flag =
      if flag ∈ flags then value flag else status.has flag := by
  induction flags generalizing status with
  | nil => rfl
  | cons first rest inductionHypothesis =>
    rw [List.foldl_cons, inductionHypothesis]
    by_cases later : flag ∈ rest
    · rw [if_pos later, if_pos (List.mem_cons_of_mem _ later)]
    · by_cases same : flag = first
      · rw [if_neg later, same, has_set_self, if_pos List.mem_cons_self]
      · rw [if_neg later, has_set_of_ne _ (Ne.symm same), if_neg (by simp [same, later])]

end Status

/-! ### What a snapshot shows -/

namespace Snapshot

/-- The snapshot has exactly these registers and flags. -/
structure Shows (snapshot : Snapshot) (regs : Registers) : Prop where
  pc : snapshot.pc = regs.pc
  a : snapshot.a = regs.a
  x : snapshot.x = regs.x
  y : snapshot.y = regs.y
  s : snapshot.s = regs.s
  flag : ∀ flag : Flag, snapshot.flags.lookup flag.name = some (regs.p.has flag)

theorem lookup_setFlag_self (name : String) (on : Bool) (entries : List (String × Bool)) :
    (setFlag name on entries).lookup name = some on := by
  induction entries with
  | nil => exact List.lookup_cons_self
  | cons entry rest inductionHypothesis =>
    rw [setFlag]
    split
    · exact List.lookup_cons_self
    next different =>
      rw [List.lookup_cons, show (name == entry.1) = false from beq_false_of_ne (Ne.symm different)]
      exact inductionHypothesis

theorem lookup_setFlag_of_ne {name other : String} (different : name ≠ other) (on : Bool)
    (entries : List (String × Bool)) :
    (setFlag other on entries).lookup name = entries.lookup name := by
  induction entries with
  | nil => rw [setFlag, List.lookup_cons, show (name == other) = false from beq_false_of_ne different]
  | cons entry rest inductionHypothesis =>
    rw [setFlag]
    split
    next same =>
      rw [List.lookup_cons, List.lookup_cons, same]
      rw [show (name == other) = false from beq_false_of_ne different]
    next => rw [List.lookup_cons, List.lookup_cons, inductionHypothesis]

/-- Of flags that are reported one after the other each is found as it was. -/
theorem lookup_record_flags (status : Status) (flags : List Flag) (snapshot : Snapshot) (flag : Flag) :
    ((flags.map fun flag => Report.flag flag.name (status.has flag)).foldl record snapshot).flags.lookup
      flag.name = if flag ∈ flags then some (status.has flag) else snapshot.flags.lookup flag.name := by
  induction flags generalizing snapshot with
  | nil => rfl
  | cons first rest inductionHypothesis =>
    rw [List.map_cons, List.foldl_cons, inductionHypothesis]
    by_cases later : flag ∈ rest
    · rw [if_pos later, if_pos (List.mem_cons_of_mem _ later)]
    rw [if_neg later]
    change (setFlag first.name (status.has first) snapshot.flags).lookup flag.name = _
    by_cases same : flag = first
    · rw [same, lookup_setFlag_self, if_pos List.mem_cons_self]
    · have different : flag.name ≠ first.name := fun names => same (Flag.name_inj.1 names)
      rw [lookup_setFlag_of_ne different, if_neg (by simp [same, later])]

theorem shows_record_statusReports {δ : Type} [Device δ] (snapshot : Snapshot) (regs : Registers)
    (bus : Bus δ) : ((statusReports regs bus).foldl record snapshot).Shows regs := by
  refine ⟨rfl, rfl, rfl, rfl, rfl, fun flag => ?_⟩
  have found := lookup_record_flags regs.p Flag.all
    { snapshot with pc := regs.pc, y := regs.y, x := regs.x, s := regs.s, a := regs.a } flag
  rw [if_pos flag.mem_all] at found
  exact found

theorem Shows.flag_eq {snapshot : Snapshot} {regs : Registers} (shown : snapshot.Shows regs)
    (flag : Flag) : snapshot.flag flag.name = regs.p.has flag := by
  rw [Snapshot.flag, shown.flag]
  rfl

/-- What is read back from a snapshot lacks the bit that has no name. -/
theorem Shows.registers_eq {snapshot : Snapshot} {regs : Registers} (shown : snapshot.Shows regs) :
    snapshot.registers = { regs with p := ⟨regs.p.byte &&& ~~~0x20⟩ } := by
  have status : Flag.all.foldl (fun status flag => status.set flag (snapshot.flag flag.name)) {} =
      (⟨regs.p.byte &&& ~~~0x20⟩ : Status) := by
    refine Status.ext_of_has (fun flag => ?_) ?_
    · have kept : ~~~0x20 &&& flag.mask = flag.mask := by cases flag <;> rfl
      rw [Status.has_foldl_set, if_pos flag.mem_all, shown.flag_eq, Status.has, Status.has,
        UInt8.and_assoc, kept]
    · simp only [Flag.all, List.foldl, Status.getLsbD_set]
      rw [UInt8.toBitVec_and, BitVec.getLsbD_and]
      exact (Bool.and_false _).symm
  rw [registers, shown.pc, shown.a, shown.x, shown.y, shown.s, status]

end Snapshot
end Micro65
