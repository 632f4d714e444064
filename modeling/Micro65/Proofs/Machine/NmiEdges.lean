import Micro65.Devices.Peripheral
import Micro65.Machine.Basic
import Micro65.Monitor.Console
import Micro65.Proofs.Cpu.Ticks

set_option autoImplicit false

/-!
NMIs need edges. The processor remembers the level of the line from one instruction boundary to the next,
and starts an NMI only where it was low and is high. The line itself may move at any tick; so an NMI may
be missed, but none comes without an edge of its own, and none comes before the processor has seen the
line low again.
-/

namespace Micro65

/-- How often a line goes up, whose level was `before`. -/
def rises : Bool → List Bool → Nat
  | _, [] => 0
  | before, level :: rest => (!before && level).toNat + rises level rest

/-- One tick as far as NMIs go: the line as the processor finds it, and what the tick starts. -/
structure Sample where
  nmi : Bool
  starts : Option Sequence
  deriving DecidableEq, Repr

namespace Machine

variable {δ μ : Type} [Device δ] [Monitor μ]

def sample (machine : Machine δ μ) : Sample :=
  let { cpu, board } := machine.mapBus Bus.tick
  ⟨board.bus.nmi, cpu.starts board⟩

/-- The samples of a run. Before each tick the lines, the devices, the monitor and the terminal change
in any way at all. -/
def samples (machine : Machine δ μ) : List (Board δ μ → Board δ μ) → List Sample
  | [] => []
  | change :: rest =>
    let machine := { machine with board := change machine.board }
    machine.sample :: samples machine.tick.2 rest

/-- A tick that starts something takes the line for the latch, and an NMI only if that goes up. -/
theorem tick_latch (machine : Machine δ μ) :
    (machine.sample.starts = none ∧ machine.tick.2.cpu.lastNmi = machine.cpu.lastNmi) ∨
      (machine.sample.starts.isSome = true ∧ machine.tick.2.cpu.lastNmi = machine.sample.nmi ∧
        (machine.sample.starts = some .nmi →
          machine.sample.nmi = true ∧ machine.cpu.lastNmi = false)) := by
  have ticked := machine.cpu.ticked (machine.mapBus Bus.tick).board
  change ((machine.cpu.starts (machine.mapBus Bus.tick).board) = none ∧
      (machine.cpu.tick (machine.mapBus Bus.tick).board).2.1.lastNmi = machine.cpu.lastNmi) ∨
    ((machine.cpu.starts (machine.mapBus Bus.tick).board).isSome = true ∧
      (machine.cpu.tick (machine.mapBus Bus.tick).board).2.1.lastNmi =
        (machine.mapBus Bus.tick).board.bus.nmi ∧
      (machine.cpu.starts (machine.mapBus Bus.tick).board = some .nmi →
        (machine.mapBus Bus.tick).board.bus.nmi = true ∧ machine.cpu.lastNmi = false))
  generalize (machine.mapBus Bus.tick).board = board at ticked
  generalize machine.cpu.starts board = starts, machine.cpu.tick board = after at ticked
  cases ticked with
  | counted busy => exact .inl ⟨rfl, rfl⟩
  | refused idle halts => exact .inl ⟨rfl, rfl⟩
  | started idle passes run =>
    refine .inr ⟨rfl, rfl, fun nmi => ?_⟩
    have edge := Exec.nmiEdge_of_start ((congrArg (·.1.1) run).trans (Option.some.inj nmi))
    rwa [Bool.and_eq_true, Bool.not_eq_true'] at edge

/-- The invariant along a run: NMIs are not more than edges, but for one if the line has gone up since
the processor last looked. -/
theorem count_nmi_le (machine : Machine δ μ) (before : Bool)
    (changes : List (Board δ μ → Board δ μ)) :
    ((machine.samples changes).map Sample.starts).count (some .nmi) ≤
      (before && !machine.cpu.lastNmi).toNat +
        rises before ((machine.samples changes).map Sample.nmi) := by
  induction changes generalizing machine before with
  | nil => exact Nat.zero_le _
  | cons change rest inductionHypothesis =>
    let found := { machine with board := change machine.board }
    have later := inductionHypothesis found.tick.2 found.sample.nmi
    change ((found.sample.starts :: (found.tick.2.samples rest).map Sample.starts).count (some .nmi)) ≤
      (before && !found.cpu.lastNmi).toNat +
        ((!before && found.sample.nmi).toNat +
          rises found.sample.nmi ((found.tick.2.samples rest).map Sample.nmi))
    obtain ⟨starts, latch⟩ | ⟨-, latch, edge⟩ := found.tick_latch
    · -- The latch stays, and an edge that it has not seen may come with this tick.
      rw [starts, List.count_cons_of_ne (by decide)]
      rw [latch] at later
      have seen : (found.sample.nmi && !found.cpu.lastNmi).toNat ≤
          (before && !found.cpu.lastNmi).toNat + (!before && found.sample.nmi).toNat := by
        cases before <;> cases found.sample.nmi <;> cases found.cpu.lastNmi <;> decide
      omega
    · rw [latch, Bool.and_not_self, Bool.toNat_false, Nat.zero_add] at later
      by_cases nmi : found.sample.starts = some .nmi
      · -- The NMI takes up the edge of this tick, or one that the latch has not seen.
        obtain ⟨high, low⟩ := edge nmi
        rw [nmi, List.count_cons_self, low, high]
        rw [high] at later
        have edges : (before && !false).toNat + (!before && true).toNat = 1 := by
          cases before <;> rfl
        omega
      · rw [List.count_cons_of_ne nmi]
        omega

/-- A run of fewer ticks has the first samples of a longer one. -/
theorem take_samples (machine : Machine δ μ) (changes : List (Board δ μ → Board δ μ)) (count : Nat) :
    (machine.samples changes).take count = machine.samples (changes.take count) := by
  induction count generalizing machine changes with
  | zero => rfl
  | succ count inductionHypothesis =>
    cases changes with
    | nil => rfl
    | cons change rest => exact congrArg (_ :: ·) (inductionHypothesis _ rest)

/-- What follows on a tick are the samples from where it leads. -/
theorem samples_after {machine : Machine δ μ} {changes : List (Board δ μ → Board δ μ)}
    {before after : List Sample} {sample : Sample}
    (run : machine.samples changes = before ++ sample :: after) :
    ∃ (found : Machine δ μ) (rest : List (Board δ μ → Board δ μ)),
      found.sample = sample ∧ found.tick.2.samples rest = after := by
  induction changes generalizing machine before with
  | nil =>
    rw [samples, List.nil_eq_append_iff] at run
    exact absurd run.2 (List.cons_ne_nil _ _)
  | cons change rest inductionHypothesis =>
    rw [samples] at run
    cases before with
    | nil =>
      obtain ⟨same, tail⟩ := List.cons.inj run
      exact ⟨_, rest, same, tail⟩
    | cons first before => exact inductionHypothesis (List.cons.inj run).2

/-- While the latch is high no NMI comes: the processor has to see the line low first. -/
theorem low_before_nmi {machine : Machine δ μ} (latched : machine.cpu.lastNmi = true)
    {changes : List (Board δ μ → Board δ μ)} {before after : List Sample} {sample : Sample}
    (nmi : sample.starts = some .nmi) (run : machine.samples changes = before ++ sample :: after) :
    ∃ boundary ∈ before, boundary.starts.isSome = true ∧ boundary.nmi = false := by
  induction changes generalizing machine before with
  | nil =>
    rw [samples, List.nil_eq_append_iff] at run
    exact absurd run.2 (List.cons_ne_nil _ _)
  | cons change rest inductionHypothesis =>
    let found := { machine with board := change machine.board }
    change found.sample :: found.tick.2.samples rest = _ at run
    have high : found.cpu.lastNmi = true := latched
    cases before with
    | nil =>
      obtain ⟨rfl, -⟩ := List.cons.inj run
      obtain ⟨starts, -⟩ | ⟨-, -, edge⟩ := found.tick_latch
      · rw [nmi] at starts
        contradiction
      · rw [high] at edge
        exact absurd (edge nmi).2 (by decide)
    | cons first before =>
      obtain ⟨rfl, tail⟩ := List.cons.inj run
      have further : found.tick.2.cpu.lastNmi = true →
          ∃ boundary ∈ found.sample :: before, boundary.starts.isSome = true ∧ boundary.nmi = false :=
        fun latched => by
          obtain ⟨boundary, member, low⟩ := inductionHypothesis latched tail
          exact ⟨boundary, List.mem_cons_of_mem _ member, low⟩
      obtain ⟨-, latch⟩ | ⟨starts, latch, -⟩ := found.tick_latch
      · exact further (latch.trans high)
      · cases level : found.sample.nmi with
        | false => exact ⟨found.sample, List.mem_cons_self, starts, level⟩
        | true => exact further (latch.trans level)

/-- From powerup on, as far as a run may have come, NMIs have been started no more often than the line
has gone up from tick to tick, and between two of them the processor has come to a boundary with the
line low. -/
theorem nmi_once_per_edge (machine : Machine δ μ) (changes : List (Board δ μ → Board δ μ)) :
    let seen := machine.powerup.2.samples changes
    (∀ part, part <+: seen →
      (part.map Sample.starts).count (some .nmi) ≤ rises false (part.map Sample.nmi)) ∧
    (∀ before first between second after, seen = before ++ first :: (between ++ second :: after) →
      first.starts = some .nmi → second.starts = some .nmi →
      ∃ boundary ∈ between, boundary.starts.isSome = true ∧ boundary.nmi = false) := by
  refine ⟨fun part isPart => ?_, fun before first between second after run nmi nmi' => ?_⟩
  · rw [List.prefix_iff_eq_take.1 isPart, take_samples]
    have counted := machine.powerup.2.count_nmi_le false (changes.take part.length)
    rwa [Bool.false_and, Bool.toNat_false, Nat.zero_add] at counted
  · obtain ⟨found, rest, rfl, tail⟩ := samples_after run
    obtain ⟨starts, -⟩ | ⟨-, latch, edge⟩ := found.tick_latch
    · rw [nmi] at starts
      contradiction
    · exact low_before_nmi (latch.trans (edge nmi).1) nmi' tail

/-- Five edges and two NMIs, on a machine without memory that executes `BRK` all the time. The first edge
comes while the console refuses a tick at a breakpoint, the second and the fourth while the processor is
busy; the line is low at a boundary again before the fifth. -/
theorem nmi_once_per_edge_missed :
    let machine : Machine Peripheral Console :=
      { board := { bus := {}, monitor := { breakpoints := [0x0000] } } }
    let set : LineAction → Board Peripheral Console → Board Peripheral Console :=
      fun action board => { board with bus := action.apply board.bus }
    let changes := [set .nmi, set .nmiOff, set .nmi, set .nmiOff, set .nmi] ++ List.replicate 4 id ++
      [set .nmiOff, set .nmi] ++ List.replicate 11 id ++ [set .nmiOff] ++ List.replicate 6 id ++ [set .nmi]
    let seen := machine.powerup.2.samples changes
    seen <+: seen ∧ rises false (seen.map Sample.nmi) = 5 ∧
      (seen.map Sample.starts).count (some .nmi) = 2 ∧ 2 ≤ 5 ∧
      seen = seen.take 8 ++ ⟨true, some .nmi⟩ :: ((seen.drop 9).take 20 ++ ⟨true, some .nmi⟩ :: []) ∧
      ∃ boundary ∈ (seen.drop 9).take 20, boundary.starts.isSome = true ∧ boundary.nmi = false := by
  intro machine set changes seen
  have edges : rises false (seen.map Sample.nmi) = 5 := by decide +kernel
  have nmis : (seen.map Sample.starts).count (some .nmi) = 2 := by decide +kernel
  have run : seen =
      seen.take 8 ++ ⟨true, some .nmi⟩ :: ((seen.drop 9).take 20 ++ ⟨true, some .nmi⟩ :: []) := by
    decide +kernel
  obtain ⟨counted, seenLow⟩ := machine.nmi_once_per_edge changes
  have bound := counted seen (List.prefix_refl _)
  rw [edges, nmis] at bound
  exact ⟨List.prefix_refl _, edges, nmis, bound, run, seenLow _ _ _ _ _ run rfl rfl⟩

end Machine
end Micro65
