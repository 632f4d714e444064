import Micro65.Devices.Peripheral
import Micro65.Proofs.Machine.Transparency

set_option autoImplicit false

/-!
Runs under a limit. A run does to its machine what its ticks do one after the other, each with the action
that is scheduled before it, and nothing else. So a run that does not halt can be cut anywhere, and of a
limit and a halt the one that comes first ends a run.
-/

namespace Micro65

/-! ### Schedules -/

namespace Schedule

/-- The actions from a tick on, counted from there. -/
def after (schedule : Schedule) (start : Nat) : Schedule :=
  ⟨schedule.entries.filterMap fun (time, action) =>
    if start ≤ time then some (time - start, action) else none⟩

theorem get?_after (schedule : Schedule) (start time : Nat) :
    (schedule.after start).get? time = schedule.get? (start + time) := by
  obtain ⟨entries⟩ := schedule
  simp only [after, get?]
  induction entries with
  | nil => rfl
  | cons entry rest inductionHypothesis =>
    obtain ⟨first, action⟩ := entry
    by_cases kept : start ≤ first
    · have same : time = first - start ↔ start + time = first := by omega
      simp only [List.filterMap_cons, if_pos kept, List.lookup_cons, inductionHypothesis,
        Bool.beq_eq_decide_eq, same]
    · have before : (start + time == first) = false := beq_eq_false_iff_ne.2 (by omega)
      simp only [List.filterMap_cons, if_neg kept, List.lookup_cons, inductionHypothesis, before]

/-- What one tick of a run does to a machine. -/
def stimuli (schedule : Schedule) (time : Nat) : List Stimulus :=
  (schedule.get? time).toList.map .line ++ [.tick, .clock]

/-- What a run does to a machine in some ticks, from a tick on. -/
def course (schedule : Schedule) (start count : Nat) : List Stimulus :=
  (List.range' start count).flatMap schedule.stimuli

theorem course_succ (schedule : Schedule) (start count : Nat) :
    schedule.course start (count + 1) =
      schedule.stimuli start ++ schedule.course (start + 1) count := by
  simp [course, List.range'_succ]

end Schedule

namespace Machine

variable {δ μ : Type} [Device δ] [Monitor μ]

/-! ### Ticks of a run -/

section Ticks

variable {schedule : Schedule} {time : Nat} {machine : Machine δ μ}

theorem runTick_snd (schedule : Schedule) (time : Nat) (machine : Machine δ μ) :
    (machine.runTick schedule time).2 = machine.drive (schedule.stimuli time) := by
  unfold runTick Schedule.stimuli
  cases schedule.get? time with
  | none => rfl
  | some action => rfl

theorem runTick_after (schedule : Schedule) (start time : Nat) (machine : Machine δ μ) :
    machine.runTick (schedule.after start) time = machine.runTick schedule (start + time) := by
  unfold runTick
  rw [schedule.get?_after]

theorem runFrom_of_halts (halts : (machine.runTick schedule time).1 = true) (count : Nat) :
    machine.runFrom schedule time (count + 1) =
      ⟨time + 1, true, machine.drive (schedule.stimuli time)⟩ := by
  rw [← runTick_snd, runFrom]
  generalize machine.runTick schedule time = ticked at halts
  obtain ⟨halted, after⟩ := ticked
  subst halts
  rfl

theorem runFrom_of_passes (passes : (machine.runTick schedule time).1 = false) (count : Nat) :
    machine.runFrom schedule time (count + 1) =
      (machine.drive (schedule.stimuli time)).runFrom schedule (time + 1) count := by
  rw [← runTick_snd, runFrom]
  generalize machine.runTick schedule time = ticked at passes
  obtain ⟨halted, after⟩ := ticked
  subst passes
  rfl

end Ticks

/-! ### Whole runs -/

variable (schedule : Schedule) (machine : Machine δ μ)

/-- A run drives its machine through the ticks that it counts. -/
theorem runFrom_drives (time count : Nat) :
    ∃ ticks, (machine.runFrom schedule time count).time = time + ticks ∧
      (machine.runFrom schedule time count).machine = machine.drive (schedule.course time ticks) := by
  induction count generalizing time machine with
  | zero => exact ⟨0, rfl, rfl⟩
  | succ count inductionHypothesis =>
    cases halts : (machine.runTick schedule time).1 with
    | true =>
      rw [runFrom_of_halts halts]
      refine ⟨1, rfl, ?_⟩
      simp [Schedule.course]
    | false =>
      rw [runFrom_of_passes halts]
      obtain ⟨ticks, counted, driven⟩ :=
        inductionHypothesis (machine.drive (schedule.stimuli time)) (time + 1)
      refine ⟨ticks + 1, by omega, ?_⟩
      rw [driven, Schedule.course_succ]
      exact (List.foldl_append ..).symm

variable {schedule machine}

/-- A run that has not halted has made all its ticks, and goes on where it was cut. -/
theorem runFrom_add {time count : Nat}
    (goesOn : (machine.runFrom schedule time count).halted = false) :
    (machine.runFrom schedule time count).time = time + count ∧
      ∀ more, machine.runFrom schedule time (count + more) =
        (machine.runFrom schedule time count).machine.runFrom schedule (time + count) more := by
  induction count generalizing time machine with
  | zero =>
    refine ⟨rfl, fun more => ?_⟩
    rw [Nat.zero_add]
    rfl
  | succ count inductionHypothesis =>
    cases halts : (machine.runTick schedule time).1 with
    | true =>
      rw [runFrom_of_halts halts] at goesOn
      contradiction
    | false =>
      rw [runFrom_of_passes halts] at goesOn ⊢
      obtain ⟨counted, further⟩ := inductionHypothesis goesOn
      refine ⟨by omega, fun more => ?_⟩
      rw [Nat.add_right_comm, runFrom_of_passes halts, further, Nat.add_right_comm, Nat.add_assoc]

variable (schedule machine) in
/-- A run from a later tick on is a run of the actions that are left. -/
theorem runFrom_after (start time count : Nat) :
    let run := machine.runFrom (schedule.after start) time count
    machine.runFrom schedule (start + time) count = ⟨start + run.time, run.halted, run.machine⟩ := by
  induction count generalizing time machine with
  | zero => rfl
  | succ count inductionHypothesis =>
    have same := runTick_after schedule start time machine
    have driven : machine.drive ((schedule.after start).stimuli time) =
        machine.drive (schedule.stimuli (start + time)) := by
      rw [← runTick_snd, ← runTick_snd, same]
    dsimp only
    cases halts : (machine.runTick schedule (start + time)).1 with
    | true =>
      rw [runFrom_of_halts halts, runFrom_of_halts (same ▸ halts), driven]
      rfl
    | false =>
      rw [runFrom_of_passes halts, runFrom_of_passes (same ▸ halts), driven]
      exact inductionHypothesis _ (time + 1)

/-- A run that halts has made a tick. -/
theorem lt_time_of_halted {time count : Nat}
    (halts : (machine.runFrom schedule time count).halted = true) :
    time < (machine.runFrom schedule time count).time := by
  cases count with
  | zero => contradiction
  | succ count =>
    cases first : (machine.runTick schedule time).1 with
    | true =>
      rw [runFrom_of_halts first]
      exact Nat.lt_succ_self time
    | false =>
      rw [runFrom_of_passes first]
      obtain ⟨ticks, counted, -⟩ :=
        runFrom_drives schedule (machine.drive (schedule.stimuli time)) (time + 1) count
      omega

/-- Of a limit and the first tick that halts, the one that comes first ends a run. -/
theorem runFrom_limit {time count : Nat} (halts : (machine.runFrom schedule time count).halted = true)
    (limit : Nat) :
    (machine.runFrom schedule time limit).time =
        min (time + limit) (machine.runFrom schedule time count).time ∧
      (machine.runFrom schedule time limit).halted =
        decide ((machine.runFrom schedule time count).time ≤ time + limit) := by
  induction limit generalizing time machine count with
  | zero =>
    have made := lt_time_of_halted halts
    constructor
    · exact (Nat.min_eq_left (Nat.le_of_lt made)).symm
    · exact (decide_eq_false (by omega)).symm
  | succ limit inductionHypothesis =>
    cases count with
    | zero => contradiction
    | succ count =>
      cases first : (machine.runTick schedule time).1 with
      | true =>
        simp only [runFrom_of_halts first]
        constructor
        · omega
        · exact (decide_eq_true (by omega)).symm
      | false =>
        simp only [runFrom_of_passes first] at halts ⊢
        have later := inductionHypothesis halts
        rwa [Nat.add_assoc, Nat.add_comm 1] at later

/-- Runs compose. Where no tick of a first run halts, a run of more ticks is the first run and then a run
of the others on the machine that it leaves, with the actions that are left, counted from there. And where
a run without a limit halts, every limit leaves the ticks up to the limit or up to the halt, whichever
comes first, each with the action that is scheduled before it: the machine is driven through these and
nothing else. -/
theorem runs_compose (schedule : Schedule) (machine : Machine δ μ) :
    (∀ count more, (machine.run (some count) schedule).halted = false →
      let first := machine.run (some count) schedule
      let second := first.machine.run (some more) (schedule.after count)
      first.time = count ∧
        machine.run (some (count + more)) schedule =
          ⟨count + second.time, second.halted, second.machine⟩) ∧
    ((machine.run none schedule).halted = true → ∀ limit,
      let last := (machine.run none schedule).time
      machine.run (some limit) schedule =
        ⟨min limit last, decide (last ≤ limit),
          machine.drive (schedule.course 0 (min limit last))⟩) := by
  constructor
  · intro count more goesOn
    obtain ⟨counted, further⟩ := runFrom_add goesOn
    have shifted := runFrom_after schedule (machine.run (some count) schedule).machine count 0 more
    refine ⟨counted.trans (Nat.zero_add count), ?_⟩
    rw [Nat.zero_add] at further
    exact (further more).trans shifted
  · intro halts limit
    obtain ⟨counted, halted⟩ := runFrom_limit halts limit
    obtain ⟨ticks, time, driven⟩ := runFrom_drives schedule machine 0 limit
    rw [Nat.zero_add] at counted halted time
    have run : machine.run (some limit) schedule =
        ⟨(machine.runFrom schedule 0 limit).time, (machine.runFrom schedule 0 limit).halted,
          (machine.runFrom schedule 0 limit).machine⟩ := rfl
    rw [run, driven, halted, ← time, counted]
    rfl

/-- A machine without memory executes `BRK`, and its monitor halts on an NMI. The NMI that is scheduled
before the fourth tick is taken in the eighth; the run is cut between the two. -/
theorem runs_compose_nmi :
    let machine : Machine Peripheral Trace :=
      { board := { bus := {}, monitor := { flags := { nmi := true } } } }
    let schedule : Schedule := .ofList [(3, .nmi), (6, .irq), (8, .nmiOff)]
    let first := machine.run (some 5) schedule
    let second := first.machine.run (some 6) (schedule.after 5)
    first.halted = false ∧ schedule.after 5 = .ofList [(1, .irq), (3, .nmiOff)] ∧ second.time = 3 ∧
    machine.run (some (5 + 6)) schedule = ⟨5 + second.time, second.halted, second.machine⟩ ∧
    (machine.run none schedule).halted = true ∧ (machine.run none schedule).time = 8 ∧
    machine.run (some 7) schedule =
      ⟨7, false, machine.drive [.tick, .clock, .tick, .clock, .tick, .clock, .line .nmi, .tick, .clock,
        .tick, .clock, .tick, .clock, .line .irq, .tick, .clock]⟩ := by
  intro machine schedule first second
  have goesOn : first.halted = false := by decide +kernel
  have halts : (machine.run none schedule).halted = true := by decide +kernel
  have last : (machine.run none schedule).time = 8 := by decide +kernel
  obtain ⟨cut, limited⟩ := runs_compose schedule machine
  obtain ⟨-, composed⟩ := cut 5 6 goesOn
  have early := limited halts 7
  dsimp only at early
  rw [last] at early
  exact ⟨goesOn, by decide +kernel, by decide +kernel, composed, halts, last, early⟩

end Machine
end Micro65
