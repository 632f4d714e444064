import Micro65.Machine.Config

set_option autoImplicit false

/-!
Breakpoints of the console. Whether the console halts at an instruction depends on the question before that
one, and on nothing else that it was asked or told: a breakpoint fires when the program counter comes to it,
and not again until the program counter has been elsewhere.
-/

namespace Micro65

/-- One call of a monitor. -/
inductive Hook where
  | ask (query : Query)
  | tell (report : Report)
  | tick
  deriving DecidableEq, Repr

/-- The program counter that is asked about, if an instruction comes next. -/
def Hook.pc? : Hook → Option UInt16
  | ask (.nextInstruction pc) => some pc
  | _ => none

namespace Console

def after (console : Console) : Hook → Console
  | .ask query => (console.ask query).monitor
  | .tell report => (console.tell report).1
  | .tick => Monitor.tick console

/-- The answers to the questions about a next instruction, in order. -/
def halts (console : Console) : List Hook → List Bool
  | [] => []
  | hook :: rest =>
    match hook.pc? with
    | some pc => (console.visit pc).halt :: (console.after hook).halts rest
    | none => (console.after hook).halts rest

/-- The console was last asked about this program counter, or about none. Only a breakpoint is remembered. -/
def Rests (console : Console) (last : Option UInt16) : Prop :=
  console.armed = last.filter console.breakpoints.contains

variable {console : Console} {last : Option UInt16}

theorem rests_of_fresh (fresh : console.armed = none) : console.Rests none := fresh

theorem breakpoints_after (console : Console) (hook : Hook) :
    (console.after hook).breakpoints = console.breakpoints := by
  cases hook with
  | ask query =>
    cases query with
    | nextInstruction pc =>
      change (console.visit pc).monitor.breakpoints = console.breakpoints
      unfold visit
      dsimp only
      split <;> rfl
    | _ => rfl
  | tell report =>
    cases report with
    | write address data =>
      change (console.tell (.write address data)).1.breakpoints = console.breakpoints
      unfold tell
      dsimp only
      split <;> rfl
    | _ => rfl
  | tick => rfl

/-- Only a question about a next instruction moves the breakpoint that is remembered. -/
theorem Rests.after (rests : console.Rests last) {hook : Hook} (other : hook.pc? = none) :
    (console.after hook).Rests last := by
  have kept : (console.after hook).armed = console.armed := by
    cases hook with
    | ask query =>
      cases query with
      | nextInstruction pc => contradiction
      | _ => rfl
    | tell report =>
      cases report with
      | write address data =>
        change (console.tell (.write address data)).1.armed = console.armed
        unfold tell
        dsimp only
        split <;> rfl
      | _ => rfl
    | tick => rfl
  rw [Rests, kept, breakpoints_after]
  exact rests

/-- Of what is remembered a question keeps what it asks about itself. -/
theorem Rests.filter (rests : console.Rests last) (pc : UInt16) :
    console.armed.filter (· == pc) = (last.filter (· == pc)).filter console.breakpoints.contains := by
  rw [rests, Option.filter_filter, Option.filter_filter]
  simp only [Bool.and_comm]

/-- A breakpoint fires unless the question before was about it too. -/
theorem Rests.visit (rests : console.Rests last) (pc : UInt16) :
    (console.visit pc).halt = decide (pc ∈ console.breakpoints ∧ last ≠ some pc) ∧
      (console.visit pc).monitor.Rests (some pc) := by
  have kept := rests.filter pc
  have again : last.filter (· == pc) = if last = some pc then some pc else none := by
    cases last with
    | none => rfl
    | some other => by_cases same : other = pc <;> simp [Option.filter, same]
  rw [again] at kept
  unfold Console.visit
  dsimp only
  rw [kept]
  by_cases member : pc ∈ console.breakpoints
  · by_cases stays : last = some pc <;> simp [Rests, Option.filter, member, stays]
  · by_cases stays : last = some pc <;> simp [Rests, Option.filter, member, stays]

/-- Each answer is that of its own question and of the one before. -/
theorem Rests.halts_eq (rests : console.Rests last) (hooks : List Hook) :
    console.halts hooks =
      List.zipWith (fun previous pc => decide (pc ∈ console.breakpoints ∧ previous ≠ some pc))
        (last :: (hooks.filterMap Hook.pc?).map some) (hooks.filterMap Hook.pc?) := by
  induction hooks generalizing console last with
  | nil => rfl
  | cons hook rest inductionHypothesis =>
    cases asked : hook.pc? with
    | none =>
      have later := inductionHypothesis (rests.after asked)
      rw [breakpoints_after] at later
      simpa only [halts, asked, List.filterMap_cons] using later
    | some pc =>
      have visited : console.after hook = (console.visit pc).monitor := by
        cases hook with
        | ask query =>
          cases query with
          | nextInstruction other =>
            obtain rfl := Option.some.inj asked
            rfl
          | _ => contradiction
        | _ => contradiction
      obtain ⟨answer, settled⟩ := rests.visit pc
      have later := inductionHypothesis (visited ▸ settled)
      rw [breakpoints_after] at later
      simp only [halts, asked, List.filterMap_cons, List.map_cons, List.zipWith_cons_cons]
      rw [answer, later]

/-- A breakpoint fires once per visit. Of a fresh console that is asked and told anything, each question about
a next instruction is answered with a halt exactly if the program counter is a breakpoint and the question
before, if there was one, was about another program counter. -/
theorem fires_once_per_visit (fresh : console.armed = none) (hooks : List Hook) :
    (console.halts hooks).length = (hooks.filterMap Hook.pc?).length ∧
      ∀ index pc, (hooks.filterMap Hook.pc?)[index]? = some pc →
        ∃ halt, (console.halts hooks)[index]? = some halt ∧
          (halt = true ↔ pc ∈ console.breakpoints ∧
            (index = 0 ∨ (hooks.filterMap Hook.pc?)[index - 1]? ≠ some pc)) := by
  rw [(rests_of_fresh fresh).halts_eq]
  generalize hooks.filterMap Hook.pc? = visits
  refine ⟨by simp, fun index pc asked => ?_⟩
  have before : (none :: visits.map some)[index]? =
      some (if index = 0 then none else visits[index - 1]?) := by
    cases index with
    | zero => rfl
    | succ index =>
      have inside : index < visits.length :=
        Nat.lt_of_succ_lt (List.getElem?_eq_some_iff.1 asked).1
      simp [List.getElem?_eq_getElem inside]
  refine ⟨_, by rw [List.getElem?_zipWith, before, asked], ?_⟩
  by_cases first : index = 0 <;> simp [first]

/-- Two breakpoints one after the other, an interrupt and a report between the questions, an instruction that
jumps to itself, and a return to the first breakpoint. -/
theorem fires_once_per_visit_loop : ∃ (console : Console) (hooks : List Hook),
    console.armed = none ∧ console.breakpoints = [0x8000, 0x8001] ∧
    hooks.filterMap Hook.pc? = [0x8000, 0x8000, 0x8001, 0x8002, 0x8001, 0x8001, 0x8000] ∧
    console.halts hooks = [true, false, true, false, true, false, true] ∧
    ∀ index pc, (hooks.filterMap Hook.pc?)[index]? = some pc →
      ∃ halt, (console.halts hooks)[index]? = some halt ∧
        (halt = true ↔ pc ∈ console.breakpoints ∧
          (index = 0 ∨ (hooks.filterMap Hook.pc?)[index - 1]? ≠ some pc)) := by
  let console : Console := ({ breakpoints := [0x8000, 0x8001] } : MonitorConfig).console
  let hooks : List Hook := [.ask .started, .ask (.nextInstruction 0x8000), .tick,
    .ask (.nextInstruction 0x8000), .ask .afterInstruction, .ask (.nextInstruction 0x8001), .ask .irq,
    .tell (.wordRegister "PC" 0x8002), .ask (.nextInstruction 0x8002), .ask (.nextInstruction 0x8001),
    .tell (.write 0x0200 0x00), .ask (.nextInstruction 0x8001), .ask (.nextInstruction 0x8000)]
  exact ⟨console, hooks, rfl, rfl, rfl, by decide, (fires_once_per_visit rfl hooks).2⟩

end Console
end Micro65
