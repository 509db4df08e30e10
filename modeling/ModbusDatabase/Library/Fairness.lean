import Mathlib.Data.Nat.Nth
import Mathlib.Order.Nat
import ModbusDatabase.Library.Transition

/-! Endless runs of a transition system, and the rule for what every fair one of them
comes to in the end. -/

namespace ModbusDatabase.Library.Fairness
open Transition
set_option autoImplicit false

variable {State Action : Type*} {system : System State Action}

structure Run (system : System State Action) where
  state : Nat → State
  action : Nat → Action
  start : state 0 = system.init
  step : ∀ n, system.step (state n) (action n) = some (state (n + 1))

/-- From every moment on, the event comes at some moment. -/
def Recurs (event : Nat → Prop) : Prop := ∀ n, ∃ m, n ≤ m ∧ event m

theorem Recurs.mono {event other : Nat → Prop} (recurs : Recurs event)
    (implies : ∀ n, event n → other n) : Recurs other := by
  intro n
  obtain ⟨m, later, holds⟩ := recurs n
  exact ⟨m, later, implies m holds⟩

namespace Run

variable (run : Run system)

theorem leads {n m : Nat} (later : n ≤ m) : system.Leads (run.state n) (run.state m) := by
  induction later with
  | refl => exact .refl
  | @step k _ ih => exact ih.tail ⟨run.action k, trivial, run.step k⟩

theorem reachable (n : Nat) : system.Reachable (run.state n) := by
  have onward := run.leads (Nat.zero_le n)
  rwa [run.start] at onward

theorem exec (n : Nat) :
    system.exec system.init ((List.range n).map run.action) = some (run.state n) := by
  induction n with
  | zero => exact congrArg some run.start.symm
  | succ n ih =>
    rw [List.range_succ, List.map_append, System.exec_append, ih, Option.bind_some, List.map_singleton,
      System.exec, List.foldlM_cons, run.step n]
    rfl

/-- The run under the names that the steps had first. -/
def original {Name : Type*} {named : Name → Action} (run : Run (system.rename named)) : Run system where
  state := run.state
  action n := named (run.action n)
  start := run.start
  step := run.step

/-- Wherever the run has what comes first, it has what comes next then or later. -/
def LeadsTo (First Next : State → Prop) : Prop :=
  ∀ n, First (run.state n) → ∃ m, n ≤ m ∧ Next (run.state m)

variable {run}

theorem LeadsTo.trans {First Next Last : State → Prop} (left : run.LeadsTo First Next)
    (right : run.LeadsTo Next Last) : run.LeadsTo First Last := by
  intro n first
  obtain ⟨m, later, next⟩ := left n first
  obtain ⟨k, last, holds⟩ := right m next
  exact ⟨k, later.trans last, holds⟩

/-- A system stays busy until it is done. No step moves it away from there, and certain
helpful steps bring it closer. Where one of these comes again and again, or the system
stops being busy, it gets done. -/
theorem leadsTo_of_rank {Busy Done : State → Prop} (rank : State → Nat) (Helpful : Nat → Prop)
    (keep : ∀ n, Busy (run.state n) → Done (run.state (n + 1)) ∨
      Busy (run.state (n + 1)) ∧ rank (run.state (n + 1)) ≤ rank (run.state n))
    (lower : ∀ n, Busy (run.state n) → Helpful n → Done (run.state (n + 1)) ∨
      rank (run.state (n + 1)) < rank (run.state n))
    (again : Recurs fun n => Busy (run.state n) → Helpful n) : run.LeadsTo Busy Done := by
  -- until it is done it is busy, and no further away than at the start
  have stays (n k : Nat) (busy : Busy (run.state n)) : (∃ m, n ≤ m ∧ Done (run.state m)) ∨
      Busy (run.state (n + k)) ∧ rank (run.state (n + k)) ≤ rank (run.state n) := by
    induction k with
    | zero => exact .inr ⟨busy, le_rfl⟩
    | succ k ih =>
      rcases ih with done | ⟨still, bound⟩
      · exact .inl done
      · rcases keep (n + k) still with done | ⟨next, less⟩
        · exact .inl ⟨n + k + 1, by omega, done⟩
        · exact .inr ⟨next, less.trans bound⟩
  intro n busy
  induction left : rank (run.state n) using Nat.strongRecOn generalizing n with
  | _ bound ih =>
    obtain ⟨m, later, helps⟩ := again n
    obtain ⟨k, rfl⟩ := Nat.exists_eq_add_of_le later
    rcases stays n k busy with done | ⟨still, same⟩
    · exact done
    · rcases lower (n + k) still (helps still) with done | closer
      · exact ⟨n + k + 1, by omega, done⟩
      · rcases keep (n + k) still with done | ⟨next, -⟩
        · exact ⟨n + k + 1, by omega, done⟩
        · obtain ⟨last, after, done⟩ := ih _ (by omega) (n + k + 1) next rfl
          exact ⟨last, by omega, done⟩

end Run

/-! What a component does in a run: its own steps, one after the other. -/

section
variable {Part Own : Type*} {alone : System Part Own} (component : Component system alone)
  (run : Run system)

/-- The component takes the step. -/
def Turn (n : Nat) : Prop := (component.own (run.action n)).isSome = true

instance : DecidablePred (Turn component run) := fun _ => inferInstanceAs (Decidable (_ = true))

variable {component run}

theorem infinite_turns (again : Recurs (Turn component run)) : (Set.ofPred (Turn component run)).Infinite := by
  apply Set.infinite_of_forall_exists_gt
  intro n
  obtain ⟨m, later, turn⟩ := again (n + 1)
  exact ⟨m, turn, later⟩

/-- Up to its next step a component stays as it is. -/
theorem part_next (again : Recurs (Turn component run)) (n : Nat) :
    component.part (run.state (Nat.nth (Turn component run) (Nat.count (Turn component run) n))) =
      component.part (run.state n) := by
  have infinite := infinite_turns again
  have quiet (k : Nat) (later : n ≤ k)
      (before : k < Nat.nth (Turn component run) (Nat.count (Turn component run) n)) :
      component.own (run.action k) = none := by
    rw [← Option.not_isSome_iff_eq_none]
    intro turn
    rw [← Nat.nth_count (p := Turn component run) turn] at before
    have fewer := (Nat.nth_lt_nth infinite).mp before
    exact absurd (Nat.count_monotone _ later) (not_le.mpr fewer)
  have stays : ∀ m, n ≤ m → m ≤ Nat.nth (Turn component run) (Nat.count (Turn component run) n) →
      component.part (run.state m) = component.part (run.state n) := by
    intro m later
    induction m, later using Nat.le_induction with
    | base => exact fun _ => rfl
    | succ m later ih =>
      intro bound
      rw [component.stays (run.step m) (quiet m later bound)]
      exact ih (Nat.le_of_succ_le bound)
  exact stays _ (Nat.le_nth_count infinite n) le_rfl

/-- The component's own run. -/
noncomputable def ownRun (again : Recurs (Turn component run)) : Run alone where
  state k := component.part (run.state (Nat.nth (Turn component run) k))
  action k := (component.own (run.action (Nat.nth (Turn component run) k))).get
    (Nat.nth_mem_of_infinite (infinite_turns again) k)
  start := by
    have first := part_next again 0
    rwa [Nat.count_zero, run.start, component.start] at first
  step k := by
    have next := part_next again (Nat.nth (Turn component run) k + 1)
    rw [Nat.count_nth_succ_of_infinite (infinite_turns again)] at next
    rw [next]
    exact component.takes (run.step _) (Option.some_get _).symm

theorem ownRun_state (again : Recurs (Turn component run)) (n : Nat) :
    (ownRun again).state (Nat.count (Turn component run) n) = component.part (run.state n) :=
  part_next again n

/-- A step of the component's is one of its own run. -/
theorem ownRun_step (again : Recurs (Turn component run)) {n : Nat} {name : Own}
    (named : component.own (run.action n) = some name) :
    (ownRun again).action (Nat.count (Turn component run) n) = name ∧
      (ownRun again).state (Nat.count (Turn component run) n + 1) = component.part (run.state (n + 1)) := by
  have turn : Turn component run n := Option.isSome_of_eq_some named
  constructor
  · apply Option.get_of_eq_some
    rw [Nat.nth_count turn]
    exact named
  · rw [← ownRun_state again, Nat.count_succ, if_pos turn]

/-- What comes again and again in the run does so in the component's own, if it is seen there. -/
theorem recurs_ownRun (again : Recurs (Turn component run)) {event own : Nat → Prop}
    (recurs : Recurs event) (seen : ∀ n, event n → own (Nat.count (Turn component run) n)) : Recurs own := by
  intro k
  obtain ⟨n, later, holds⟩ := recurs (Nat.nth (Turn component run) k)
  refine ⟨Nat.count (Turn component run) n, ?_, seen n holds⟩
  rw [← Nat.count_nth_of_infinite (infinite_turns again) k]
  exact Nat.count_monotone _ later

/-- What the component comes to by itself it comes to in the run. -/
theorem leadsTo_of_ownRun (again : Recurs (Turn component run)) {First Next : Part → Prop}
    (leads : (ownRun again).LeadsTo First Next) :
    run.LeadsTo (fun s => First (component.part s)) fun s => Next (component.part s) := by
  intro n first
  rw [← ownRun_state again] at first
  obtain ⟨k, later, next⟩ := leads _ first
  exact ⟨Nat.nth (Turn component run) k, (Nat.count_le_iff_le_nth (infinite_turns again)).mp later, next⟩

end

/-! Runs that a scheduler picks, which always finds a step that can be taken. -/

section
variable (system) (pick : Nat → State → Action)
  (enabled : ∀ n s, (system.step s (pick n s)).isSome = true)

/-- The states that the scheduler's picks go through. -/
def scheduled : Nat → State
  | 0 => system.init
  | n + 1 => (system.step (scheduled n) (pick n (scheduled n))).getD (scheduled n)

def schedule : Run system where
  state := scheduled system pick
  action n := pick n (scheduled system pick n)
  start := rfl
  step n := by
    obtain ⟨next, taken⟩ := Option.isSome_iff_exists.mp (enabled n (scheduled system pick n))
    rw [scheduled, taken, Option.getD_some]

end

end ModbusDatabase.Library.Fairness
