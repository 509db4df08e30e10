import Mathlib.Data.List.Count
import Mathlib.Logic.Relation

/-! Transition systems given by a partial step function: `step s a` is `none`
where action `a` is not enabled in `s`. One definition serves executions of
fixed action lists and induction over every reachable state. -/

namespace ModbusDatabase.Library.Transition
set_option autoImplicit false

structure System (State Action : Type*) where
  init : State
  step : State → Action → Option State

namespace System

variable {State Action : Type*} (system : System State Action)

/-- One step whose action satisfies `allowed` in the state it is taken from. -/
def NextWhen (allowed : State → Action → Prop) (s t : State) : Prop :=
  ∃ action, allowed s action ∧ system.step s action = some t

/-- States reached by runs all of whose steps are allowed. -/
def ReachableWhen (allowed : State → Action → Prop) (s : State) : Prop :=
  Relation.ReflTransGen (system.NextWhen allowed) system.init s

def Reachable (s : State) : Prop := system.ReachableWhen (fun _ _ => True) s

/-- States reached from `s` by any number of steps. -/
def Leads (s t : State) : Prop :=
  Relation.ReflTransGen (system.NextWhen (fun _ _ => True)) s t

def exec (s : State) (actions : List Action) : Option State := actions.foldlM system.step s

variable {system} {allowed : State → Action → Prop} {s t u : State}

theorem exec_cons_some {action : Action} {actions : List Action}
    (run : system.exec s (action :: actions) = some u) :
    ∃ t, system.step s action = some t ∧ system.exec t actions = some u :=
  Option.bind_eq_some_iff.mp run

theorem exec_append (first later : List Action) :
    system.exec s (first ++ later) = (system.exec s first).bind fun t => system.exec t later :=
  List.foldlM_append

theorem leads_of_exec {actions : List Action} (run : system.exec s actions = some t) :
    system.Leads s t := by
  induction actions generalizing s with
  | nil => cases run; exact .refl
  | cons action rest ih =>
    obtain ⟨middle, first, later⟩ := exec_cons_some run
    exact .head ⟨action, trivial, first⟩ (ih later)

theorem Leads.step {action : Action} (step : system.step s action = some t)
    (onward : system.Leads t u) : system.Leads s u := .head ⟨action, trivial, step⟩ onward

theorem Reachable.leads (reached : system.Reachable s) (onward : system.Leads s t) :
    system.Reachable t := reached.trans onward

theorem Reachable.next {action : Action} (reached : system.Reachable s)
    (step : system.step s action = some t) : system.Reachable t :=
  reached.tail ⟨action, trivial, step⟩

theorem reachable_of_exec (actions : List Action)
    (run : system.exec system.init actions = some s) : system.Reachable s := leads_of_exec run

/-- The system with the steps that are not allowed taken out. -/
def restrict (system : System State Action) (allowed : State → Action → Prop)
    [∀ s action, Decidable (allowed s action)] : System State Action where
  init := system.init
  step s action := if allowed s action then system.step s action else none

theorem reachableWhen_of_exec [∀ s action, Decidable (allowed s action)] (actions : List Action)
    (run : (system.restrict allowed).exec system.init actions = some s) :
    system.ReachableWhen allowed s := by
  refine Relation.ReflTransGen.mono ?_ _ _ (leads_of_exec run)
  rintro u v ⟨action, -, step⟩
  obtain ⟨permitted, taken⟩ := Option.ite_none_right_eq_some.mp step
  exact ⟨action, permitted, taken⟩

/-- The same steps under other names for them. -/
def rename {Name : Type*} (system : System State Action) (named : Name → Action) : System State Name where
  init := system.init
  step s name := system.step s (named name)

theorem exec_rename {Name : Type*} (named : Name → Action) (names : List Name) :
    (system.rename named).exec s names = system.exec s (names.map named) := by
  rw [exec, exec, List.foldlM_map]
  rfl

/-- A restricted run is a run. -/
theorem ReachableWhen.reachable (reached : system.ReachableWhen allowed s) : system.Reachable s :=
  Relation.ReflTransGen.mono (fun _ _ ⟨action, _, step⟩ => ⟨action, trivial, step⟩) _ _ reached

/-- What holds at the start of a stretch of steps and is kept by each holds at its end. -/
theorem Leads.invariant (Holds : State → Prop) (onward : system.Leads s t) (start : Holds s)
    (keep : ∀ s action t, Holds s → system.step s action = some t → Holds t) : Holds t := by
  induction onward with
  | refl => exact start
  | tail _ last ih =>
    obtain ⟨action, _, step⟩ := last
    exact keep _ action _ ih step

/-- The induction rule for invariants, over the states that allowed runs reach. -/
theorem ReachableWhen.invariant (Holds : State → Prop) (reached : system.ReachableWhen allowed s)
    (start : Holds system.init)
    (keep : ∀ s action t, system.Reachable s → Holds s → allowed s action →
      system.step s action = some t → Holds t) : Holds s := by
  induction reached with
  | refl => exact start
  | tail before last ih =>
    obtain ⟨action, permitted, step⟩ := last
    exact keep _ action _ (ReachableWhen.reachable before) ih permitted step

theorem Reachable.invariant (Holds : State → Prop) (reached : system.Reachable s)
    (start : Holds system.init)
    (keep : ∀ s action t, Holds s → system.step s action = some t → Holds t) : Holds s :=
  Leads.invariant Holds reached start keep

/-- Every state a run passes through, its first and last included, satisfies `Busy`. -/
def Throughout (system : System State Action) (Busy : State → Prop) :
    State → List Action → Prop
  | s, [] => Busy s
  | s, action :: rest => Busy s ∧ ∀ t, system.step s action = some t →
      Throughout system Busy t rest

/-- A measure that working steps lower and other steps do not raise bounds the
number of working steps in any run that stays busy, however they interleave. -/
theorem working_steps_le {Busy Holds : State → Prop} {measure : State → Nat} {working : Action → Bool}
    (keep : ∀ s action t, Busy s → Holds s → system.step s action = some t → Holds t)
    (lowers : ∀ s action t, Busy s → Holds s → Busy t → working action = true →
      system.step s action = some t → measure t < measure s)
    (others : ∀ s action t, Busy s → Holds s → Busy t → working action = false →
      system.step s action = some t → measure t ≤ measure s)
    {actions : List Action} (run : system.exec s actions = some t) (start : Holds s)
    (busy : system.Throughout Busy s actions) :
    actions.countP working + measure t ≤ measure s := by
  induction actions generalizing s with
  | nil => cases run; simp
  | cons action rest ih =>
    obtain ⟨middle, first, later⟩ := exec_cons_some run
    have onward := busy.2 middle first
    have middleBusy : Busy middle := by
      cases rest with
      | nil => exact onward
      | cons => exact onward.1
    have bound := ih later (keep s action middle busy.1 start first) onward
    cases kind : working action with
    | true =>
      have drop := lowers s action middle busy.1 start middleBusy kind first
      rw [List.countP_cons_of_pos kind]
      omega
    | false =>
      have same := others s action middle busy.1 start middleBusy kind first
      rw [List.countP_cons_of_neg (by simp [kind])]
      omega

end System

/-! Systems in larger ones. -/

/-- How one system is a component of another: where its state is, which steps are its own, and
that the other steps leave its state alone. -/
structure Component {State Action Part Own : Type*} (system : System State Action)
    (alone : System Part Own) where
  part : State → Part
  own : Action → Option Own
  start : part system.init = alone.init
  takes : ∀ {s t : State} {action : Action} {name : Own}, system.step s action = some t →
    own action = some name → alone.step (part s) name = some (part t)
  stays : ∀ {s t : State} {action : Action}, system.step s action = some t →
    own action = none → part t = part s

/-- A component is only in states that it reaches by itself. -/
theorem Component.reachable {State Action Part Own : Type*} {system : System State Action}
    {alone : System Part Own} (component : Component system alone) {s : State}
    (reached : system.Reachable s) : alone.Reachable (component.part s) := by
  apply reached.invariant fun t => alone.Reachable (component.part t)
  · rw [component.start]
    exact .refl
  · intro s action t before step
    cases named : component.own action with
    | some name => exact before.next (component.takes step named)
    | none =>
      rw [component.stays step named]
      exact before

end ModbusDatabase.Library.Transition

/-! Machines that answer every operation, and the rule that two of them give the
same answers when a relation between their states is kept. -/

namespace ModbusDatabase.Library.Machine

variable {State Other Operation Reply : Type*}

/-- The state after a list of operations and the reply to each, in order. -/
def run (perform : State → Operation → State × Reply) :
    State → List Operation → State × List Reply
  | s, [] => (s, [])
  | s, operation :: rest =>
      let first := perform s operation
      let later := run perform first.1 rest
      (later.1, first.2 :: later.2)

theorem run_append (perform : State → Operation → State × Reply) (s : State)
    (first second : List Operation) :
    run perform s (first ++ second) =
      ((run perform (run perform s first).1 second).1,
        (run perform s first).2 ++ (run perform (run perform s first).1 second).2) := by
  induction first generalizing s with
  | nil => rfl
  | cons operation rest ih => simp only [List.cons_append, run, ih]

theorem run_concat (perform : State → Operation → State × Reply) (s : State)
    (operations : List Operation) (operation : Operation) :
    run perform s (operations ++ [operation]) =
      ((perform (run perform s operations).1 operation).1,
        (run perform s operations).2 ++ [(perform (run perform s operations).1 operation).2]) := by
  rw [run_append]
  rfl

/-- The states of a run, its replies forgotten, are a fold. -/
theorem run_state (perform : State → Operation → State × Reply) (s : State)
    (operations : List Operation) :
    (run perform s operations).1 = operations.foldl (fun t operation => (perform t operation).1) s := by
  induction operations generalizing s with
  | nil => rfl
  | cons operation rest ih => exact ih _

theorem run_simulation {Related : State → Other → Prop}
    {perform : State → Operation → State × Reply} {performOther : Other → Operation → Other × Reply}
    (agree : ∀ s t operation, Related s t →
      Related (perform s operation).1 (performOther t operation).1 ∧
        (perform s operation).2 = (performOther t operation).2)
    {s : State} {t : Other} (related : Related s t) (operations : List Operation) :
    Related (run perform s operations).1 (run performOther t operations).1 ∧
      (run perform s operations).2 = (run performOther t operations).2 := by
  induction operations generalizing s t with
  | nil => exact ⟨related, rfl⟩
  | cons operation rest ih =>
    obtain ⟨next, same⟩ := agree s t operation related
    obtain ⟨last, others⟩ := ih next
    exact ⟨last, by simp only [run, same, others]⟩

/-- The same where only certain operations are performed. -/
theorem run_simulation_on {Related : State → Other → Prop} {Allowed : Operation → Prop}
    {perform : State → Operation → State × Reply} {performOther : Other → Operation → Other × Reply}
    (agree : ∀ s t operation, Allowed operation → Related s t →
      Related (perform s operation).1 (performOther t operation).1 ∧
        (perform s operation).2 = (performOther t operation).2)
    {s : State} {t : Other} (related : Related s t) {operations : List Operation}
    (allowed : ∀ operation ∈ operations, Allowed operation) :
    Related (run perform s operations).1 (run performOther t operations).1 ∧
      (run perform s operations).2 = (run performOther t operations).2 := by
  induction operations generalizing s t with
  | nil => exact ⟨related, rfl⟩
  | cons operation rest ih =>
    obtain ⟨next, same⟩ := agree s t operation (allowed operation List.mem_cons_self) related
    obtain ⟨last, others⟩ := ih next fun later member => allowed later (List.mem_cons_of_mem _ member)
    exact ⟨last, by simp only [run, same, others]⟩

/-- The replies to some of the operations. -/
def repliesTo (own : Operation → Bool) (operations : List Operation) (replies : List Reply) : List Reply :=
  ((operations.zip replies).filter fun pair => own pair.1).map Prod.snd

/-- Operations of one's own that read and change one part of the state only, which the other
ones leave alone, go as if the other ones were not there. -/
theorem run_own {Part : Type*} {perform : State → Operation → State × Reply} {part : State → Part}
    {own : Operation → Bool}
    (spared : ∀ s operation, own operation = false → part (perform s operation).1 = part s)
    (alike : ∀ s t operation, own operation = true → part s = part t →
      part (perform s operation).1 = part (perform t operation).1 ∧
        (perform s operation).2 = (perform t operation).2)
    {s t : State} (same : part s = part t) (operations : List Operation) :
    part (run perform s operations).1 = part (run perform t (operations.filter own)).1 ∧
      repliesTo own operations (run perform s operations).2 =
        (run perform t (operations.filter own)).2 := by
  induction operations generalizing s t with
  | nil => exact ⟨same, rfl⟩
  | cons operation rest ih =>
    cases mine : own operation with
    | false =>
      have later := ih ((spared s operation mine).trans same)
      rw [List.filter_cons_of_neg (by simp [mine])]
      refine ⟨later.1, ?_⟩
      rw [← later.2]
      exact congrArg (List.map Prod.snd) (List.filter_cons_of_neg (by simp [mine]))
    | true =>
      obtain ⟨next, reply⟩ := alike s t operation mine same
      have later := ih next
      rw [List.filter_cons_of_pos mine]
      refine ⟨later.1, ?_⟩
      have first : repliesTo own (operation :: rest) (run perform s (operation :: rest)).2 =
          (perform s operation).2 :: repliesTo own rest (run perform (perform s operation).1 rest).2 :=
        congrArg (List.map Prod.snd) (List.filter_cons_of_pos mine)
      rw [first, later.2, reply]
      rfl

end ModbusDatabase.Library.Machine
