import ModbusDatabase.Conservation

/-! The reboot handshake. The reader alone completes a pending request, and the
request is honest exactly when it does not land between the reader's last,
failing read and its flag reset with reports still queued. -/

namespace ModbusDatabase.Flush
open Library Library.Transition Message Report Threads Conservation
set_option autoImplicit false

variable {Db : Type*} {writeMessage : Db → ModbusMasterMsg → Db × Bool} {capacity : Nat}
  {initial : Db} {s t : State Db}

/-- The reboot handler has set the flags and not yet left its wait. -/
def Pending (s : State Db) : Prop :=
  ∃ token, s.callback = .notifying token ∨ s.callback = .waiting token

theorem pending_step {action : Action} (step : Step writeMessage s action t)
    (asked : Pending s → s.flushCompleted = false → s.needFlush = true) :
    Pending t → t.flushCompleted = false → t.needFlush = true := by
  cases step with
  | requests => exact fun _ _ => rfl
  | finishes => exact fun _ complete => nomatch complete
  | notifies token before => exact fun _ => asked ⟨token, .inl before⟩
  | leaves | publishes | receives =>
    rintro ⟨_, same | same⟩ <;> cases same
  | _ => exact asked

theorem asked_while_pending (reached : (program writeMessage capacity initial).Reachable s) :
    Pending s → s.flushCompleted = false → s.needFlush = true := by
  refine invariant_of_step
    (fun u => Pending u → u.flushCompleted = false → u.needFlush = true) reached ?_ ?_
  · rintro ⟨_, same | same⟩ <;> cases same
  · exact fun u action v _ asked _ step => pending_step step asked

def isReader : Action → Bool
  | .reader | .readerTimeout => true
  | _ => false

/-- Reader steps left before the flags are reset, while nothing is enqueued. -/
def rank (s : State Db) : Nat :=
  match s.reader with
  | .finishing => 1
  | .draining => 2 * s.queue.size + 2
  | .writing _ => 2 * s.queue.size + 3
  | .measuring => 2 * s.queue.size + 3
  | .waiting => 2 * s.queue.size + 4
  | .starting => 2 * s.queue.size + 5
  | .notifying => 2 * s.queue.size + 6

/-- With the request flag up, every reader step comes closer to the reset, and the last one is it. -/
theorem rank_reader {action : Action} (valid : s.queue.Valid) (asked : s.needFlush = true)
    (reader : isReader action = true) (step : Step writeMessage s action t) :
    t.flushCompleted = true ∨ rank t < rank s := by
  cases step with
  | takes oldest rest before holds =>
    obtain ⟨_, after⟩ := MessageQueue.read_of_cons valid holds default
    have old := s.queue.length_contents
    have new := (s.queue.read default).1.length_contents
    rw [holds, List.length_cons] at old
    rw [after] at new
    right
    simp only [rank, before]
    omega
  | finishes => exact .inl rfl
  | blocks before calm => simp [calm] at asked
  | sleeps before calm => simp [calm] at asked
  | begins before => rcases before with before | before <;> simp [rank, before]
  | expires before | measures before | empties before | writes entry before | rounds before =>
    right
    simp only [rank, before]
    omega
  | _ => cases reader

/-- While the request is pending the handler cannot enqueue, so its steps keep the rank. -/
theorem rank_callback {action : Action} (pending : Pending s) (incomplete : s.flushCompleted = false)
    (callback : isReader action = false) (step : Step writeMessage s action t) :
    Pending t ∧ rank t = rank s := by
  obtain ⟨token, at_notify | at_wait⟩ := pending
  · cases step with
    | notifies token before => exact ⟨⟨token, .inr rfl⟩, rfl⟩
    | ignores topic payload idle | accepts topic payload msg idle | receives topic payload _ idle =>
      simp [at_notify] at idle
    | requests _ before | waits _ before | leaves _ before | publishes _ before =>
      simp [at_notify] at before
    | _ => cases callback
  · cases step with
    | waits => exact ⟨⟨token, .inr at_wait⟩, rfl⟩
    | leaves _ _ complete => simp [incomplete] at complete
    | ignores topic payload idle | accepts topic payload msg idle | receives topic payload _ idle =>
      simp [at_wait] at idle
    | requests _ before | notifies _ before | publishes _ before => simp [at_wait] at before
    | _ => cases callback

theorem pending_reader {action : Action} (pending : Pending s) (reader : isReader action = true)
    (step : Step writeMessage s action t) : Pending t := by
  cases step <;> first | exact pending | cases reader

/-- Whatever the schedule, at most `rank s` reader steps pass before completion. -/
theorem reader_steps_le (reached : (program writeMessage capacity initial).Reachable s)
    (pending : Pending s) {actions : List Action}
    (run : (program writeMessage capacity initial).exec s actions = some t)
    (incomplete : (program writeMessage capacity initial).Throughout
      (fun u => u.flushCompleted = false) s actions) :
    actions.countP isReader ≤ rank s := by
  let system := program writeMessage capacity initial
  have cases_of (u : State Db) (action : Action) (v : State Db) (before : system.Reachable u)
      (step : system.step u action = some v) : Step writeMessage u action v :=
    step_cases (queue_valid before).1 step
  have keep (u : State Db) (action : Action) (v : State Db) (busy : u.flushCompleted = false)
      (holds : system.Reachable u ∧ Pending u) (step : system.step u action = some v) :
      system.Reachable v ∧ Pending v := by
    refine ⟨holds.1.next step, ?_⟩
    cases kind : isReader action with
    | true => exact pending_reader holds.2 kind (cases_of u action v holds.1 step)
    | false => exact (rank_callback holds.2 busy kind (cases_of u action v holds.1 step)).1
  have lowers (u : State Db) (action : Action) (v : State Db) (busy : u.flushCompleted = false)
      (holds : system.Reachable u ∧ Pending u) (still : v.flushCompleted = false)
      (kind : isReader action = true) (step : system.step u action = some v) : rank v < rank u := by
    have asked := asked_while_pending holds.1 holds.2 busy
    have drop := rank_reader (queue_valid holds.1).1 asked kind (cases_of u action v holds.1 step)
    exact drop.resolve_left (by simp [still])
  have others (u : State Db) (action : Action) (v : State Db) (busy : u.flushCompleted = false)
      (holds : system.Reachable u ∧ Pending u) (_ : v.flushCompleted = false)
      (kind : isReader action = false) (step : system.step u action = some v) : rank v ≤ rank u :=
    (rank_callback holds.2 busy kind (cases_of u action v holds.1 step)).2.le
  have bound := System.working_steps_le keep lowers others run ⟨reached, pending⟩ incomplete
  omega

/-- The reader is never stuck: one of its two actions moves it. -/
theorem reader_enabled (writeMessage : Db → ModbusMasterMsg → Db × Bool) (capacity : Nat)
    (initial : Db) (s : State Db) :
    ∃ action t, isReader action = true ∧
      (program writeMessage capacity initial).step s action = some t ∧ t.reader ≠ s.reader := by
  by_cases asleep : s.reader = .waiting
  · exact ⟨.readerTimeout, { s with reader := .measuring }, rfl, if_pos asleep, by simp [asleep]⟩
  · refine ⟨.reader, readerStep writeMessage s, rfl, rfl, ?_⟩
    unfold readerStep
    split
    next before => split <;> simp [before]
    next before => exact absurd before asleep
    next before => simp [before]
    next before => split <;> simp [before]
    next entry before => simp [before]
    next before => simp [before]
    next before => simp [before]

/-- A pending reboot request is completed by the reader alone: the request flag
stays up until the completion flag is, the reader always has a step and is not
asleep on a false predicate, and `rank` bounds the steps it still needs. -/
theorem pending_request_completed (writeMessage : Db → ModbusMasterMsg → Db × Bool)
    (capacity : Nat) (initial : Db) (s : State Db)
    (reached : (program writeMessage capacity initial).Reachable s) (pending : Pending s) :
    (s.flushCompleted = false → s.needFlush = true) ∧
      (∃ action t, isReader action = true ∧
        (program writeMessage capacity initial).step s action = some t ∧ t.reader ≠ s.reader) ∧
      (s.flushCompleted = false → ¬(s.reader = .waiting ∧ s.needFlush = false)) ∧
      (∀ action t, isReader action = true → s.flushCompleted = false →
        (program writeMessage capacity initial).step s action = some t →
        t.flushCompleted = true ∨ rank t < rank s) ∧
      (∀ actions t, (program writeMessage capacity initial).exec s actions = some t →
        (program writeMessage capacity initial).Throughout (fun u => u.flushCompleted = false)
          s actions → actions.countP isReader ≤ rank s) := by
  have asked := asked_while_pending reached pending
  refine ⟨asked, reader_enabled writeMessage capacity initial s, ?_, ?_, ?_⟩
  · rintro incomplete ⟨-, calm⟩
    simp [asked incomplete] at calm
  · intro action t reader incomplete step
    have valid := (queue_valid reached).1
    exact rank_reader valid (asked incomplete) reader (step_cases valid step)
  · intro actions t run incomplete
    exact reader_steps_le reached pending run incomplete

def rebootRequest : Json := .object [(bytes "token", .unsigned 123456)]

theorem pending_request_completed_first : ∃ s,
    (program keepAll 100 []).exec (program keepAll 100 []).init
      [.receive .reboot (some rebootRequest), .callback] = some s ∧ s.needFlush = true :=
  ⟨_, rfl, (pending_request_completed keepAll 100 [] _ (System.reachable_of_exec
    [.receive .reboot (some rebootRequest), .callback] rfl) ⟨123456, .inl rfl⟩).1 rfl⟩

/-! What a published response promises. -/

/-- When 'ready' is about to be published, every report accepted before the
request was received is written or overwritten, and none is still queued. -/
def FlushedBeforeReady (s : State Db) : Prop :=
  ∀ token, s.callback = .publishing token →
    ∀ before after, s.log = before ++ .received token :: after →
      ∀ entry ∈ entriesOf .accepted before,
        (entry ∈ entriesOf .written s.log ∨ entry ∈ entriesOf .overwritten s.log) ∧
          entry ∉ s.queue.contents

/-- The request is raised between the reader's last, failing read and its flag
reset, with reports queued since: the reset takes it for the round just ended. -/
def LosesRequest (s : State Db) : Action → Prop
  | .callback => s.callback.isRequesting = true ∧ s.reader = .finishing ∧ s.queue.size ≠ 0
  | _ => False

instance (s : State Db) : (action : Action) → Decidable (LosesRequest s action)
  | .callback => inferInstanceAs (Decidable (_ ∧ _ ∧ _))
  | .receive _ _ | .reader | .readerTimeout => inferInstanceAs (Decidable False)

/-- What the handshake keeps as long as no request is lost. -/
structure Prompt (s : State Db) : Prop where
  finishing : Pending s → s.flushCompleted = false → s.reader = .finishing → s.queue.contents = []
  completed : Pending s → s.flushCompleted = true → s.queue.contents = [] ∧ hand s = []
  publishing : ∀ token, s.callback = .publishing token → s.queue.contents = [] ∧ hand s = []

theorem Prompt.of_calm (calm : ¬Pending s) (silent : ∀ token, s.callback ≠ .publishing token) :
    Prompt s :=
  ⟨fun pending => absurd pending calm, fun pending => absurd pending calm,
    fun token same => absurd same (silent token)⟩

/-- A reader step that leaves the queue alone and ends neither a drain nor a round. -/
theorem Prompt.of_reader (prompt : Prompt s) {reader : ReaderPc} {db : Db} {log : Log}
    (drained : hand s = [] → hand { s with reader := reader, db := db, log := log } = [])
    (later : reader ≠ .finishing) : Prompt { s with reader := reader, db := db, log := log } := by
  refine ⟨fun _ _ same => absurd same later, fun pending complete => ?_, fun token same => ?_⟩
  · obtain ⟨empty, unheld⟩ := prompt.completed pending complete
    exact ⟨empty, drained unheld⟩
  · obtain ⟨empty, unheld⟩ := prompt.publishing token same
    exact ⟨empty, drained unheld⟩

theorem prompt_step {action : Action} (prompt : Prompt s) (kept : ¬LosesRequest s action)
    (step : Step writeMessage s action t) : Prompt t := by
  cases step with
  | ignores | waits | sleeps => exact prompt
  | accepts topic payload msg idle =>
    have same : (enqueue s msg).callback = .idle := idle
    refine Prompt.of_calm ?_ (by simp [same])
    rintro ⟨_, other | other⟩ <;> simp [same] at other
  | receives | publishes =>
    refine Prompt.of_calm ?_ (by simp)
    rintro ⟨_, other | other⟩ <;> cases other
  | requests token before =>
    refine ⟨fun _ _ finishing => ?_, fun _ complete => (nomatch complete), fun _ same => (nomatch same)⟩
    by_contra queued
    refine kept ⟨by simp [before, CallbackPc.isRequesting], finishing, fun empty => queued ?_⟩
    exact List.eq_nil_of_length_eq_zero ((MessageQueue.length_contents _).trans empty)
  | notifies token before =>
    have pending : Pending s := ⟨token, .inl before⟩
    exact ⟨fun _ => prompt.finishing pending, fun _ => prompt.completed pending,
      fun _ same => nomatch same⟩
  | leaves token before complete =>
    have drained := prompt.completed ⟨token, .inr before⟩ complete
    refine ⟨?_, ?_, fun _ _ => drained⟩ <;> rintro ⟨_, other | other⟩ <;> cases other
  | takes oldest rest before holds =>
    refine ⟨fun _ _ same => (nomatch same), fun pending complete => ?_, fun token same => ?_⟩
    · simp [(prompt.completed pending complete).1] at holds
    · simp [(prompt.publishing token same).1] at holds
  | writes entry before => exact prompt.of_reader (fun _ => rfl) (by simp)
  | empties before empty =>
    exact ⟨fun _ _ _ => empty, fun _ _ => ⟨empty, rfl⟩, fun _ _ => ⟨empty, rfl⟩⟩
  | finishes before =>
    refine ⟨fun _ incomplete => (nomatch incomplete), fun pending _ => ⟨?_, rfl⟩, fun token same => ?_⟩
    · cases complete : s.flushCompleted with
      | false => exact prompt.finishing pending complete before
      | true => exact (prompt.completed pending complete).1
    · exact ⟨(prompt.publishing token same).1, rfl⟩
  | blocks | begins | expires | measures | rounds =>
    exact prompt.of_reader (fun _ => rfl) (by simp)

theorem prompt (reached : (program writeMessage capacity initial).ReachableWhen
    (fun u action => ¬LosesRequest u action) s) : Prompt s := by
  refine invariant_of_step Prompt reached ?_ (fun u action v _ => prompt_step)
  refine Prompt.of_calm ?_ (fun token same => nomatch same)
  rintro ⟨_, other | other⟩ <;> cases other

theorem flushed_of_drained (reached : (program writeMessage capacity initial).Reachable s)
    (empty : s.queue.contents = []) (unheld : hand s = []) :
    ∀ entry ∈ entriesOf .accepted s.log,
      entry ∈ entriesOf .written s.log ∨ entry ∈ entriesOf .overwritten s.log := by
  have now := conserved reached
  obtain ⟨older, split⟩ := now.split
  intro entry member
  rw [split.accepted, empty, List.append_nil] at member
  rcases split.accounted entry member with taken | ⟨overwritten, _⟩
  · rw [now.handed, unheld, List.append_nil] at taken
    exact .inl taken
  · exact .inr overwritten

/-- The request being served was logged, and nothing was accepted after it. -/
theorem received_of_serving (reached : (program writeMessage capacity initial).Reachable s)
    {token : Int32} (serving : s.callback = .requesting token) :
    ∃ before after, s.log = before ++ .received token :: after ∧ entriesOf .accepted after = [] := by
  have rule := invariant_of_step (fun u : State Db => ∀ token, u.callback = .requesting token →
    ∃ before after, u.log = before ++ .received token :: after ∧ entriesOf .accepted after = [])
    reached (fun _ same => nomatch same) ?_
  · exact rule token serving
  · intro u action v _ holds _ step other same
    cases step with
    | ignores topic payload idle => simp [idle] at same
    | accepts topic payload msg idle =>
      have still : (enqueue u msg).callback = .idle := idle
      simp [still] at same
    | receives => cases same; exact ⟨u.log, [], rfl, rfl⟩
    | requests | notifies | leaves | publishes => cases same
    | takes oldest =>
      obtain ⟨before, after, log, none⟩ := holds other same
      exact ⟨before, after ++ [.report .taken oldest], by simp [log], by simp [none]⟩
    | writes entry =>
      obtain ⟨before, after, log, none⟩ := holds other same
      exact ⟨before, after ++ [.report .written entry], by simp [log], by simp [none]⟩
    | _ => exact holds other same

/-- Once a request is lost, the reader's next step answers it. -/
theorem lost_request_published (reached : (program writeMessage capacity initial).Reachable s)
    {action : Action} (loses : LosesRequest s action) :
    ∃ actions t, (program writeMessage capacity initial).exec s actions = some t ∧
      ¬FlushedBeforeReady t := by
  obtain ⟨token, requesting, finishing, queued⟩ : ∃ token, s.callback = .requesting token ∧
      s.reader = .finishing ∧ s.queue.contents ≠ [] := by
    cases action with
    | callback =>
      obtain ⟨requesting, finishing, queued⟩ := loses
      obtain ⟨token, same⟩ := CallbackPc.requesting_of_isRequesting requesting
      refine ⟨token, same, finishing, fun empty => queued ?_⟩
      rw [← MessageQueue.length_contents, empty, List.length_nil]
    | _ => exact loses.elim
  refine ⟨[.callback, .reader, .callback, .callback], { s with
    needFlush := false, flushCompleted := true, callback := .publishing token,
    reader := .notifying }, ?_, ?_⟩
  · simp [System.exec, program, callbackStep, readerStep, requesting, finishing]
  · intro flushed
    obtain ⟨before, after, log, none⟩ := received_of_serving reached requesting
    obtain ⟨entry, member⟩ := List.exists_mem_of_ne_nil _ queued
    obtain ⟨older, split⟩ := (conserved reached).split
    have accepted : entry ∈ entriesOf .accepted before := by
      have all : entry ∈ entriesOf .accepted s.log := by
        rw [split.accepted]
        exact List.mem_append_right _ member
      simpa [log, none] using all
    exact (flushed token rfl before after log entry accepted).2 member

/-- In every run that loses no request, 'ready' is published after everything
accepted before the request is written or overwritten. A step that loses a
request always has a continuation that publishes too early. -/
theorem ready_after_flush (writeMessage : Db → ModbusMasterMsg → Db × Bool) (capacity : Nat)
    (initial : Db) :
    (∀ s, (program writeMessage capacity initial).ReachableWhen
        (fun u action => ¬LosesRequest u action) s → FlushedBeforeReady s) ∧
      ∀ s action, (program writeMessage capacity initial).Reachable s → LosesRequest s action →
        ∃ actions t, (program writeMessage capacity initial).exec s actions = some t ∧
          ¬FlushedBeforeReady t := by
  constructor
  · intro s reached token publishing before after log entry member
    obtain ⟨empty, unheld⟩ := (prompt reached).publishing token publishing
    refine ⟨flushed_of_drained reached.reachable empty unheld entry ?_, by simp [empty]⟩
    rw [log, entriesOf_append]
    exact List.mem_append_left _ member
  · exact fun s action reached loses => lost_request_published reached loses

/-- The report and the request arrive between the reader's failing read and its flag reset. -/
def racingRequest : List Action :=
  [.reader, .readerTimeout, .reader, .reader, .receive .data (some sampleReport),
    .receive .reboot (some rebootRequest)]

theorem ready_not_after_flush :
    ¬∀ s, (program keepAll 100 []).Reachable s → FlushedBeforeReady s := by
  intro claim
  have flushed := claim _ (System.reachable_of_exec
    (racingRequest ++ [.callback, .reader, .callback, .callback]) rfl)
  exact (flushed 123456 rfl [_] [] rfl _ (mem_entriesOf.mpr (List.mem_cons_self ..))).2 (by decide)

/-- An idle reader answers a request after a round of its own. -/
def idleRequest : List Action :=
  [.receive .data (some sampleReport), .receive .reboot (some rebootRequest), .callback, .reader,
    .reader, .reader, .reader, .reader, .reader, .callback, .callback]

theorem ready_after_flush_instances :
    (∃ s, s.callback = .publishing 123456 ∧ FlushedBeforeReady (s : State (List ModbusMasterMsg))) ∧
      ∃ s t actions, (program keepAll 100 []).exec (program keepAll 100 []).init racingRequest =
        some s ∧ (program keepAll 100 []).exec s actions = some t ∧ ¬FlushedBeforeReady t := by
  constructor
  · exact ⟨_, rfl, (ready_after_flush keepAll 1 []).1 _
      (System.reachableWhen_of_exec idleRequest rfl)⟩
  · obtain ⟨actions, t, run, early⟩ := (ready_after_flush keepAll 100 []).2 _ .callback
      (System.reachable_of_exec racingRequest rfl) (by decide)
    exact ⟨_, t, actions, rfl, run, early⟩

end ModbusDatabase.Flush
