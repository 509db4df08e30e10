import ModbusDatabase.MessageQueue
import ModbusDatabase.Report

/-! The two threads of `main`: the mosquitto callback, which enqueues reports
and serves reboot requests, and the reader, which drains the queue into the
database. One step is one section under `g_mutex`, one queue operation, one
notification or one `writeMessage` call. -/

namespace ModbusDatabase.Threads
open Library Library.Transition Message Report
set_option autoImplicit false

/-- A report with its acceptance number. The number is a ghost: no step reads it. -/
structure Entry where
  number : Nat
  msg : ModbusMasterMsg
  deriving DecidableEq

instance : Inhabited Entry := ⟨0, default⟩

inductive Topic where
  | keepAlive
  | reboot
  | data
  | other
  deriving DecidableEq

/-- Where the callback thread stands inside the reboot handler. -/
inductive CallbackPc where
  | idle
  | requesting (token : Int32)
  | notifying (token : Int32)
  | waiting (token : Int32)
  | publishing (token : Int32)
  deriving DecidableEq

def CallbackPc.isRequesting : CallbackPc → Bool
  | .requesting _ => true
  | _ => false

theorem CallbackPc.requesting_of_isRequesting {pc : CallbackPc} (asks : pc.isRequesting = true) :
    ∃ token, pc = .requesting token := by
  cases pc with
  | requesting token => exact ⟨token, rfl⟩
  | _ => cases asks

inductive ReaderPc where
  | starting
  | waiting
  | measuring
  | draining
  | writing (entry : Entry)
  | finishing
  | notifying
  deriving DecidableEq

/-- What can happen to a report. -/
inductive Fate where
  | accepted
  | overwritten
  | taken
  | written
  deriving DecidableEq

inductive Event where
  | report (fate : Fate) (entry : Entry)
  | received (token : Int32)
  | ready (token : Int32)
  deriving DecidableEq

/-- What happened so far, oldest first. The log is a ghost: no step reads it,
except to number the next accepted report. -/
abbrev Log := List Event

def entriesOf (fate : Fate) (log : Log) : List Entry :=
  log.filterMap fun
    | .report other entry => if other = fate then some entry else none
    | _ => none

@[simp] theorem entriesOf_nil (fate : Fate) : entriesOf fate [] = [] := rfl

@[simp] theorem entriesOf_append (fate : Fate) (first later : Log) :
    entriesOf fate (first ++ later) = entriesOf fate first ++ entriesOf fate later :=
  List.filterMap_append

@[simp] theorem entriesOf_report (fate other : Fate) (entry : Entry) (log : Log) :
    entriesOf fate (.report other entry :: log) =
      if other = fate then entry :: entriesOf fate log else entriesOf fate log := by
  by_cases same : other = fate <;> simp [entriesOf, same]

@[simp] theorem entriesOf_received (fate : Fate) (token : Int32) (log : Log) :
    entriesOf fate (.received token :: log) = entriesOf fate log := rfl

@[simp] theorem entriesOf_ready (fate : Fate) (token : Int32) (log : Log) :
    entriesOf fate (.ready token :: log) = entriesOf fate log := rfl

@[simp] theorem mem_entriesOf {fate : Fate} {log : Log} {entry : Entry} :
    entry ∈ entriesOf fate log ↔ .report fate entry ∈ log := by
  induction log with
  | nil => simp
  | cons event rest ih =>
    cases event with
    | report other first =>
      by_cases same : other = fate
      · subst other
        simp [ih]
      · simp [ih, same, Ne.symm same]
    | received token => simp [ih]
    | ready token => simp [ih]

structure State (Db : Type*) where
  queue : MessageQueue Entry
  needFlush : Bool
  flushCompleted : Bool
  callback : CallbackPc
  reader : ReaderPc
  db : Db
  log : Log

/-- The scheduler's choice. A payload is `none` where `json::parse` throws. -/
inductive Action where
  | receive (topic : Topic) (payload : Option Json)
  | callback
  | reader
  | readerTimeout

/-- `j.contains("token") && j["token"].is_number_integer()`, then `get<int>()`. -/
def token? (j : Json) : Option Int32 := ((j.get? (bytes "token")).bind Json.integer?).map getInt

variable {Db : Type*}

def enqueue (s : State Db) (msg : ModbusMasterMsg) : State Db :=
  let entry : Entry := { number := (entriesOf .accepted s.log).length, msg := msg }
  let dropped := BoundedQueue.dropped s.queue.buffer.length s.queue.contents
  { s with queue := (s.queue.write entry).1
           log := s.log ++ dropped.map (.report .overwritten) ++ [.report .accepted entry] }

/-- The message callback up to the first wait. The keep-alive branch answers
without touching what the threads share. -/
def onMessage (s : State Db) (topic : Topic) (payload : Option Json) : State Db :=
  match topic, payload with
  | .reboot, some j =>
      match token? j with
      | some token => { s with callback := .requesting token, log := s.log ++ [.received token] }
      | none => s
  | .data, some j =>
      match parseModbusMsg j with
      | .ok msg => enqueue s msg
      | .error _ => s
  | _, _ => s

@[simp] theorem entriesOf_map_report (fate other : Fate) (entries : List Entry) :
    entriesOf fate (entries.map (.report other)) = if other = fate then entries else [] := by
  induction entries with
  | nil => simp
  | cons entry rest ih => by_cases same : other = fate <;> simp_all

/-- The next step of the reboot handler. Waking from the wait re-evaluates its predicate. -/
def callbackStep (s : State Db) : Option (State Db) :=
  match s.callback with
  | .idle => none
  | .requesting token =>
      some { s with needFlush := true, flushCompleted := false, callback := .notifying token }
  | .notifying token => some { s with callback := .waiting token }
  | .waiting token =>
      if s.flushCompleted then some { s with callback := .publishing token } else some s
  | .publishing token => some { s with callback := .idle, log := s.log ++ [.ready token] }

/-- The next step of the reader loop. A wake-up without the timeout having
passed leaves the wait only when its predicate holds. -/
def readerStep (writeMessage : Db → ModbusMasterMsg → Db × Bool) (s : State Db) : State Db :=
  match s.reader with
  | .starting => if s.needFlush then { s with reader := .measuring } else { s with reader := .waiting }
  | .waiting => if s.needFlush then { s with reader := .measuring } else s
  | .measuring => { s with reader := .draining }
  | .draining =>
      match s.queue.read default with
      | (queue, true, entry) =>
          { s with queue := queue, reader := .writing entry, log := s.log ++ [.report .taken entry] }
      | (_, false, _) => { s with reader := .finishing }
  | .writing entry =>
      { s with db := (writeMessage s.db entry.msg).1, reader := .draining,
               log := s.log ++ [.report .written entry] }
  | .finishing => { s with needFlush := false, flushCompleted := true, reader := .notifying }
  | .notifying => { s with reader := .starting }

/-- The two threads over a queue of the given capacity; `g_running` stays true. -/
def program (writeMessage : Db → ModbusMasterMsg → Db × Bool) (capacity : Nat) (db : Db) :
    System (State Db) Action where
  init :=
    { queue := MessageQueue.new capacity, needFlush := false, flushCompleted := false,
      callback := .idle, reader := .starting, db := db, log := [] }
  step s
    | .receive topic payload => if s.callback = .idle then some (onMessage s topic payload) else none
    | .callback => callbackStep s
    | .reader => some (readerStep writeMessage s)
    | .readerTimeout => if s.reader = .waiting then some { s with reader := .measuring } else none

/-- Everything one step can do, on a queue that meets its invariant. -/
inductive Step (writeMessage : Db → ModbusMasterMsg → Db × Bool) (s : State Db) :
    Action → State Db → Prop
  | ignores (topic : Topic) (payload : Option Json) (idle : s.callback = .idle) :
      Step writeMessage s (.receive topic payload) s
  | accepts (topic : Topic) (payload : Option Json) (msg : ModbusMasterMsg)
      (idle : s.callback = .idle) :
      Step writeMessage s (.receive topic payload) (enqueue s msg)
  | receives (topic : Topic) (payload : Option Json) (token : Int32) (idle : s.callback = .idle) :
      Step writeMessage s (.receive topic payload)
        { s with callback := .requesting token, log := s.log ++ [.received token] }
  | requests (token : Int32) (before : s.callback = .requesting token) :
      Step writeMessage s .callback
        { s with needFlush := true, flushCompleted := false, callback := .notifying token }
  | notifies (token : Int32) (before : s.callback = .notifying token) :
      Step writeMessage s .callback { s with callback := .waiting token }
  | waits (token : Int32) (before : s.callback = .waiting token)
      (incomplete : s.flushCompleted = false) : Step writeMessage s .callback s
  | leaves (token : Int32) (before : s.callback = .waiting token)
      (complete : s.flushCompleted = true) :
      Step writeMessage s .callback { s with callback := .publishing token }
  | publishes (token : Int32) (before : s.callback = .publishing token) :
      Step writeMessage s .callback { s with callback := .idle, log := s.log ++ [.ready token] }
  | blocks (before : s.reader = .starting) (calm : s.needFlush = false) :
      Step writeMessage s .reader { s with reader := .waiting }
  | sleeps (before : s.reader = .waiting) (calm : s.needFlush = false) :
      Step writeMessage s .reader s
  | begins (before : s.reader = .starting ∨ s.reader = .waiting) (asked : s.needFlush = true) :
      Step writeMessage s .reader { s with reader := .measuring }
  | expires (before : s.reader = .waiting) :
      Step writeMessage s .readerTimeout { s with reader := .measuring }
  | measures (before : s.reader = .measuring) :
      Step writeMessage s .reader { s with reader := .draining }
  | takes (oldest : Entry) (rest : List Entry) (before : s.reader = .draining)
      (holds : s.queue.contents = oldest :: rest) :
      Step writeMessage s .reader
        { s with queue := (s.queue.read default).1, reader := .writing oldest,
                 log := s.log ++ [.report .taken oldest] }
  | empties (before : s.reader = .draining) (empty : s.queue.contents = []) :
      Step writeMessage s .reader { s with reader := .finishing }
  | writes (entry : Entry) (before : s.reader = .writing entry) :
      Step writeMessage s .reader
        { s with db := (writeMessage s.db entry.msg).1, reader := .draining,
                 log := s.log ++ [.report .written entry] }
  | finishes (before : s.reader = .finishing) :
      Step writeMessage s .reader
        { s with needFlush := false, flushCompleted := true, reader := .notifying }
  | rounds (before : s.reader = .notifying) :
      Step writeMessage s .reader { s with reader := .starting }

section Inversion

variable {writeMessage : Db → ModbusMasterMsg → Db × Bool} {capacity : Nat} {db : Db}
  {s t : State Db}

theorem step_receive {topic : Topic} {payload : Option Json} (idle : s.callback = .idle) :
    Step writeMessage s (.receive topic payload) (onMessage s topic payload) := by
  unfold onMessage
  split
  · split
    · exact .receives _ _ _ idle
    · exact .ignores _ _ idle
  · split
    · exact .accepts _ _ _ idle
    · exact .ignores _ _ idle
  · exact .ignores _ _ idle

theorem step_callback (step : callbackStep s = some t) : Step writeMessage s .callback t := by
  unfold callbackStep at step
  split at step
  next => cases step
  next token before => cases step; exact .requests token before
  next token before => cases step; exact .notifies token before
  next token before =>
    split at step
    next complete => cases step; exact .leaves token before complete
    next incomplete => cases step; exact .waits token before (by simpa using incomplete)
  next token before => cases step; exact .publishes token before

theorem step_reader (valid : s.queue.Valid) :
    Step writeMessage s .reader (readerStep writeMessage s) := by
  unfold readerStep
  split
  next before =>
    split
    next asked => exact .begins (.inl before) asked
    next calm => exact .blocks before (by simpa using calm)
  next before =>
    split
    next asked => exact .begins (.inr before) asked
    next calm => exact .sleeps before (by simpa using calm)
  next before => exact .measures before
  next before =>
    cases holds : s.queue.contents with
    | nil =>
      rw [MessageQueue.read_of_empty holds]
      exact .empties before holds
    | cons oldest rest =>
      obtain ⟨reply, _⟩ := MessageQueue.read_of_cons valid holds default
      rw [show s.queue.read default = ((s.queue.read default).1, true, oldest) from Prod.ext rfl reply]
      exact .takes oldest rest before holds
  next entry before => exact .writes entry before
  next before => exact .finishes before
  next before => exact .rounds before

theorem step_cases {action : Action} (valid : s.queue.Valid)
    (step : (program writeMessage capacity db).step s action = some t) :
    Step writeMessage s action t := by
  cases action with
  | receive topic payload =>
    obtain ⟨idle, same⟩ := Option.ite_none_right_eq_some.mp step
    cases same
    exact step_receive idle
  | callback => exact step_callback step
  | reader => cases step; exact step_reader valid
  | readerTimeout =>
    obtain ⟨before, same⟩ := Option.ite_none_right_eq_some.mp step
    cases same
    exact .expires before

/-- The queue keeps its invariant and its capacity whatever the threads do. -/
theorem Step.queue_valid {action : Action} (step : Step writeMessage s action t)
    (valid : s.queue.Valid) :
    t.queue.Valid ∧ t.queue.buffer.length = s.queue.buffer.length := by
  cases step with
  | accepts topic payload msg idle =>
    exact ⟨MessageQueue.valid_write valid _, MessageQueue.length_write _ _⟩
  | takes oldest rest before holds =>
    exact ⟨MessageQueue.valid_read valid _, MessageQueue.length_read _ _⟩
  | _ => exact ⟨valid, rfl⟩

theorem queue_valid (reached : (program writeMessage capacity db).Reachable s) :
    s.queue.Valid ∧ s.queue.buffer.length = max capacity 1 := by
  refine System.Reachable.invariant
    (fun u => u.queue.Valid ∧ u.queue.buffer.length = max capacity 1) reached
    ⟨MessageQueue.valid_new capacity, MessageQueue.length_new capacity⟩ ?_
  intro s action t holds step
  obtain ⟨valid, same⟩ := (step_cases holds.1 step).queue_valid holds.1
  exact ⟨valid, same.trans holds.2⟩

/-- The induction rule for the two threads: an invariant is checked on the cases
of `Step`, over runs all of whose steps are allowed. -/
theorem invariant_of_step {allowed : State Db → Action → Prop} (Holds : State Db → Prop)
    (reached : (program writeMessage capacity db).ReachableWhen allowed s)
    (start : Holds (program writeMessage capacity db).init)
    (keep : ∀ s action t, (program writeMessage capacity db).Reachable s → Holds s →
      allowed s action → Step writeMessage s action t → Holds t) : Holds s :=
  System.ReachableWhen.invariant Holds reached start (fun s action t before holds permitted step =>
    keep s action t before holds permitted (step_cases (queue_valid before).1 step))

end Inversion

/-! What the messages bring in. -/

inductive Arrival where
  | report (msg : ModbusMasterMsg)
  | request (token : Int32)

def Arrival.report? : Arrival → Option ModbusMasterMsg
  | .report msg => some msg
  | .request _ => none

def Arrival.request? : Arrival → Option Int32
  | .report _ => none
  | .request token => some token

/-- The log shows what is accepted and what is received. -/
def Event.arrival? : Event → Option Arrival
  | .report .accepted entry => some (.report entry.msg)
  | .received token => some (.request token)
  | _ => none

/-- What a step brings in is what the callback makes of its payload. -/
def Action.arrival? : Action → Option Arrival
  | .receive .data payload => payload.bind fun j => (parseModbusMsg j).toOption.map .report
  | .receive .reboot payload => payload.bind fun j => (token? j).map .request
  | _ => none

/-- What came in so far, oldest first. -/
def arrivals (log : Log) : List Arrival := log.filterMap Event.arrival?

section Arrivals

variable {writeMessage : Db → ModbusMasterMsg → Db × Bool} {capacity : Nat} {db : Db}
  {s t : State Db}

@[simp] theorem arrivals_append (first later : Log) :
    arrivals (first ++ later) = arrivals first ++ arrivals later := List.filterMap_append

theorem arrivals_enqueue (s : State Db) (msg : ModbusMasterMsg) :
    arrivals (enqueue s msg).log = arrivals s.log ++ [.report msg] := by
  have overwritten (entries : List Entry) : arrivals (entries.map (.report .overwritten)) = [] := by
    rw [arrivals, List.filterMap_map, List.filterMap_eq_nil_iff]
    exact fun _ _ => rfl
  rw [enqueue, arrivals_append, arrivals_append, overwritten, List.append_nil]
  rfl

theorem arrivals_onMessage (s : State Db) (topic : Topic) (payload : Option Json) :
    arrivals (onMessage s topic payload).log =
      arrivals s.log ++ (Action.receive topic payload).arrival?.toList := by
  match topic, payload with
  | .reboot, some j =>
    rw [onMessage, Action.arrival?, Option.bind_some]
    cases token? j with
    | some token => exact arrivals_append s.log [.received token]
    | none => exact (List.append_nil _).symm
  | .data, some j =>
    rw [onMessage, Action.arrival?, Option.bind_some]
    cases parseModbusMsg j with
    | ok msg => exact arrivals_enqueue s msg
    | error rejection => exact (List.append_nil _).symm
  | .data, none | .reboot, none | .keepAlive, _ | .other, _ => exact (List.append_nil _).symm

/-- A step logs what it brings in, and no other arrival. -/
theorem arrivals_step {action : Action} (valid : s.queue.Valid)
    (step : (program writeMessage capacity db).step s action = some t) :
    arrivals t.log = arrivals s.log ++ action.arrival?.toList := by
  -- `Step` does not tell which payload it was that was accepted
  have silent (done : Step writeMessage s action t) (other : ∀ topic payload, action ≠ .receive topic payload) :
      arrivals t.log = arrivals s.log := by
    cases done with
    | ignores topic payload | accepts topic payload | receives topic payload =>
      exact absurd rfl (other topic payload)
    | publishes | takes | writes => exact (arrivals_append _ _).trans (List.append_nil _)
    | _ => rfl
  cases action with
  | receive topic payload =>
    obtain ⟨-, same⟩ := Option.ite_none_right_eq_some.mp step
    rw [← Option.some.inj same]
    exact arrivals_onMessage s topic payload
  | _ =>
    rw [silent (step_cases valid step) fun _ _ same => nomatch same]
    exact (List.append_nil _).symm

theorem arrivals_exec (reached : (program writeMessage capacity db).Reachable s) {actions : List Action}
    (run : (program writeMessage capacity db).exec s actions = some t) :
    arrivals t.log = arrivals s.log ++ actions.filterMap Action.arrival? := by
  induction actions generalizing s with
  | nil =>
    cases run
    exact (List.append_nil _).symm
  | cons action actions ih =>
    obtain ⟨middle, first, later⟩ := System.exec_cons_some run
    calc arrivals t.log
        = arrivals middle.log ++ actions.filterMap Action.arrival? := ih (reached.next first) later
      _ = arrivals s.log ++ action.arrival?.toList ++ actions.filterMap Action.arrival? := by
          rw [arrivals_step (queue_valid reached).1 first]
      _ = arrivals s.log ++ (action :: actions).filterMap Action.arrival? := by
          rw [List.append_assoc, List.filterMap_cons]
          cases action.arrival? <;> rfl

end Arrivals

end ModbusDatabase.Threads
