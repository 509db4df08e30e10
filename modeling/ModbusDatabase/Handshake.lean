import ModbusDatabase.Flush
import ModbusDatabase.Library.Fairness
import ModbusDatabase.Tokens

/-! The two threads over time. At every moment the callback thread has done one
thing after the other, and in an endless run in which both threads go on, every
reboot request is answered and every report leaves the queue. -/

namespace ModbusDatabase.Handshake
open Library Library.Transition Library.Fairness Message Report Threads Conservation Flush Tokens
set_option autoImplicit false

/-- A server of one client at a time: a report is accepted only between two requests, and a
request is answered with its own token before the next one is received. -/
def protocol : System (Option Int32) Event where
  init := none
  step
    | none, .received token => some (some token)
    | some token, .ready answer => if answer = token then some none else none
    | none, .report .accepted _ => some none
    | none, .report .overwritten _ => some none
    | serving, .report .taken _ => some serving
    | serving, .report .written _ => some serving
    | _, _ => none

theorem protocol_ready (token : Int32) : protocol.step (some token) (.ready token) = some none :=
  if_pos rfl

/-- The tokens of the reboot requests that were received, oldest first. -/
def requests (log : Log) : List Int32 :=
  log.filterMap fun
    | .received token => some token
    | _ => none

/-- In the protocol the answers follow the requests, one by one. -/
theorem requests_of_protocol {log : Log} {before after : Option Int32}
    (run : protocol.exec before log = some after) :
    before.toList ++ requests log = answers log ++ after.toList := by
  induction log generalizing before with
  | nil =>
    cases run
    exact List.append_nil _
  | cons event rest ih =>
    obtain ⟨middle, first, later⟩ := System.exec_cons_some run
    have onward := ih later
    cases event with
    | received token =>
      cases before with
      | none =>
        cases first
        exact onward
      | some other => cases first
    | ready answer =>
      cases before with
      | none => cases first
      | some token =>
        obtain ⟨same, next⟩ := Option.ite_none_right_eq_some.mp first
        cases next
        subst same
        exact congrArg (answer :: ·) onward
    | report fate entry =>
      have kept : middle = before := by
        cases fate <;> cases before <;> cases first <;> rfl
      rw [kept] at onward
      exact onward

theorem exec_overwritten (entries : List Threads.Entry) :
    protocol.exec none (entries.map (.report .overwritten)) = some none := by
  induction entries with
  | nil => rfl
  | cons entry rest ih => exact ih

variable {Db : Type*} {writeMessage : Db → ModbusMasterMsg → Db × Bool} {capacity : Nat}
  {initial : Db} {s t : State Db}

/-- What a step logs is what the protocol does meanwhile. -/
theorem protocol_step {action : Action} (step : Step writeMessage s action t) :
    ∃ more, t.log = s.log ++ more ∧
      protocol.exec (inHand s.callback) more = some (inHand t.callback) := by
  have nothing : protocol.exec (inHand s.callback) [] = some (inHand s.callback) := rfl
  cases step with
  | accepts topic payload msg idle =>
    refine ⟨_, List.append_assoc _ _ _, ?_⟩
    change protocol.exec (inHand s.callback) _ = some (inHand s.callback)
    rw [idle, inHand, System.exec_append, exec_overwritten]
    rfl
  | receives topic payload token idle =>
    refine ⟨[.received token], rfl, ?_⟩
    rw [idle]
    rfl
  | publishes token before =>
    refine ⟨[.ready token], rfl, ?_⟩
    rw [before]
    change (protocol.step (some token) (.ready token)).bind _ = _
    rw [protocol_ready]
    rfl
  | takes oldest rest before holds => exact ⟨[.report .taken oldest], rfl, by cases s.callback <;> rfl⟩
  | writes entry before => exact ⟨[.report .written entry], rfl, by cases s.callback <;> rfl⟩
  | requests token before | notifies token before | leaves token before complete =>
    refine ⟨[], (List.append_nil _).symm, ?_⟩
    rw [before]
    rfl
  | _ => exact ⟨[], (List.append_nil _).symm, nothing⟩

/-- The log of every run follows the protocol. -/
theorem follows (reached : (program writeMessage capacity initial).Reachable s) :
    protocol.exec none s.log = some (inHand s.callback) := by
  refine invariant_of_step (fun u => protocol.exec none u.log = some (inHand u.callback)) reached rfl ?_
  intro u action v _ before _ step
  obtain ⟨more, log, onward⟩ := protocol_step step
  rw [log, System.exec_append, before]
  exact onward

theorem requests_eq (reached : (program writeMessage capacity initial).Reachable s) :
    requests s.log = answers s.log ++ (inHand s.callback).toList :=
  requests_of_protocol (follows reached)

/-- The integer under `token` in a reboot request. -/
def asked : Action → Option Int
  | .receive .reboot payload => payload.bind fun j => (j.get? (bytes "token")).bind Json.integer?
  | _ => none

theorem requests_eq_arrivals (log : Log) : requests log = (arrivals log).filterMap Arrival.request? := by
  rw [arrivals, List.filterMap_filterMap, requests]
  refine List.filterMap_congr fun event _ => ?_
  cases event with
  | report fate entry => cases fate <;> rfl
  | received token => rfl
  | ready token => rfl

theorem request_of_asked (action : Action) :
    action.arrival?.bind Arrival.request? = (asked action).map getInt := by
  match action with
  | .receive .reboot (some j) =>
    rw [Action.arrival?, asked, Option.bind_some, Option.bind_some, ← token?]
    cases token? j <;> rfl
  | .receive .data (some j) =>
    rw [Action.arrival?, Option.bind_some]
    cases parseModbusMsg j <;> rfl
  | .receive .data none | .receive .reboot none | .receive .keepAlive _ | .receive .other _ => rfl
  | .callback | .reader | .readerTimeout => rfl

/-- The requests that a run receives are those it was asked for, with the tokens that
`get<int>` makes of their integers. -/
theorem requests_exec (reached : (program writeMessage capacity initial).Reachable s) {actions : List Action}
    (run : (program writeMessage capacity initial).exec s actions = some t) :
    requests t.log = requests s.log ++ (actions.filterMap asked).map getInt := by
  have received : (actions.filterMap Action.arrival?).filterMap Arrival.request? =
      (actions.filterMap asked).map getInt := by
    rw [List.filterMap_filterMap, List.map_filterMap]
    exact List.filterMap_congr fun action _ => request_of_asked action
  rw [requests_eq_arrivals, requests_eq_arrivals, arrivals_exec reached run, List.filterMap_append, received]

/-- However the threads interleave, what they do is a run of the protocol. The requests are
received with the tokens that `get<int>` makes of their integers, and answered once each, with
these tokens and in the order in which they came. No report is accepted while one of them is
being served. -/
theorem one_at_a_time (writeMessage : Db → ModbusMasterMsg → Db × Bool) (capacity : Nat)
    (initial : Db) {actions : List Action} {s : State Db}
    (run : (program writeMessage capacity initial).exec (program writeMessage capacity initial).init
      actions = some s) :
    protocol.exec none s.log = some (inHand s.callback) ∧
      requests s.log = (actions.filterMap asked).map getInt ∧
      requests s.log = answers s.log ++ (inHand s.callback).toList := by
  have start : (program writeMessage capacity initial).Reachable (program writeMessage capacity initial).init :=
    .refl
  have reached := System.reachable_of_exec actions run
  exact ⟨follows reached, requests_exec start run, requests_eq reached⟩

/-- A request that no `int` holds is received, and will be answered, with another token. -/
def wideRequest : List Action :=
  [.receive .data (some Report.sampleReport), .receive .reboot (some (request (.unsigned 4294967303))),
    .callback]

theorem one_at_a_time_wide : ∃ s,
    (program keepAll 1 []).exec (program keepAll 1 []).init wideRequest = some s ∧
      answers s.log ++ (inHand s.callback).toList = [7] := by
  have ran : ((program keepAll 1 []).exec (program keepAll 1 []).init wideRequest).isSome = true := rfl
  obtain ⟨s, run⟩ := Option.isSome_iff_exists.mp ran
  refine ⟨s, run, ?_⟩
  obtain ⟨-, received, served⟩ := one_at_a_time keepAll 1 [] run
  rw [← served, received]
  decide

/-! Endless runs. Both threads are scheduled again and again, and the sleep of
the reader ends, as its `wait_for` has a timeout. -/

/-- The reader gets on: it is not stuck at one place for ever. -/
def ReaderMoves (run : Run (program writeMessage capacity initial)) (n : Nat) : Prop :=
  isReader (run.action n) = true ∧ (run.state (n + 1)).reader ≠ (run.state n).reader

/-- The callback thread takes a step, unless it has none to take. -/
def CallbackTurn (run : Run (program writeMessage capacity initial)) (n : Nat) : Prop :=
  (run.state n).callback = .idle ∨ run.action n = .callback

structure Fair (run : Run (program writeMessage capacity initial)) : Prop where
  reader : Recurs (ReaderMoves run)
  callback : Recurs (CallbackTurn run)

theorem step_of_run (run : Run (program writeMessage capacity initial)) (n : Nat) :
    Step writeMessage (run.state n) (run.action n) (run.state (n + 1)) :=
  step_cases (queue_valid (run.reachable n)).1 (run.step n)

/-! A fair run: the threads take turns, two steps of the reader to each one of the callback
thread, which gets one report and after it one reboot request after the other. -/

def readerTurn (s : State Db) : Action :=
  if s.reader = .waiting then .readerTimeout else .reader

def turn (n : Nat) (s : State Db) : Action :=
  if n % 3 = 0 then
    if s.callback = .idle then
      if n = 0 then .receive .data (some Report.sampleReport) else .receive .reboot (some rebootRequest)
    else .callback
  else readerTurn s

theorem isSome_callbackStep (busy : s.callback ≠ .idle) : (callbackStep s).isSome = true := by
  unfold callbackStep
  split
  next idle => exact absurd idle busy
  next => rfl
  next => rfl
  next => split <;> rfl
  next => rfl

theorem readerTurn_enabled (writeMessage : Db → ModbusMasterMsg → Db × Bool) (capacity : Nat)
    (initial : Db) (s : State Db) :
    ((program writeMessage capacity initial).step s (readerTurn s)).isSome = true := by
  unfold readerTurn
  split_ifs with asleep
  · exact Option.isSome_of_eq_some (if_pos asleep)
  · rfl

theorem turn_enabled (writeMessage : Db → ModbusMasterMsg → Db × Bool) (capacity : Nat) (initial : Db)
    (n : Nat) (s : State Db) :
    ((program writeMessage capacity initial).step s (turn n s)).isSome = true := by
  unfold turn
  split_ifs with own idle first
  · exact Option.isSome_of_eq_some (if_pos idle)
  · exact Option.isSome_of_eq_some (if_pos idle)
  · exact isSome_callbackStep idle
  · exact readerTurn_enabled writeMessage capacity initial s

/-- The run of these turns. -/
def alternating (writeMessage : Db → ModbusMasterMsg → Db × Bool) (capacity : Nat) (initial : Db) :
    Run (program writeMessage capacity initial) :=
  schedule _ turn (turn_enabled writeMessage capacity initial)

/-- A turn of the reader moves it. -/
theorem readerTurn_moves (taken : (program writeMessage capacity initial).step s (readerTurn s) = some t) :
    isReader (readerTurn s) = true ∧ t.reader ≠ s.reader := by
  by_cases asleep : s.reader = .waiting
  · have timeout : readerTurn s = .readerTimeout := if_pos asleep
    rw [timeout] at taken ⊢
    obtain ⟨-, same⟩ := Option.ite_none_right_eq_some.mp taken
    cases same
    exact ⟨rfl, by simp [asleep]⟩
  · have reads : readerTurn s = .reader := if_neg asleep
    rw [reads] at taken ⊢
    obtain ⟨action, next, kind, step, moved⟩ := reader_enabled writeMessage capacity initial s
    cases action with
    | reader =>
      cases step
      cases taken
      exact ⟨rfl, moved⟩
    | readerTimeout => exact absurd (Option.ite_none_right_eq_some.mp step).1 asleep
    | _ => cases kind

/-- A run whose next action is the reader's turn. -/
theorem readerMoves_of_turn {run : Run (program writeMessage capacity initial)} {n : Nat}
    (own : run.action n = readerTurn (run.state n)) : ReaderMoves run n := by
  have taken := run.step n
  rw [own] at taken
  rw [ReaderMoves, own]
  exact readerTurn_moves taken

theorem fair_alternating (writeMessage : Db → ModbusMasterMsg → Db × Bool) (capacity : Nat)
    (initial : Db) : Fair (alternating writeMessage capacity initial) where
  reader n := by
    have own : (3 * n + 1) % 3 ≠ 0 := by omega
    exact ⟨3 * n + 1, by omega, readerMoves_of_turn (if_neg own)⟩
  callback n := by
    refine ⟨3 * n, by omega, ?_⟩
    by_cases idle : ((alternating writeMessage capacity initial).state (3 * n)).callback = .idle
    · exact .inl idle
    · right
      change turn (3 * n) _ = _
      rw [turn, if_pos (by omega)]
      exact if_neg idle

/-! Every request is answered. -/

/-- The callback thread at a place, with these answers given so far. -/
def At (pc : CallbackPc) (given : List Int32) (s : State Db) : Prop :=
  s.callback = pc ∧ answers s.log = given

/-- Only a step of its own moves the callback thread when it is busy, and only the last one answers. -/
theorem at_of_step {pc : CallbackPc} {given : List Int32} {action : Action} (here : At pc given s)
    (busy : pc ≠ .idle) (step : Step writeMessage s action t) (other : action ≠ .callback) :
    At pc given t := by
  obtain ⟨place, log⟩ := here
  cases step with
  | ignores topic payload idle | accepts topic payload msg idle | receives topic payload token idle =>
    exact absurd (place.symm.trans idle) busy
  | requests | notifies | waits | leaves | publishes => exact absurd rfl other
  | takes | writes =>
    refine ⟨place, ?_⟩
    rw [answers_append, log]
    exact List.append_nil given
  | _ => exact ⟨place, log⟩

/-- The completion flag is lowered by the next request only. -/
theorem completed_of_step {action : Action} (complete : s.flushCompleted = true)
    (step : Step writeMessage s action t) (other : action ≠ .callback) : t.flushCompleted = true := by
  cases step with
  | requests => exact absurd rfl other
  | finishes => rfl
  | _ => exact complete

/-- While the request is not completed its handler stays in the wait. -/
theorem waiting_of_step {token : Int32} {given : List Int32} {action : Action}
    (here : At (.waiting token) given s) (incomplete : s.flushCompleted = false)
    (step : Step writeMessage s action t) : At (.waiting token) given t := by
  by_cases own : action = .callback
  · subst own
    cases step with
    | waits => exact here
    | leaves _ _ complete => simp [incomplete] at complete
    | requests _ before | notifies _ before | publishes _ before => cases here.1.symm.trans before
  · exact at_of_step here (by simp) step own

section
variable {run : Run (program writeMessage capacity initial)} (fair : Fair run)
include fair

/-- A place where the next step of the callback thread is the one that counts. -/
theorem leadsTo_of_callback {Busy Done : State Db → Prop} (busy : ∀ s, Busy s → s.callback ≠ .idle)
    (others : ∀ s action t, Busy s → Step writeMessage s action t → action ≠ .callback →
      Done t ∨ Busy t)
    (counts : ∀ s t, Busy s → Step writeMessage s .callback t → Done t) : run.LeadsTo Busy Done := by
  refine Run.leadsTo_of_rank (fun _ => 0) (fun n => run.action n = .callback) ?_ ?_ ?_
  · intro n here
    have step := step_of_run run n
    by_cases own : run.action n = .callback
    · rw [own] at step
      exact .inl (counts _ _ here step)
    · exact (others _ _ _ here step own).imp_right fun next => ⟨next, le_rfl⟩
  · intro n here own
    have step := step_of_run run n
    rw [own] at step
    exact .inl (counts _ _ here step)
  · exact fair.callback.mono fun n turn here => turn.resolve_left (busy _ here)

theorem leadsTo_notifying (token : Int32) (given : List Int32) :
    run.LeadsTo (At (.requesting token) given) (At (.notifying token) given) := by
  refine leadsTo_of_callback fair ?_ ?_ ?_
  · intro s here idle
    cases here.1.symm.trans idle
  · exact fun s action t here step other => .inr (at_of_step here (by simp) step other)
  · intro s t here step
    cases step with
    | requests other before =>
      cases here.1.symm.trans before
      exact ⟨rfl, here.2⟩
    | notifies _ before | waits _ before | leaves _ before | publishes _ before =>
      cases here.1.symm.trans before

theorem leadsTo_waiting (token : Int32) (given : List Int32) :
    run.LeadsTo (At (.notifying token) given) (At (.waiting token) given) := by
  refine leadsTo_of_callback fair ?_ ?_ ?_
  · intro s here idle
    cases here.1.symm.trans idle
  · exact fun s action t here step other => .inr (at_of_step here (by simp) step other)
  · intro s t here step
    cases step with
    | notifies other before =>
      cases here.1.symm.trans before
      exact ⟨rfl, here.2⟩
    | requests _ before | waits _ before | leaves _ before | publishes _ before =>
      cases here.1.symm.trans before

/-- The reader completes the request that is waited for. -/
theorem leadsTo_completed (token : Int32) (given : List Int32) :
    run.LeadsTo (At (.waiting token) given)
      fun s => At (.waiting token) given s ∧ s.flushCompleted = true := by
  have asleep (n : Nat) (here : At (.waiting token) given (run.state n)) : Pending (run.state n) :=
    ⟨token, .inr here.1⟩
  have works : run.LeadsTo (fun s => At (.waiting token) given s ∧ s.flushCompleted = false)
      fun s => At (.waiting token) given s ∧ s.flushCompleted = true := by
    refine Run.leadsTo_of_rank rank (fun n => isReader (run.action n) = true) ?_ ?_ ?_
    · rintro n ⟨here, incomplete⟩
      have next := waiting_of_step here incomplete (step_of_run run n)
      cases complete : (run.state (n + 1)).flushCompleted with
      | true => exact .inl ⟨next, rfl⟩
      | false =>
        refine .inr ⟨⟨next, rfl⟩, ?_⟩
        cases kind : isReader (run.action n) with
        | true =>
          have asked := asked_while_pending (run.reachable n) (asleep n here) incomplete
          have closer := rank_reader (queue_valid (run.reachable n)).1 asked kind (step_of_run run n)
          exact (closer.resolve_left (by simp [complete])).le
        | false => exact (rank_callback (asleep n here) incomplete kind (step_of_run run n)).2.le
    · rintro n ⟨here, incomplete⟩ kind
      have asked := asked_while_pending (run.reachable n) (asleep n here) incomplete
      have closer := rank_reader (queue_valid (run.reachable n)).1 asked kind (step_of_run run n)
      exact closer.imp_left fun complete => ⟨waiting_of_step here incomplete (step_of_run run n), complete⟩
    · exact fair.reader.mono fun n moves _ => moves.1
  intro n here
  cases complete : (run.state n).flushCompleted with
  | true => exact ⟨n, le_rfl, here, complete⟩
  | false => exact works n ⟨here, complete⟩

theorem leadsTo_publishing (token : Int32) (given : List Int32) :
    run.LeadsTo (fun s => At (.waiting token) given s ∧ s.flushCompleted = true)
      (At (.publishing token) given) := by
  refine leadsTo_of_callback fair ?_ ?_ ?_
  · rintro s ⟨here, -⟩ idle
    cases here.1.symm.trans idle
  · intro s action t ⟨here, complete⟩ step other
    exact .inr ⟨at_of_step here (by simp) step other, completed_of_step complete step other⟩
  · intro s t ⟨here, complete⟩ step
    cases step with
    | leaves other before =>
      cases here.1.symm.trans before
      exact ⟨rfl, here.2⟩
    | waits other before incomplete => simp [complete] at incomplete
    | requests _ before | notifies _ before | publishes _ before => cases here.1.symm.trans before

theorem leadsTo_answered (token : Int32) (given : List Int32) :
    run.LeadsTo (At (.publishing token) given) (At .idle (given ++ [token])) := by
  refine leadsTo_of_callback fair ?_ ?_ ?_
  · intro s here idle
    cases here.1.symm.trans idle
  · exact fun s action t here step other => .inr (at_of_step here (by simp) step other)
  · intro s t here step
    cases step with
    | publishes other before =>
      cases here.1.symm.trans before
      refine ⟨rfl, ?_⟩
      rw [answers_append, here.2]
      rfl
    | requests _ before | notifies _ before | waits _ before | leaves _ before =>
      cases here.1.symm.trans before

/-- From every place in the handler the callback thread gets to its answer. -/
theorem leadsTo_idle {pc : CallbackPc} {token : Int32} (serves : inHand pc = some token)
    (given : List Int32) : run.LeadsTo (At pc given) (At .idle (given ++ [token])) := by
  have published := leadsTo_answered fair token given
  have waited := ((leadsTo_completed fair token given).trans (leadsTo_publishing fair token given)).trans
    published
  have notified := (leadsTo_waiting fair token given).trans waited
  have requested := (leadsTo_notifying fair token given).trans notified
  cases pc with
  | idle => cases serves
  | requesting _ => cases serves; exact requested
  | notifying _ => cases serves; exact notified
  | waiting _ => cases serves; exact waited
  | publishing _ => cases serves; exact published

/-- Whatever requests were received at some moment, there comes one at which exactly they are answered. -/
theorem requests_answered (n : Nat) :
    ∃ m, n ≤ m ∧ answers (run.state m).log = requests (run.state n).log := by
  have order := requests_eq (run.reachable n)
  cases serves : inHand (run.state n).callback with
  | none =>
    rw [serves, Option.toList_none, List.append_nil] at order
    exact ⟨n, le_rfl, order.symm⟩
  | some token =>
    obtain ⟨m, later, -, answered⟩ := leadsTo_idle fair serves _ n ⟨rfl, rfl⟩
    rw [serves, Option.toList_some] at order
    exact ⟨m, later, answered.trans order.symm⟩

end

theorem requests_answered_fourth : ∃ m, 4 ≤ m ∧
    answers ((alternating keepAll 100 []).state m).log = [123456] :=
  requests_answered (fair_alternating keepAll 100 []) 4

/-! Where an accepted report ends up. -/

/-- Reader steps until the next read from a queue that is not empty. -/
def distance : ReaderPc → Nat
  | .draining => 0
  | .writing _ => 1
  | .measuring => 1
  | .waiting => 2
  | .starting => 3
  | .notifying => 4
  | .finishing => 5

/-- Reader steps until a queued report is read, where each one before it takes at most six. -/
def turns (entry : Threads.Entry) (s : State Db) : Nat :=
  6 * s.queue.contents.idxOf entry + distance s.reader

/-- The report is out of the queue. -/
def Out (entry : Threads.Entry) (s : State Db) : Prop :=
  hand s = [entry] ∨ entry ∈ entriesOf .overwritten s.log

/-- A full queue drops its oldest report, and the others move up. -/
theorem queued_of_enqueue {entry : Threads.Entry} (valid : s.queue.Valid)
    (queued : entry ∈ s.queue.contents) (msg : ModbusMasterMsg) :
    Out entry (enqueue s msg) ∨ entry ∈ (enqueue s msg).queue.contents ∧
      turns entry (enqueue s msg) ≤ turns entry s := by
  let added : Threads.Entry := ⟨(entriesOf .accepted s.log).length, msg⟩
  have contents : (enqueue s msg).queue.contents =
      BoundedQueue.push s.queue.buffer.length s.queue.contents added :=
    MessageQueue.contents_write valid added
  have reader : (enqueue s msg).reader = s.reader := rfl
  by_cases full : s.queue.contents.length = s.queue.buffer.length
  · obtain ⟨oldest, rest, holds⟩ := List.exists_cons_of_ne_nil (List.ne_nil_of_mem queued)
    rw [BoundedQueue.push_of_full full, holds, List.tail_cons] at contents
    by_cases first : entry = oldest
    · have dropped : BoundedQueue.dropped s.queue.buffer.length s.queue.contents = [oldest] := by
        rw [BoundedQueue.dropped, if_pos full, holds]
        rfl
      refine .inl (.inr ?_)
      rw [enqueue, dropped, first]
      simp
    · have later : entry ∈ rest := by
        rw [holds] at queued
        exact (List.mem_cons.mp queued).resolve_left first
      have moves : (s.queue.contents).idxOf entry = rest.idxOf entry + 1 := by
        rw [holds]
        exact List.idxOf_cons_ne rest (Ne.symm first)
      refine .inr ⟨?_, ?_⟩
      · rw [contents]
        exact List.mem_append_left _ later
      · rw [turns, turns, contents, reader, moves, List.idxOf_append_of_mem later]
        omega
  · rw [BoundedQueue.push_of_room full] at contents
    refine .inr ⟨?_, ?_⟩
    · rw [contents]
      exact List.mem_append_left _ queued
    · rw [turns, turns, contents, reader, List.idxOf_append_of_mem queued]

/-- A step of the reader that moves it brings a queued report closer to its turn. -/
theorem queued_of_step {entry : Threads.Entry} {action : Action} (valid : s.queue.Valid)
    (queued : entry ∈ s.queue.contents) (step : Step writeMessage s action t) :
    Out entry t ∨ entry ∈ t.queue.contents ∧ turns entry t ≤ turns entry s ∧
      (isReader action = true → t.reader ≠ s.reader → turns entry t < turns entry s) := by
  cases step with
  | accepts topic payload msg idle =>
    refine (queued_of_enqueue valid queued msg).imp_right fun ⟨still, bound⟩ => ⟨still, bound, ?_⟩
    exact fun kind => nomatch kind
  | takes oldest rest before holds =>
    obtain ⟨-, after⟩ := MessageQueue.read_of_cons valid holds default
    by_cases first : entry = oldest
    · rw [first]
      exact .inl (.inl rfl)
    · have later : entry ∈ rest := by
        rw [holds] at queued
        exact (List.mem_cons.mp queued).resolve_left first
      have closer : 6 * rest.idxOf entry + 1 < 6 * s.queue.contents.idxOf entry + distance s.reader := by
        rw [holds, List.idxOf_cons_ne rest (Ne.symm first)]
        omega
      refine .inr ⟨?_, ?_, fun _ _ => ?_⟩
      · change entry ∈ (s.queue.read default).1.contents
        rwa [after]
      · change 6 * (s.queue.read default).1.contents.idxOf entry + 1 ≤ _
        rw [after]
        exact closer.le
      · change 6 * (s.queue.read default).1.contents.idxOf entry + 1 < _
        rw [after]
        exact closer
  | empties before empty =>
    rw [empty] at queued
    cases queued
  | begins before asked =>
    have closer : distance .measuring < distance s.reader := by
      rcases before with before | before <;> rw [before] <;> decide
    exact .inr ⟨queued, Nat.add_le_add_left closer.le _, fun _ _ => Nat.add_lt_add_left closer _⟩
  | blocks before | expires before | measures before | writes entry before | finishes before
  | rounds before =>
    refine .inr ⟨queued, ?_, fun _ _ => ?_⟩
    · simp only [turns, before, distance]
      omega
    · simp only [turns, before, distance]
      omega
  | _ => exact .inr ⟨queued, le_rfl, fun _ moved => absurd rfl moved⟩

/-- A report in the reader's hand stays there until it is written. -/
theorem held_of_step {entry : Threads.Entry} {action : Action} (held : hand s = [entry])
    (step : Step writeMessage s action t) : entry ∈ entriesOf .written t.log ∨
      hand t = [entry] ∧ t.reader = s.reader := by
  have unheld {pc : ReaderPc} (before : s.reader = pc) (free : ∀ other, pc ≠ .writing other) : False := by
    rw [hand, before] at held
    cases pc with
    | writing other => exact free other rfl
    | _ => cases held
  cases step with
  | writes other before =>
    rw [hand, before] at held
    cases held
    simp
  | takes _ _ before | empties before | blocks before | sleeps before | expires before | measures before
  | finishes before | rounds before => exact (unheld before (by simp)).elim
  | begins before => rcases before with before | before <;> exact (unheld before (by simp)).elim
  | _ => exact .inr ⟨held, rfl⟩

section
variable {run : Run (program writeMessage capacity initial)} (moves : Recurs (ReaderMoves run))
include moves

theorem leadsTo_out (entry : Threads.Entry) :
    run.LeadsTo (fun s => entry ∈ s.queue.contents) (Out entry) := by
  have step (n : Nat) (queued : entry ∈ (run.state n).queue.contents) :=
    queued_of_step (queue_valid (run.reachable n)).1 queued (step_of_run run n)
  refine Run.leadsTo_of_rank (turns entry) (ReaderMoves run) ?_ ?_ ?_
  · exact fun n queued => (step n queued).imp_right fun ⟨still, bound, _⟩ => ⟨still, bound⟩
  · exact fun n queued ⟨kind, moved⟩ => (step n queued).imp_right fun ⟨_, _, closer⟩ => closer kind moved
  · exact moves.mono fun n moved _ => moved

theorem leadsTo_written (entry : Threads.Entry) :
    run.LeadsTo (fun s => hand s = [entry]) fun s => entry ∈ entriesOf .written s.log := by
  refine Run.leadsTo_of_rank (fun _ => 0) (ReaderMoves run) ?_ ?_ ?_
  · intro n held
    exact (held_of_step held (step_of_run run n)).imp_right fun ⟨still, _⟩ => ⟨still, le_rfl⟩
  · intro n held ⟨_, moved⟩
    exact (held_of_step held (step_of_run run n)).imp_right fun ⟨_, same⟩ => absurd same moved
  · exact moves.mono fun n moved _ => moved

/-- The report has reached `writeMessage` or is lost. -/
def Settled (entry : Threads.Entry) (s : State Db) : Prop :=
  entry ∈ entriesOf .written s.log ∨ entry ∈ entriesOf .overwritten s.log

theorem leadsTo_settled (entry : Threads.Entry) : run.LeadsTo (Out entry) (Settled entry) := by
  intro n out
  rcases out with held | overwritten
  · obtain ⟨m, later, written⟩ := leadsTo_written moves entry n held
    exact ⟨m, later, .inl written⟩
  · exact ⟨n, le_rfl, .inr overwritten⟩

/-- An accepted report is in the queue, in the reader's hand or settled already. -/
theorem leadsTo_of_accepted (entry : Threads.Entry) :
    run.LeadsTo (fun s => entry ∈ entriesOf .accepted s.log) (Settled entry) := by
  intro n accepted
  have now := conserved (run.reachable n)
  obtain ⟨older, split⟩ := now.split
  rw [split.accepted] at accepted
  rcases List.mem_append.mp accepted with before | queued
  · rcases split.accounted entry before with taken | ⟨overwritten, -⟩
    · rw [now.handed] at taken
      rcases List.mem_append.mp taken with written | held
      · exact ⟨n, le_rfl, .inl written⟩
      · have alone : hand (run.state n) = [entry] := by
          unfold hand at held ⊢
          split at held
          next other same => rw [List.mem_singleton.mp held]
          next => cases held
        exact leadsTo_settled moves entry n (.inl alone)
    · exact ⟨n, le_rfl, .inr overwritten⟩
  · exact ((leadsTo_out moves entry).trans (leadsTo_settled moves entry)) n queued

omit moves in
theorem settled_lasts {entry : Threads.Entry} {n m : Nat} (settled : Settled entry (run.state n))
    (later : n ≤ m) : Settled entry (run.state m) := by
  obtain ⟨more, grown⟩ := log_extends (run.reachable n) (run.leads later)
  rw [Settled, ← grown, entriesOf_append, entriesOf_append]
  exact settled.imp (List.mem_append_left _) (List.mem_append_left _)

/-- While the reader goes on, every accepted report is in the end written or overwritten, and
it stays so. -/
theorem reports_settle {n : Nat} {entry : Threads.Entry}
    (accepted : entry ∈ entriesOf .accepted (run.state n).log) :
    ∃ m, n ≤ m ∧ ∀ k, m ≤ k → Settled entry (run.state k) := by
  obtain ⟨m, later, settled⟩ := leadsTo_of_accepted moves entry n accepted
  exact ⟨m, later, fun k onward => settled_lasts settled onward⟩

end

theorem reports_settle_first : ∃ m, 1 ≤ m ∧ ∀ k, m ≤ k →
    Settled ⟨0, Report.sampleMsg⟩ ((alternating keepAll 100 []).state k) :=
  reports_settle (fair_alternating keepAll 100 []).reader (by decide)

end ModbusDatabase.Handshake
