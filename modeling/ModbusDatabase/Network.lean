import ModbusDatabase.Handshake
import ModbusDatabase.MqttClient
import ModbusDatabase.Payloads

/-! The client and the two threads as one system. The library makes its calls from one
network thread, one after the other, and brings messages while there is a connection. -/

namespace ModbusDatabase.Network
open Message Report Threads Tokens Conservation Payloads JsonParser
open Library Library.Transition Library.Fairness
set_option autoImplicit false

/-- A topic and a payload. -/
abbrev Publication := Bytes × Bytes

/-- A call of `mosquitto_publish`, and whether it returned `MOSQ_ERR_SUCCESS`. -/
structure Call where
  message : Publication
  success : Bool

/-- `calls` are those of `mosquitto_publish`, oldest first. -/
structure State (Db : Type*) where
  client : MqttClient.State
  threads : Threads.State Db
  calls : List Call

/-- What was handed to the library to be sent. -/
def handed {Db : Type*} (s : State Db) : List Publication := s.calls.map Call.message

/-- What of it the library took. What it refuses nobody sends again. -/
def published {Db : Type*} (s : State Db) : List Publication :=
  (s.calls.filter Call.success).map Call.message

/-- A step of the threads has the outcome of the library call that it makes, if any. -/
inductive Action where
  | client (action : MqttClient.Action)
  | threads (delivery : Delivery) (success : Bool)

/-- The calls of the network thread that bring no message. -/
def fromNetwork : MqttClient.Action → Bool
  | .onConnect _ => true
  | .onDisconnect => true
  | _ => false

def isDelivery : Delivery → Bool
  | .deliver _ _ => true
  | _ => false

def keepAliveResponse : Bytes := bytes "database/modbusMaster/response/keepAlive"

def rebootResponse : Bytes := bytes "database/httpserver/response/reboot"

/-- The calls with that of `publish`, and what it returns. There is none without a connection. -/
def publish (client : MqttClient.State) (calls : List Call) (message : Publication) (success : Bool) :
    List Call × Bool :=
  if client.connected then (calls ++ [⟨message, success⟩], success) else (calls, false)

/-- What the step of a handler that publishes the message makes of the calls. -/
def callsWith (client : MqttClient.State) (calls : List Call) (success : Bool) : Option Publication → List Call
  | some message => (publish client calls message success).1
  | none => calls

variable {Db : Type*}

def keepAliveMessage (payload : Bytes) : Option Publication :=
  (onKeepAlive (parse payload)).map fun text => (keepAliveResponse, text)

/-- The message that a step of the callback calls `publish` with. -/
def message? (s : Threads.State Db) : Delivery → Option Publication
  | .deliver topic payload =>
      match topicOf topic with
      | .keepAlive => keepAliveMessage payload
      | _ => none
  | .callback =>
      match s.callback with
      | .publishing token => some (rebootResponse, response token)
      | _ => none
  | _ => none

def network (writeMessage : Db → ModbusMasterMsg → Db × Bool) (capacity : Nat) (initial : Db) :
    System (State Db) Action where
  init :=
    { client := MqttClient.client.init
      threads := (program writeMessage capacity initial).init
      calls := [] }
  step s
    | .client action =>
        if fromNetwork action = true ∧ s.threads.callback ≠ .idle then none
        else (MqttClient.client.step s.client action).map fun client => { s with client := client }
    | .threads delivery success =>
        if isDelivery delivery = true ∧ s.client.connected = false then none
        else ((program writeMessage capacity initial).step s.threads delivery.action).map fun threads =>
          { s with threads := threads
                   calls := callsWith s.client s.calls success (message? s.threads delivery) }

def rebootMessage (payload : Bytes) : Option Publication :=
  ((parse payload).bind token?).map fun token => (rebootResponse, response token)

/-- What is to be published for what is delivered. -/
def answerTo : Action → Option Publication
  | .threads (.deliver topic payload) _ =>
      match topicOf topic with
      | .keepAlive => keepAliveMessage payload
      | .reboot => rebootMessage payload
      | _ => none
  | _ => none

/-- The response to the reboot request that is being served. -/
def pending (s : Threads.State Db) : List Publication :=
  (inHand s.callback).toList.map fun token => (rebootResponse, response token)

section
variable {writeMessage : Db → ModbusMasterMsg → Db × Bool} {capacity : Nat} {initial : Db}
  {s t : State Db}

/-- Everything one step can be. -/
inductive Step (writeMessage : Db → ModbusMasterMsg → Db × Bool) (capacity : Nat) (initial : Db)
    (s : State Db) : Action → State Db → Prop
  | client (action : MqttClient.Action) (client : MqttClient.State)
      (free : fromNetwork action = true → s.threads.callback = .idle)
      (step : MqttClient.client.step s.client action = some client) :
      Step writeMessage capacity initial s (.client action) { s with client := client }
  | threads (delivery : Delivery) (success : Bool) (threads : Threads.State Db)
      (online : isDelivery delivery = true → s.client.connected = true)
      (step : (program writeMessage capacity initial).step s.threads delivery.action = some threads) :
      Step writeMessage capacity initial s (.threads delivery success)
        { s with threads := threads
                 calls := callsWith s.client s.calls success (message? s.threads delivery) }

theorem step_cases {action : Action}
    (step : (network writeMessage capacity initial).step s action = some t) :
    Step writeMessage capacity initial s action t := by
  cases action with
  | client action =>
    obtain ⟨free, step⟩ := Option.ite_none_left_eq_some.mp step
    obtain ⟨client, taken, rfl⟩ := Option.map_eq_some_iff.mp step
    exact .client action client (fun network => by_contra fun busy => free ⟨network, busy⟩) taken
  | threads delivery success =>
    obtain ⟨online, step⟩ := Option.ite_none_left_eq_some.mp step
    obtain ⟨threads, taken, rfl⟩ := Option.map_eq_some_iff.mp step
    refine .threads delivery success threads (fun message => ?_) taken
    cases connected : s.client.connected with
    | true => rfl
    | false => exact absurd ⟨message, connected⟩ online

/-- Only the network thread connects and disconnects. -/
theorem connected_of_step {client next : MqttClient.State} {action : MqttClient.Action}
    (other : fromNetwork action = false) (step : MqttClient.client.step client action = some next) :
    next.connected = client.connected := by
  cases MqttClient.step_cases step with
  | established | denied | lost => cases other
  | _ => rfl

/-- The two threads go their own way. -/
def threadsComponent (writeMessage : Db → ModbusMasterMsg → Db × Bool) (capacity : Nat) (initial : Db) :
    Component (network writeMessage capacity initial) (program writeMessage capacity initial) where
  part := State.threads
  own
    | .client _ => none
    | .threads delivery _ => some delivery.action
  start := rfl
  takes step named := by
    cases step_cases step with
    | client => cases named
    | threads delivery success threads online taken => exact Option.some.inj named ▸ taken
  stays step named := by
    cases step_cases step with
    | client => rfl
    | threads => cases named

theorem threads_reachable (reached : (network writeMessage capacity initial).Reachable s) :
    (program writeMessage capacity initial).Reachable s.threads :=
  (threadsComponent writeMessage capacity initial).reachable reached

/-- The reader leaves the callback thread where it is. -/
theorem callback_of_reader {threads next : Threads.State Db} {action : Threads.Action}
    (step : Threads.Step writeMessage threads action next) (reader : Flush.isReader action = true) :
    next.callback = threads.callback := by
  cases step <;> first | rfl | cases reader

/-- A handler starts where a message arrives. -/
theorem callback_of_idle {threads next : Threads.State Db} {delivery : Delivery}
    (step : Threads.Step writeMessage threads delivery.action next) (idle : threads.callback = .idle)
    (other : isDelivery delivery = false) : next.callback = .idle := by
  cases delivery with
  | deliver topic payload => cases other
  | callback =>
    cases step with
    | requests token before | notifies token before | leaves token before => rw [idle] at before; cases before
    | waits => exact idle
    | publishes => rfl
  | reader => rw [callback_of_reader step rfl, idle]
  | readerTimeout => rw [callback_of_reader step rfl, idle]

/-- While a request is being served nothing comes from the network, so the connection that
brought the request stays. -/
theorem connected_of_busy (reached : (network writeMessage capacity initial).Reachable s) :
    s.threads.callback ≠ .idle → s.client.connected = true := by
  have both : (network writeMessage capacity initial).Reachable s ∧
      (s.threads.callback ≠ .idle → s.client.connected = true) := by
    refine reached.invariant (fun s => (network writeMessage capacity initial).Reachable s ∧
      (s.threads.callback ≠ .idle → s.client.connected = true))
      ⟨.refl, fun busy => absurd rfl busy⟩ ?_
    rintro s action t ⟨before, holds⟩ step
    refine ⟨before.next step, fun busy => ?_⟩
    cases step_cases step with
    | client action client free taken =>
      have other : fromNetwork action = false := by
        cases network : fromNetwork action with
        | true => exact absurd (free network) busy
        | false => rfl
      rw [connected_of_step other taken]
      exact holds busy
    | threads delivery success threads online taken =>
      cases other : isDelivery delivery with
      | true => exact online other
      | false =>
        refine holds fun idle => busy ?_
        exact callback_of_idle (Threads.step_cases (queue_valid (threads_reachable before)).1 taken) idle other
  exact both.2

theorem messages_callsWith {client : MqttClient.State} (online : client.connected = true)
    (calls : List Call) (success : Bool) (message : Option Publication) :
    (callsWith client calls success message).map Call.message =
      calls.map Call.message ++ message.toList := by
  cases message with
  | some message =>
    rw [callsWith, publish, if_pos online]
    exact List.map_append
  | none => exact (List.append_nil _).symm

theorem pending_of_inHand {threads next : Threads.State Db}
    (same : inHand next.callback = inHand threads.callback) : pending next = pending threads := by
  rw [pending, same, pending]

theorem pending_of_idle {threads : Threads.State Db} (idle : threads.callback = .idle) :
    pending threads = [] := by
  rw [pending, idle]
  rfl

theorem pending_reboot {threads : Threads.State Db} (idle : threads.callback = .idle)
    (payload : Option Json) : pending (onMessage threads .reboot payload) =
      ((payload.bind token?).map fun token => (rebootResponse, response token)).toList := by
  cases payload with
  | none => exact pending_of_idle idle
  | some j =>
    rw [Option.bind_some]
    cases asks : token? j with
    | none =>
      have untouched : onMessage threads .reboot (some j) = threads := by simp only [onMessage, asks]
      rw [untouched]
      exact pending_of_idle idle
    | some token =>
      rw [onMessage_reboot threads asks]
      rfl

theorem pending_data {threads : Threads.State Db} (idle : threads.callback = .idle)
    (payload : Option Json) : pending (onMessage threads .data payload) = [] := by
  apply pending_of_idle
  cases payload with
  | none => exact idle
  | some j =>
    rw [onMessage]
    cases parseModbusMsg j with
    | ok msg => exact idle
    | error rejection => exact idle

/-- A message gets its answer at once or leaves it to the handler that it starts. -/
theorem handed_deliver {client : MqttClient.State} {threads : Threads.State Db}
    (online : client.connected = true) (idle : threads.callback = .idle) (calls : List Call)
    (success : Bool) (topic payload : Bytes) :
    (callsWith client calls success (message? threads (.deliver topic payload))).map Call.message ++
        pending (onMessage threads (topicOf topic) (parse payload)) =
      calls.map Call.message ++ (answerTo (.threads (.deliver topic payload) success)).toList := by
  rw [messages_callsWith online, message?, answerTo]
  cases topicOf topic with
  | keepAlive =>
    have untouched : onMessage threads .keepAlive (parse payload) = threads := rfl
    rw [untouched, pending_of_idle idle, List.append_nil]
  | reboot =>
    rw [pending_reboot idle]
    exact congrArg (· ++ _) (List.append_nil _)
  | data => rw [pending_data idle, List.append_nil]
  | other =>
    have untouched : onMessage threads .other (parse payload) = threads := rfl
    rw [untouched, pending_of_idle idle, List.append_nil]

/-- A step of the handler hands over what was pending or nothing. -/
theorem handed_callback {client : MqttClient.State} {threads next : Threads.State Db}
    (online : threads.callback ≠ .idle → client.connected = true)
    (step : Threads.Step writeMessage threads .callback next) (calls : List Call) (success : Bool) :
    (callsWith client calls success (message? threads .callback)).map Call.message ++ pending next =
      calls.map Call.message ++ pending threads := by
  cases step with
  | publishes token before =>
    have connected : client.connected = true := online (by rw [before]; exact fun same => nomatch same)
    rw [messages_callsWith connected, message?, pending_of_idle rfl, List.append_nil, pending, before]
    rfl
  | waits token before =>
    rw [message?, before]
    rfl
  | requests token before | notifies token before | leaves token before =>
    have same : inHand threads.callback = some token := by rw [before]; rfl
    rw [message?, before]
    exact congrArg (calls.map Call.message ++ ·) (pending_of_inHand same.symm)

/-- A step adds to what is handed over or pending the answer to the message it brings. -/
theorem handed_step (reached : (network writeMessage capacity initial).Reachable s) {action : Action}
    (step : (network writeMessage capacity initial).step s action = some t) :
    handed t ++ pending t.threads = handed s ++ pending s.threads ++ (answerTo action).toList := by
  have valid := (queue_valid (threads_reachable reached)).1
  cases step_cases step with
  | client => exact (List.append_nil _).symm
  | threads delivery success threads online taken =>
    cases delivery with
    | deliver topic payload =>
      obtain ⟨idle, same⟩ := Option.ite_none_right_eq_some.mp taken
      rw [← Option.some.inj same, pending_of_idle idle, List.append_nil]
      exact handed_deliver (online rfl) idle s.calls success topic payload
    | callback =>
      have served := handed_callback (connected_of_busy reached) (Threads.step_cases valid taken) s.calls
        success
      exact served.trans (List.append_nil _).symm
    | reader =>
      have calm := callback_of_reader (Threads.step_cases valid taken) rfl
      rw [pending_of_inHand (congrArg inHand calm)]
      exact (List.append_nil _).symm
    | readerTimeout =>
      have calm := callback_of_reader (Threads.step_cases valid taken) rfl
      rw [pending_of_inHand (congrArg inHand calm)]
      exact (List.append_nil _).symm

theorem handed_exec (reached : (network writeMessage capacity initial).Reachable s)
    {actions : List Action} (run : (network writeMessage capacity initial).exec s actions = some t) :
    handed t ++ pending t.threads = handed s ++ pending s.threads ++ actions.filterMap answerTo := by
  induction actions generalizing s with
  | nil =>
    cases run
    exact (List.append_nil _).symm
  | cons action actions ih =>
    obtain ⟨middle, first, later⟩ := System.exec_cons_some run
    calc handed t ++ pending t.threads
        = handed middle ++ pending middle.threads ++ actions.filterMap answerTo :=
          ih (reached.next first) later
      _ = handed s ++ pending s.threads ++ (answerTo action).toList ++ actions.filterMap answerTo := by
          rw [handed_step reached first]
      _ = handed s ++ pending s.threads ++ (action :: actions).filterMap answerTo := by
          rw [List.append_assoc, List.filterMap_cons]
          cases answerTo action <;> rfl

end

/-- A response is a request as well. -/
theorem token?_of_response (token : Int32) : (parse (response token)).bind token? = some token := by
  obtain ⟨back, parsed, asks, -⟩ := response_back token
  rw [parsed, Option.bind_some, token?, asks, Option.map_some, getInt, Int32.ofInt_toInt]

theorem answerTo_reboot (token : Int32) (success : Bool) :
    answerTo (.threads (.deliver rebootTopic (response token)) success) =
      some (rebootResponse, response token) := by
  have known : topicOf rebootTopic = .reboot := by decide
  rw [answerTo, known]
  change ((parse (response token)).bind token?).map _ = _
  rw [token?_of_response]
  rfl

/-- One request of each kind after a connection. The library refuses the first response. -/
def sampleActions : List Action :=
  [.client (.connect true), .client (.loopStart true), .client (.onConnect true),
    .threads (.deliver keepAliveTopic (response 7)) false,
    .threads (.deliver rebootTopic (response 8)) true, .threads .callback true]

structure Fair {writeMessage : Db → ModbusMasterMsg → Db × Bool} {capacity : Nat} {initial : Db}
    (run : Run (network writeMessage capacity initial)) : Prop where
  reader : Recurs fun n => ∃ delivery success, run.action n = .threads delivery success ∧
    Flush.isReader delivery.action = true ∧
    (run.state (n + 1)).threads.reader ≠ (run.state n).threads.reader
  callback : Recurs fun n =>
    (run.state n).threads.callback = .idle ∨ ∃ success, run.action n = .threads .callback success

/-- The responses to the requests that came before a moment. -/
def answersBefore {writeMessage : Db → ModbusMasterMsg → Db × Bool} {capacity : Nat} {initial : Db}
    (run : Run (network writeMessage capacity initial)) (n : Nat) : List Publication :=
  ((List.range n).map run.action).filterMap answerTo

section
variable {writeMessage : Db → ModbusMasterMsg → Db × Bool} {capacity : Nat} {initial : Db}
  {run : Run (network writeMessage capacity initial)}

theorem turns_again (fair : Fair run) :
    Recurs (Turn (threadsComponent writeMessage capacity initial) run) := by
  apply fair.reader.mono
  rintro n ⟨delivery, success, taken, -⟩
  rw [Turn, taken]
  rfl

/-- What is fair in the whole is fair to the two threads. -/
theorem fair_ownRun (fair : Fair run) : Handshake.Fair (ownRun (turns_again fair)) where
  reader := by
    apply recurs_ownRun (turns_again fair) fair.reader
    rintro n ⟨delivery, success, taken, reads, moved⟩
    have named : (threadsComponent writeMessage capacity initial).own (run.action n) =
        some delivery.action := by rw [taken]; rfl
    obtain ⟨action, next⟩ := ownRun_step (turns_again fair) named
    rw [Handshake.ReaderMoves, action, next, ownRun_state]
    exact ⟨reads, moved⟩
  callback := by
    apply recurs_ownRun (turns_again fair) fair.callback
    intro n turn
    rcases turn with idle | ⟨success, taken⟩
    · left
      rw [ownRun_state]
      exact idle
    · have named : (threadsComponent writeMessage capacity initial).own (run.action n) =
          some .callback := by rw [taken]; rfl
      exact .inr (ownRun_step (turns_again fair) named).1

/-- The handler gets back to the network again and again. -/
theorem idle_again (fair : Fair run) : Recurs fun n => (run.state n).threads.callback = .idle := by
  intro n
  cases serves : inHand (run.state n).threads.callback with
  | none =>
    refine ⟨n, le_rfl, ?_⟩
    cases place : (run.state n).threads.callback with
    | idle => exact place
    | _ => rw [place] at serves; cases serves
  | some token =>
    have served := Handshake.leadsTo_idle (fair_ownRun fair) serves
      (answers (run.state n).threads.log)
    obtain ⟨m, later, idle, -⟩ := leadsTo_of_ownRun (turns_again fair) served n ⟨rfl, rfl⟩
    exact ⟨m, later, idle⟩

theorem calls_grow {s t : State Db} {action : Action}
    (step : (network writeMessage capacity initial).step s action = some t) : s.calls <+: t.calls := by
  cases step_cases step with
  | client => exact List.prefix_refl _
  | threads delivery success threads online taken =>
    cases message : message? s.threads delivery with
    | none => exact List.prefix_refl _
    | some sent =>
      rw [callsWith, publish]
      split
      · exact List.prefix_append _ _
      · exact List.prefix_refl _

theorem handed_lasts {n m : Nat} (later : n ≤ m) : handed (run.state n) <+: handed (run.state m) := by
  induction m, later using Nat.le_induction with
  | base => exact List.prefix_refl _
  | succ m later ih => exact ih.trans ((calls_grow (run.step m)).map Call.message)

theorem handed_before (run : Run (network writeMessage capacity initial)) (n : Nat) :
    handed (run.state n) ++ pending (run.state n).threads = answersBefore run n := by
  have start : (network writeMessage capacity initial).Reachable (network writeMessage capacity initial).init :=
    .refl
  exact handed_exec start (run.exec n)

theorem answersBefore_grows {n m : Nat} (later : n ≤ m) : answersBefore run n <+: answersBefore run m := by
  obtain ⟨k, rfl⟩ := Nat.exists_eq_add_of_le later
  rw [answersBefore, answersBefore, List.range_add, List.map_append, List.filterMap_append]
  exact List.prefix_append _ _

end

theorem published_eq_handed {s : State Db} (taken : ∀ call ∈ s.calls, call.success = true) :
    published s = handed s := by
  rw [published, List.filter_eq_self.mpr taken, handed]

/-- In every endless run in which the reader and the callback thread go on, however often the
connection is lost and whatever else comes, the responses to all requests that came before a moment
are handed to the library by some later one, in their order. They are published then, unless the
library has refused a call. -/
theorem responses_handed {writeMessage : Db → ModbusMasterMsg → Db × Bool} {capacity : Nat}
    {initial : Db} {run : Run (network writeMessage capacity initial)} (fair : Fair run) (n : Nat) :
    ∃ m, n ≤ m ∧ ∀ k, m ≤ k → answersBefore run n <+: handed (run.state k) ∧
      ((∀ call ∈ (run.state k).calls, call.success = true) →
        answersBefore run n <+: published (run.state k)) := by
  obtain ⟨m, later, idle⟩ := idle_again fair n
  refine ⟨m, later, fun k onward => ?_⟩
  have all := handed_before run m
  rw [pending_of_idle idle, List.append_nil] at all
  have reached : answersBefore run n <+: handed (run.state k) :=
    calc answersBefore run n
        <+: answersBefore run m := answersBefore_grows later
      _ = handed (run.state m) := all.symm
      _ <+: handed (run.state k) := handed_lasts onward
  refine ⟨reached, fun taken => ?_⟩
  rw [published_eq_handed taken]
  exact reached

/-! A fair run: two steps of the reader to each other one; the client connects, and then one
reboot request comes after the other. -/

/-- What the client does until there is a connection. -/
def connecting (client : MqttClient.State) : MqttClient.Action :=
  if client.owner = .startingLoop then .loopStart true
  else if client.loopThread = true ∧ client.awaiting = true then .onConnect true
  else if client.owner = .idle then .connect true
  else .poll

def turn (n : Nat) (s : State Db) : Action :=
  if n % 3 = 0 then
    if s.threads.callback = .idle then
      if s.client.connected = true then .threads (.deliver rebootTopic (response 7)) true
      else .client (connecting s.client)
    else .threads .callback true
  else if s.threads.reader = .waiting then .threads .readerTimeout true
  else .threads .reader true

theorem connecting_enabled (client : MqttClient.State) :
    (MqttClient.client.step client (connecting client)).isSome = true := by
  unfold connecting
  split_ifs with starting awaited idle
  · exact Option.isSome_of_eq_some (if_pos starting)
  · exact Option.isSome_of_eq_some (if_pos awaited)
  · exact Option.isSome_of_eq_some (if_pos idle)
  · cases place : client.owner with
    | idle => exact absurd place idle
    | startingLoop => exact absurd place starting
    | polling polls =>
      simp only [MqttClient.client, MqttClient.ownerStep, place]
      split <;> rfl

section
variable {writeMessage : Db → ModbusMasterMsg → Db × Bool} {capacity : Nat} {initial : Db} {s : State Db}

theorem client_enabled {action : MqttClient.Action} (idle : s.threads.callback = .idle)
    (enabled : (MqttClient.client.step s.client action).isSome = true) :
    ((network writeMessage capacity initial).step s (.client action)).isSome = true := by
  obtain ⟨client, taken⟩ := Option.isSome_iff_exists.mp enabled
  have free : ¬(fromNetwork action = true ∧ s.threads.callback ≠ .idle) := fun ⟨_, busy⟩ => busy idle
  exact Option.isSome_of_eq_some ((if_neg free).trans (congrArg _ taken))

theorem threads_enabled {delivery : Delivery} (success : Bool)
    (online : isDelivery delivery = true → s.client.connected = true)
    (enabled : ((program writeMessage capacity initial).step s.threads delivery.action).isSome = true) :
    ((network writeMessage capacity initial).step s (.threads delivery success)).isSome = true := by
  obtain ⟨threads, taken⟩ := Option.isSome_iff_exists.mp enabled
  have reaches : ¬(isDelivery delivery = true ∧ s.client.connected = false) := by
    rintro ⟨message, offline⟩
    exact Bool.noConfusion ((online message).symm.trans offline)
  exact Option.isSome_of_eq_some ((if_neg reaches).trans (congrArg _ taken))

end

theorem turn_enabled (writeMessage : Db → ModbusMasterMsg → Db × Bool) (capacity : Nat) (initial : Db)
    (n : Nat) (s : State Db) :
    ((network writeMessage capacity initial).step s (turn n s)).isSome = true := by
  unfold turn
  split_ifs with own idle online asleep
  · exact threads_enabled true (fun _ => online) (Option.isSome_of_eq_some (if_pos idle))
  · exact client_enabled idle (connecting_enabled s.client)
  · exact threads_enabled true (fun message => nomatch message) (Handshake.isSome_callbackStep idle)
  · exact threads_enabled true (fun message => nomatch message) (Option.isSome_of_eq_some (if_pos asleep))
  · exact threads_enabled true (fun message => nomatch message) rfl

/-- The run of these turns. -/
def alternating (writeMessage : Db → ModbusMasterMsg → Db × Bool) (capacity : Nat) (initial : Db) :
    Run (network writeMessage capacity initial) :=
  schedule _ turn (turn_enabled writeMessage capacity initial)

/-- A turn of the reader in the network is one among the two threads. -/
theorem turn_reader {n : Nat} (own : n % 3 ≠ 0) (s : State Db) : ∃ delivery,
    turn n s = .threads delivery true ∧ delivery.action = Handshake.readerTurn s.threads := by
  rw [turn, if_neg own]
  by_cases asleep : s.threads.reader = .waiting
  · exact ⟨.readerTimeout, if_pos asleep, (if_pos asleep).symm⟩
  · exact ⟨.reader, if_neg asleep, (if_neg asleep).symm⟩

theorem fair_alternating (writeMessage : Db → ModbusMasterMsg → Db × Bool) (capacity : Nat)
    (initial : Db) : Fair (alternating writeMessage capacity initial) where
  reader n := by
    have own : (3 * n + 1) % 3 ≠ 0 := by omega
    obtain ⟨delivery, picked, reads⟩ :=
      turn_reader own ((alternating writeMessage capacity initial).state (3 * n + 1))
    have taken := (alternating writeMessage capacity initial).step (3 * n + 1)
    have named : (threadsComponent writeMessage capacity initial).own
        ((alternating writeMessage capacity initial).action (3 * n + 1)) = some delivery.action :=
      congrArg (threadsComponent writeMessage capacity initial).own picked
    have stepped := (threadsComponent writeMessage capacity initial).takes taken named
    refine ⟨3 * n + 1, by omega, delivery, true, picked, ?_⟩
    rw [reads] at stepped ⊢
    exact Handshake.readerTurn_moves stepped
  callback n := by
    refine ⟨3 * n, by omega, ?_⟩
    by_cases idle : ((alternating writeMessage capacity initial).state (3 * n)).threads.callback = .idle
    · exact .inl idle
    · refine .inr ⟨true, ?_⟩
      change turn (3 * n) _ = _
      rw [turn, if_pos (by omega)]
      exact if_neg idle

/-- The first request comes with the tenth step. -/
theorem responses_handed_tenth : ∃ m, 10 ≤ m ∧ ∀ k, m ≤ k →
    [(rebootResponse, response 7)] <+: handed ((alternating keepAll 1 []).state k) := by
  obtain ⟨m, later, answered⟩ := responses_handed (fair_alternating keepAll 1 []) 10
  have requested : answersBefore (alternating keepAll 1 []) 10 = [(rebootResponse, response 7)] := by
    have actions : (List.range 10).map (alternating keepAll 1 []).action =
        [.client (.connect true), .threads .reader true, .threads .readerTimeout true,
          .client (.loopStart true), .threads .reader true, .threads .reader true,
          .client (.onConnect true), .threads .reader true, .threads .reader true,
          .threads (.deliver rebootTopic (response 7)) true] := rfl
    rw [answersBefore, actions]
    simp only [List.filterMap_cons, answerTo_reboot]
    rfl
  rw [requested] at answered
  exact ⟨m, later, fun k onward => (answered k onward).1⟩

end ModbusDatabase.Network
