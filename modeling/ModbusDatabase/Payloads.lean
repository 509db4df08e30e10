import ModbusDatabase.JsonRoundTrip
import ModbusDatabase.Tokens

/-! The message callback on what the broker delivers: a topic and the bytes of a
payload. Which payloads become reports in the database, and what the payload of a
response is. -/

namespace ModbusDatabase.Payloads
open Library Library.Transition Message Report Threads Conservation JsonParser JsonWriter JsonRoundTrip
set_option autoImplicit false

def keepAliveTopic : Bytes := bytes "modbusMaster/database/request/keepAlive"

def rebootTopic : Bytes := bytes "httpserver/database/request/reboot"

def dataTopic : Bytes := bytes "modbusMaster/database/report/data"

/-- The branches of the callback. -/
def topicOf (topic : Bytes) : Topic :=
  if topic = keepAliveTopic then .keepAlive
  else if topic = rebootTopic then .reboot
  else if topic = dataTopic then .data
  else .other

/-- The scheduler's choice, with a message as the broker delivers it. -/
inductive Delivery where
  | deliver (topic payload : Bytes)
  | callback
  | reader
  | readerTimeout

def Delivery.action : Delivery → Action
  | .deliver topic payload => .receive (topicOf topic) (parse payload)
  | .callback => .callback
  | .reader => .reader
  | .readerTimeout => .readerTimeout

variable {Db : Type*}

def deliveries (writeMessage : Db → ModbusMasterMsg → Db × Bool) (capacity : Nat) (initial : Db) :
    System (State Db) Delivery := (program writeMessage capacity initial).rename Delivery.action

/-- The report that a step brings in. -/
def reportOf : Action → Option ModbusMasterMsg
  | .receive .data payload => payload.bind fun j => (parseModbusMsg j).toOption
  | _ => none

/-- The reports among the deliveries, in the order they come in. -/
def reportsIn (delivered : List Delivery) : List ModbusMasterMsg :=
  delivered.filterMap fun delivery => reportOf delivery.action

def accepted (s : State Db) : List ModbusMasterMsg := (entriesOf .accepted s.log).map Entry.msg

def written (s : State Db) : List ModbusMasterMsg := (entriesOf .written s.log).map Entry.msg

/-- The reports in the queue, oldest first. -/
def queued (s : State Db) : List ModbusMasterMsg := s.queue.contents.map Entry.msg

section
variable {writeMessage : Db → ModbusMasterMsg → Db × Bool} {capacity : Nat} {initial : Db}
  {s t : State Db} {delivered : List Delivery} {topic payload : Bytes} {msg : ModbusMasterMsg}

theorem accepted_eq_arrivals (s : State Db) :
    accepted s = (arrivals s.log).filterMap Arrival.report? := by
  rw [accepted, entriesOf, List.map_filterMap, arrivals, List.filterMap_filterMap]
  refine List.filterMap_congr fun event _ => ?_
  cases event with
  | report fate entry => cases fate <;> rfl
  | received token => rfl
  | ready token => rfl

theorem reportOf_eq_arrival (action : Action) :
    reportOf action = action.arrival?.bind Arrival.report? := by
  match action with
  | .receive .data (some j) =>
    rw [reportOf, Action.arrival?, Option.bind_some, Option.bind_some]
    cases parseModbusMsg j <;> rfl
  | .receive .reboot (some j) =>
    rw [Action.arrival?, Option.bind_some]
    cases token? j <;> rfl
  | .receive .data none | .receive .reboot none | .receive .keepAlive _ | .receive .other _ => rfl
  | .callback | .reader | .readerTimeout => rfl

/-- A step accepts the report it brings in, and no other. -/
theorem accepted_step {action : Action} (valid : s.queue.Valid)
    (step : (program writeMessage capacity initial).step s action = some t) :
    accepted t = accepted s ++ (reportOf action).toList := by
  rw [accepted_eq_arrivals, accepted_eq_arrivals, arrivals_step valid step, List.filterMap_append,
    reportOf_eq_arrival]
  cases action.arrival? with
  | none => rfl
  | some arrival => cases arrival <;> rfl

theorem exec_deliveries (run : (deliveries writeMessage capacity initial).exec s delivered = some t) :
    (program writeMessage capacity initial).exec s (delivered.map Delivery.action) = some t :=
  (System.exec_rename Delivery.action delivered).symm.trans run

theorem accepted_exec (reached : (program writeMessage capacity initial).Reachable s)
    (run : (program writeMessage capacity initial).exec s (delivered.map Delivery.action) = some t) :
    accepted t = accepted s ++ reportsIn delivered := by
  have brought : ((delivered.map Delivery.action).filterMap Action.arrival?).filterMap Arrival.report? =
      reportsIn delivered := by
    rw [List.filterMap_filterMap, List.filterMap_map, reportsIn]
    exact List.filterMap_congr fun delivery _ => (reportOf_eq_arrival delivery.action).symm
  rw [accepted_eq_arrivals, accepted_eq_arrivals, arrivals_exec reached run, List.filterMap_append, brought]

/-- A payload that describes a report: the text of an acceptable document. -/
def Describes (payload : Bytes) (msg : ModbusMasterMsg) : Prop :=
  ∃ doc, IsText payload doc ∧ ReportLanguage.Acceptable (doc.value dom) ∧
    ReportLanguage.Reads (doc.value dom) msg

theorem toOption_eq_some {j : Json} (keyed : ReportLanguage.Keyed j) :
    (parseModbusMsg j).toOption = some msg ↔ ReportLanguage.Acceptable j ∧ ReportLanguage.Reads j msg := by
  constructor
  · intro found
    cases parsed : parseModbusMsg j with
    | error rejection => rw [parsed] at found; cases found
    | ok other =>
      rw [parsed] at found
      cases found
      exact ReportLanguage.reads_of_accepted keyed parsed
  · rintro ⟨⟨fields, rfl, acceptable⟩, others, same, reads⟩
    cases same
    rw [(ReportLanguage.parseModbusMsg_eq_ok keyed).mpr ⟨acceptable, reads⟩]
    rfl

theorem topicOf_eq_data : topicOf topic = .data ↔ topic = dataTopic := by
  have apart : dataTopic ≠ keepAliveTopic ∧ dataTopic ≠ rebootTopic := by decide
  constructor
  · intro data
    unfold topicOf at data
    split at data
    next => cases data
    next =>
    split at data
    next => cases data
    next =>
    split at data
    next same => exact same
    next => cases data
  · rintro rfl
    rw [topicOf, if_neg apart.1, if_neg apart.2, if_pos rfl]

theorem reportOf_eq_some {topic : Topic} {payload : Option Json} :
    reportOf (.receive topic payload) = some msg ↔
      topic = .data ∧ ∃ j, payload = some j ∧ (parseModbusMsg j).toOption = some msg := by
  cases topic with
  | data =>
    rw [reportOf, Option.bind_eq_some_iff]
    exact (and_iff_right rfl).symm
  | _ => exact iff_of_false (fun absent => nomatch absent) (fun ⟨same, _⟩ => nomatch same)

/-- What is brought in is put into the queue. -/
theorem onMessage_of_reportOf {topic : Topic} {payload : Option Json} (s : State Db)
    (brings : reportOf (.receive topic payload) = some msg) : onMessage s topic payload = enqueue s msg := by
  obtain ⟨data, j, parsed, found⟩ := reportOf_eq_some.mp brings
  rw [data, parsed, onMessage]
  cases reads : parseModbusMsg j with
  | ok other =>
    rw [reads] at found
    rw [Option.some.inj found]
  | error rejection =>
    rw [reads] at found
    cases found

theorem reportOf_deliver (topic payload : Bytes) (msg : ModbusMasterMsg) :
    reportOf (Delivery.deliver topic payload).action = some msg ↔
      topic = dataTopic ∧ Describes payload msg := by
  rw [Delivery.action, reportOf_eq_some, topicOf_eq_data]
  refine and_congr_right fun _ => ?_
  constructor
  · rintro ⟨j, parsed, found⟩
    obtain ⟨doc, isText, rfl⟩ := (parse_eq_some payload j).mp parsed
    exact ⟨doc, isText, (toOption_eq_some (proper_of_isText isText).1).mp found⟩
  · rintro ⟨doc, isText, described⟩
    exact ⟨doc.value dom, (parse_eq_some payload _).mpr ⟨doc, isText, rfl⟩,
      (toOption_eq_some (proper_of_isText isText).1).mpr described⟩

theorem queued_enqueue {cap : Nat} (valid : s.queue.Valid) (size : s.queue.buffer.length = cap)
    (msg : ModbusMasterMsg) : queued (enqueue s msg) = BoundedQueue.push cap (queued s) msg := by
  change ((s.queue.write _).1.contents).map Entry.msg = _
  rw [MessageQueue.contents_write valid, size]
  exact BoundedQueue.map_push Entry.msg cap _ _

/-- What brings no report in leaves the queue alone. -/
theorem queue_onMessage {topic : Topic} {payload : Option Json} (s : State Db)
    (silent : reportOf (.receive topic payload) = none) : (onMessage s topic payload).queue = s.queue := by
  match topic, payload with
  | .data, some j =>
    rw [onMessage]
    cases parsed : parseModbusMsg j with
    | ok msg => rw [reportOf, Option.bind_some, parsed] at silent; cases silent
    | error rejection => rfl
  | .reboot, some j =>
    rw [onMessage]
    cases token? j <;> rfl
  | .data, none => rfl
  | .reboot, none => rfl
  | .keepAlive, _ => rfl
  | .other, _ => rfl

/-- The callback puts a report into the queue exactly where the topic is that of data and the
payload describes the report. A full queue loses its oldest for it, and every other message
leaves the queue as it is. -/
theorem report_of_delivery (writeMessage : Db → ModbusMasterMsg → Db × Bool) (capacity : Nat)
    (initial : Db) {s t : State Db} (reached : (program writeMessage capacity initial).Reachable s)
    {topic payload : Bytes}
    (step : (deliveries writeMessage capacity initial).step s (.deliver topic payload) = some t) :
    (∀ msg, accepted t = accepted s ++ [msg] ↔ topic = dataTopic ∧ Describes payload msg) ∧
      (∀ msg, topic = dataTopic ∧ Describes payload msg →
        queued t = BoundedQueue.push (max capacity 1) (queued s) msg) ∧
      ((∀ msg, ¬(topic = dataTopic ∧ Describes payload msg)) →
        t.queue = s.queue ∧ accepted t = accepted s) := by
  obtain ⟨valid, size⟩ := queue_valid reached
  have stepped : (program writeMessage capacity initial).step s (Delivery.deliver topic payload).action =
      some t := step
  have grown := accepted_step valid stepped
  obtain ⟨-, same⟩ := Option.ite_none_right_eq_some.mp stepped
  have next := Option.some.inj same
  refine ⟨fun msg => ?_, fun msg described => ?_, fun other => ?_⟩
  · rw [grown, List.append_cancel_left_eq, Option.toList_eq_singleton_iff, reportOf_deliver]
  · have brings := (reportOf_deliver topic payload msg).mpr described
    rw [← next, onMessage_of_reportOf s brings]
    exact queued_enqueue valid size msg
  · have silent : reportOf (Delivery.deliver topic payload).action = none :=
      Option.eq_none_iff_forall_ne_some.mpr fun msg brings => other msg ((reportOf_deliver _ _ _).mp brings)
    refine ⟨?_, ?_⟩
    · rw [← next]
      exact queue_onMessage s silent
    · rw [grown, silent]
      exact List.append_nil _

/-- In every run over deliveries the reports that they bring in are accepted in their order, and
the database is what writing some of them, in that order, makes of it. -/
theorem database_of_deliveries (writeMessage : Db → ModbusMasterMsg → Db × Bool) (capacity : Nat)
    (initial : Db) {delivered : List Delivery} {s : State Db}
    (run : (deliveries writeMessage capacity initial).exec (deliveries writeMessage capacity initial).init
      delivered = some s) :
    accepted s = reportsIn delivered ∧ (written s).Sublist (reportsIn delivered) ∧
      s.db = (written s).foldl (fun db msg => (writeMessage db msg).1) initial := by
  have start : (program writeMessage capacity initial).Reachable (program writeMessage capacity initial).init :=
    .refl
  have ran := exec_deliveries run
  have reached := System.reachable_of_exec _ ran
  have all : accepted s = reportsIn delivered := accepted_exec start ran
  refine ⟨all, ?_, ?_⟩
  · rw [← all]
    exact (written_sublist reached).map Entry.msg
  · rw [database_of_written reached, written, List.foldl_map]

theorem keyed_sampleReport : ReportLanguage.Keyed sampleReport := by
  refine ReportLanguage.keyed_document _ _ _ _ ?_
  simp only [List.forall_mem_singleton]
  exact ReportLanguage.keyed_register _ _ _ _ (by decide)

theorem floatFree_sampleReport : FloatFree sampleReport := by
  have register : FloatFree (registerObject "16" 0 220 (bytes "A")) := by
    refine .object _ ?_
    simp only [List.forall_mem_cons]
    exact ⟨.unsigned _, .string _, .unsigned _, List.forall_mem_nil _⟩
  refine .object _ ?_
  simp only [List.forall_mem_cons]
  refine ⟨.unsigned _, .unsigned _, .unsigned _, .string _, .unsigned _, .array _ ?_, .string _,
    List.forall_mem_nil _⟩
  simp only [List.forall_mem_singleton]
  exact register

def samplePayload : Bytes := (dump [] sampleReport).getD []

theorem parse_samplePayload : parse samplePayload = some (normal sampleReport) := by
  have written : (dump [] sampleReport).isSome = true := by decide +kernel
  obtain ⟨text, dumped⟩ := Option.isSome_iff_exists.mp written
  rw [samplePayload, dumped, Option.getD_some]
  exact parse_dump [] keyed_sampleReport floatFree_sampleReport dumped

theorem reportOf_samplePayload :
    reportOf (Delivery.deliver dataTopic samplePayload).action = some sampleMsg := by
  rw [Delivery.action, parse_samplePayload, topicOf_eq_data.mpr rfl]
  rfl

theorem report_of_delivery_sample : ∃ t, (deliveries keepAll 1 []).step (deliveries keepAll 1 []).init
    (.deliver dataTopic samplePayload) = some t ∧ queued t = [sampleMsg] := by
  have described := (reportOf_deliver _ _ _).mp reportOf_samplePayload
  have start : (program keepAll 1 []).Reachable (program keepAll 1 []).init := .refl
  exact ⟨_, rfl, (report_of_delivery keepAll 1 [] start rfl).2.1 sampleMsg described⟩

/-- One payload, and a round of the reader that writes its report. -/
def sampleDelivered : List Delivery :=
  [.deliver dataTopic samplePayload, .reader, .readerTimeout, .reader, .reader, .reader]

def sampleActions : List Action :=
  [.receive .data (some (normal sampleReport)), .reader, .readerTimeout, .reader, .reader, .reader]

theorem actions_sampleDelivered : sampleDelivered.map Delivery.action = sampleActions := by
  rw [sampleDelivered, List.map_cons, Delivery.action, parse_samplePayload, topicOf_eq_data.mpr rfl]
  rfl

theorem database_of_deliveries_one : ∃ s, (deliveries keepAll 1 []).exec (deliveries keepAll 1 []).init
    sampleDelivered = some s ∧ accepted s = [sampleMsg] ∧ s.db = [sampleMsg] := by
  have run : (deliveries keepAll 1 []).exec (deliveries keepAll 1 []).init sampleDelivered =
      (program keepAll 1 []).exec (program keepAll 1 []).init sampleActions := by
    rw [deliveries, System.exec_rename, actions_sampleDelivered]
    rfl
  obtain ⟨s, same, stored⟩ : ∃ s, (program keepAll 1 []).exec (program keepAll 1 []).init sampleActions =
      some s ∧ s.db = [sampleMsg] := ⟨_, rfl, rfl⟩
  obtain ⟨all, -, -⟩ := database_of_deliveries keepAll 1 [] (run.trans same)
  refine ⟨s, run.trans same, all.trans ?_, stored⟩
  change sampleDelivered.filterMap (reportOf ∘ Delivery.action) = _
  rw [← List.filterMap_map, actions_sampleDelivered]
  rfl

/-! Responses. -/

/-- `response["token"] = token; response["status"] = "ready"` -/
def responseDocument (token : Int32) : Json :=
  .object (assign (assign [] (bytes "token") (.integer token.toInt64)) (bytes "status")
    (.string (bytes "ready")))

theorem responseDocument_eq (token : Int32) : responseDocument token =
    .object [(bytes "status", .string (bytes "ready")), (bytes "token", .integer token.toInt64)] := by
  have before : bytes "status" < bytes "token" := by decide
  rw [responseDocument, assign, assign, if_pos before]

theorem dumpInt_eq (number : Int) : Tokens.dumpInt number = numeralText number := by
  rw [Tokens.dumpInt, numeralText, JsonNumbers.signText]
  by_cases negative : number < 0 <;> simp [negative]

/-- The text of a response is what `dump` writes. -/
theorem dump_response (float : Bytes) (token : Int32) :
    dump float (responseDocument token) = some (Tokens.response token) := by
  have status : dumpString (bytes "status") = some (bytes "\"status\"") := rfl
  have ready : dumpString (bytes "ready") = some (bytes "\"ready\"") := rfl
  have named : dumpString (bytes "token") = some (bytes "\"token\"") := rfl
  rw [responseDocument_eq, dump, dumpFields, dumpFields, dump, dump, status, ready, named, dumpSigned_eq,
    Int32.toInt_toInt64, Tokens.response, dumpInt_eq]
  · rfl
  · intro absent
    cases absent

theorem response_back (token : Int32) : ∃ back, parse (Tokens.response token) = some back ∧
    (back.get? (bytes "token")).bind Json.integer? = some token.toInt ∧
    back.get? (bytes "status") = some (.string (bytes "ready")) := by
  have keyed : ReportLanguage.Keyed (responseDocument token) := by
    have sorted : [bytes "status", bytes "token"].Pairwise (· < ·) := by decide
    rw [responseDocument_eq]
    refine .object _ sorted ?_
    simp only [List.forall_mem_cons]
    exact ⟨.string _, .integer _, List.forall_mem_nil _⟩
  have floatFree : FloatFree (responseDocument token) := by
    rw [responseDocument_eq]
    refine .object _ ?_
    simp only [List.forall_mem_cons]
    exact ⟨.string _, .integer _, List.forall_mem_nil _⟩
  refine ⟨_, parse_dump [] keyed floatFree (dump_response [] token), ?_, ?_⟩
  · rw [bind_get?_normal integer?_normal, responseDocument_eq]
    exact congrArg some (Int32.toInt_toInt64 token)
  · rw [get?_normal, responseDocument_eq]
    rfl

/-- Whatever is published for a request, however the threads interleave, is a JSON text that says
that the service is ready and has the token that `get<int>` makes of the request's: the signed
integer of its last 32 bits. -/
theorem published_text {writeMessage : Db → ModbusMasterMsg → Db × Bool} {capacity : Nat} {initial : Db}
    {topic : Topic} {j : Json} {text : Bytes} {n : Int}
    (asks : (j.get? (bytes "token")).bind Json.integer? = some n)
    (published : Tokens.Publishes writeMessage capacity initial topic j text) :
    ∃ back, parse text = some back ∧
      (back.get? (bytes "token")).bind Json.integer? = some (n.bmod (2 ^ 32)) ∧
      back.get? (bytes "status") = some (.string (bytes "ready")) := by
  have token : token? j = some (getInt n) := by rw [token?, asks, Option.map_some]
  have reduced : (getInt n).toInt = n.bmod (2 ^ 32) := Int32.toInt_ofInt
  rw [Tokens.text_of_publishes token published, ← reduced]
  exact response_back (getInt n)

/-- The response to a token that no `int` holds has another one. -/
theorem published_text_wide : ∃ back, parse (Tokens.response 7) = some back ∧
    (back.get? (bytes "token")).bind Json.integer? = some 7 ∧
    back.get? (bytes "status") = some (.string (bytes "ready")) := by
  have published : Tokens.Publishes keepAll 100 [] .keepAlive (Tokens.request (.unsigned 4294967303))
      (Tokens.response 7) := .keepAlive _ _ (by decide)
  have asks : ((Tokens.request (.unsigned 4294967303)).get? (bytes "token")).bind Json.integer? =
      some 4294967303 := rfl
  exact published_text asks published

end

end ModbusDatabase.Payloads
