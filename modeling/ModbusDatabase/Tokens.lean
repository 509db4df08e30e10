import ModbusDatabase.Conservation
import ModbusDatabase.ReportFidelity

/-! The token of a request and of the response to it. On both topics it passes
through an `int` and is written out again. -/

namespace ModbusDatabase.Tokens
open Library Library.Transition Message Report ReportFidelity Threads Conservation
set_option autoImplicit false

/-! The text of a response. -/

def dumpInt (number : Int) : Bytes :=
  (if number < 0 then [45] else []) ++ Decimal.render number.natAbs

/-- What stands before the token; an object lists its keys in order. -/
def beforeToken : Bytes := bytes "\x7b\"status\":\"ready\",\"token\":"

/-- `response.dump()`. -/
def response (token : Int32) : Bytes := beforeToken ++ (dumpInt token.toInt ++ bytes "\x7d")

def digitsOf (text : Bytes) : Bytes := text.takeWhile fun byte => decide (Decimal.IsDigit byte)

/-- The integer under `token` in the text of a response. -/
def readToken (text : Bytes) : Option Int :=
  if beforeToken.isPrefixOf text then
    let number := text.drop beforeToken.length
    if number.head? = some 45 then some (-(Decimal.value (digitsOf number.tail) : Int))
    else some (Decimal.value (digitsOf number) : Int)
  else none

/-- The keep-alive branch, as far as it publishes something. -/
def onKeepAlive (payload : Option Json) : Option Bytes := (payload.bind token?).map response

theorem digitsOf_render (number : Nat) {behind : Bytes} (ends : digitsOf behind = []) :
    digitsOf (Decimal.render number ++ behind) = Decimal.render number := by
  rw [digitsOf, List.takeWhile_append_of_pos]
  · rw [digitsOf] at ends
    rw [ends, List.append_nil]
  · intro byte member
    exact decide_eq_true (Decimal.isDigit_render member)

/-- A response reads as the number that was put into it. -/
theorem readToken_response (token : Int32) : readToken (response token) = some token.toInt := by
  have front : beforeToken.isPrefixOf (response token) = true :=
    List.isPrefixOf_iff_prefix.mpr (List.prefix_append _ _)
  have ends : digitsOf (bytes "\x7d") = [] := by decide
  rw [readToken, if_pos front, response, List.drop_left]
  by_cases negative : token.toInt < 0
  · rw [dumpInt, if_pos negative]
    simp only [List.cons_append, List.nil_append, List.head?_cons, List.tail_cons, if_true]
    rw [digitsOf_render _ ends, Decimal.value_render]
    congr 1
    omega
  · have unsigned : (Decimal.render token.toInt.natAbs ++ bytes "\x7d").head? ≠ some 45 := by
      rw [List.head?_append_of_ne_nil _ (Decimal.render_ne_nil _)]
      intro sign
      exact absurd (Decimal.isDigit_render (List.mem_of_head? sign)) (by decide)
    rw [dumpInt, if_neg negative, List.nil_append, if_neg unsigned, digitsOf_render _ ends,
      Decimal.value_render]
    congr 1
    omega

/-! What is published for a request. -/

/-- The tokens of the answers to reboot requests, oldest first. -/
def answers (log : Log) : List Int32 :=
  log.filterMap fun
    | .ready token => some token
    | _ => none

/-- The token of the reboot request that the handler has not answered yet. -/
def inHand : CallbackPc → Option Int32
  | .idle => none
  | .requesting token | .notifying token | .waiting token | .publishing token => some token

variable {Db : Type*} {writeMessage : Db → ModbusMasterMsg → Db × Bool} {capacity : Nat}
  {initial : Db} {s t u : State Db} {topic : Topic} {j : Json} {text : Bytes} {token : Int32} {n : Int}

/-- The text of the response to a request. To a reboot request it comes at the end of the
call that received it, in any state that the threads can be in by then. -/
inductive Publishes (writeMessage : Db → ModbusMasterMsg → Db × Bool) (capacity : Nat) (initial : Db) :
    Topic → Json → Bytes → Prop
  | keepAlive (j : Json) (text : Bytes) (published : onKeepAlive (some j) = some text) :
      Publishes writeMessage capacity initial .keepAlive j text
  | reboot (j : Json) (token : Int32) (s t u : State Db)
      (reached : (program writeMessage capacity initial).Reachable s)
      (received : (program writeMessage capacity initial).step s (.receive .reboot (some j)) = some t)
      (serving : t.callback ≠ .idle) (onward : (program writeMessage capacity initial).Leads t u)
      (unanswered : answers u.log = answers t.log) (publishing : u.callback = .publishing token) :
      Publishes writeMessage capacity initial .reboot j (response token)

/-- Every response to the request carries the number. -/
def Echoes (writeMessage : Db → ModbusMasterMsg → Db × Bool) (capacity : Nat) (initial : Db)
    (topic : Topic) (j : Json) (n : Int) : Prop :=
  ∀ text, Publishes writeMessage capacity initial topic j text → readToken text = some n

theorem answers_append (first later : Log) : answers (first ++ later) = answers first ++ answers later :=
  List.filterMap_append

theorem answers_map_report (fate : Fate) (entries : List Threads.Entry) :
    answers (entries.map (.report fate)) = [] := by
  rw [answers, List.filterMap_map, List.filterMap_eq_nil_iff]
  exact fun _ _ => rfl

theorem answers_enqueue (s : State Db) (msg : ModbusMasterMsg) :
    answers (enqueue s msg).log = answers s.log := by
  rw [enqueue, answers_append, answers_append, answers_map_report, List.append_nil]
  exact List.append_nil _

/-- A step answers nothing or the token in hand, which is kept until then. -/
theorem answers_step (token : Int32) {action : Action} (step : Step writeMessage s action t) :
    answers s.log <+: answers t.log ∧ (inHand s.callback = some token →
      answers t.log = answers s.log → inHand t.callback = some token) := by
  cases step with
  | accepts topic payload msg idle =>
    rw [answers_enqueue]
    exact ⟨List.prefix_refl _, fun serves _ => serves⟩
  | receives topic payload other idle =>
    rw [answers_append, idle]
    exact ⟨List.prefix_append _ _, fun serves _ => nomatch serves⟩
  | requests other before | notifies other before | leaves other before complete =>
    rw [before]
    exact ⟨List.prefix_refl _, fun serves _ => serves⟩
  | publishes other before =>
    rw [answers_append]
    exact ⟨List.prefix_append _ _, fun _ same => nomatch List.append_right_eq_self.mp same⟩
  | takes oldest rest before holds =>
    rw [answers_append]
    exact ⟨List.prefix_append _ _, fun serves _ => serves⟩
  | writes entry before =>
    rw [answers_append]
    exact ⟨List.prefix_append _ _, fun serves _ => serves⟩
  | _ => exact ⟨List.prefix_refl _, fun serves _ => serves⟩

/-- Until the request is answered its token stays in hand. -/
theorem inHand_of_leads (reached : (program writeMessage capacity initial).Reachable t)
    (serves : inHand t.callback = some token) (onward : (program writeMessage capacity initial).Leads t u)
    (unanswered : answers u.log = answers t.log) : inHand u.callback = some token := by
  have kept : (program writeMessage capacity initial).Reachable u ∧ answers t.log <+: answers u.log ∧
      (answers u.log = answers t.log → inHand u.callback = some token) := by
    refine System.Leads.invariant (fun v => (program writeMessage capacity initial).Reachable v ∧
      answers t.log <+: answers v.log ∧ (answers v.log = answers t.log → inHand v.callback = some token))
      onward ⟨reached, List.prefix_refl _, fun _ => serves⟩ ?_
    rintro v action w ⟨before, longer, still⟩ step
    obtain ⟨grows, keeps⟩ := answers_step token (step_cases (queue_valid before).1 step)
    refine ⟨before.next step, longer.trans grows, fun same => ?_⟩
    have silent : answers v.log = answers t.log :=
      ((same ▸ grows).eq_of_length_le longer.length_le)
    exact keeps (still silent) (same.trans silent.symm)
  exact kept.2.2 unanswered

theorem onMessage_reboot (s : State Db) (asks : token? j = some token) :
    onMessage s .reboot (some j) =
      { s with callback := .requesting token, log := s.log ++ [.received token] } := by
  simp only [onMessage, asks]

/-- Whatever is published for a request is the response with its token. -/
theorem text_of_publishes (asks : token? j = some token)
    (published : Publishes writeMessage capacity initial topic j text) : text = response token := by
  cases published with
  | keepAlive _ _ published =>
    rw [onKeepAlive, Option.bind_some, asks] at published
    exact (Option.some.inj published).symm
  | reboot _ other s t u reached received serving onward unanswered publishing =>
    obtain ⟨idle, same⟩ := Option.ite_none_right_eq_some.mp received
    rw [onMessage_reboot s asks] at same
    have serves : inHand t.callback = some token := by
      rw [← Option.some.inj same]
      rfl
    have still := inHand_of_leads (reached.next received) serves onward unanswered
    rw [publishing] at still
    cases still
    rfl

theorem readerStep_of_empty (writeMessage : Db → ModbusMasterMsg → Db × Bool)
    (before : s.reader = .draining) (empty : s.queue.contents = []) :
    readerStep writeMessage s = { s with reader := .finishing } := by
  simp only [readerStep, before, MessageQueue.read_of_empty empty]

/-- The first request of all is answered after one round of the reader. -/
theorem first_publishes (writeMessage : Db → ModbusMasterMsg → Db × Bool) (capacity : Nat) (initial : Db)
    (asks : token? j = some token) :
    Publishes writeMessage capacity initial .reboot j (response token) := by
  let asked : State Db :=
    { (program writeMessage capacity initial).init with callback := .requesting token, log := [.received token] }
  have received : (program writeMessage capacity initial).step
      (program writeMessage capacity initial).init (.receive .reboot (some j)) = some asked := by
    change some (onMessage _ _ _) = _
    rw [onMessage_reboot _ asks]
    rfl
  let flushing : State Db := { asked with needFlush := true, callback := .waiting token }
  let flushed : State Db :=
    { asked with flushCompleted := true, callback := .waiting token, reader := .notifying }
  let answering : State Db := { flushed with callback := .publishing token }
  have round : (program writeMessage capacity initial).exec asked
      [.callback, .callback, .reader, .reader] = some { flushing with reader := .draining } := rfl
  have drains : (program writeMessage capacity initial).step { flushing with reader := .draining }
      .reader = some { flushing with reader := .finishing } :=
    congrArg some (readerStep_of_empty writeMessage rfl (MessageQueue.contents_new capacity))
  have ends : (program writeMessage capacity initial).exec { flushing with reader := .finishing }
      [.reader, .callback] = some answering := rfl
  have onward := (System.leads_of_exec round).trans
    (System.Leads.step drains (System.leads_of_exec ends))
  exact .reboot j token _ asked _ .refl received (by simp [asked]) onward rfl rfl

/-- A request is answered with its own token exactly when an `int` holds it. -/
theorem token_echoed_iff (writeMessage : Db → ModbusMasterMsg → Db × Bool) (capacity : Nat) (initial : Db)
    {topic : Topic} {j : Json} {n : Int} (answered : topic = .keepAlive ∨ topic = .reboot)
    (request : (j.get? (bytes "token")).bind Json.integer? = some n) :
    Echoes writeMessage capacity initial topic j n ↔ InRange n := by
  have asks : token? j = some (getInt n) := by rw [token?, request, Option.map_some]
  have published : Publishes writeMessage capacity initial topic j (response (getInt n)) := by
    rcases answered with rfl | rfl
    · exact .keepAlive j _ (by rw [onKeepAlive, Option.bind_some, asks, Option.map_some])
    · exact first_publishes writeMessage capacity initial asks
  rw [← toInt_getInt_iff]
  constructor
  · intro echoes
    have read := echoes _ published
    rw [readToken_response] at read
    exact Option.some.inj read
  · intro same text other
    rw [text_of_publishes asks other, readToken_response, same]

def request (item : Json) : Json := .object [(bytes "token", item)]

theorem token_echoed_iff_small :
    Echoes keepAll 100 [] .keepAlive (request (.integer (-7))) (-7) ∧
      Echoes keepAll 100 [] .reboot (request (.unsigned 123456)) 123456 :=
  ⟨(token_echoed_iff keepAll 100 [] (.inl rfl) rfl).mpr ⟨by decide, by decide⟩,
    (token_echoed_iff keepAll 100 [] (.inr rfl) rfl).mpr ⟨by decide, by decide⟩⟩

/-- The response to 2^32 carries 0. -/
theorem token_not_echoed :
    ¬Echoes keepAll 100 [] .keepAlive (request (.unsigned 4294967296)) 4294967296 := by
  intro echoes
  have read := echoes (response 0) (.keepAlive _ _ (by decide))
  rw [readToken_response] at read
  exact absurd (Option.some.inj read) (by decide)

end ModbusDatabase.Tokens
