import ModbusDatabase.Library.Transition
import ModbusDatabase.Message

/-! `MqttClient`: the owner's calls of `connect` and `subscribe`, the `run` loop
on its own thread, and the callbacks of the network thread, which exists once
`mosquitto_loop_start` has succeeded. The library reconnects by itself after a
lost connection, and a new session starts without subscriptions. -/

namespace ModbusDatabase.MqttClient
open Message Library.Transition
set_option autoImplicit false

structure Subscription where
  topic : Bytes
  qos : Int32

/-- Where the owner is in `connect()`. -/
inductive OwnerPc where
  | idle
  | startingLoop
  | polling (polls : Nat)
  deriving DecidableEq

/-- Where the loop of `run()` is; `polling` and `returning` are in `reconnect()`. -/
inductive RunPc where
  | stopped
  | top
  | reconnecting
  | polling (polls : Nat)
  | returning
  | resubscribing (next : Nat)
  | sleeping
  deriving DecidableEq

/-- `awaiting` is an attempt to connect that the broker has not answered. The
last three fields are about the current session: the topics requested in it,
whether the current iteration of `run()` began in it, and whether one that did
has come to its end. -/
structure State where
  connected : Bool
  subscriptions : List Subscription
  owner : OwnerPc
  run : RunPc
  loopThread : Bool
  awaiting : Bool
  sent : List Bytes
  began : Bool
  full : Bool

/-- A flag is the outcome of the library call the step makes. -/
inductive Action where
  | connect (success : Bool)
  | loopStart (success : Bool)
  | poll
  | subscribe (sub : Subscription) (success : Bool)
  | startRun
  | run (success : Bool)
  | onConnect (accepted : Bool)
  | onDisconnect

def subscribe (s : State) (sub : Subscription) (success : Bool) : State :=
  if s.connected then
    if success then
      { s with subscriptions := s.subscriptions ++ [sub], sent := s.sent ++ [sub.topic] }
    else s
  else { s with subscriptions := s.subscriptions ++ [sub] }

/-- What `subscribe` and `unsubscribe` return: offline the library is not called. -/
def returned (s : State) (success : Bool) : Bool := if s.connected then success else true

/-- The first entry of the topic goes, whatever the library then says. -/
def unsubscribe (s : State) (topic : Bytes) : State :=
  { s with subscriptions := s.subscriptions.eraseP fun sub => sub.topic = topic }

/-- `loopStart` and `poll` are the rest of `connect()`. -/
def ownerStep (s : State) : Action → Option State
  | .connect success =>
      if s.owner = .idle then
        if success then some { s with awaiting := true, owner := .startingLoop } else some s
      else none
  | .loopStart success =>
      if s.owner = .startingLoop then
        if success then some { s with loopThread := true, owner := .polling 0 }
        else some { s with owner := .idle }
      else none
  | .poll =>
      match s.owner with
      | .polling polls =>
          if polls < 50 ∧ s.connected = false then some { s with owner := .polling (polls + 1) }
          else some { s with owner := .idle }
      | _ => none
  | .subscribe sub success => if s.owner = .idle then some (subscribe s sub success) else none
  | _ => none

def endIteration (s : State) : State := { s with run := .top, full := s.full || s.began }

/-- The next step of `run()`; only `reconnect()`'s `mosquitto_connect` can fail. -/
def runStep (s : State) (success : Bool) : Option State :=
  match s.run with
  | .stopped => none
  | .top =>
      if s.connected then some { s with began := true, run := .sleeping }
      else some { s with began := true, run := .reconnecting }
  | .reconnecting =>
      if success then some { s with awaiting := true, run := .polling 0 }
      else some { s with run := .sleeping }
  | .polling polls =>
      if polls < 50 ∧ s.connected = false then some { s with run := .polling (polls + 1) }
      else some { s with run := .returning }
  | .returning =>
      if s.connected then some { s with run := .resubscribing 0 } else some { s with run := .sleeping }
  | .resubscribing next =>
      match s.subscriptions[next]? with
      | some sub => some { s with sent := s.sent ++ [sub.topic], run := .resubscribing (next + 1) }
      | none => some (endIteration s)
  | .sleeping => some (endIteration s)

def client : System State Action where
  init :=
    { connected := false, subscriptions := [], owner := .idle, run := .stopped, loopThread := false,
      awaiting := false, sent := [], began := false, full := false }
  step s
    | .startRun => if s.run = .stopped then some { s with run := .top } else none
    | .run success => runStep s success
    | .onConnect true =>
        if s.loopThread = true ∧ s.awaiting = true then
          some { s with
            connected := true, awaiting := false, sent := [], began := false, full := false }
        else none
    | .onConnect false =>
        if s.loopThread = true ∧ s.awaiting = true then some { s with connected := false } else none
    | .onDisconnect =>
        -- the network thread then tries again
        if s.loopThread = true then some { s with connected := false, awaiting := true } else none
    | action => ownerStep s action

/-- Everything one step can do. -/
inductive Step (s : State) : Action → State → Prop
  | refused (idle : s.owner = .idle) : Step s (.connect false) s
  | connecting (idle : s.owner = .idle) :
      Step s (.connect true) { s with awaiting := true, owner := .startingLoop }
  | threadless (before : s.owner = .startingLoop) :
      Step s (.loopStart false) { s with owner := .idle }
  | threaded (before : s.owner = .startingLoop) :
      Step s (.loopStart true) { s with loopThread := true, owner := .polling 0 }
  | polls (polls : Nat) (before : s.owner = .polling polls) :
      Step s .poll { s with owner := .polling (polls + 1) }
  | returns (polls : Nat) (before : s.owner = .polling polls) : Step s .poll { s with owner := .idle }
  | rejected (sub : Subscription) (idle : s.owner = .idle) : Step s (.subscribe sub false) s
  | requested (sub : Subscription) (idle : s.owner = .idle) (online : s.connected = true) :
      Step s (.subscribe sub true)
        { s with subscriptions := s.subscriptions ++ [sub], sent := s.sent ++ [sub.topic] }
  | recorded (sub : Subscription) (success : Bool) (idle : s.owner = .idle)
      (offline : s.connected = false) :
      Step s (.subscribe sub success) { s with subscriptions := s.subscriptions ++ [sub] }
  | starts (before : s.run = .stopped) : Step s .startRun { s with run := .top }
  | online (success : Bool) (before : s.run = .top) (seen : s.connected = true) :
      Step s (.run success) { s with began := true, run := .sleeping }
  | offline (success : Bool) (before : s.run = .top) (seen : s.connected = false) :
      Step s (.run success) { s with began := true, run := .reconnecting }
  | reconnects (before : s.run = .reconnecting) :
      Step s (.run true) { s with awaiting := true, run := .polling 0 }
  | unreachable (before : s.run = .reconnecting) : Step s (.run false) { s with run := .sleeping }
  | waits (success : Bool) (polls : Nat) (before : s.run = .polling polls) :
      Step s (.run success) { s with run := .polling (polls + 1) }
  | waited (success : Bool) (polls : Nat) (before : s.run = .polling polls) :
      Step s (.run success) { s with run := .returning }
  | reconnected (success : Bool) (before : s.run = .returning) (seen : s.connected = true) :
      Step s (.run success) { s with run := .resubscribing 0 }
  | timedOut (success : Bool) (before : s.run = .returning) (seen : s.connected = false) :
      Step s (.run success) { s with run := .sleeping }
  | resubscribes (success : Bool) (next : Nat) (sub : Subscription)
      (before : s.run = .resubscribing next) (found : s.subscriptions[next]? = some sub) :
      Step s (.run success) { s with sent := s.sent ++ [sub.topic], run := .resubscribing (next + 1) }
  | resubscribed (success : Bool) (next : Nat) (before : s.run = .resubscribing next)
      (done : s.subscriptions.length ≤ next) : Step s (.run success) (endIteration s)
  | wakes (success : Bool) (before : s.run = .sleeping) : Step s (.run success) (endIteration s)
  | established (thread : s.loopThread = true) (awaited : s.awaiting = true) :
      Step s (.onConnect true)
        { s with connected := true, awaiting := false, sent := [], began := false, full := false }
  | denied (thread : s.loopThread = true) (awaited : s.awaiting = true) :
      Step s (.onConnect false) { s with connected := false }
  | lost (thread : s.loopThread = true) :
      Step s .onDisconnect { s with connected := false, awaiting := true }

variable {s t : State}

theorem step_run {success : Bool} (step : runStep s success = some t) : Step s (.run success) t := by
  unfold runStep at step
  split at step
  next => cases step
  next before =>
    split at step
    next seen => cases step; exact .online success before seen
    next seen => cases step; exact .offline success before (by simpa using seen)
  next before =>
    cases success with
    | true => cases step; exact .reconnects before
    | false => cases step; exact .unreachable before
  next polls before =>
    split at step
    next => cases step; exact .waits success polls before
    next => cases step; exact .waited success polls before
  next before =>
    split at step
    next seen => cases step; exact .reconnected success before seen
    next seen => cases step; exact .timedOut success before (by simpa using seen)
  next next before =>
    split at step
    next sub found => cases step; exact .resubscribes success next sub before found
    next past =>
      cases step
      exact .resubscribed success next before (List.getElem?_eq_none_iff.mp past)
  next before => cases step; exact .wakes success before

theorem step_subscribe {sub : Subscription} {success : Bool} (idle : s.owner = .idle) :
    Step s (.subscribe sub success) (subscribe s sub success) := by
  unfold subscribe
  split
  next online =>
    cases success with
    | true => exact .requested sub idle online
    | false => exact .rejected sub idle
  next offline => exact .recorded sub success idle (by simpa using offline)

theorem step_cases {action : Action} (step : client.step s action = some t) : Step s action t := by
  cases action with
  | connect success =>
    obtain ⟨idle, same⟩ := Option.ite_none_right_eq_some.mp step
    cases success with
    | true => cases same; exact .connecting idle
    | false => cases same; exact .refused idle
  | loopStart success =>
    obtain ⟨before, same⟩ := Option.ite_none_right_eq_some.mp step
    cases success with
    | true => cases same; exact .threaded before
    | false => cases same; exact .threadless before
  | poll =>
    cases before : s.owner with
    | polling polls =>
      simp only [client, ownerStep, before] at step
      split at step
      next => cases step; exact .polls polls before
      next => cases step; exact .returns polls before
    | _ => simp [client, ownerStep, before] at step
  | subscribe sub success =>
    obtain ⟨idle, same⟩ := Option.ite_none_right_eq_some.mp step
    cases same
    exact step_subscribe idle
  | startRun =>
    obtain ⟨before, same⟩ := Option.ite_none_right_eq_some.mp step
    cases same
    exact .starts before
  | run success => exact step_run step
  | onConnect accepted =>
    cases accepted with
    | true =>
      obtain ⟨⟨thread, awaited⟩, same⟩ := Option.ite_none_right_eq_some.mp step
      cases same
      exact .established thread awaited
    | false =>
      obtain ⟨⟨thread, awaited⟩, same⟩ := Option.ite_none_right_eq_some.mp step
      cases same
      exact .denied thread awaited
  | onDisconnect =>
    obtain ⟨thread, same⟩ := Option.ite_none_right_eq_some.mp step
    cases same
    exact .lost thread

/-- The induction rule for invariants of the client, on the cases of `Step`. -/
theorem invariant_of_step {allowed : State → Action → Prop} (Holds : State → Prop)
    (reached : client.ReachableWhen allowed s) (start : Holds client.init)
    (keep : ∀ s action t, Holds s → allowed s action → Step s action t → Holds t) : Holds s :=
  System.ReachableWhen.invariant Holds reached start
    (fun s action t _ holds permitted step => keep s action t holds permitted (step_cases step))

end ModbusDatabase.MqttClient
