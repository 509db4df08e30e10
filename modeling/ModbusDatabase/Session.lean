import ModbusDatabase.MqttClient

/-! What the client's recovery is worth: whether a new session gets its
subscriptions back, and whether a reconnection can be noticed at all. -/

namespace ModbusDatabase.Session
open Message MqttClient Library.Transition
set_option autoImplicit false

variable {s t : State}

/-- In a session that has seen a full iteration of `run()`, every topic has been requested. -/
def Restored (s : State) : Prop :=
  s.connected = true → s.full = true → ∀ sub ∈ s.subscriptions, sub.topic ∈ s.sent

/-- The topics that the current iteration is going to request. -/
def due (s : State) : List Bytes :=
  match s.run with
  | .polling _ | .returning => s.subscriptions.map Subscription.topic
  | .resubscribing next => (s.subscriptions.drop next).map Subscription.topic
  | _ => []

/-- A session begins with a topic that the current iteration will not request. -/
def Strands (s : State) : Action → Prop
  | .onConnect true => ∃ sub ∈ s.subscriptions, sub.topic ∉ due s
  | _ => False

instance (s : State) : (action : Action) → Decidable (Strands s action)
  | .onConnect true => inferInstanceAs (Decidable (∃ sub ∈ s.subscriptions, sub.topic ∉ due s))
  | .onConnect false | .connect _ | .loopStart _ | .poll | .subscribe _ _ | .startRun | .run _
  | .onDisconnect => inferInstanceAs (Decidable False)

/-- No topic of the session is forgotten, and what has had its iteration is requested. -/
structure Covered (s : State) : Prop where
  owed : s.connected = true → ∀ sub ∈ s.subscriptions, sub.topic ∈ s.sent ∨ sub.topic ∈ due s
  settled : s.connected = true → s.began = true ∨ s.full = true →
    ∀ sub ∈ s.subscriptions, sub.topic ∈ s.sent

theorem Covered.of_offline (offline : s.connected = false) : Covered s :=
  ⟨fun online => Bool.noConfusion (offline.symm.trans online),
    fun online => Bool.noConfusion (offline.symm.trans online)⟩

/-- Steps that keep the subscriptions and what was sent, and forget nothing due. -/
theorem Covered.moves (covered : Covered s) (run : RunPc) (awaiting : Bool)
    (still : ∀ topic ∈ due s, topic ∈ due { s with run := run, awaiting := awaiting }) :
    Covered { s with run := run, awaiting := awaiting } := by
  refine ⟨fun online sub member => ?_, covered.settled⟩
  rcases covered.owed online sub member with sent | later
  · exact .inl sent
  · exact .inr (still _ later)

/-- Between two iterations nothing is due, so all is sent. -/
theorem Covered.all (covered : Covered s) (nothing : due s = []) (online : s.connected = true) :
    ∀ sub ∈ s.subscriptions, sub.topic ∈ s.sent := by
  intro sub member
  rcases covered.owed online sub member with sent | later
  · exact sent
  · rw [nothing] at later
    exact absurd later List.not_mem_nil

theorem Covered.ends (covered : Covered s) (nothing : due s = []) : Covered (endIteration s) :=
  ⟨fun online sub member => .inl (covered.all nothing online sub member),
    fun online _ => covered.all nothing online⟩

theorem due_grows (more : List Subscription) (sent : List Bytes) {topic : Bytes}
    (later : topic ∈ due s) :
    topic ∈ due { s with subscriptions := s.subscriptions ++ more, sent := sent } := by
  unfold due at later ⊢
  cases at_pc : s.run with
  | polling | returning =>
    simp only [at_pc, List.map_append] at later ⊢
    exact List.mem_append_left _ later
  | resubscribing next =>
    simp only [at_pc, List.drop_append, List.map_append] at later ⊢
    exact List.mem_append_left _ later
  | _ => simp [at_pc] at later

theorem covered_step {action : Action} (covered : Covered s) (held : ¬Strands s action)
    (step : Step s action t) : Covered t := by
  cases step with
  | refused | connecting | threadless | threaded | polls | returns | rejected =>
    exact ⟨covered.owed, covered.settled⟩
  | requested sub idle online =>
    refine ⟨fun _ other member => ?_, fun _ past other member => ?_⟩
    · rcases List.mem_append.mp member with old | new
      · rcases covered.owed online other old with sent | later
        · exact .inl (List.mem_append_left _ sent)
        · exact .inr (due_grows _ _ later)
      · rw [List.mem_singleton.mp new]
        exact .inl (List.mem_append_right _ List.mem_cons_self)
    · rcases List.mem_append.mp member with old | new
      · exact List.mem_append_left _ (covered.settled online past other old)
      · rw [List.mem_singleton.mp new]
        exact List.mem_append_right _ List.mem_cons_self
  | recorded sub success idle offline => exact .of_offline offline
  | starts before => exact covered.moves _ _ (by simp [due, before])
  | online success before seen =>
    have all := covered.all (by rw [due, before]) seen
    exact ⟨fun _ sub member => .inl (all sub member), fun _ _ => all⟩
  | offline success before seen => exact .of_offline seen
  | reconnects before => exact covered.moves _ _ (by simp [due, before])
  | unreachable before => exact covered.moves _ _ (by simp [due, before])
  | waits success polls before => exact covered.moves _ _ (by simp [due, before])
  | waited success polls before => exact covered.moves _ _ (by simp [due, before])
  | reconnected success before seen => exact covered.moves _ _ (by simp [due, before])
  | timedOut success before seen => exact .of_offline seen
  | resubscribes success next sub before found =>
    have first : due s = sub.topic :: (s.subscriptions.drop (next + 1)).map Subscription.topic := by
      obtain ⟨bound, same⟩ := List.getElem?_eq_some_iff.mp found
      simp only [due, before]
      rw [List.drop_eq_getElem_cons bound, same, List.map_cons]
    refine ⟨fun online other member => ?_, fun online past other member => ?_⟩
    · rcases covered.owed online other member with sent | later
      · exact .inl (List.mem_append_left _ sent)
      · rw [first] at later
        rcases List.mem_cons.mp later with same | rest
        · exact .inl (List.mem_append_right _ (same ▸ List.mem_cons_self))
        · exact .inr rest
    · exact List.mem_append_left _ (covered.settled online past other member)
  | resubscribed success next before done =>
    exact covered.ends (by rw [due, before]; simp [List.drop_eq_nil_of_le done])
  | wakes success before => exact covered.ends (by rw [due, before])
  | established thread awaited =>
    refine ⟨fun _ sub member => .inr ?_, fun _ past => ?_⟩
    · by_contra missed
      exact held ⟨sub, member, missed⟩
    · rcases past with began | full
      · exact Bool.noConfusion began
      · exact Bool.noConfusion full
  | denied | lost => exact .of_offline rfl

theorem restored (reached : client.ReachableWhen (fun u action => ¬Strands u action) s) :
    Restored s := by
  have covered : Covered s := invariant_of_step Covered reached (.of_offline rfl)
    (fun u action v holds held step => covered_step holds held step)
  exact fun online full => covered.settled online (.inr full)

theorem step_sleeping (before : s.run = .sleeping) :
    client.step s (.run true) = some (endIteration s) := by
  simp [client, runStep, before]

/-- The next iterations pass a topic by once the current one has. -/
theorem stranded_at_top {sub : Subscription} (online : s.connected = true)
    (member : sub ∈ s.subscriptions) (unsent : sub.topic ∉ s.sent) (before : s.run = .top) :
    ∃ u, client.Leads s u ∧ ¬Restored u := by
  have sleeps : client.step s (.run true) = some { s with began := true, run := .sleeping } := by
    simp [client, runStep, before, online]
  refine ⟨endIteration { s with began := true, run := .sleeping },
    .step sleeps (.step (step_sleeping rfl) .refl), fun restored => ?_⟩
  exact unsent (restored online (Bool.or_true _) sub member)

theorem stranded_resubscribing {sub : Subscription} (online : s.connected = true)
    (member : sub ∈ s.subscriptions) (unsent : sub.topic ∉ s.sent) (passed : sub.topic ∉ due s)
    {next : Nat} (before : s.run = .resubscribing next) :
    ∃ u, client.Leads s u ∧ ¬Restored u := by
  -- the remaining requests are all for other topics
  induction left : s.subscriptions.length - next generalizing s next with
  | zero =>
    have past : s.subscriptions[next]? = none := List.getElem?_eq_none_iff.mpr (by omega)
    have ends : client.step s (.run true) = some (endIteration s) := by
      simp [client, runStep, before, past]
    obtain ⟨u, onward, broken⟩ := stranded_at_top (s := endIteration s) online member unsent rfl
    exact ⟨u, .step ends onward, broken⟩
  | succ left ih =>
    have bound : next < s.subscriptions.length := by omega
    have sends : client.step s (.run true) = some { s with
        sent := s.sent ++ [s.subscriptions[next].topic], run := .resubscribing (next + 1) } := by
      simp [client, runStep, before, bound]
    simp only [due, before, List.drop_eq_getElem_cons bound, List.map_cons, List.mem_cons,
      not_or] at passed
    obtain ⟨u, onward, broken⟩ := ih (s := { s with
        sent := s.sent ++ [s.subscriptions[next].topic], run := .resubscribing (next + 1) })
      online member (by simp [unsent, passed.1]) passed.2 rfl (by simp; omega)
    exact ⟨u, .step sends onward, broken⟩

/-- A session that begins with a topic forgotten can go on without it. -/
theorem stranded {sub : Subscription} (online : s.connected = true)
    (member : sub ∈ s.subscriptions) (unsent : sub.topic ∉ s.sent) (passed : sub.topic ∉ due s) :
    ∃ u, client.Leads s u ∧ ¬Restored u := by
  cases before : s.run with
  | top => exact stranded_at_top online member unsent before
  | stopped =>
    have step : client.step s .startRun = some { s with run := .top } := if_pos before
    obtain ⟨u, onward, broken⟩ := stranded_at_top (s := { s with run := .top }) online member unsent rfl
    exact ⟨u, .step step onward, broken⟩
  | sleeping =>
    obtain ⟨u, onward, broken⟩ := stranded_at_top (s := endIteration s) online member unsent rfl
    exact ⟨u, .step (step_sleeping before) onward, broken⟩
  | reconnecting =>
    have step : client.step s (.run false) = some { s with run := .sleeping } := by
      simp [client, runStep, before]
    obtain ⟨u, onward, broken⟩ :=
      stranded_at_top (s := endIteration { s with run := .sleeping }) online member unsent rfl
    exact ⟨u, .step step (.step (step_sleeping rfl) onward), broken⟩
  | polling polls =>
    exact absurd (List.mem_map_of_mem member) (by simpa only [due, before] using passed)
  | returning =>
    exact absurd (List.mem_map_of_mem member) (by simpa only [due, before] using passed)
  | resubscribing next => exact stranded_resubscribing online member unsent passed before

/-- Subscriptions are restored in every run whose sessions all begin when the
current iteration is going to request every topic; a session that begins at
another time always has a continuation without some of its topics. -/
theorem subscriptions_restored (s : State) :
    (client.ReachableWhen (fun u action => ¬Strands u action) s → Restored s) ∧
      ∀ action t, Strands s action → client.step s action = some t →
        ∃ u, client.Leads t u ∧ ¬Restored u := by
  refine ⟨restored, fun action t strands step => ?_⟩
  cases step_cases step with
  | established thread awaited =>
    obtain ⟨sub, member, passed⟩ := strands
    exact stranded rfl member List.not_mem_nil passed
  | _ => exact strands.elim

def reportTopic : Subscription := ⟨bytes "modbusMaster/database/report/data", 0⟩

/-- The client connects, subscribes and runs for one iteration; then the network
thread replaces the session behind its back. -/
def replacedSession : List Action :=
  [.connect true, .loopStart true, .onConnect true, .poll, .subscribe reportTopic true, .startRun,
    .run true, .run true, .onDisconnect]

theorem subscriptions_not_restored : ¬∀ s, client.Reachable s → Restored s := by
  intro claim
  have restored := claim _ (System.reachable_of_exec
    (replacedSession ++ [.onConnect true, .run true, .run true]) rfl)
  have sent := restored rfl rfl reportTopic List.mem_cons_self
  exact absurd sent List.not_mem_nil

/-- The loss is noticed by `run()` here, and the session begins while it waits for it. -/
def noticedLoss : List Action :=
  replacedSession ++ [.run true, .run true, .run true, .onConnect true, .run true, .run true,
    .run true, .run true, .run true, .run true]

def lostSession : State where
  connected := false
  subscriptions := [reportTopic]
  owner := .idle
  run := .top
  loopThread := true
  awaiting := true
  sent := [reportTopic.topic]
  began := true
  full := true

theorem subscriptions_restored_instances :
    (∃ s, client.exec client.init noticedLoss = some s ∧ s.connected = true ∧ s.full = true ∧
      Restored s) ∧
      client.exec client.init replacedSession = some lostSession ∧
        ∃ t u, client.step lostSession (.onConnect true) = some t ∧ client.Leads t u ∧ ¬Restored u := by
  constructor
  · exact ⟨_, rfl, rfl, rfl, (subscriptions_restored _).1
      (System.reachableWhen_of_exec noticedLoss rfl)⟩
  · obtain ⟨u, onward, broken⟩ :=
      (subscriptions_restored lostSession).2 (.onConnect true) _ (by decide) rfl
    exact ⟨rfl, _, u, rfl, onward, broken⟩

/-! Whether polling for a connection can succeed. -/

/-- While a connection is polled for, the thread that could report it exists. -/
def LoopRunning (s : State) : Prop :=
  ((∃ polls, s.owner = .polling polls) ∨ ∃ polls, s.run = .polling polls) → s.loopThread = true

/-- `run()` is started although no `connect()` has got as far as starting the thread. -/
def StartsThreadless (s : State) : Action → Prop
  | .startRun => s.loopThread = false
  | _ => False

instance (s : State) : (action : Action) → Decidable (StartsThreadless s action)
  | .startRun => inferInstanceAs (Decidable (s.loopThread = false))
  | .onConnect _ | .connect _ | .loopStart _ | .poll | .subscribe _ _ | .run _ | .onDisconnect =>
      inferInstanceAs (Decidable False)

structure Threaded (s : State) : Prop where
  owner : (∃ polls, s.owner = .polling polls) → s.loopThread = true
  run : s.run ≠ .stopped → s.loopThread = true
  answer : s.loopThread = true ∨ s.owner = .startingLoop → s.awaiting = true ∨ s.connected = true

theorem threaded_step {action : Action} (threaded : Threaded s) (held : ¬StartsThreadless s action)
    (step : Step s action t) : Threaded t := by
  have started : ∀ {pc}, s.run = pc → pc ≠ .stopped → s.loopThread = true :=
    fun before going => threaded.run (before ▸ going)
  cases step with
  | refused | rejected => exact threaded
  | connecting idle => exact ⟨fun ⟨_, other⟩ => (nomatch other), threaded.run, fun _ => .inl rfl⟩
  | threadless before =>
    exact ⟨fun ⟨_, other⟩ => (nomatch other), threaded.run, fun _ => threaded.answer (.inr before)⟩
  | threaded before => exact ⟨fun _ => rfl, fun _ => rfl, fun _ => threaded.answer (.inr before)⟩
  | polls polls before | returns polls before =>
    have thread := threaded.owner ⟨polls, before⟩
    exact ⟨fun _ => thread, threaded.run, fun _ => threaded.answer (.inl thread)⟩
  | requested | recorded => exact ⟨threaded.owner, threaded.run, threaded.answer⟩
  | starts before =>
    have thread : s.loopThread = true := by
      by_contra threadless
      exact held ((Bool.not_eq_true _).mp threadless)
    exact ⟨threaded.owner, fun _ => thread, threaded.answer⟩
  | reconnects before =>
    exact ⟨threaded.owner, fun _ => started before (by decide), fun _ => .inl rfl⟩
  | online success before | offline success before | timedOut success before
  | reconnected success before | wakes success before | unreachable before =>
    exact ⟨threaded.owner, fun _ => started before (by decide), threaded.answer⟩
  | waits success polls before | waited success polls before
  | resubscribes success polls sub before | resubscribed success polls before =>
    exact ⟨threaded.owner, fun _ => started before (fun same => nomatch same), threaded.answer⟩
  | established thread awaited => exact ⟨threaded.owner, threaded.run, fun _ => .inr rfl⟩
  | denied thread awaited => exact ⟨threaded.owner, threaded.run, fun _ => .inl awaited⟩
  | lost thread => exact ⟨threaded.owner, threaded.run, fun _ => .inl rfl⟩

theorem threaded (reached : client.ReachableWhen (fun u action => ¬StartsThreadless u action) s) :
    Threaded s := by
  refine invariant_of_step Threaded reached ⟨?_, ?_, ?_⟩
    (fun u action v holds held step => threaded_step holds held step)
  · exact fun ⟨_, other⟩ => nomatch other
  · exact fun started => absurd rfl started
  · rintro (thread | starting)
    · exact Bool.noConfusion thread
    · exact OwnerPc.noConfusion starting

/-- With the thread running, the broker's next answer is noticed. -/
theorem Threaded.connects (threaded : Threaded s) (thread : s.loopThread = true) :
    ∃ t, client.Leads s t ∧ t.connected = true := by
  rcases threaded.answer (.inl thread) with awaiting | online
  · have answers : client.step s (.onConnect true) = some { s with
        connected := true, awaiting := false, sent := [], began := false, full := false } :=
      if_pos ⟨thread, awaiting⟩
    exact ⟨_, .step answers .refl, rfl⟩
  · exact ⟨s, .refl, online⟩

/-- Only the network thread says that the client is connected. -/
theorem thread_of_connected (reached : client.Reachable s) :
    s.connected = true → s.loopThread = true := by
  refine invariant_of_step (fun u => u.connected = true → u.loopThread = true) reached
    (fun online => Bool.noConfusion online) ?_
  intro u action v holds _ step
  cases step with
  | threaded => exact fun _ => rfl
  | established thread => exact fun _ => thread
  | denied | lost => exact fun online => Bool.noConfusion online
  | _ => exact holds

/-- What the owner can do after the one `connect()` of `main`. -/
def Later (_ : State) : Action → Prop
  | .connect _ => False
  | _ => True

structure Outage (s : State) : Prop where
  idle : s.owner = .idle
  threadless : s.loopThread = false
  offline : s.connected = false

theorem outage_step {action : Action} (outage : Outage s) (later : Later s action)
    (step : Step s action t) : Outage t := by
  obtain ⟨idle, threadless, offline⟩ := outage
  cases step with
  | connecting => exact later.elim
  | threadless before | threaded before | polls polls before | returns polls before =>
    rw [idle] at before
    exact OwnerPc.noConfusion before
  | established thread | lost thread => exact Bool.noConfusion (threadless.symm.trans thread)
  | denied => exact ⟨idle, threadless, rfl⟩
  | _ => exact ⟨idle, threadless, offline⟩

theorem outage_lasts (outage : Outage s) (onward : Relation.ReflTransGen (client.NextWhen Later) s t) :
    Outage t := by
  induction onward with
  | refl => exact outage
  | tail _ last ih =>
    obtain ⟨action, later, step⟩ := last
    exact outage_step ih later (step_cases step)

/-- Polling is never in vain in a run that starts `run()` with the network
thread there, and then a connection can always be had. Started without it after
`connect()` has given up, `run()` polls in vain and stays disconnected for good. -/
theorem reconnection_observed (s : State) :
    (client.ReachableWhen (fun u action => ¬StartsThreadless u action) s →
      LoopRunning s ∧ (s.run ≠ .stopped → ∃ t, client.Leads s t ∧ t.connected = true)) ∧
      ∀ action t, client.Reachable s → StartsThreadless s action → s.owner = .idle →
        client.step s action = some t →
        (∃ u, client.Leads t u ∧ ¬LoopRunning u) ∧
          ∀ u, Relation.ReflTransGen (client.NextWhen Later) t u → u.connected = false := by
  constructor
  · intro reached
    have holds := threaded reached
    refine ⟨?_, fun started => holds.connects (holds.run started)⟩
    rintro (owner | ⟨polls, run⟩)
    · exact holds.owner owner
    · exact holds.run (by rw [run]; exact fun same => nomatch same)
  · intro action t reached starts idle step
    cases step_cases step with
    | starts before =>
      have threadless : s.loopThread = false := starts
      have offline : s.connected = false := by
        by_contra online
        have thread := thread_of_connected reached ((Bool.not_eq_false _).mp online)
        exact Bool.noConfusion (threadless.symm.trans thread)
      have sees : client.step { s with run := .top } (.run true) =
          some { s with began := true, run := .reconnecting } := by
        simp [client, runStep, offline]
      have polls : client.step { s with began := true, run := .reconnecting } (.run true) =
          some { s with began := true, awaiting := true, run := .polling 0 } := rfl
      constructor
      · refine ⟨_, .step sees (.step polls .refl), fun running => ?_⟩
        exact Bool.noConfusion (threadless.symm.trans (running (.inr ⟨0, rfl⟩)))
      · have outage : Outage { s with run := .top } := ⟨idle, threadless, offline⟩
        exact fun u onward => (outage_lasts outage onward).offline
    | _ => exact starts.elim

/-- The first connection fails, and `run()` is started all the same. -/
theorem reconnection_not_observed : ¬∀ s, client.Reachable s → LoopRunning s := by
  intro claim
  have running := claim _ (System.reachable_of_exec
    [.connect false, .startRun, .run true, .run true] rfl) (.inr ⟨0, rfl⟩)
  exact Bool.noConfusion running

theorem reconnection_observed_instances :
    (∃ s, client.exec client.init replacedSession = some s ∧
      ∃ t, client.Leads s t ∧ t.connected = true) ∧
      ∃ s, client.exec client.init [.connect false, .startRun] = some s ∧
        ∀ u, Relation.ReflTransGen (client.NextWhen Later) s u → u.connected = false := by
  constructor
  · exact ⟨_, rfl, ((reconnection_observed _).1
      (System.reachableWhen_of_exec replacedSession rfl)).2 (by decide)⟩
  · exact ⟨_, rfl, ((reconnection_observed _).2 .startRun _
      (System.reachable_of_exec [.connect false] rfl) rfl rfl rfl).2⟩

end ModbusDatabase.Session
