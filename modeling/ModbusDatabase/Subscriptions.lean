import Mathlib.Data.List.Induction
import ModbusDatabase.MqttClient

/-! The list of subscriptions against the requests it is meant to follow: the
topics a reconnection asks for, and those whose last successful call was
`subscribe`. -/

namespace ModbusDatabase.Subscriptions
open Message MqttClient Library
set_option autoImplicit false

inductive Request where
  | subscribe (sub : Subscription)
  | unsubscribe (topic : Bytes)

def Request.topic : Request → Bytes
  | .subscribe sub => sub.topic
  | .unsubscribe topic => topic

/-- A call, whether there is a connection at it, and the outcome of the library
call it makes if there is one. -/
structure Call where
  request : Request
  connected : Bool
  success : Bool

/-- The call and what it returns. -/
def perform (s : State) (call : Call) : State × Bool :=
  let now := { s with connected := call.connected }
  match call.request with
  | .subscribe sub => (subscribe now sub call.success, returned now call.success)
  | .unsubscribe topic => (unsubscribe now topic, returned now call.success)

def after (calls : List Call) : State := (Machine.run perform client.init calls).1

def results (calls : List Call) : List Bool := (Machine.run perform client.init calls).2

/-- The topics `resubscribe` asks for. -/
def requested (s : State) : List Bytes := s.subscriptions.map Subscription.topic

/-- The last call about the topic that returned true. -/
def lastReturned (topic : Bytes) (history : List (Call × Bool)) : Option Request :=
  ((history.filter fun done => done.2 ∧ done.1.request.topic = topic).getLast?).map (·.1.request)

/-- The topics asked for are those whose last successful call was `subscribe`. -/
def Follows (calls : List Call) : Prop :=
  ∀ topic, topic ∈ requested (after calls) ↔
    ∃ sub, lastReturned topic (calls.zip (results calls)) = some (.subscribe sub)

/-- Every `subscribe` is. An `unsubscribe` whose library call fails finds its topic recorded any
number of times but once, and every other `unsubscribe` finds it at most once. -/
def Tidy (s : State) (call : Call) : Prop :=
  match call.request with
  | .subscribe _ => True
  | .unsubscribe topic =>
      if call.connected = true ∧ call.success = false then (requested s).count topic ≠ 1
      else (requested s).count topic ≤ 1

theorem length_results (calls : List Call) : (results calls).length = calls.length := by
  induction calls using List.reverseRecOn with
  | nil => rfl
  | append_singleton before call ih =>
    rw [results, Machine.run_concat, List.length_append, List.length_append]
    exact congrArg (· + 1) ih

theorem after_concat (before : List Call) (call : Call) :
    after (before ++ [call]) = (perform (after before) call).1 := by
  rw [after, Machine.run_concat]
  rfl

theorem zip_results_concat (before : List Call) (call : Call) :
    (before ++ [call]).zip (results (before ++ [call])) =
      before.zip (results before) ++ [(call, (perform (after before) call).2)] := by
  rw [results, Machine.run_concat]
  exact List.zip_append (length_results before).symm

theorem lastReturned_concat (topic : Bytes) (history : List (Call × Bool)) (call : Call)
    (result : Bool) : lastReturned topic (history ++ [(call, result)]) =
      if result = true ∧ call.request.topic = topic then some call.request
      else lastReturned topic history := by
  rw [lastReturned, List.filter_append]
  by_cases counts : result = true ∧ call.request.topic = topic
  · have kept : ([(call, result)].filter fun done =>
        done.2 ∧ done.1.request.topic = topic) = [(call, result)] :=
      List.filter_cons_of_pos (decide_eq_true counts)
    rw [if_pos counts, kept, List.getLast?_concat, Option.map_some]
  · have dropped : ([(call, result)].filter fun done =>
        done.2 ∧ done.1.request.topic = topic) = [] :=
      List.filter_cons_of_neg (by simpa using counts)
    rw [if_neg counts, dropped, List.append_nil, lastReturned]

/-! What a call does to the topics. -/

/-- What the call returns, from its own data. -/
def Call.accepted (call : Call) : Bool := !call.connected || call.success

theorem perform_result (s : State) (call : Call) : (perform s call).2 = call.accepted := by
  obtain ⟨request, connected, success⟩ := call
  cases request <;> cases connected <;> cases success <;> rfl

theorem requested_subscribe (s : State) (sub : Subscription) (connected success : Bool) :
    requested (perform s ⟨.subscribe sub, connected, success⟩).1 =
      if (Call.mk (.subscribe sub) connected success).accepted = true then
        requested s ++ [sub.topic]
      else requested s := by
  cases connected <;> cases success <;>
    simp [perform, subscribe, requested, Call.accepted]

theorem requested_unsubscribe (s : State) (topic : Bytes) (connected success : Bool) :
    requested (perform s ⟨.unsubscribe topic, connected, success⟩).1 =
      (requested s).erase topic := by
  have same : (fun sub : Subscription => decide (sub.topic = topic)) =
      (· == topic) ∘ Subscription.topic := by
    funext sub
    exact (beq_eq_decide _ _).symm
  rw [requested, requested, List.erase_eq_eraseP', List.eraseP_map, ← same]
  rfl

theorem mem_erase_self {topic : Bytes} {topics : List Bytes} :
    topic ∈ topics.erase topic ↔ 2 ≤ topics.count topic := by
  rw [← List.count_pos_iff, List.count_erase_self]
  omega

section
variable {s : State} {topic : Bytes} {connected success : Bool}

theorem tidy_accepted
    (accepted : (Call.mk (.unsubscribe topic) connected success).accepted = true) :
    Tidy s ⟨.unsubscribe topic, connected, success⟩ ↔ topic ∉ (requested s).erase topic := by
  have returned : ¬(connected = true ∧ success = false) := by
    rintro ⟨rfl, rfl⟩
    cases accepted
  rw [mem_erase_self, not_le, Nat.lt_succ_iff]
  exact iff_of_eq (if_neg returned)

theorem tidy_rejected
    (rejected : ¬(Call.mk (.unsubscribe topic) connected success).accepted = true) :
    Tidy s ⟨.unsubscribe topic, connected, success⟩ ↔
      (topic ∈ (requested s).erase topic ↔ topic ∈ requested s) := by
  have failed : connected = true ∧ success = false := by
    cases connected <;> cases success <;> simp_all [Call.accepted]
  have tidy : Tidy s ⟨.unsubscribe topic, connected, success⟩ ↔ (requested s).count topic ≠ 1 :=
    iff_of_eq (if_pos failed)
  rw [tidy, mem_erase_self, ← List.count_pos_iff]
  omega

end

theorem follows_concat_iff (before : List Call) (call : Call) :
    Follows (before ++ [call]) ↔ ∀ topic, topic ∈ requested (perform (after before) call).1 ↔
      ∃ sub, (if call.accepted = true ∧ call.request.topic = topic then some call.request
        else lastReturned topic (before.zip (results before))) = some (.subscribe sub) := by
  simp only [Follows, after_concat, zip_results_concat, lastReturned_concat, perform_result]

/-- One call keeps the two in step exactly when it is tidy. -/
theorem follows_concat {before : List Call} (follows : Follows before) (call : Call) :
    Follows (before ++ [call]) ↔ Tidy (after before) call := by
  rw [follows_concat_iff]
  obtain ⟨request, connected, success⟩ := call
  cases request with
  | subscribe sub =>
    refine iff_of_true (fun topic => ?_) trivial
    rw [requested_subscribe]
    by_cases accepted : (Call.mk (.subscribe sub) connected success).accepted = true
    · by_cases same : sub.topic = topic
      · rw [if_pos accepted, if_pos ⟨accepted, same⟩]
        exact iff_of_true (by simp [same]) ⟨sub, rfl⟩
      · rw [if_pos accepted, if_neg (fun both => same both.2), ← follows topic, List.mem_append,
          List.mem_singleton]
        exact or_iff_left (Ne.symm same)
    · rw [if_neg accepted, if_neg (fun both => accepted both.1)]
      exact follows topic
  | unsubscribe topic =>
    rw [requested_unsubscribe]
    have others : ∀ other, topic ≠ other → (other ∈ (requested (after before)).erase topic ↔
        ∃ sub, lastReturned other (before.zip (results before)) = some (.subscribe sub)) :=
      fun other differs => (List.mem_erase_of_ne (Ne.symm differs)).trans (follows other)
    by_cases accepted : (Call.mk (.unsubscribe topic) connected success).accepted = true
    · rw [tidy_accepted accepted]
      constructor
      · intro each member
        obtain ⟨sub, last⟩ := (each topic).mp member
        rw [if_pos ⟨accepted, rfl⟩] at last
        cases last
      · intro gone other
        by_cases same : topic = other
        · subst same
          rw [if_pos ⟨accepted, rfl⟩]
          exact iff_of_false gone (fun ⟨sub, last⟩ => nomatch last)
        · rw [if_neg (fun both => same both.2)]
          exact others other same
    · rw [tidy_rejected accepted]
      simp only [accepted, Bool.false_eq_true, false_and, if_false]
      constructor
      · exact fun each => (each topic).trans (follows topic).symm
      · intro same other
        by_cases this : topic = other
        · exact this ▸ same.trans (follows topic)
        · exact others other this

/-- At every point of a run the list follows the requests exactly when every call is tidy. -/
theorem subscriptions_follow_iff (calls : List Call) :
    (∀ before, before <+: calls → Follows before) ↔
      ∀ before call, before ++ [call] <+: calls → Tidy (after before) call := by
  induction calls using List.reverseRecOn with
  | nil =>
    constructor
    · intro _ before call front
      exact absurd (List.prefix_nil.mp front) (by simp)
    · intro _ before front
      rw [List.prefix_nil.mp front]
      intro topic
      exact iff_of_false List.not_mem_nil (fun ⟨sub, last⟩ => nomatch last)
  | append_singleton earlier last ih =>
    constructor
    · intro follows before call front
      rcases List.prefix_concat_iff.mp front with whole | early
      · obtain ⟨rfl, same⟩ := List.append_inj' whole rfl
        cases same
        exact (follows_concat (follows before (List.prefix_append _ _)) last).mp (follows _ front)
      · exact ih.mp (fun other inside => follows other (inside.trans (List.prefix_append _ _)))
          before call early
    · intro tidy before front
      have until_ := ih.mpr fun other call inside => tidy other call
        (inside.trans (List.prefix_append _ _))
      rcases List.prefix_concat_iff.mp front with rfl | early
      · exact (follows_concat (until_ earlier List.prefix_rfl) last).mpr
          (tidy earlier last List.prefix_rfl)
      · exact until_ before early

/-- A topic recorded twice is still asked for after an `unsubscribe`. -/
theorem subscriptions_not_follow : ¬∀ calls, Follows calls := by
  intro follows
  obtain ⟨sub, last⟩ := (follows [⟨.subscribe ⟨bytes "data", 0⟩, true, true⟩,
    ⟨.subscribe ⟨bytes "data", 0⟩, true, true⟩, ⟨.unsubscribe (bytes "data"), true, true⟩]
    (bytes "data")).mp (by decide)
  cases last

end ModbusDatabase.Subscriptions
