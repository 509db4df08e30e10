import Mathlib.Data.List.Nodup
import ModbusDatabase.Threads

/-! Where an accepted report can be: in the queue, in the reader's hand, handed
to `writeMessage`, or overwritten. One invariant splits the accepted reports at
the head of the queue and follows both threads through every interleaving. -/

namespace ModbusDatabase.Conservation
open Library Library.Transition Message Threads
set_option autoImplicit false

variable {Db : Type*} {writeMessage : Db → ModbusMasterMsg → Db × Bool} {capacity : Nat}
  {initial : Db} {s t : State Db}

/-- The report the reader has read from the queue and not yet written. -/
def hand (s : State Db) : List Entry :=
  match s.reader with
  | .writing entry => [entry]
  | _ => []

/-- The report `cap` places later was accepted before the reader took this one. -/
def Overtaken (cap : Nat) (log : Log) (entry : Entry) : Prop :=
  ∃ before later after, log = before ++ .report .accepted later :: after ∧
    later.number = entry.number + cap ∧ .report .taken entry ∉ before

/-- At no point so far were more than `cap` accepted reports untaken. -/
def KeptUp (cap : Nat) (log : Log) : Prop :=
  ∀ earlier, earlier <+: log →
    (entriesOf .accepted earlier).length ≤ (entriesOf .taken earlier).length + cap

theorem KeptUp.of_append {cap : Nat} {log more : Log} (kept : KeptUp cap (log ++ more)) :
    KeptUp cap log := fun earlier initial => kept earlier (initial.trans (List.prefix_append _ _))

theorem Overtaken.append {cap : Nat} {log : Log} {entry : Entry} (passed : Overtaken cap log entry)
    (more : Log) : Overtaken cap (log ++ more) entry := by
  obtain ⟨before, later, after, rfl, number, untaken⟩ := passed
  exact ⟨before, later, after ++ more, by simp, number, untaken⟩

/-- Only an acceptance can overtake a report that was not overtaken before. -/
theorem overtaken_append {cap : Nat} {log more : Log} {entry : Entry}
    (passed : Overtaken cap (log ++ more) entry) :
    Overtaken cap log entry ∨
      ∃ later, .report .accepted later ∈ more ∧ later.number = entry.number + cap ∧
        .report .taken entry ∉ log := by
  obtain ⟨before, later, after, same, number, untaken⟩ := passed
  rcases List.append_eq_append_iff.mp same with ⟨extra, rfl, rest⟩ | ⟨extra, rfl, rest⟩
  · refine .inr ⟨later, by simp [rest], number, fun taken => untaken ?_⟩
    exact List.mem_append_left _ taken
  · cases extra with
    | nil =>
      rw [List.append_nil]
      rw [List.nil_append] at rest
      exact .inr ⟨later, rest ▸ List.mem_cons_self, number, untaken⟩
    | cons event others =>
      obtain ⟨rfl, -⟩ := List.cons.inj rest
      exact .inl ⟨before, later, others, rfl, number, untaken⟩

/-- The accepted reports up to the head of the queue are `older`; the rest are queued. -/
structure Split (cap : Nat) (s : State Db) (older : List Entry) : Prop where
  accepted : entriesOf .accepted s.log = older ++ s.queue.contents
  ordered : (entriesOf .taken s.log).Sublist older
  accounted : ∀ entry ∈ older, entry ∈ entriesOf .taken s.log ∨
    entry ∈ entriesOf .overwritten s.log ∧ entry.number + cap < (entriesOf .accepted s.log).length
  lossless : KeptUp cap s.log → entriesOf .taken s.log = older

structure Conserved (writeMessage : Db → ModbusMasterMsg → Db × Bool) (cap : Nat) (initial : Db)
    (s : State Db) : Prop where
  numbered :
    (entriesOf .accepted s.log).map Entry.number = List.range (entriesOf .accepted s.log).length
  split : ∃ older, Split cap s older
  handed : entriesOf .taken s.log = entriesOf .written s.log ++ hand s
  untaken : ∀ entry, Overtaken cap s.log entry → entry ∉ entriesOf .taken s.log
  stored :
    s.db = (entriesOf .written s.log).foldl (fun db entry => (writeMessage db entry.msg).1) initial

theorem number_at {accepted older rest : List Entry} {entry : Entry}
    (numbered : accepted.map Entry.number = List.range accepted.length)
    (split : accepted = older ++ entry :: rest) : entry.number = older.length := by
  have at_index := congrArg (·[older.length]?) numbered
  simpa [split] using at_index

theorem number_lt {accepted : List Entry} {entry : Entry}
    (numbered : accepted.map Entry.number = List.range accepted.length)
    (member : entry ∈ accepted) : entry.number < accepted.length := by
  rw [← List.mem_range, ← numbered]
  exact List.mem_map_of_mem member

/-- An overtaken report has `cap` accepted reports behind it. -/
theorem Overtaken.number_add_lt {cap : Nat} {log : Log} {entry : Entry}
    (passed : Overtaken cap log entry)
    (numbered :
      (entriesOf .accepted log).map Entry.number = List.range (entriesOf .accepted log).length) :
    entry.number + cap < (entriesOf .accepted log).length := by
  obtain ⟨before, later, after, same, number, -⟩ := passed
  rw [← number]
  apply number_lt numbered
  simp [same]

/-- A step that logs nothing the invariant counts, and leaves queue, hand and
database alone, keeps it. -/
theorem Conserved.silent {cap : Nat} (conserved : Conserved writeMessage cap initial s) {more : Log}
    (log : t.log = s.log ++ more)
    (silent : entriesOf .accepted more = [] ∧ entriesOf .overwritten more = [] ∧
      entriesOf .taken more = [] ∧
      entriesOf .written more = [])
    (queue : t.queue = s.queue) (holds : hand t = hand s) (db : t.db = s.db) :
    Conserved writeMessage cap initial t := by
  obtain ⟨noneAccepted, noneOverwritten, noneTaken, noneWritten⟩ := silent
  have accepted : entriesOf .accepted t.log = entriesOf .accepted s.log := by
    rw [log, entriesOf_append, noneAccepted, List.append_nil]
  have overwritten : entriesOf .overwritten t.log = entriesOf .overwritten s.log := by
    rw [log, entriesOf_append, noneOverwritten, List.append_nil]
  have taken : entriesOf .taken t.log = entriesOf .taken s.log := by
    rw [log, entriesOf_append, noneTaken, List.append_nil]
  have written : entriesOf .written t.log = entriesOf .written s.log := by
    rw [log, entriesOf_append, noneWritten, List.append_nil]
  obtain ⟨older, split⟩ := conserved.split
  constructor
  · rw [accepted]; exact conserved.numbered
  · refine ⟨older, ?_, ?_, ?_, ?_⟩
    · rw [accepted, queue]; exact split.accepted
    · rw [taken]; exact split.ordered
    · rw [accepted, taken, overwritten]; exact split.accounted
    · intro kept
      rw [taken]
      exact split.lossless (KeptUp.of_append (log ▸ kept))
  · rw [taken, written, holds]; exact conserved.handed
  · intro entry passed
    rw [taken]
    rw [log] at passed
    rcases overtaken_append passed with before | ⟨later, member, -⟩
    · exact conserved.untaken entry before
    · have accepts : later ∈ entriesOf .accepted more := List.mem_filterMap.mpr ⟨_, member, rfl⟩
      simp [noneAccepted] at accepts
  · rw [db, written]; exact conserved.stored

theorem length_contents_le (valid : s.queue.Valid) {cap : Nat}
    (size : s.queue.buffer.length = cap) : s.queue.contents.length ≤ cap := by
  rw [MessageQueue.length_contents, ← size]
  exact valid.count_le

/-- Accepting a report into a queue that is not full. -/
theorem Split.enqueue_room {cap : Nat} {older : List Entry} (split : Split cap s older)
    (valid : s.queue.Valid) (size : s.queue.buffer.length = cap)
    (room : s.queue.contents.length ≠ cap) (msg : ModbusMasterMsg) :
    Split cap (enqueue s msg) older := by
  have contents := MessageQueue.contents_write valid ⟨(entriesOf .accepted s.log).length, msg⟩
  rw [size, BoundedQueue.push_of_room room] at contents
  have log : (enqueue s msg).log =
      s.log ++ [.report .accepted ⟨(entriesOf .accepted s.log).length, msg⟩] := by
    simp [enqueue, size, BoundedQueue.dropped_of_room room]
  constructor
  · rw [log]
    change _ = older ++ (s.queue.write ⟨(entriesOf .accepted s.log).length, msg⟩).1.contents
    rw [contents]
    simp [split.accepted]
  · simpa [log] using split.ordered
  · intro entry member
    rcases split.accounted entry member with taken | ⟨overwritten, number⟩
    · exact .inl (by simpa [log] using taken)
    · refine .inr ⟨by simpa [log] using overwritten, ?_⟩
      simp only [log, entriesOf_append, List.length_append]
      omega
  · intro kept
    rw [log] at kept
    simpa [log] using split.lossless kept.of_append

/-- Accepting a report into a full queue moves its head to the older reports. -/
theorem Split.enqueue_full {cap : Nat} {older rest : List Entry} {oldest : Entry}
    (split : Split cap s older) (valid : s.queue.Valid) (size : s.queue.buffer.length = cap)
    (numbered :
      (entriesOf .accepted s.log).map Entry.number = List.range (entriesOf .accepted s.log).length)
    (holds : s.queue.contents = oldest :: rest) (full : s.queue.contents.length = cap)
    (msg : ModbusMasterMsg) : Split cap (enqueue s msg) (older ++ [oldest]) := by
  have contents := MessageQueue.contents_write valid ⟨(entriesOf .accepted s.log).length, msg⟩
  rw [size, BoundedQueue.push_of_full full, holds, List.tail_cons] at contents
  have log : (enqueue s msg).log =
      s.log ++ [.report .overwritten oldest,
        .report .accepted ⟨(entriesOf .accepted s.log).length, msg⟩] := by
    simp only [enqueue, size, BoundedQueue.dropped, if_pos full]
    simp [holds]
  have number := number_at numbered (holds ▸ split.accepted)
  have count : (entriesOf .accepted s.log).length = older.length + cap := by
    rw [split.accepted, List.length_append, full]
  constructor
  · rw [log]
    change _ = older ++ [oldest] ++ (s.queue.write ⟨(entriesOf .accepted s.log).length, msg⟩).1.contents
    rw [contents]
    simp [split.accepted, holds]
  · simpa [log] using split.ordered.trans (List.sublist_append_left older [oldest])
  · intro entry member
    rcases List.mem_append.mp member with before | head
    · rcases split.accounted entry before with taken | ⟨overwritten, bound⟩
      · exact .inl (by simpa [log] using taken)
      · refine .inr ⟨by simp [log, overwritten], ?_⟩
        simp only [log, entriesOf_append, List.length_append]
        omega
    · obtain rfl := List.mem_singleton.mp head
      refine .inr ⟨by simp [log], ?_⟩
      simp [log]
      omega
  · intro kept
    rw [log] at kept
    -- a full queue of untaken reports and one more is over the bound
    have bound := kept _ List.prefix_rfl
    have same := split.lossless kept.of_append
    simp [same] at bound
    omega

theorem Conserved.enqueue {cap : Nat} (positive : 0 < cap) (valid : s.queue.Valid)
    (size : s.queue.buffer.length = cap) (conserved : Conserved writeMessage cap initial s)
    (msg : ModbusMasterMsg) : Conserved writeMessage cap initial (enqueue s msg) := by
  obtain ⟨older, split⟩ := conserved.split
  have taken : entriesOf .taken (Threads.enqueue s msg).log = entriesOf .taken s.log := by
    simp [Threads.enqueue]
  have written : entriesOf .written (Threads.enqueue s msg).log = entriesOf .written s.log := by
    simp [Threads.enqueue]
  have accepted : entriesOf .accepted (Threads.enqueue s msg).log =
      entriesOf .accepted s.log ++ [⟨(entriesOf .accepted s.log).length, msg⟩] := by
    simp [Threads.enqueue]
  constructor
  · rw [accepted, List.map_append, conserved.numbered, List.length_append, List.length_singleton,
      List.range_succ]
    rfl
  · by_cases full : s.queue.contents.length = cap
    · cases holds : s.queue.contents with
      | nil => rw [holds, List.length_nil] at full; omega
      | cons oldest rest =>
        exact ⟨_, split.enqueue_full valid size conserved.numbered holds full msg⟩
    · exact ⟨_, split.enqueue_room valid size full msg⟩
  · rw [taken, written]; exact conserved.handed
  · intro entry passed
    rw [taken]
    simp only [Threads.enqueue, List.append_assoc] at passed
    rcases overtaken_append passed with before | ⟨later, _, _, untaken⟩
    · exact conserved.untaken entry before
    · exact fun member => untaken (mem_entriesOf.mp member)
  · rw [written]; exact conserved.stored

/-- Taking the head of the queue: it joins the older reports as taken. -/
theorem Conserved.take {cap : Nat} (valid : s.queue.Valid) (size : s.queue.buffer.length = cap)
    (conserved : Conserved writeMessage cap initial s) {oldest : Entry} {rest : List Entry}
    (before : s.reader = .draining) (holds : s.queue.contents = oldest :: rest) :
    Conserved writeMessage cap initial
      { s with queue := (s.queue.read default).1, reader := .writing oldest,
               log := s.log ++ [.report .taken oldest] } := by
  obtain ⟨older, split⟩ := conserved.split
  obtain ⟨_, after⟩ := MessageQueue.read_of_cons valid holds default
  have number := number_at conserved.numbered (holds ▸ split.accepted)
  have handed := conserved.handed
  rw [show hand s = [] by simp [hand, before], List.append_nil] at handed
  constructor
  · simpa using conserved.numbered
  · refine ⟨older ++ [oldest], ?_, ?_, ?_, ?_⟩
    · simp [split.accepted, holds, after]
    · simpa using split.ordered.append (List.Sublist.refl [oldest])
    · intro entry member
      rcases List.mem_append.mp member with earlier | head
      · rcases split.accounted entry earlier with taken | overwritten
        · exact .inl (by simp [mem_entriesOf.mp taken])
        · exact .inr (by simpa using overwritten)
      · exact .inl (by simp [List.mem_singleton.mp head])
    · intro kept
      simp [split.lossless kept.of_append]
  · simp [handed, hand]
  · intro entry passed member
    rcases overtaken_append passed with already | ⟨later, accepts, -⟩
    · rw [entriesOf_append] at member
      rcases List.mem_append.mp member with earlier | head
      · exact conserved.untaken entry already earlier
      · -- a queued report has fewer than `cap` reports behind it
        obtain rfl : entry = oldest := by simpa using head
        have bound := already.number_add_lt conserved.numbered
        have room := length_contents_le valid size
        rw [split.accepted, List.length_append] at bound
        omega
    · simp at accepts
  · simpa using conserved.stored

theorem Conserved.write {cap : Nat} (conserved : Conserved writeMessage cap initial s)
    {entry : Entry} (before : s.reader = .writing entry) :
    Conserved writeMessage cap initial
      { s with db := (writeMessage s.db entry.msg).1, reader := .draining,
               log := s.log ++ [.report .written entry] } := by
  obtain ⟨older, split⟩ := conserved.split
  have handed := conserved.handed
  rw [show hand s = [entry] by simp [hand, before]] at handed
  constructor
  · simpa using conserved.numbered
  · refine ⟨older, ?_, ?_, ?_, ?_⟩
    · simpa using split.accepted
    · simpa using split.ordered
    · intro other member
      simpa using split.accounted other member
    · intro kept
      simpa using split.lossless kept.of_append
  · simp [handed, hand]
  · intro other passed
    rcases overtaken_append passed with already | ⟨later, accepts, -⟩
    · simpa using conserved.untaken other already
    · simp at accepts
  · simp [conserved.stored]

theorem Conserved.step {cap : Nat} {action : Action} (positive : 0 < cap) (valid : s.queue.Valid)
    (size : s.queue.buffer.length = cap) (conserved : Conserved writeMessage cap initial s)
    (step : Step writeMessage s action t) : Conserved writeMessage cap initial t := by
  cases step with
  | accepts topic payload msg idle => exact conserved.enqueue positive valid size msg
  | takes oldest rest before holds => exact conserved.take valid size before holds
  | writes entry before => exact conserved.write before
  | receives topic payload token idle =>
    exact conserved.silent rfl ⟨rfl, rfl, rfl, rfl⟩ rfl rfl rfl
  | publishes token before => exact conserved.silent rfl ⟨rfl, rfl, rfl, rfl⟩ rfl rfl rfl
  | ignores | waits | sleeps => exact conserved
  | requests | notifies | leaves =>
    exact conserved.silent (List.append_nil _).symm ⟨rfl, rfl, rfl, rfl⟩ rfl rfl rfl
  | begins before asked =>
    have emptyHand : hand s = [] := by rcases before with at_top | asleep <;> simp [hand, *]
    exact conserved.silent (List.append_nil _).symm ⟨rfl, rfl, rfl, rfl⟩ rfl emptyHand.symm rfl
  | blocks before | expires before | measures before | empties before | finishes before
  | rounds before =>
    have emptyHand : hand s = [] := by simp [hand, before]
    exact conserved.silent (List.append_nil _).symm ⟨rfl, rfl, rfl, rfl⟩ rfl emptyHand.symm rfl

theorem conserved (reached : (program writeMessage capacity initial).Reachable s) :
    Conserved writeMessage (max capacity 1) initial s := by
  refine invariant_of_step (Conserved writeMessage (max capacity 1) initial) reached ?_ ?_
  · refine ⟨rfl, ⟨[], rfl, List.Sublist.refl _, by simp, fun _ => rfl⟩, rfl, ?_, rfl⟩
    intro entry _ member
    cases member
  · intro u action v before holds _ step
    obtain ⟨valid, size⟩ := queue_valid before
    exact holds.step (by omega) valid size step

/-- The database is what the written reports make of it, one after the other. -/
theorem database_of_written (reached : (program writeMessage capacity initial).Reachable s) :
    s.db = (entriesOf .written s.log).foldl (fun db entry => (writeMessage db entry.msg).1) initial :=
  (conserved reached).stored

/-- Gone for good: neither queued nor held, and written on no continuation. -/
def Lost (writeMessage : Db → ModbusMasterMsg → Db × Bool) (capacity : Nat) (initial : Db)
    (s : State Db) (entry : Entry) : Prop :=
  entry ∉ s.queue.contents ∧ entry ∉ hand s ∧
    ∀ t, (program writeMessage capacity initial).Leads s t → entry ∉ entriesOf .written t.log

theorem Step.log_extends {action : Action} (step : Step writeMessage s action t) :
    s.log <+: t.log := by
  cases step with
  | accepts => simp [enqueue]
  | receives | publishes | takes | writes => exact List.prefix_append _ _
  | _ => exact List.prefix_rfl

theorem log_extends (reached : (program writeMessage capacity initial).Reachable s)
    (onward : (program writeMessage capacity initial).Leads s t) : s.log <+: t.log := by
  refine (System.Leads.invariant (fun u => (program writeMessage capacity initial).Reachable u ∧
    s.log <+: u.log) onward ⟨reached, List.prefix_rfl⟩ ?_).2
  intro u action v holds step
  refine ⟨holds.1.next step, holds.2.trans ?_⟩
  exact Step.log_extends (step_cases (queue_valid holds.1).1 step)

theorem lost_iff_overtaken (reached : (program writeMessage capacity initial).Reachable s)
    {entry : Entry} (member : entry ∈ entriesOf .accepted s.log) :
    Lost writeMessage capacity initial s entry ↔ Overtaken (max capacity 1) s.log entry := by
  have now := conserved reached
  obtain ⟨older, split⟩ := now.split
  constructor
  · rintro ⟨notQueued, notHeld, neverWritten⟩
    have early : entry ∈ older := by
      rw [split.accepted] at member
      exact (List.mem_append.mp member).resolve_right notQueued
    have untaken : entry ∉ entriesOf .taken s.log := by
      rw [now.handed]
      exact fun taken => (List.mem_append.mp taken).elim (neverWritten s .refl) notHeld
    obtain ⟨-, bound⟩ := (split.accounted entry early).resolve_left untaken
    -- the report with the number `cap` further on is among the accepted ones
    obtain ⟨before, later, after, same⟩ : ∃ before later after,
        s.log = before ++ .report .accepted later :: after ∧
          later.number = entry.number + max capacity 1 := by
      have numbers := List.mem_range.mpr bound
      rw [← now.numbered] at numbers
      obtain ⟨later, accepts, number⟩ := List.mem_map.mp numbers
      obtain ⟨before, after, same⟩ := List.append_of_mem (mem_entriesOf.mp accepts)
      exact ⟨before, later, after, same, number⟩
    refine ⟨before, later, after, same.1, same.2, fun taken => untaken (mem_entriesOf.mpr ?_)⟩
    rw [same.1]
    exact List.mem_append_left _ taken
  · intro passed
    have bound := passed.number_add_lt now.numbered
    have room := length_contents_le (queue_valid reached).1 (queue_valid reached).2
    have untaken := now.untaken entry passed
    refine ⟨fun queued => ?_, fun held => untaken (by simp [now.handed, held]), ?_⟩
    · obtain ⟨first, rest, same⟩ := List.append_of_mem queued
      have whole : entriesOf .accepted s.log = (older ++ first) ++ entry :: rest := by
        rw [split.accepted, same, List.append_assoc]
      have number := number_at now.numbered whole
      rw [split.accepted, List.length_append] at bound
      rw [List.length_append] at number
      omega
    · intro t onward written
      have then_ := conserved (reached.leads onward)
      obtain ⟨more, grown⟩ := log_extends reached onward
      refine then_.untaken entry (grown ▸ passed.append more) ?_
      rw [then_.handed]
      exact List.mem_append_left _ written

theorem written_sublist (reached : (program writeMessage capacity initial).Reachable s) :
    (entriesOf .written s.log).Sublist (entriesOf .accepted s.log) := by
  have now := conserved reached
  obtain ⟨older, split⟩ := now.split
  have taken := split.ordered.trans (List.sublist_append_left older s.queue.contents)
  rw [← split.accepted, now.handed] at taken
  exact (List.sublist_append_left _ _).trans taken

theorem accepted_nodup (reached : (program writeMessage capacity initial).Reachable s) :
    (entriesOf .accepted s.log).Nodup := by
  apply List.Nodup.of_map Entry.number
  rw [(conserved reached).numbered]
  exact List.nodup_range

theorem queued_newest (reached : (program writeMessage capacity initial).Reachable s) :
    s.queue.contents =
      (entriesOf .accepted s.log).drop ((entriesOf .accepted s.log).length - s.queue.size) := by
  obtain ⟨older, split⟩ := (conserved reached).split
  rw [split.accepted, ← MessageQueue.length_contents, List.length_append, Nat.add_sub_cancel,
    List.drop_left]

/-- A reader that keeps up has what left the queue in hand or written, in order. -/
theorem accepted_of_kept (reached : (program writeMessage capacity initial).Reachable s)
    (kept : KeptUp (max capacity 1) s.log) :
    entriesOf .accepted s.log = entriesOf .written s.log ++ hand s ++ s.queue.contents := by
  have now := conserved reached
  obtain ⟨older, split⟩ := now.split
  rw [split.accepted, ← split.lossless kept, now.handed]

theorem written_of_drained (reached : (program writeMessage capacity initial).Reachable s)
    (kept : KeptUp (max capacity 1) s.log) (empty : s.queue.size = 0) (unheld : hand s = []) :
    entriesOf .written s.log = entriesOf .accepted s.log := by
  have drained : s.queue.contents = [] :=
    List.eq_nil_of_length_eq_zero ((MessageQueue.length_contents _).trans empty)
  rw [accepted_of_kept reached kept, unheld, drained, List.append_nil, List.append_nil]

/-- Conservation over every interleaving of the two threads. -/
theorem reports_conserved (writeMessage : Db → ModbusMasterMsg → Db × Bool) (capacity : Nat)
    (initial : Db) (s : State Db) (reached : (program writeMessage capacity initial).Reachable s) :
    (entriesOf .written s.log).Sublist (entriesOf .accepted s.log) ∧
      (entriesOf .written s.log).Nodup ∧
      s.queue.contents =
        (entriesOf .accepted s.log).drop ((entriesOf .accepted s.log).length - s.queue.size) ∧
      (∀ entry ∈ entriesOf .accepted s.log,
        Lost writeMessage capacity initial s entry ↔ Overtaken (max capacity 1) s.log entry) ∧
      (KeptUp (max capacity 1) s.log →
        (∀ entry ∈ entriesOf .accepted s.log,
          entry ∈ s.queue.contents ∨ entry ∈ hand s ∨ entry ∈ entriesOf .written s.log) ∧
        (s.queue.size = 0 → hand s = [] → entriesOf .written s.log = entriesOf .accepted s.log)) := by
  have ordered := written_sublist reached
  refine ⟨ordered, (accepted_nodup reached).sublist ordered, queued_newest reached,
    fun entry => lost_iff_overtaken reached, fun kept => ⟨?_, written_of_drained reached kept⟩⟩
  intro entry member
  rw [accepted_of_kept reached kept] at member
  rcases List.mem_append.mp member with before | queued
  · rcases List.mem_append.mp before with written | held
    · exact .inr (.inr written)
    · exact .inr (.inl held)
  · exact .inl queued

/-- A database that keeps every message, for runs on fixed inputs. -/
def keepAll (db : List ModbusMasterMsg) (msg : ModbusMasterMsg) : List ModbusMasterMsg × Bool :=
  (db ++ [msg], true)

/-- Two reports into a queue of one slot before the reader comes: the first is lost. -/
theorem reports_conserved_one_slot : ∃ s,
    (program keepAll 1 []).exec (program keepAll 1 []).init
      [.receive .data (some Report.sampleReport), .receive .data (some Report.sampleReport)] =
        some s ∧ Lost keepAll 1 [] s ⟨0, Report.sampleMsg⟩ := by
  refine ⟨_, rfl, ?_⟩
  have conservation := reports_conserved keepAll 1 [] _ (System.reachable_of_exec
    [.receive .data (some Report.sampleReport), .receive .data (some Report.sampleReport)] rfl)
  refine (conservation.2.2.2.1 ⟨0, Report.sampleMsg⟩ (by decide)).mpr ?_
  exact ⟨[.report .accepted ⟨0, Report.sampleMsg⟩, .report .overwritten ⟨0, Report.sampleMsg⟩],
    ⟨1, Report.sampleMsg⟩, [], by decide, rfl, by decide⟩

end ModbusDatabase.Conservation
