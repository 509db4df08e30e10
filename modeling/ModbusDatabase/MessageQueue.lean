import ModbusDatabase.Library.RingBuffer
import ModbusDatabase.Library.Transition

/-! The ring buffer between the network thread and the reader thread. Each
method runs under the queue's mutex, so it is one function on the fields. The
element type stays open: the methods never look inside a message. -/

namespace ModbusDatabase
open Library
set_option autoImplicit false

structure MessageQueue (α : Type*) where
  buffer : List α
  head : Nat
  tail : Nat
  count : Nat

namespace MessageQueue

variable {α : Type*} [Inhabited α]

/-- The constructor; a capacity of zero is resized to one. -/
def new (capacity : Nat) : MessageQueue α :=
  { buffer := List.replicate (if capacity = 0 then 1 else capacity) default
    head := 0, tail := 0, count := 0 }

def write (queue : MessageQueue α) (msg : α) : MessageQueue α × Bool :=
  if queue.count = queue.buffer.length then
    -- the oldest slot is overwritten; both ends move on
    ({ queue with
        buffer := queue.buffer.set queue.head msg
        head := (queue.head + 1) % queue.buffer.length
        tail := (queue.tail + 1) % queue.buffer.length }, true)
  else
    ({ queue with
        buffer := queue.buffer.set queue.tail msg
        tail := (queue.tail + 1) % queue.buffer.length
        count := queue.count + 1 }, true)

/-- The queue afterwards, the returned flag and the output argument `msg` afterwards. -/
def read (queue : MessageQueue α) (msg : α) : MessageQueue α × Bool × α :=
  if queue.count = 0 then (queue, false, msg)
  else
    ({ queue with
        head := (queue.head + 1) % queue.buffer.length
        count := queue.count - 1 }, true, queue.buffer.getD queue.head default)

def freeSize (queue : MessageQueue α) : Nat := queue.buffer.length - queue.count

def size (queue : MessageQueue α) : Nat := queue.count

def clear (queue : MessageQueue α) : MessageQueue α :=
  { buffer := queue.buffer.map fun _ => default, head := 0, tail := 0, count := 0 }

/-- The representation invariant. -/
structure Valid (queue : MessageQueue α) : Prop where
  head_lt : queue.head < queue.buffer.length
  tail_lt : queue.tail < queue.buffer.length
  count_le : queue.count ≤ queue.buffer.length
  tail_eq : queue.tail = (queue.head + queue.count) % queue.buffer.length

/-- The queued messages, oldest first. -/
def contents (queue : MessageQueue α) : List α :=
  RingBuffer.window queue.buffer queue.head queue.count

theorem length_contents (queue : MessageQueue α) : queue.contents.length = queue.size :=
  RingBuffer.window_length _ _ _

omit [Inhabited α] in
theorem Valid.positive {queue : MessageQueue α} (valid : queue.Valid) : 0 < queue.buffer.length :=
  Nat.zero_lt_of_lt valid.head_lt

theorem length_new (capacity : Nat) :
    (new capacity : MessageQueue α).buffer.length = max capacity 1 := by
  simp only [new, List.length_replicate]
  split_ifs <;> omega

theorem valid_new (capacity : Nat) : (new capacity : MessageQueue α).Valid := by
  have positive : 0 < (new capacity : MessageQueue α).buffer.length := by rw [length_new]; omega
  exact ⟨positive, positive, Nat.zero_le _, (Nat.zero_mod _).symm⟩

theorem contents_new (capacity : Nat) : (new capacity : MessageQueue α).contents = [] := rfl

omit [Inhabited α] in
theorem length_write (queue : MessageQueue α) (msg : α) :
    (queue.write msg).1.buffer.length = queue.buffer.length := by
  unfold write
  split_ifs <;> exact List.length_set

omit [Inhabited α] in
theorem valid_write {queue : MessageQueue α} (valid : queue.Valid) (msg : α) :
    (queue.write msg).1.Valid := by
  have positive := valid.positive
  have inside (i : Nat) : i % queue.buffer.length < queue.buffer.length := Nat.mod_lt _ positive
  have advance (i : Nat) : (i % queue.buffer.length + 1) % queue.buffer.length =
      (i + 1) % queue.buffer.length := Nat.mod_add_mod ..
  unfold write
  split_ifs with full
  · constructor <;> simp only [List.length_set, inside, valid.count_le]
    rw [valid.tail_eq, advance, Nat.mod_add_mod]
    congr 1
    omega
  · constructor <;> simp only [List.length_set, inside, valid.head_lt]
    · have bound := valid.count_le
      omega
    · rw [valid.tail_eq, advance, Nat.add_assoc]

/-- A write is a push on the abstract queue, in both of its branches. -/
theorem contents_write {queue : MessageQueue α} (valid : queue.Valid) (msg : α) :
    (queue.write msg).1.contents = BoundedQueue.push queue.buffer.length queue.contents msg := by
  have size := queue.length_contents
  unfold write
  split_ifs with full
  · rw [BoundedQueue.push_of_full (size.trans full)]
    have overwritten := RingBuffer.window_overwrite queue.buffer queue.head msg valid.positive
    rw [Nat.mod_eq_of_lt valid.head_lt] at overwritten
    simpa only [contents, full] using overwritten
  · rw [BoundedQueue.push_of_room (fun same => full (size.symm.trans same))]
    have room : queue.count < queue.buffer.length := Nat.lt_of_le_of_ne valid.count_le full
    have pushed := RingBuffer.window_push queue.buffer queue.head queue.count msg room
    rw [← valid.tail_eq] at pushed
    exact pushed

theorem length_read (queue : MessageQueue α) (msg : α) :
    (queue.read msg).1.buffer.length = queue.buffer.length := by
  unfold read
  split_ifs <;> rfl

theorem valid_read {queue : MessageQueue α} (valid : queue.Valid) (msg : α) :
    (queue.read msg).1.Valid := by
  unfold read
  split_ifs with empty
  · exact valid
  · refine ⟨Nat.mod_lt _ valid.positive, valid.tail_lt, ?_, ?_⟩
    · exact (Nat.sub_le _ _).trans valid.count_le
    · change queue.tail =
          ((queue.head + 1) % queue.buffer.length + (queue.count - 1)) % queue.buffer.length
      rw [valid.tail_eq, Nat.mod_add_mod]
      congr 1
      omega

/-- A read of an empty queue changes nothing, its output argument included. -/
theorem read_of_empty {queue : MessageQueue α} (empty : queue.contents = []) (msg : α) :
    queue.read msg = (queue, false, msg) := by
  have zero : queue.count = 0 := by simpa [empty, size] using queue.length_contents.symm
  rw [read, if_pos zero]

/-- A read of a queue that holds something takes its oldest message. -/
theorem read_of_cons {queue : MessageQueue α} (valid : queue.Valid) {oldest : α} {rest : List α}
    (holds : queue.contents = oldest :: rest) (msg : α) :
    (queue.read msg).2 = (true, oldest) ∧ (queue.read msg).1.contents = rest := by
  obtain ⟨count, positive⟩ : ∃ count, queue.count = count + 1 := by
    have size := queue.length_contents
    rw [holds, List.length_cons] at size
    exact ⟨rest.length, size.symm⟩
  have opened := RingBuffer.window_succ queue.buffer queue.head count
  rw [← positive, Nat.mod_eq_of_lt valid.head_lt] at opened
  change queue.contents = _ at opened
  rw [holds] at opened
  obtain ⟨first, others⟩ := List.cons.inj opened
  rw [read, if_neg (by omega), first]
  refine ⟨rfl, ?_⟩
  change
    RingBuffer.window queue.buffer ((queue.head + 1) % queue.buffer.length) (queue.count - 1) = rest
  rw [positive, Nat.add_sub_cancel, others]

theorem length_clear (queue : MessageQueue α) : queue.clear.buffer.length = queue.buffer.length :=
  List.length_map _

theorem valid_clear {queue : MessageQueue α} (valid : queue.Valid) : queue.clear.Valid := by
  have positive : 0 < queue.clear.buffer.length := by rw [length_clear]; exact valid.positive
  exact ⟨positive, positive, Nat.zero_le _, (Nat.zero_mod _).symm⟩

/-! The methods as operations, and the bounded drop-oldest list they refine. -/

inductive Operation (α : Type*) where
  | write (msg : α)
  | read (msg : α)
  | clear
  | size
  | freeSize

/-- What a caller sees of one operation. -/
inductive Reply (α : Type*) where
  | wrote (returned : Bool)
  | read (returned : Bool) (msg : α)
  | cleared
  | number (returned : Nat)

def perform (queue : MessageQueue α) : Operation α → MessageQueue α × Reply α
  | .write msg => ((queue.write msg).1, .wrote (queue.write msg).2)
  | .read msg => ((queue.read msg).1, .read (queue.read msg).2.1 (queue.read msg).2.2)
  | .clear => (queue.clear, .cleared)
  | .size => (queue, .number queue.size)
  | .freeSize => (queue, .number queue.freeSize)

/-- The abstract queue of bound `cap`, oldest message first. -/
def performFifo (cap : Nat) (queue : List α) : Operation α → List α × Reply α
  | .write msg =>
      ((if queue.length = cap then queue.tail else queue) ++ [msg], .wrote true)
  | .read msg =>
      match queue with
      | [] => ([], .read false msg)
      | oldest :: rest => (rest, .read true oldest)
  | .clear => ([], .cleared)
  | .size => (queue, .number queue.length)
  | .freeSize => (queue, .number (cap - queue.length))

/-- The ring buffer `queue` represents the list `fifo` of bound `cap`. -/
structure Represents (cap : Nat) (queue : MessageQueue α) (fifo : List α) : Prop where
  valid : queue.Valid
  capacity : queue.buffer.length = cap
  contents : queue.contents = fifo

theorem perform_represents (cap : Nat) (queue : MessageQueue α) (fifo : List α)
    (operation : Operation α) (represents : Represents cap queue fifo) :
    Represents cap (queue.perform operation).1 (performFifo cap fifo operation).1 ∧
      (queue.perform operation).2 = (performFifo cap fifo operation).2 := by
  obtain ⟨valid, rfl, rfl⟩ := represents
  cases operation with
  | write msg =>
    refine ⟨⟨valid_write valid msg, length_write queue msg, contents_write valid msg⟩, ?_⟩
    simp only [perform, performFifo, write]
    split_ifs <;> rfl
  | read msg =>
    cases holds : queue.contents with
    | nil =>
      simp only [perform, performFifo, read_of_empty holds]
      exact ⟨⟨valid, rfl, holds⟩, trivial⟩
    | cons oldest rest =>
      obtain ⟨reply, after⟩ := read_of_cons valid holds msg
      simp only [perform, performFifo, reply]
      exact ⟨⟨valid_read valid msg, length_read queue msg, after⟩, trivial⟩
  | clear => exact ⟨⟨valid_clear valid, length_clear queue, rfl⟩, rfl⟩
  | size => exact ⟨⟨valid, rfl, rfl⟩, by simp only [perform, performFifo, length_contents]⟩
  | freeSize =>
    exact ⟨⟨valid, rfl, rfl⟩, by simp only [perform, performFifo, length_contents, freeSize, size]⟩

/-- Every run of the ring buffer answers as the bounded drop-oldest list of
capacity `max capacity 1` does, and ends in a state that represents it. -/
theorem run_refines_fifo (capacity : Nat) (operations : List (Operation α)) :
    (Machine.run perform (new capacity) operations).2 =
        (Machine.run (performFifo (max capacity 1)) [] operations).2 ∧
      Represents (max capacity 1) (Machine.run perform (new capacity) operations).1
        (Machine.run (performFifo (max capacity 1)) [] operations).1 := by
  have start : Represents (max capacity 1) (new capacity : MessageQueue α) [] :=
    ⟨valid_new capacity, length_new capacity, contents_new capacity⟩
  exact (Machine.run_simulation (perform_represents (max capacity 1)) start operations).symm

end MessageQueue

end ModbusDatabase
