import Mathlib.Data.List.Basic
import Mathlib.Data.List.Infix
import Mathlib.Data.Nat.ModEq

/-! A first-in first-out list of bounded length whose producer never waits: a
push into a full list drops the oldest element. -/

namespace ModbusDatabase.Library.BoundedQueue
set_option autoImplicit false

variable {α : Type*}

def push (cap : Nat) (queue : List α) (item : α) : List α :=
  (if queue.length = cap then queue.tail else queue) ++ [item]

/-- What a push drops: the oldest element of a full queue, nothing otherwise. -/
def dropped (cap : Nat) (queue : List α) : List α :=
  if queue.length = cap then queue.take 1 else []

theorem push_of_full {cap : Nat} {queue : List α} (full : queue.length = cap) (item : α) :
    push cap queue item = queue.tail ++ [item] := by rw [push, if_pos full]

theorem push_of_room {cap : Nat} {queue : List α} (room : queue.length ≠ cap) (item : α) :
    push cap queue item = queue ++ [item] := by rw [push, if_neg room]

theorem map_push {β : Type*} (f : α → β) (cap : Nat) (queue : List α) (item : α) :
    (push cap queue item).map f = push cap (queue.map f) (f item) := by
  rw [push, push, List.length_map, List.map_append, apply_ite (List.map f), List.map_tail]
  rfl

theorem dropped_of_room {cap : Nat} {queue : List α} (room : queue.length ≠ cap) :
    dropped cap queue = [] := by rw [dropped, if_neg room]

end ModbusDatabase.Library.BoundedQueue

/-! Index arithmetic of a circular array: the `count` cells from `head` on,
read around the end of the array. -/

namespace ModbusDatabase.Library.RingBuffer

variable {α : Type*} [Inhabited α]

def window (cells : List α) (head count : Nat) : List α :=
  (List.range count).map fun offset => cells.getD ((head + offset) % cells.length) default

theorem window_length (cells : List α) (head count : Nat) :
    (window cells head count).length = count := by simp [window]

/-- The first cell is the one at `head`; the others are a window one step further on. -/
theorem window_succ (cells : List α) (head count : Nat) :
    window cells head (count + 1) =
      cells.getD (head % cells.length) default :: window cells ((head + 1) % cells.length) count := by
  simp only [window, List.range_succ_eq_map, List.map_cons, List.map_map, Nat.add_zero]
  congr 1
  apply List.map_congr_left
  intro offset _
  simp only [Function.comp_apply, Nat.succ_eq_add_one, Nat.mod_add_mod]
  congr 2
  omega

/-- Distinct offsets within one turn name distinct cells. -/
theorem offset_ne (head : Nat) {size i j : Nat} (less : i < j) (turn : j < size) :
    (head + i) % size ≠ (head + j) % size := by
  intro same
  have shifted : i % size = j % size := Nat.ModEq.add_left_cancel' head same
  rw [Nat.mod_eq_of_lt (less.trans turn), Nat.mod_eq_of_lt turn] at shifted
  omega

/-- Writing the cell after a window that does not fill the array appends to it. -/
theorem window_push (cells : List α) (head count : Nat) (item : α) (room : count < cells.length) :
    window (cells.set ((head + count) % cells.length) item) head (count + 1) =
      window cells head count ++ [item] := by
  simp only [window, List.range_succ, List.map_append, List.map_cons, List.map_nil, List.length_set]
  congr 1
  · apply List.map_congr_left
    intro offset member
    have earlier : offset < count := List.mem_range.mp member
    have apart := offset_ne head earlier room
    simp only [List.getD_eq_getElem?_getD, List.getElem?_set_ne apart.symm]
  · have inside : (head + count) % cells.length < cells.length := Nat.mod_lt _ (by omega)
    simp [List.getD_eq_getElem?_getD, List.getElem?_set_self inside]

/-- Overwriting the oldest cell of a full array and moving on drops it and appends. -/
theorem window_overwrite (cells : List α) (head : Nat) (item : α) (some : 0 < cells.length) :
    window (cells.set (head % cells.length) item) ((head + 1) % cells.length) cells.length =
      (window cells head cells.length).tail ++ [item] := by
  obtain ⟨rest, size⟩ : ∃ rest, cells.length = rest + 1 := ⟨cells.length - 1, by omega⟩
  have turn : ((head + 1) % cells.length + rest) % cells.length = head % cells.length := by
    rw [Nat.mod_add_mod, size, show head + 1 + rest = head + (rest + 1) by omega, Nat.add_mod_right]
  have pushed := window_push cells ((head + 1) % cells.length) rest item (by omega)
  rw [turn, ← size] at pushed
  rw [pushed]
  congr 1
  conv_rhs => rw [size, window_succ, List.tail_cons]

end ModbusDatabase.Library.RingBuffer
