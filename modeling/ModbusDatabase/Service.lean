import ModbusDatabase.Conservation
import ModbusDatabase.Query

/-! The service as `main` puts it together: the reader thread writes into the
database manager, so a run of the two threads is a run of `writeMessage` calls
on the reports that were written. -/

namespace ModbusDatabase.Service
open Message Sqlite DbManager Threads Conservation Retention Query
open Library Library.Transition
set_option autoImplicit false

def service (engine : Engine) (capacity : Nat) (maxChannels maxTablesPerDb : Int32) :
    System (State DataBaseManager) Action :=
  program (writeMessage engine) capacity (new maxChannels maxTablesPerDb)

def reports (fate : Fate) (s : State DataBaseManager) : List ModbusMasterMsg :=
  (entriesOf fate s.log).map Entry.msg

variable {engine : Engine} {capacity : Nat} {maxChannels maxTablesPerDb : Int32}
  {s : State DataBaseManager}

theorem db_eq_writeAll (reached : (service engine capacity maxChannels maxTablesPerDb).Reachable s) :
    s.db = (writeAll engine maxChannels maxTablesPerDb (reports .written s)).1 := by
  rw [database_of_written reached, writeAll, Machine.run_state, reports, List.foldl_map]

theorem written_admitted (reached : (service engine capacity maxChannels maxTablesPerDb).Reachable s)
    (admitted : ∀ msg ∈ reports .accepted s, Admitted maxChannels msg) :
    ∀ msg ∈ reports .written s, Admitted maxChannels msg := by
  intro msg member
  apply admitted
  exact ((written_sublist reached).map Entry.msg).subset member

/-- At every moment each channel holds the newest days of what has been written to it. -/
theorem channel_retains (documented : Documented engine) (positive : 1 ≤ maxTablesPerDb)
    (reached : (service engine capacity maxChannels maxTablesPerDb).Reachable s)
    (admitted : ∀ msg ∈ reports .accepted s, Admitted maxChannels msg) (channel : Int32) :
    Retains maxTablesPerDb.toInt.toNat (onChannel channel (reports .written s))
      (s.db.channelDb channel) := by
  rw [db_eq_writeAll reached, ← room_of_positive positive]
  exact retains_run documented (written_admitted reached admitted) channel

/-- Once a reader that kept up has drained the queue, the newest days of all
accepted reports are there, with every row. -/
theorem drained_retains (documented : Documented engine) (positive : 1 ≤ maxTablesPerDb)
    (reached : (service engine capacity maxChannels maxTablesPerDb).Reachable s)
    (admitted : ∀ msg ∈ reports .accepted s, Admitted maxChannels msg)
    (kept : KeptUp (max capacity 1) s.log) (empty : s.queue.size = 0) (unheld : hand s = [])
    (channel : Int32) :
    Retains maxTablesPerDb.toInt.toNat (onChannel channel (reports .accepted s))
      (s.db.channelDb channel) := by
  have whole : reports .written s = reports .accepted s := by
    rw [reports, written_of_drained reached kept empty unheld, reports]
  rw [← whole]
  exact channel_retains documented positive reached admitted channel

end ModbusDatabase.Service
