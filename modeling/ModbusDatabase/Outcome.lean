import ModbusDatabase.FileStore
import ModbusDatabase.Handshake
import ModbusDatabase.Payloads

/-! What becomes of a report that the broker delivers, in the application as a whole: the
message callback, the queue, the reader and the manager over the files that it found. -/

namespace ModbusDatabase.Outcome
open Message Tables Sqlite DbManager DbFiles WritePath Retention Query Threads Conservation Handshake Store
open FileStore
open Library Library.Transition Library.Fairness Library.Largest
set_option autoImplicit false

variable {engine : Engine} {manager : DataBaseManager} {messages : List ModbusMasterMsg}
  {msg : ModbusMasterMsg}

/-- The rows of a message are in the table of its day, and a query about its id has an answer. -/
structure Stored (engine : Engine) (files : FileManager) (msg : ModbusMasterMsg) : Prop where
  rows : ∃ rows, (fileOf files msg.channel).rows? (day msg) = some rows ∧ rowsOf msg ⊆ rows
  answered : msg.registerMap ≠ [] → ∀ outMsg,
    (DbFiles.selectByIdAndChannel engine files msg.channel msg.id outMsg).1 = true

/-- As many newer days are there as the channel has room for. -/
def Outlived (files : FileManager) (msg : ModbusMasterMsg) : Prop :=
  room files.maxTablesPerDb ≤ (later (fileOf files msg.channel) (day msg)).card

theorem select_of_row (documented : Documented engine) {channel id : Int32}
    (inside : InRange manager.maxChannels channel) {date : Bytes}
    (known : date ∈ dates (manager.channelDb channel))
    (hit : rowsWith (manager.channelDb channel) id date ≠ []) (outMsg : ModbusMasterMsg) :
    (selectByIdAndChannel engine manager channel id outMsg).1 = true := by
  have listed := mem_listing.mpr known
  rw [select_answer documented manager id inside, if_neg (List.ne_nil_of_mem listed)]
  cases search : (listing (manager.channelDb channel)).find?
      fun table => rowsWith (manager.channelDb channel) id table ≠ [] with
  | none => exact absurd (decide_eq_true hit) (List.find?_eq_none.mp search date listed)
  | some table =>
    have answers := List.find?_some search
    exact assemble_found.mpr (of_decide_eq_true answers)

/-- Files that have all rows of a message in the table of its day answer a query about its id. -/
theorem stored_of_rows {files : FileManager} (documented : Documented engine) (fits : AllFit files)
    (inside : InRange files.maxChannels msg.channel) (there : day msg ∈ dates (fileOf files msg.channel))
    {rows : List Row} (page : (fileOf files msg.channel).rows? (day msg) = some rows)
    (bound : rowsOf msg ⊆ rows) : Stored engine files msg := by
  refine ⟨⟨rows, page, bound⟩, fun registered outMsg => ?_⟩
  obtain ⟨reg, regs, registers⟩ := List.exists_cons_of_ne_nil registered
  have row : bindRow msg reg ∈ rowsOf msg := by
    rw [rowsOf, registers]
    exact List.mem_cons_self
  have own : (channelsOf files).channelDb msg.channel = fileOf files msg.channel :=
    channelDb_channelsOf inside
  rw [selectByIdAndChannel_represents engine (represents_channelsOf fits)]
  apply select_of_row documented inside (own ▸ there)
  rw [rowsWith, own, page, Option.getD_some]
  exact List.ne_nil_of_mem (List.mem_filter.mpr ⟨bound row, decide_eq_true rfl⟩)

theorem rowsOf_subset_boundOn (own : msg ∈ onChannel msg.channel messages) :
    rowsOf msg ⊆ boundOn (day msg) (onChannel msg.channel messages) := by
  intro row known
  rw [boundOn, List.mem_flatMap]
  exact ⟨msg, List.mem_filter.mpr ⟨own, decide_eq_true rfl⟩, known⟩

/-- Of the messages that were written, those of the days that are left are there. -/
theorem stored_or_outlived {files : FileManager} (documented : Documented engine) (fits : AllFit files)
    (valid : ∀ msg ∈ messages, Writable files.maxChannels msg) (member : msg ∈ messages) :
    Stored engine (writtenFiles engine files messages) msg ∨
      Outlived (writtenFiles engine files messages) msg := by
  obtain ⟨channels, -, tables⟩ := run_settings engine files (messages.map .write)
  rw [← writtenFiles_eq] at channels tables
  have inside : InRange (writtenFiles engine files messages).maxChannels msg.channel := by
    rw [channels]
    exact (valid msg member).1
  have left : (written engine (channelsOf files) messages).channelDb msg.channel =
      fileOf (writtenFiles engine files messages) msg.channel := by
    rw [← channelsOf_writtenFiles engine fits messages]
    exact channelDb_channelsOf inside
  have own : msg ∈ onChannel msg.channel messages := by
    rw [onChannel, List.mem_filter]
    exact ⟨member, decide_eq_true rfl⟩
  have seen : day msg ∈ daysOf (onChannel msg.channel messages) := by
    rw [daysOf, List.mem_toFinset]
    exact List.mem_map_of_mem own
  obtain ⟨known, pages⟩ := days_after documented (channelsOf files) valid msg.channel
  rw [left] at known pages
  by_cases there : day msg ∈ dates (fileOf (writtenFiles engine files messages) msg.channel)
  · have bound := List.subset_append_of_subset_right
      ((((channelsOf files).channelDb msg.channel).rows? (day msg)).getD []) (rowsOf_subset_boundOn own)
    exact .inl (stored_of_rows documented (allFit_writtenFiles engine fits messages) inside there
      (pages (day msg) there) bound)
  · have newer := Shelf.card_above_keptOf seen (known ▸ there)
    rw [← known] at newer
    right
    rw [Outlived, tables]
    exact newer.ge

/-! The whole application. -/

section
open Payloads (Delivery deliveries reportOf reportOf_deliver reportOf_samplePayload onMessage_of_reportOf
  accepted accepted_step dataTopic Describes)

/-- The two threads over what the broker delivers, with the files that the reader writes to. -/
def application (engine : Engine) (capacity : Nat) (files : FileManager) :
    System (State FileManager) Delivery := deliveries (DbFiles.writeMessage engine) capacity files

variable {capacity : Nat} {files : FileManager} {s : State FileManager}
  {run : Run (application engine capacity files)}

/-- The reports that were handed to the manager. -/
def handed (s : State FileManager) : List ModbusMasterMsg :=
  (entriesOf .written s.log).map Entry.msg

theorem db_eq_written (reached : (program (DbFiles.writeMessage engine) capacity files).Reachable s) :
    s.db = writtenFiles engine files (handed s) := by
  rw [database_of_written reached, writtenFiles, Machine.run_state, handed, List.foldl_map]

/-- Every accepted report was brought in by a step before. -/
theorem brought_in {n : Nat} (member : msg ∈ accepted (run.state n)) :
    ∃ i, reportOf (run.original.action i) = some msg := by
  induction n with
  | zero =>
    rw [run.start] at member
    cases member
  | succ n ih =>
    have valid := (queue_valid (run.original.reachable n)).1
    have grown : accepted (run.state (n + 1)) =
        accepted (run.state n) ++ (reportOf (run.original.action n)).toList :=
      accepted_step valid (run.original.step n)
    rw [grown] at member
    rcases List.mem_append.mp member with before | new
    · exact ih before
    · exact ⟨n, Option.mem_toList.mp new⟩

/-- All reports that the broker delivers are for channels and days that the manager has files and
tables for. -/
def Serviceable (run : Run (application engine capacity files)) : Prop :=
  ∀ n topic payload msg, run.action n = .deliver topic payload → topic = dataTopic →
    Describes payload msg → Writable files.maxChannels msg

theorem writable_of_accepted (serviceable : Serviceable run) {n : Nat}
    (member : msg ∈ accepted (run.state n)) : Writable files.maxChannels msg := by
  obtain ⟨i, brought⟩ := brought_in member
  have named : run.original.action i = (run.action i).action := rfl
  rw [named] at brought
  cases delivered : run.action i with
  | deliver topic payload =>
    rw [delivered] at brought
    obtain ⟨data, describes⟩ := (reportOf_deliver topic payload msg).mp brought
    exact serviceable i topic payload msg delivered data describes
  | callback | reader | readerTimeout =>
    rw [delivered] at brought
    cases brought

/-- A delivered report gets the next number. -/
theorem accepted_of_delivery {n : Nat} {payload : Bytes}
    (delivered : run.action n = .deliver dataTopic payload) (describes : Describes payload msg) :
    ⟨(entriesOf .accepted (run.state n).log).length, msg⟩ ∈
      entriesOf .accepted (run.state (n + 1)).log := by
  have brings := (reportOf_deliver dataTopic payload msg).mpr ⟨rfl, describes⟩
  have taken := run.original.step n
  have named : run.original.action n = (run.action n).action := rfl
  rw [named, delivered] at taken
  obtain ⟨-, same⟩ := Option.ite_none_right_eq_some.mp taken
  rw [onMessage_of_reportOf _ brings] at same
  have next : run.state (n + 1) = enqueue (run.state n) msg := (Option.some.inj same).symm
  rw [next, enqueue]
  simp

theorem handed_of_run {n : Nat} (member : msg ∈ handed (run.state n)) : msg ∈ accepted (run.state n) :=
  ((written_sublist (run.original.reachable n)).map Entry.msg).subset member

theorem log_of_run {n m : Nat} (later : n ≤ m) : (run.state n).log <+: (run.state m).log :=
  log_extends (run.original.reachable n) (run.original.leads later)

/-- While the reader goes on, every report that the broker delivers is overwritten in the full
queue before its turn, or it comes to stand in the files and to be found, and it does so until
its channel has room for newer days only. -/
theorem delivered_report (engine : Engine) (documented : Documented engine) (capacity : Nat)
    (files : FileManager) (fits : AllFit files) (run : Run (application engine capacity files))
    (moves : Recurs (ReaderMoves run.original)) (serviceable : Serviceable run) {n : Nat} {payload : Bytes}
    {msg : ModbusMasterMsg} (delivered : run.action n = .deliver dataTopic payload)
    (describes : Describes payload msg) :
    ∃ m, n < m ∧ (⟨(entriesOf .accepted (run.state n).log).length, msg⟩ ∈
        entriesOf .overwritten (run.state m).log ∨
      ∀ k, m ≤ k → Stored engine (run.state k).db msg ∨ Outlived (run.state k).db msg) := by
  obtain ⟨m, later, settled⟩ :=
    leadsTo_of_accepted moves _ (n + 1) (accepted_of_delivery delivered describes)
  refine ⟨m, later, ?_⟩
  rcases settled with done | overwritten
  · refine .inr fun k onward => ?_
    obtain ⟨more, grown⟩ : (run.state m).log <+: (run.state k).log := log_of_run onward
    have still : msg ∈ handed (run.state k) := by
      rw [handed, ← grown, entriesOf_append, List.map_append]
      exact List.mem_append_left _ (List.mem_map_of_mem done)
    have db : (run.state k).db = writtenFiles engine files (handed (run.state k)) :=
      db_eq_written (run.original.reachable k)
    rw [db]
    refine stored_or_outlived documented fits (fun other member => ?_) still
    exact writable_of_accepted serviceable (handed_of_run member)
  · exact .inl overwritten

/-! A run with one delivery, after which the reader goes on alone. -/

def alone (n : Nat) (s : State FileManager) : Delivery :=
  if n = 0 ∧ s.callback = .idle then .deliver dataTopic Payloads.samplePayload
  else if s.reader = .waiting then .readerTimeout
  else .reader

theorem alone_later {n : Nat} (later : n ≠ 0) (s : State FileManager) :
    (alone n s).action = readerTurn s := by
  rw [alone, if_neg fun first => later first.1, readerTurn]
  split <;> rfl

theorem alone_enabled (engine : Engine) (capacity : Nat) (files : FileManager) (n : Nat)
    (s : State FileManager) :
    ((application engine capacity files).step s (alone n s)).isSome = true := by
  unfold alone
  split_ifs with first asleep
  · exact Option.isSome_of_eq_some (if_pos first.2)
  · exact Option.isSome_of_eq_some (if_pos asleep)
  · rfl

def aloneRun : Run (application reference 100 (blank 2 2 (bytes "data"))) :=
  schedule _ alone (alone_enabled reference 100 (blank 2 2 (bytes "data")))

theorem readerMoves_aloneRun : Recurs (ReaderMoves aloneRun.original) := by
  intro n
  have turn := alone_later (Nat.succ_ne_zero n) (aloneRun.state (n + 1))
  exact ⟨n + 1, by omega, readerMoves_of_turn turn⟩

theorem serviceable_aloneRun : Serviceable aloneRun := by
  intro n topic payload msg delivered data describes
  have picked : alone n (aloneRun.state n) = .deliver topic payload := delivered
  unfold alone at picked
  split at picked
  next =>
    obtain ⟨-, same⟩ := Delivery.deliver.inj picked
    rw [← same] at describes
    have brings := (reportOf_deliver dataTopic Payloads.samplePayload msg).mpr ⟨rfl, describes⟩
    rw [reportOf_samplePayload] at brings
    cases brings
    decide +kernel
  next =>
    split at picked
    next => cases picked
    next => cases picked

theorem delivered_report_alone : ∃ m, 0 < m ∧
    (⟨0, Report.sampleMsg⟩ ∈ entriesOf .overwritten (aloneRun.state m).log ∨
      ∀ k, m ≤ k → Stored reference (aloneRun.state k).db Report.sampleMsg ∨
        Outlived (aloneRun.state k).db Report.sampleMsg) := by
  have describes := ((reportOf_deliver dataTopic Payloads.samplePayload _).mp reportOf_samplePayload).2
  exact delivered_report reference reference_documented 100 _ (allFit_blank 2 2) aloneRun
    readerMoves_aloneRun serviceable_aloneRun (rfl : aloneRun.action 0 = _) describes

end

end ModbusDatabase.Outcome
