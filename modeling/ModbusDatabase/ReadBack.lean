import ModbusDatabase.Query

/-! When a message that was written successfully is read back as it was. -/

namespace ModbusDatabase.ReadBack
open Message Tables Sqlite DbManager WritePath Retention Query
open Library Library.Largest
set_option autoImplicit false

/-- No row of the database has the id. -/
def Fresh (db : Database) (id : Int32) : Prop := ∀ table ∈ db.tables, ∀ row ∈ table.rows, row.id ≠ id

theorem Fresh.rows {db : Database} {id : Int32} (fresh : Fresh db id) (date : Bytes) :
    rowsWith db id date = [] := by
  apply List.filter_eq_nil_iff.mpr
  intro row member hit
  unfold Database.rows? at member
  cases found : db.table? date with
  | none =>
    rw [found] at member
    exact absurd member List.not_mem_nil
  | some table =>
    rw [found] at member
    exact fresh table (List.mem_of_find?_eq_some found) row member (of_decide_eq_true hit)

/-- The message as its bound texts keep it. -/
def cut (msg : ModbusMasterMsg) : ModbusMasterMsg :=
  { msg with
    pduData := cStr msg.pduData
    timestamp := cStr msg.timestamp
    registerMap := msg.registerMap.map fun reg => { reg with description := cStr reg.description } }

def Whole (msg : ModbusMasterMsg) : Prop :=
  NulFree msg.pduData ∧ NulFree msg.timestamp ∧ ∀ reg ∈ msg.registerMap, NulFree reg.description

theorem cut_eq_self {msg : ModbusMasterMsg} : cut msg = msg ↔ Whole msg := by
  constructor
  · intro same
    refine ⟨?_, ?_, ?_⟩
    · exact cStr_eq_self.mp (congrArg ModbusMasterMsg.pduData same)
    · exact cStr_eq_self.mp (congrArg ModbusMasterMsg.timestamp same)
    · intro reg member
      have each := List.map_eq_map_iff.mp
        ((congrArg ModbusMasterMsg.registerMap same).trans (List.map_id _).symm) reg member
      exact cStr_eq_self.mp (congrArg RegisterItem.description each)
  · rintro ⟨pduData, timestamp, descriptions⟩
    have registers : msg.registerMap.map (fun reg => { reg with description := cStr reg.description }) =
        msg.registerMap := by
      refine (List.map_congr_left fun reg member => ?_).trans (List.map_id _)
      rw [cStr_eq_self.mpr (descriptions reg member)]
      rfl
    rw [cut, registers, cStr_eq_self.mpr pduData, cStr_eq_self.mpr timestamp]

theorem assemble_rowsOf {msg : ModbusMasterMsg} (registers : msg.registerMap ≠ []) :
    assemble msg.channel (rowsOf msg) = (true, cut msg) := by
  have idempotent : ∀ text, cStr (cStr text) = cStr text :=
    fun text => cStr_eq_self.mpr (nulFree_cStr text)
  obtain ⟨reg, regs, split⟩ := List.exists_cons_of_ne_nil registers
  have read : (rowsOf msg).map registerOf = (cut msg).registerMap := by
    rw [rowsOf, List.map_map, cut]
    apply List.map_congr_left
    intro item _
    simp only [Function.comp_apply, registerOf, bindRow, idempotent]
  rw [rowsOf, split, List.map_cons, assemble, ← List.map_cons, ← split, ← rowsOf, read]
  simp only [bindRow, idempotent, cut]

/-- After a successful write the message is read back, whatever the caller's
output message held before. -/
def ReadsBack (engine : Engine) (manager : DataBaseManager) (msg : ModbusMasterMsg) : Prop :=
  (writeMessage engine manager msg).2 = true → ∀ outMsg,
    selectByIdAndChannel engine (writeMessage engine manager msg).1 msg.channel msg.id outMsg =
      (true, msg)

/-- The write is refused, or its rows are kept whole where a query looks. -/
def Recoverable (maxTablesPerDb : Int32) (db : Database) (msg : ModbusMasterMsg) : Prop :=
  getDateFromTimestamp msg.timestamp = [] ∨
    (isDated (getDateFromTimestamp msg.timestamp) = true ∧ msg.registerMap ≠ [] ∧
      (getDateFromTimestamp msg.timestamp ∈ kept maxTablesPerDb db
        (getDateFromTimestamp msg.timestamp) → Whole msg)) ∨
    (isDated (getDateFromTimestamp msg.timestamp) = false ∧
      quote ∉ getDateFromTimestamp msg.timestamp ∧
      ((NulFree (getDateFromTimestamp msg.timestamp) ∧
          reserved (getDateFromTimestamp msg.timestamp) = true) ∨
        (¬NulFree (getDateFromTimestamp msg.timestamp) ∧
          (cStr (getDateFromTimestamp msg.timestamp) ∈ db.names → msg.registerMap ≠ []))))

instance (msg : ModbusMasterMsg) : Decidable (Whole msg) := inferInstanceAs (Decidable (_ ∧ _ ∧ _))

instance (maxTablesPerDb : Int32) (db : Database) (msg : ModbusMasterMsg) :
    Decidable (Recoverable maxTablesPerDb db msg) := inferInstanceAs (Decidable (_ ∨ _ ∨ _))

section
variable {engine : Engine} (documented : Documented engine) {manager : DataBaseManager}
  {msg : ModbusMasterMsg} (inside : InRange manager.maxChannels msg.channel)
include documented inside

/-- A query after the write reads the database the write left. -/
theorem select_after {date : Bytes} {db : Database} {success : Bool}
    (written :
      writeTo engine manager.maxTablesPerDb (manager.channelDb msg.channel) msg = (db, success))
    (known : date ∈ dates db) (hit : rowsWith db msg.id date ≠ [])
    (others : ∀ other ∈ dates db, other ≠ date → rowsWith db msg.id other = [])
    (outMsg : ModbusMasterMsg) :
    selectByIdAndChannel engine (writeMessage engine manager msg).1 msg.channel msg.id outMsg =
      assemble msg.channel (rowsWith db msg.id date) := by
  have stored : (store manager msg.channel db).channelDb msg.channel = db := Function.update_self ..
  rw [writeMessage_inRange engine inside, written]
  rw [select_found documented (store manager msg.channel db) msg.id inside outMsg (stored.symm ▸ known)
    (stored.symm ▸ hit), stored]
  rw [stored]
  exact fun other member less => others other member (ne_of_lt less)

theorem not_readsBack {db : Database}
    (written : writeTo engine manager.maxTablesPerDb (manager.channelDb msg.channel) msg = (db, true))
    (nowhere : ∀ date ∈ dates db, rowsWith db msg.id date = []) : ¬ReadsBack engine manager msg := by
  intro back
  have stored : (store manager msg.channel db).channelDb msg.channel = db := Function.update_self ..
  have answer := back (by rw [writeMessage_inRange engine inside, written]) default
  rw [writeMessage_inRange engine inside, written,
    select_missing documented (store manager msg.channel db) msg.id inside default
      (stored.symm ▸ nowhere)]
    at answer
  split at answer
  next => exact Bool.noConfusion (congrArg Prod.fst answer)
  next => exact Bool.noConfusion (congrArg Prod.fst answer)

end

theorem readsBack_of_refused {engine : Engine} {manager : DataBaseManager} {msg : ModbusMasterMsg}
    (inside : InRange manager.maxChannels msg.channel)
    (refused : (writeTo engine manager.maxTablesPerDb (manager.channelDb msg.channel) msg).2 = false) :
    ReadsBack engine manager msg := by
  intro success
  rw [writeMessage_inRange engine inside, refused] at success
  exact Bool.noConfusion success

theorem filter_rowsOf (msg : ModbusMasterMsg) :
    ((rowsOf msg).filter fun row => row.id = msg.id) = rowsOf msg := by
  apply List.filter_eq_self.mpr
  intro row member
  obtain ⟨reg, -, rfl⟩ := List.mem_map.mp member
  exact decide_eq_true rfl

section
variable {engine : Engine} (documented : Documented engine) {manager : DataBaseManager}
  {msg : ModbusMasterMsg} (inside : InRange manager.maxChannels msg.channel)
  (fresh : Fresh (manager.channelDb msg.channel) msg.id)
include documented inside fresh

theorem readsBack_dated (dated : isDated (getDateFromTimestamp msg.timestamp) = true) :
    ReadsBack engine manager msg ↔ msg.registerMap ≠ [] ∧
      (getDateFromTimestamp msg.timestamp ∈ kept manager.maxTablesPerDb (manager.channelDb msg.channel)
        (getDateFromTimestamp msg.timestamp) → Whole msg) := by
  obtain ⟨left, success⟩ :=
    writeTo_dated documented manager.maxTablesPerDb (manager.channelDb msg.channel) msg dated
  cases written : writeTo engine manager.maxTablesPerDb (manager.channelDb msg.channel) msg with
  | mk db done =>
    rw [written] at left success
    generalize getDateFromTimestamp msg.timestamp = date at dated left success ⊢
    have known := left.dates_eq dated
    have others : ∀ other ∈ dates db, other ≠ date → rowsWith db msg.id other = [] := by
      intro other member different
      rw [rowsWith, left.rows other (mem_dates.mp member).2, if_pos (known ▸ member), if_neg different]
      exact fresh.rows other
    by_cases registers : msg.registerMap = []
    · refine iff_of_false ?_ (fun holds => holds.1 registers)
      have succeeded : done = true := success.mpr (.inr registers)
      apply not_readsBack documented inside (succeeded ▸ written)
      intro other member
      by_cases same : other = date
      · rw [rowsWith, left.rows other (mem_dates.mp member).2, if_pos (known ▸ member), if_pos same,
          rowsOf, registers, List.map_nil, List.append_nil]
        exact fresh.rows other
      · exact others other member same
    · by_cases room : date ∈ kept manager.maxTablesPerDb (manager.channelDb msg.channel) date
      · have rows : rowsWith db msg.id date = rowsOf msg := by
          rw [rowsWith, left.rows date dated, if_pos room, if_pos rfl, Option.getD_some,
            List.filter_append, filter_rowsOf]
          have old := fresh.rows date
          rw [rowsWith] at old
          rw [old, List.nil_append]
        have hit : rowsWith db msg.id date ≠ [] := by
          rw [rows, rowsOf, ne_eq, List.map_eq_nil_iff]
          exact registers
        have answer := select_after documented inside written (known ▸ room) hit others
        rw [rows, assemble_rowsOf registers] at answer
        have succeeded : (writeMessage engine manager msg).2 = true := by
          rw [writeMessage_inRange engine inside, written]
          exact success.mpr (.inl room)
        constructor
        · intro back
          refine ⟨registers, fun _ => cut_eq_self.mp ?_⟩
          exact congrArg Prod.snd ((answer default).symm.trans (back succeeded default))
        · rintro ⟨-, whole⟩ - outMsg
          rw [answer, cut_eq_self.mpr (whole room)]
      · refine iff_of_true ?_ ⟨registers, fun kept => absurd kept room⟩
        apply readsBack_of_refused inside
        rw [written, ← Bool.not_eq_true, success]
        exact fun either => either.elim room registers

/-- Rows under a name that is no date are not found. -/
theorem readsBack_undated (nonempty : getDateFromTimestamp msg.timestamp ≠ [])
    (undated : isDated (getDateFromTimestamp msg.timestamp) = false)
    (unquoted : quote ∉ getDateFromTimestamp msg.timestamp)
    (free : NulFree (getDateFromTimestamp msg.timestamp)) :
    ReadsBack engine manager msg ↔ reserved (getDateFromTimestamp msg.timestamp) = true := by
  have whole := cStr_eq_self.mpr free
  have different : ∀ other, isDated other = true →
      fold other ≠ fold (getDateFromTimestamp msg.timestamp) := by
    intro other dated same
    have equal := (fold_eq_fold_digits (digits_of_isDated dated)).mp same.symm
    rw [equal, dated] at undated
    exact Bool.noConfusion undated
  -- inserting under the name is possible and leaves the dated tables alone
  have unread : ∀ ensured, ensureTableExists engine manager.maxTablesPerDb
      (manager.channelDb msg.channel) (getDateFromTimestamp msg.timestamp) = (ensured, true) →
      ensured.rows? (getDateFromTimestamp msg.timestamp) ≠ none →
      (∀ other, isDated other = true → rowsWith ensured msg.id other = []) →
      ¬ReadsBack engine manager msg := by
    intro ensured asked present empty
    obtain ⟨next, inserted, -, rows⟩ := insertRows_present documented unquoted free present msg
    have written := writeTo_ensured nonempty asked
    rw [if_pos rfl, inserted] at written
    apply not_readsBack documented inside written
    intro other member
    have dated := (mem_dates.mp member).2
    rw [rowsWith, rows, if_neg (different other dated)]
    exact empty other dated
  by_cases known : getDateFromTimestamp msg.timestamp ∈ (manager.channelDb msg.channel).names
  · refine iff_of_false (unread _ (ensureTableExists_known documented _ (whole.symm ▸ known))
      (Database.rows?_of_mem_names known) fun other _ => fresh.rows other) ?_
    rw [Database.not_reserved_of_mem_names known]
    exact Bool.false_ne_true
  · cases allowed : reserved (getDateFromTimestamp msg.timestamp) with
    | true =>
      refine iff_of_true ?_ rfl
      apply readsBack_of_refused inside
      rw [writeTo_ensured nonempty
        (ensureTableExists_reserved documented _ _ unquoted free allowed), if_neg Bool.false_ne_true]
    | false =>
      refine iff_of_false ?_ Bool.false_ne_true
      obtain ⟨created, made⟩ := (manager.channelDb msg.channel).create_isSome allowed
      have asked : ensureTableExists engine manager.maxTablesPerDb (manager.channelDb msg.channel)
          (getDateFromTimestamp msg.timestamp) =
          (cleanOldTables engine manager.maxTablesPerDb created, true) := by
        rw [ensureTableExists_unknown documented _ (whole.symm ▸ known),
          createTable_eq documented _ unquoted free, made]
        rfl
      refine unread _ asked ?_ fun other dated => ?_
      · rw [(cleanOldTables_others documented _ _ undated).2, Database.create_rows? made, if_pos rfl]
        exact Option.some_ne_none _
      · rw [rowsWith, cleanOldTables_rows? documented _ _ dated, Database.create_rows? made,
          if_neg (different other dated)]
        split
        next => exact fresh.rows other
        next => rfl

/-- A NUL cuts the statements off, so at most an empty message is taken for written. -/
theorem readsBack_nul (unquoted : quote ∉ getDateFromTimestamp msg.timestamp)
    (nul : ¬NulFree (getDateFromTimestamp msg.timestamp)) :
    ReadsBack engine manager msg ↔
      (cStr (getDateFromTimestamp msg.timestamp) ∈ (manager.channelDb msg.channel).names →
        msg.registerMap ≠ []) := by
  have written := writeTo_nul documented manager.maxTablesPerDb (manager.channelDb msg.channel) msg
    unquoted nul
  by_cases known : cStr (getDateFromTimestamp msg.timestamp) ∈ (manager.channelDb msg.channel).names
  · by_cases registers : msg.registerMap = []
    · refine iff_of_false ?_ fun condition => condition known registers
      rw [registers, decide_eq_true known] at written
      exact not_readsBack documented inside written fun other _ => fresh.rows other
    · refine iff_of_true ?_ fun _ => registers
      apply readsBack_of_refused inside
      rw [written, List.isEmpty_eq_false_iff.mpr registers, Bool.and_false]
  · refine iff_of_true ?_ fun member => absurd member known
    apply readsBack_of_refused inside
    rw [written, decide_eq_false known, Bool.false_and]

end

/-- Exactly when a successful write can be read back; what a name with a quote
in it does is up to SQLite's parser. -/
theorem written_read_back (engine : Engine) (documented : Documented engine)
    (manager : DataBaseManager) (msg : ModbusMasterMsg)
    (inside : InRange manager.maxChannels msg.channel)
    (fresh : Fresh (manager.channelDb msg.channel) msg.id) :
    (Recoverable manager.maxTablesPerDb (manager.channelDb msg.channel) msg →
        ReadsBack engine manager msg) ∧
      (quote ∉ getDateFromTimestamp msg.timestamp → ReadsBack engine manager msg →
        Recoverable manager.maxTablesPerDb (manager.channelDb msg.channel) msg) := by
  constructor
  · rintro (short | ⟨dated, holds⟩ | ⟨undated, unquoted, holds⟩)
    · apply readsBack_of_refused inside
      simp only [writeTo, short, if_true]
    · exact (readsBack_dated documented inside fresh dated).mpr holds
    · by_cases nonempty : getDateFromTimestamp msg.timestamp = []
      · apply readsBack_of_refused inside
        simp only [writeTo, nonempty, if_true]
      · rcases holds with ⟨free, kept⟩ | ⟨nul, holds⟩
        · exact (readsBack_undated documented inside fresh nonempty undated unquoted free).mpr kept
        · exact (readsBack_nul documented inside fresh unquoted nul).mpr holds
  · intro unquoted back
    by_cases nonempty : getDateFromTimestamp msg.timestamp = []
    · exact .inl nonempty
    cases dated : isDated (getDateFromTimestamp msg.timestamp) with
    | true => exact .inr (.inl ⟨dated, (readsBack_dated documented inside fresh dated).mp back⟩)
    | false =>
      refine .inr (.inr ⟨dated, unquoted, ?_⟩)
      by_cases free : NulFree (getDateFromTimestamp msg.timestamp)
      · exact .inl ⟨free,
          (readsBack_undated documented inside fresh nonempty dated unquoted free).mp back⟩
      · exact .inr ⟨free, (readsBack_nul documented inside fresh unquoted free).mp back⟩

theorem fresh_new (maxChannels maxTablesPerDb channel id : Int32) :
    Fresh ((new maxChannels maxTablesPerDb).channelDb channel) id :=
  fun _ member => absurd member List.not_mem_nil

theorem written_read_back_instances :
    ReadsBack reference (new 2 10) (sampleAt "20260325180500") ∧
      ¬ReadsBack reference (new 2 10) (sampleAt "19700101000000") := by
  constructor
  · exact (written_read_back reference reference_documented (new 2 10) (sampleAt "20260325180500")
      (by decide) (fresh_new _ _ _ _)).1 (by decide +kernel)
  · intro back
    have recoverable := (written_read_back reference reference_documented (new 2 10)
      (sampleAt "19700101000000") (by decide) (fresh_new _ _ _ _)).2 (by decide) back
    revert recoverable
    decide +kernel

/-- A report from before this century is stored where no query looks. -/
theorem written_not_read_back :
    ¬∀ engine, Documented engine → ∀ maxChannels maxTablesPerDb history msg,
      Report.Accepted msg → InRange maxChannels msg.channel →
      Fresh ((writeAll engine maxChannels maxTablesPerDb history).1.channelDb msg.channel) msg.id →
      ReadsBack engine (writeAll engine maxChannels maxTablesPerDb history).1 msg := by
  intro claim
  have answer := claim reference reference_documented 2 10 [] (sampleAt "19700101000000")
    (accepted_sampleAt _) (by decide) (fresh_new _ _ _ _) (by decide +kernel) default
  have success := congrArg Prod.fst answer
  revert success
  decide +kernel

end ModbusDatabase.ReadBack
