import ModbusDatabase.Retention

/-! What `selectByIdAndChannel` answers, from one database and after a whole run
of writes. -/

namespace ModbusDatabase.Query
open Message Tables Sqlite DbManager WritePath Retention
open Library Library.Largest
set_option autoImplicit false

def registerOf (row : Row) : RegisterItem :=
  ⟨row.address, row.mapAddr, row.value, cStr row.description⟩

/-- The message that rows of one table are put together to. -/
def assemble (channel : Int32) : List Row → Bool × ModbusMasterMsg
  | [] => (false, default)
  | row :: rows =>
    (true, { id := row.id, channel := channel, pduAddr := row.pduAddr, pduFunc := row.pduFunc,
             pduData := cStr row.pduData, timestamp := cStr row.timestamp,
             registerMap := (row :: rows).map registerOf })

theorem foldl_readRow_found (channel : Int32) (rows : List Row) (msg : ModbusMasterMsg) :
    rows.foldl (readRow channel) (true, msg) =
      (true, { msg with registerMap := msg.registerMap ++ rows.map registerOf }) := by
  induction rows generalizing msg with
  | nil => rw [List.foldl_nil, List.map_nil, List.append_nil]
  | cons row rows ih =>
    rw [List.foldl_cons]
    simp only [readRow, if_true]
    rw [ih, List.append_assoc]
    rfl

theorem foldl_readRow (channel : Int32) (rows : List Row) :
    rows.foldl (readRow channel) (false, default) = assemble channel rows := by
  cases rows with
  | nil => rfl
  | cons row rows =>
    rw [List.foldl_cons]
    simp only [readRow, Bool.false_eq_true, if_false]
    exact foldl_readRow_found channel rows _

theorem assemble_found {channel : Int32} {rows : List Row} :
    (assemble channel rows).1 = true ↔ rows ≠ [] := by
  cases rows with
  | nil => exact iff_of_false Bool.false_ne_true (fun some => some rfl)
  | cons row rows => exact iff_of_true rfl (List.cons_ne_nil _ _)

/-- The rows of a dated table with an id. -/
def rowsWith (db : Database) (id : Int32) (date : Bytes) : List Row :=
  ((db.rows? date).getD []).filter fun row => row.id = id

section
variable {engine : Engine} (documented : Documented engine)
include documented

theorem searchTables_eq (db : Database) (channel id : Int32) {tables : List Bytes}
    (listed : ∀ table ∈ tables, table ∈ listing db) :
    searchTables engine db channel id tables (false, default) =
      match tables.find? fun table => rowsWith db id table ≠ [] with
      | none => (false, default)
      | some table => assemble channel (rowsWith db id table) := by
  induction tables with
  | nil => rfl
  | cons table tables ih =>
    have valid := isDated_of_listed (listed table List.mem_cons_self)
    have present := (mem_dates_iff_rows? valid).mp (mem_listing.mp (listed table List.mem_cons_self))
    obtain ⟨rows, found⟩ := Option.ne_none_iff_exists'.mp present
    have answer : engine.select db (cStr (selectForm.text table)) id = some (rowsWith db id table) := by
      rw [select_eq documented db valid, rowsWith, found]
      rfl
    rw [searchTables, answer]
    simp only [foldl_readRow, assemble_found]
    by_cases hit : rowsWith db id table ≠ []
    · have first : (table :: tables).find? (fun table => rowsWith db id table ≠ []) = some table :=
        List.find?_cons_of_pos (decide_eq_true hit)
      rw [if_pos hit, first]
    · have later : (table :: tables).find? (fun table => rowsWith db id table ≠ []) =
          tables.find? fun table => rowsWith db id table ≠ [] :=
        List.find?_cons_of_neg (by simpa using hit)
      rw [if_neg hit, later, not_not.mp hit]
      exact ih fun other member => listed other (List.mem_cons_of_mem _ member)

/-- The answer on a channel in range. -/
theorem select_answer (manager : DataBaseManager) {channel : Int32} (id : Int32)
    (inside : InRange manager.maxChannels channel) (outMsg : ModbusMasterMsg) :
    selectByIdAndChannel engine manager channel id outMsg =
      if listing (manager.channelDb channel) = [] then (false, outMsg) else
        match (listing (manager.channelDb channel)).find?
          fun table => rowsWith (manager.channelDb channel) id table ≠ [] with
        | none => (false, default)
        | some table => assemble channel (rowsWith (manager.channelDb channel) id table) := by
  rw [selectByIdAndChannel, getDbHandle_eq, if_pos inside]
  simp only [getAllTableNames_eq documented]
  rw [searchTables_eq documented _ _ _ fun _ member => member]

/-- The first table in the list with an answer is the one of the smallest date. -/
theorem select_found (manager : DataBaseManager) {channel : Int32} (id : Int32)
    (inside : InRange manager.maxChannels channel) (outMsg : ModbusMasterMsg) {date : Bytes}
    (known : date ∈ dates (manager.channelDb channel))
    (hit : rowsWith (manager.channelDb channel) id date ≠ [])
    (smallest : ∀ other ∈ dates (manager.channelDb channel), other < date →
      rowsWith (manager.channelDb channel) id other = []) :
    selectByIdAndChannel engine manager channel id outMsg =
      assemble channel (rowsWith (manager.channelDb channel) id date) := by
  have listed := mem_listing.mpr known
  rw [select_answer documented manager id inside, if_neg (List.ne_nil_of_mem listed)]
  cases search : (listing (manager.channelDb channel)).find?
      fun table => rowsWith (manager.channelDb channel) id table ≠ [] with
  | none =>
    have missed := List.find?_eq_none.mp search date listed
    exact absurd (decide_eq_true hit) missed
  | some table =>
    obtain ⟨good, before, after, split, earlier⟩ := List.find?_eq_some_iff_append.mp search
    have sorted := listing_sorted (manager.channelDb channel)
    rw [split] at sorted listed
    rcases List.mem_append.mp listed with front | back
    · have empty := earlier date front
      exact absurd hit (by simpa using empty)
    · rcases List.mem_cons.mp back with rfl | late
      · rfl
      · have less := List.rel_of_pairwise_cons (List.pairwise_append.mp sorted).2.1 late
        have member : table ∈ dates (manager.channelDb channel) :=
          mem_listing.mp (List.mem_of_find?_eq_some search)
        exact absurd (smallest table member less) (of_decide_eq_true good)

theorem select_missing (manager : DataBaseManager) {channel : Int32} (id : Int32)
    (inside : InRange manager.maxChannels channel) (outMsg : ModbusMasterMsg)
    (nowhere : ∀ date ∈ dates (manager.channelDb channel),
      rowsWith (manager.channelDb channel) id date = []) :
    selectByIdAndChannel engine manager channel id outMsg =
      if listing (manager.channelDb channel) = [] then (false, outMsg) else (false, default) := by
  have search : (listing (manager.channelDb channel)).find?
      (fun table => rowsWith (manager.channelDb channel) id table ≠ []) = none := by
    rw [List.find?_eq_none]
    intro date listed
    simpa using nowhere date (mem_listing.mp listed)
  rw [select_answer documented manager id inside, search]

end

/-! The answer over a whole history. -/

/-- A day's messages with an id. -/
def asked (id : Int32) (date : Bytes) (history : List ModbusMasterMsg) : List ModbusMasterMsg :=
  history.filter fun msg => day msg = date ∧ msg.id = id

/-- Those of them that left a row. -/
def reported (id : Int32) (date : Bytes) (history : List ModbusMasterMsg) : List ModbusMasterMsg :=
  (asked id date history).filter fun msg => msg.registerMap ≠ []

theorem mem_asked {id : Int32} {date : Bytes} {history : List ModbusMasterMsg} {msg : ModbusMasterMsg} :
    msg ∈ asked id date history ↔ msg ∈ history ∧ day msg = date ∧ msg.id = id := by
  rw [asked, List.mem_filter, decide_eq_true_eq]

/-- Messages without registers add nothing that is collected from registers. -/
theorem flatMap_reported {β : Type} (collect : ModbusMasterMsg → RegisterItem → β) (id : Int32)
    (date : Bytes) (history : List ModbusMasterMsg) :
    ((asked id date history).flatMap fun msg => msg.registerMap.map (collect msg)) =
      (reported id date history).flatMap fun msg => msg.registerMap.map (collect msg) := by
  unfold reported
  induction asked id date history with
  | nil => rfl
  | cons msg rest ih =>
    by_cases empty : msg.registerMap = []
    · rw [List.flatMap_cons, empty, List.map_nil, List.nil_append, ih,
        List.filter_cons_of_neg (by simpa using empty)]
    · rw [List.filter_cons_of_pos (by simpa using empty), List.flatMap_cons, List.flatMap_cons, ih]

theorem rowsOn_with (id : Int32) (date : Bytes) (history : List ModbusMasterMsg) :
    ((rowsOn date history).filter fun row => row.id = id) =
      (asked id date history).flatMap fun msg => msg.registerMap.map (storedRow msg) := by
  unfold rowsOn asked
  induction history with
  | nil => rfl
  | cons msg rest ih =>
    by_cases today : day msg = date
    · by_cases same : msg.id = id
      · have all : ((msg.registerMap.map (storedRow msg)).filter fun row => row.id = id) =
            msg.registerMap.map (storedRow msg) := by
          apply List.filter_eq_self.mpr
          intro row member
          obtain ⟨reg, -, rfl⟩ := List.mem_map.mp member
          exact decide_eq_true same
        simp only [List.filter_cons, today, same, and_self, decide_true, if_true, List.flatMap_cons,
          List.filter_append, all, ih]
      · have none_ : ((msg.registerMap.map (storedRow msg)).filter fun row => row.id = id) = [] := by
          apply List.filter_eq_nil_iff.mpr
          intro row member
          obtain ⟨reg, -, rfl⟩ := List.mem_map.mp member
          exact fun hit => same (of_decide_eq_true hit)
        simp only [List.filter_cons, today, same, and_false, decide_true, decide_false, if_true,
          Bool.false_eq_true, if_false, List.flatMap_cons, List.filter_append, none_,
          List.nil_append, ih]
    · simp only [List.filter_cons, today, false_and, decide_false, Bool.false_eq_true, if_false, ih]

theorem rowsOn_with_eq_nil {id : Int32} {date : Bytes} {history : List ModbusMasterMsg} :
    ((rowsOn date history).filter fun row => row.id = id) = [] ↔ reported id date history = [] := by
  rw [rowsOn_with, flatMap_reported]
  constructor
  · intro empty
    apply List.eq_nil_iff_forall_not_mem.mpr
    intro msg member
    have bare := List.flatMap_eq_nil_iff.mp empty msg member
    exact absurd (List.map_eq_nil_iff.mp bare) (of_decide_eq_true (List.mem_filter.mp member).2)
  · intro empty
    rw [empty, List.flatMap_nil]

/-- What the first of a day's messages and the registers of all of them make up. -/
theorem assemble_reported {maxChannels : Int32} {id : Int32} {date : Bytes}
    {history : List ModbusMasterMsg} (admitted : ∀ msg ∈ history, Admitted maxChannels msg)
    (channel : Int32) {first : ModbusMasterMsg} {rest : List ModbusMasterMsg}
    (split : reported id date history = first :: rest) :
    assemble channel ((rowsOn date history).filter fun row => row.id = id) =
      (true, { id := id, channel := channel, pduAddr := first.pduAddr, pduFunc := first.pduFunc,
               pduData := first.pduData, timestamp := first.timestamp,
               registerMap := (asked id date history).flatMap (·.registerMap) }) := by
  have member : first ∈ reported id date history := split ▸ List.mem_cons_self
  have known := mem_asked.mp (List.mem_filter.mp member).1
  have valid := admitted first known.1
  obtain ⟨reg, regs, registers⟩ := List.exists_cons_of_ne_nil
    (of_decide_eq_true (List.mem_filter.mp member).2 : first.registerMap ≠ [])
  have rows : ((rowsOn date history).filter fun row => row.id = id) =
      (reported id date history).flatMap fun msg => msg.registerMap.map (storedRow msg) := by
    rw [rowsOn_with, flatMap_reported]
  have collected : ((rowsOn date history).filter fun row => row.id = id).map registerOf =
      (asked id date history).flatMap (·.registerMap) := by
    rw [rowsOn_with, List.map_flatMap]
    apply List.flatMap_congr
    intro msg own
    have each := (admitted msg (mem_asked.mp own).1).descriptions
    rw [List.map_map]
    refine (List.map_congr_left fun item member => ?_).trans (List.map_id _)
    change RegisterItem.mk _ _ _ (cStr item.description) = item
    rw [cStr_eq_self.mpr (each item member)]
    rfl
  rw [← collected]
  rw [rows, split, List.flatMap_cons, registers, List.map_cons, List.cons_append, assemble]
  simp only [storedRow, cStr_eq_self.mpr valid.pduData, cStr_eq_self.mpr valid.timestamp, known.2.2]

/-- The days a channel has tables for, whatever the limit. -/
def keptDays (maxTablesPerDb channel : Int32) (messages : List ModbusMasterMsg) : Finset Bytes :=
  keep maxTablesPerDb (daysOf (onChannel channel messages))

theorem keptDays_eq_newest {maxTablesPerDb : Int32} (positive : 1 ≤ maxTablesPerDb)
    (channel : Int32) (messages : List ModbusMasterMsg) :
    keptDays maxTablesPerDb channel messages = newest maxTablesPerDb channel messages :=
  if_neg (not_negative positive)

section
variable {engine : Engine} (documented : Documented engine) {maxChannels : Int32}
  {messages : List ModbusMasterMsg} (admitted : ∀ msg ∈ messages, Admitted maxChannels msg)
include documented admitted

theorem dates_after (maxTablesPerDb channel : Int32) :
    dates ((writeAll engine maxChannels maxTablesPerDb messages).1.channelDb channel) =
      keptDays maxTablesPerDb channel messages := by
  have retains : Retains (room maxTablesPerDb) _ _ := retains_run documented admitted channel
  rw [retains.dates_eq, keptDays, keep_eq_largest retains.seen]

theorem rowsWith_after {maxTablesPerDb : Int32} (channel id : Int32) {date : Bytes}
    (kept : date ∈ keptDays maxTablesPerDb channel messages) :
    rowsWith ((writeAll engine maxChannels maxTablesPerDb messages).1.channelDb channel) id date =
      (rowsOn date (onChannel channel messages)).filter fun row => row.id = id := by
  have retains : Retains (room maxTablesPerDb) _ _ := retains_run documented admitted channel
  have own : ∀ msg ∈ onChannel channel messages, Admitted maxChannels msg :=
    fun msg known => admitted msg (List.mem_of_mem_filter known)
  rw [keptDays, keep_eq_largest retains.seen] at kept
  rw [rowsWith, retains.rows date (retains.seen date (largest_subset _ _ kept)),
    ← boundOn_admitted own]
  exact congrArg (fun found : Option (List Row) => (found.getD []).filter fun row => row.id = id)
    (if_pos kept)

end

/-- The answer about an id after a run of writes. -/
def answerAfter (engine : Engine) (maxChannels maxTablesPerDb : Int32)
    (messages : List ModbusMasterMsg) (channel id : Int32) (outMsg : ModbusMasterMsg) :
    Bool × ModbusMasterMsg :=
  selectByIdAndChannel engine (writeAll engine maxChannels maxTablesPerDb messages).1 channel id outMsg

theorem answer_found {engine : Engine} (documented : Documented engine)
    {maxChannels maxTablesPerDb : Int32} {messages : List ModbusMasterMsg}
    (admitted : ∀ msg ∈ messages, Admitted maxChannels msg)
    {channel : Int32} (inside : InRange maxChannels channel) (id : Int32) (outMsg : ModbusMasterMsg)
    {date : Bytes} (kept : date ∈ keptDays maxTablesPerDb channel messages)
    {first : ModbusMasterMsg} {rest : List ModbusMasterMsg}
    (split : reported id date (onChannel channel messages) = first :: rest)
    (smallest : ∀ other ∈ keptDays maxTablesPerDb channel messages, other < date →
      reported id other (onChannel channel messages) = []) :
    answerAfter engine maxChannels maxTablesPerDb messages channel id outMsg =
      (true, { id := id, channel := channel, pduAddr := first.pduAddr, pduFunc := first.pduFunc,
               pduData := first.pduData, timestamp := first.timestamp,
               registerMap :=
                 (asked id date (onChannel channel messages)).flatMap (·.registerMap) }) := by
  have settings := writeAll_settings engine maxChannels maxTablesPerDb messages
  have known := dates_after documented admitted maxTablesPerDb channel
  have own : ∀ msg ∈ onChannel channel messages, Admitted maxChannels msg :=
    fun msg member => admitted msg (List.mem_of_mem_filter member)
  rw [answerAfter, select_found documented _ id (settings.1.symm ▸ inside) outMsg (known.symm ▸ kept),
    rowsWith_after documented admitted channel id kept, assemble_reported own channel split]
  · rw [rowsWith_after documented admitted channel id kept, ne_eq, rowsOn_with_eq_nil, split]
    exact List.cons_ne_nil _ _
  · intro other member less
    rw [known] at member
    rw [rowsWith_after documented admitted channel id member, rowsOn_with_eq_nil]
    exact smallest other member less

theorem answer_missing {engine : Engine} (documented : Documented engine)
    {maxChannels maxTablesPerDb : Int32} {messages : List ModbusMasterMsg}
    (admitted : ∀ msg ∈ messages, Admitted maxChannels msg)
    {channel : Int32} (inside : InRange maxChannels channel) (id : Int32) (outMsg : ModbusMasterMsg)
    (nowhere : ∀ date ∈ keptDays maxTablesPerDb channel messages,
      reported id date (onChannel channel messages) = []) :
    answerAfter engine maxChannels maxTablesPerDb messages channel id outMsg =
      if keptDays maxTablesPerDb channel messages = ∅ then (false, outMsg) else (false, default) := by
  have settings := writeAll_settings engine maxChannels maxTablesPerDb messages
  have known := dates_after documented admitted maxTablesPerDb channel
  rw [answerAfter, select_missing documented _ id (settings.1.symm ▸ inside), ← known,
    ← listing_toFinset]
  · simp only [List.toFinset_eq_empty_iff]
  · intro date member
    rw [known] at member
    rw [rowsWith_after documented admitted channel id member, rowsOn_with_eq_nil]
    exact nowhere date member

/-- Among the kept days with an answer there is a smallest. -/
theorem exists_smallest {maxTablesPerDb channel id : Int32} {messages history : List ModbusMasterMsg}
    {date : Bytes} (kept : date ∈ keptDays maxTablesPerDb channel messages)
    (hit : reported id date history ≠ []) :
    ∃ first ∈ keptDays maxTablesPerDb channel messages, reported id first history ≠ [] ∧
      ∀ other ∈ keptDays maxTablesPerDb channel messages, other < first →
        reported id other history = [] := by
  have some_day : ((keptDays maxTablesPerDb channel messages).filter
      fun date => reported id date history ≠ []).Nonempty :=
    ⟨date, Finset.mem_filter.mpr ⟨kept, hit⟩⟩
  obtain ⟨member, holds⟩ := Finset.mem_filter.mp (Finset.min'_mem _ some_day)
  refine ⟨_, member, holds, fun other known less => ?_⟩
  by_contra answered
  exact absurd less (not_lt.mpr (Finset.min'_le _ other (Finset.mem_filter.mpr ⟨known, answered⟩)))

/-- A kept day with an answer is enough: the smallest of them is the one that is read. -/
theorem answer_of_reported {engine : Engine} (documented : Documented engine)
    {maxChannels maxTablesPerDb : Int32} {messages : List ModbusMasterMsg}
    (admitted : ∀ msg ∈ messages, Admitted maxChannels msg)
    {channel : Int32} (inside : InRange maxChannels channel) (id : Int32) (outMsg : ModbusMasterMsg)
    {date : Bytes} (kept : date ∈ keptDays maxTablesPerDb channel messages)
    (hit : reported id date (onChannel channel messages) ≠ []) :
    (answerAfter engine maxChannels maxTablesPerDb messages channel id outMsg).1 = true := by
  obtain ⟨day, member, holds, smallest⟩ := exists_smallest kept hit
  obtain ⟨first, rest, split⟩ := List.exists_cons_of_ne_nil holds
  rw [answer_found documented admitted inside id outMsg member split smallest]

theorem keptDays_of_names {engine : Engine} (documented : Documented engine)
    {maxChannels maxTablesPerDb : Int32} {messages : List ModbusMasterMsg}
    (admitted : ∀ msg ∈ messages, Admitted maxChannels msg)
    {channel : Int32} (present :
      ((writeAll engine maxChannels maxTablesPerDb messages).1.channelDb channel).names ≠ []) :
    keptDays maxTablesPerDb channel messages ≠ ∅ := by
  have retains : Retains (room maxTablesPerDb) _ _ := retains_run documented admitted channel
  obtain ⟨name, member⟩ := List.exists_mem_of_ne_nil _ present
  intro empty
  rw [← dates_after documented admitted maxTablesPerDb channel] at empty
  exact Finset.notMem_empty name (empty ▸ mem_dates.mpr ⟨member, retains.named name member⟩)

/-- The meaning of a query over the whole history of a channel. -/
theorem select_over_history (engine : Engine) (documented : Documented engine)
    (maxChannels maxTablesPerDb : Int32) (positive : 1 ≤ maxTablesPerDb)
    (messages : List ModbusMasterMsg) (admitted : ∀ msg ∈ messages, Admitted maxChannels msg)
    (channel : Int32) (inside : InRange maxChannels channel) (id : Int32) (outMsg : ModbusMasterMsg) :
    ((answerAfter engine maxChannels maxTablesPerDb messages channel id outMsg).1 = true ↔
        ∃ date ∈ newest maxTablesPerDb channel messages,
          reported id date (onChannel channel messages) ≠ []) ∧
      (∀ date ∈ newest maxTablesPerDb channel messages, ∀ first rest,
        reported id date (onChannel channel messages) = first :: rest →
        (∀ other ∈ newest maxTablesPerDb channel messages, other < date →
          reported id other (onChannel channel messages) = []) →
        (answerAfter engine maxChannels maxTablesPerDb messages channel id outMsg).2 =
          { id := id, channel := channel, pduAddr := first.pduAddr, pduFunc := first.pduFunc,
            pduData := first.pduData, timestamp := first.timestamp,
            registerMap :=
              (asked id date (onChannel channel messages)).flatMap (·.registerMap) }) ∧
      ((answerAfter engine maxChannels maxTablesPerDb messages channel id outMsg).1 = false →
        ((writeAll engine maxChannels maxTablesPerDb messages).1.channelDb channel).names ≠ [] →
        (answerAfter engine maxChannels maxTablesPerDb messages channel id outMsg).2 = default) := by
  rw [← keptDays_eq_newest positive]
  have answered : ∀ date ∈ keptDays maxTablesPerDb channel messages,
      reported id date (onChannel channel messages) ≠ [] →
      (answerAfter engine maxChannels maxTablesPerDb messages channel id outMsg).1 = true :=
    fun date kept hit => answer_of_reported documented admitted inside id outMsg kept hit
  refine ⟨⟨fun success => ?_, fun ⟨date, kept, hit⟩ => answered date kept hit⟩, ?_, ?_⟩
  · by_contra none_
    push Not at none_
    rw [answer_missing documented admitted inside id outMsg none_] at success
    split at success
    next => exact Bool.noConfusion success
    next => exact Bool.noConfusion success
  · intro date kept first rest split smallest
    rw [answer_found documented admitted inside id outMsg kept split smallest]
  · intro failure present
    have nowhere : ∀ date ∈ keptDays maxTablesPerDb channel messages,
        reported id date (onChannel channel messages) = [] := by
      intro date kept
      by_contra hit
      rw [answered date kept hit] at failure
      exact Bool.noConfusion failure
    rw [answer_missing documented admitted inside id outMsg nowhere,
      if_neg (keptDays_of_names documented admitted present)]

/-- Two reports of one day are answered as one; a later day is not looked at. -/
theorem select_over_two_days :
    (answerAfter reference 2 2 [sampleAt "20260326080000", sampleAt "20260325180500",
      sampleAt "20260325190000"] 1 7 default).2 =
      { sampleAt "20260325180500" with
        registerMap := [⟨16, 0, 220, bytes "A"⟩, ⟨16, 0, 220, bytes "A"⟩] } := by
  obtain ⟨-, answer, -⟩ := select_over_history reference reference_documented 2 2 (by decide)
    [sampleAt "20260326080000", sampleAt "20260325180500", sampleAt "20260325190000"]
    (by decide +kernel) 1 (by decide) 7 default
  rw [answer (bytes "20260325") (by decide +kernel) (sampleAt "20260325180500")
    [sampleAt "20260325190000"] (by decide +kernel) (by decide +kernel)]
  decide +kernel

/-! Answers that are one report. -/

/-- On the first kept day with a message of the id there is no other one of it. -/
def Unmixed (maxTablesPerDb channel id : Int32) (messages : List ModbusMasterMsg) : Prop :=
  ∀ date ∈ keptDays maxTablesPerDb channel messages, ∀ first rest,
    asked id date (onChannel channel messages) = first :: rest →
    (∀ other ∈ keptDays maxTablesPerDb channel messages, other < date →
      asked id other (onChannel channel messages) = []) → rest = []

/-- With registers in every message, each of a day's messages leaves rows. -/
theorem reported_eq_asked {history : List ModbusMasterMsg}
    (registers : ∀ msg ∈ history, msg.registerMap ≠ []) (id : Int32) (date : Bytes) :
    reported id date history = asked id date history := by
  apply List.filter_eq_self.mpr
  intro msg member
  exact decide_eq_true (registers msg (mem_asked.mp member).1)

/-- Two messages' registers together are no single one's. -/
theorem registers_flatMap_ne {history : List ModbusMasterMsg}
    (registers : ∀ msg ∈ history, msg.registerMap ≠ []) {id : Int32} {date : Bytes}
    {first second msg : ModbusMasterMsg} {rest : List ModbusMasterMsg}
    (split : asked id date history = first :: second :: rest) (member : msg ∈ asked id date history) :
    msg.registerMap ≠ (asked id date history).flatMap (·.registerMap) := by
  intro same
  have lengths := congrArg List.length same
  obtain ⟨before, after, parts⟩ := List.append_of_mem member
  rw [parts, List.flatMap_append, List.flatMap_cons, List.length_append, List.length_append] at lengths
  have alone : ∀ others : List ModbusMasterMsg, (∀ other ∈ others, other ∈ history) →
      (others.flatMap (·.registerMap)).length = 0 → others = [] := by
    intro others known none_
    by_contra some_
    obtain ⟨other, more, rfl⟩ := List.exists_cons_of_ne_nil some_
    rw [List.flatMap_cons, List.length_append, Nat.add_eq_zero_iff, List.length_eq_zero_iff] at none_
    exact registers other (known other List.mem_cons_self) none_.1
  have known : ∀ other ∈ before ++ msg :: after, other ∈ history :=
    fun other member => (mem_asked.mp (parts ▸ member)).1
  have front := alone before (fun other member => known other (List.mem_append_left _ member))
    (by omega)
  have back := alone after
    (fun other member => known other (List.mem_append_right _ (List.mem_cons_of_mem _ member)))
    (by omega)
  rw [split, front, back] at parts
  cases parts

section
variable {engine : Engine} (documented : Documented engine) {maxChannels maxTablesPerDb : Int32}
  {messages : List ModbusMasterMsg} (admitted : ∀ msg ∈ messages, Admitted maxChannels msg)
  (registers : ∀ msg ∈ messages, msg.registerMap ≠ []) {channel id : Int32}
include documented admitted registers

/-- The day that is read gives an answer, and a report of it when it has only one. -/
theorem answer_of_day (inside : InRange maxChannels channel) (outMsg : ModbusMasterMsg) {date : Bytes}
    (kept : date ∈ keptDays maxTablesPerDb channel messages) {first : ModbusMasterMsg}
    {rest : List ModbusMasterMsg} (split : asked id date (onChannel channel messages) = first :: rest)
    (smallest : ∀ other ∈ keptDays maxTablesPerDb channel messages, other < date →
      asked id other (onChannel channel messages) = []) :
    (answerAfter engine maxChannels maxTablesPerDb messages channel id outMsg).1 = true ∧
      ((answerAfter engine maxChannels maxTablesPerDb messages channel id outMsg).2 ∈
        onChannel channel messages ↔ rest = []) := by
  have each : ∀ msg ∈ onChannel channel messages, msg.registerMap ≠ [] :=
    fun msg member => registers msg (List.mem_of_mem_filter member)
  have leaves := reported_eq_asked each id
  have answer := answer_found documented admitted inside id outMsg kept ((leaves date).trans split)
    fun other known less => (leaves other).trans (smallest other known less)
  obtain ⟨known, today, same⟩ := mem_asked.mp (split ▸ List.mem_cons_self)
  rw [answer]
  refine ⟨rfl, fun member => ?_, ?_⟩
  · -- the answer has the day and the id of the first, so it is one of those asked for
    have among := mem_asked.mpr ⟨member, today, rfl⟩
    cases rest with
    | nil => rfl
    | cons second rest => exact absurd rfl (registers_flatMap_ne each split among)
  · rintro rfl
    have own : first.channel = channel := of_decide_eq_true (List.mem_filter.mp known).2
    rw [split, List.flatMap_singleton]
    subst same own
    exact known

/-- Whatever is answered, a kept day holds it. -/
theorem exists_day_of_answer (inside : InRange maxChannels channel) {outMsg : ModbusMasterMsg}
    (success : (answerAfter engine maxChannels maxTablesPerDb messages channel id outMsg).1 = true) :
    ∃ date ∈ keptDays maxTablesPerDb channel messages, ∃ first rest,
      asked id date (onChannel channel messages) = first :: rest ∧
      ∀ other ∈ keptDays maxTablesPerDb channel messages, other < date →
        asked id other (onChannel channel messages) = [] := by
  have leaves := reported_eq_asked
    (fun msg member => registers msg (List.mem_of_mem_filter member) :
      ∀ msg ∈ onChannel channel messages, msg.registerMap ≠ []) id
  have answered : ∃ date ∈ keptDays maxTablesPerDb channel messages,
      reported id date (onChannel channel messages) ≠ [] := by
    by_contra none_
    push Not at none_
    rw [answer_missing documented admitted inside id outMsg none_] at success
    split at success
    next => exact Bool.noConfusion success
    next => exact Bool.noConfusion success
  obtain ⟨date, kept, hit⟩ := answered
  obtain ⟨day, member, holds, smallest⟩ := exists_smallest kept hit
  simp only [leaves] at holds smallest
  obtain ⟨first, rest, split⟩ := List.exists_cons_of_ne_nil holds
  exact ⟨day, member, first, rest, split, smallest⟩

end

theorem answer_outside {engine : Engine} {maxChannels maxTablesPerDb : Int32}
    {messages : List ModbusMasterMsg} {channel : Int32} (outside : ¬InRange maxChannels channel)
    (id : Int32) (outMsg : ModbusMasterMsg) :
    answerAfter engine maxChannels maxTablesPerDb messages channel id outMsg = (false, outMsg) := by
  have settings := writeAll_settings engine maxChannels maxTablesPerDb messages
  rw [answerAfter, selectByIdAndChannel, getDbHandle_eq, settings.1, if_neg outside]

/-- An answer is one of the reports written exactly when no other report of its
day shares the id. -/
theorem answer_unmixed_iff (engine : Engine) (documented : Documented engine)
    (maxChannels maxTablesPerDb : Int32) (messages : List ModbusMasterMsg)
    (admitted : ∀ msg ∈ messages, Admitted maxChannels msg)
    (registers : ∀ msg ∈ messages, msg.registerMap ≠ []) (channel id : Int32)
    (outMsg : ModbusMasterMsg) :
    ((answerAfter engine maxChannels maxTablesPerDb messages channel id outMsg).1 = true →
        (answerAfter engine maxChannels maxTablesPerDb messages channel id outMsg).2 ∈
          onChannel channel messages) ↔ Unmixed maxTablesPerDb channel id messages := by
  by_cases inside : InRange maxChannels channel
  · constructor
    · intro written date kept first rest split smallest
      obtain ⟨success, single⟩ := answer_of_day documented admitted registers inside outMsg kept split
        smallest
      exact single.mp (written success)
    · intro unmixed success
      obtain ⟨date, kept, first, rest, split, smallest⟩ :=
        exists_day_of_answer documented admitted registers inside success
      obtain ⟨-, single⟩ := answer_of_day documented admitted registers inside outMsg kept split
        smallest
      exact single.mpr (unmixed date kept first rest split smallest)
  · rw [answer_outside inside id outMsg]
    refine iff_of_true (fun success => Bool.noConfusion success) ?_
    intro date kept first rest split smallest
    have known : first ∈ onChannel channel messages :=
      (mem_asked.mp (split ▸ List.mem_cons_self : first ∈ asked id date _)).1
    obtain ⟨member, own⟩ := List.mem_filter.mp known
    exact absurd (of_decide_eq_true own ▸ (admitted first member).channel) inside

theorem answer_unmixed_two_days :
    (answerAfter reference 2 2 [sampleAt "20260326080000", sampleAt "20260325180500"] 1 7 default).2 ∈
      onChannel 1 [sampleAt "20260326080000", sampleAt "20260325180500"] :=
  (answer_unmixed_iff reference reference_documented 2 2 _ (by decide +kernel) (by decide) 1 7
    default).mpr (by
      have few : ∀ date ∈ keptDays 2 1 [sampleAt "20260326080000", sampleAt "20260325180500"],
          (asked 7 date (onChannel 1 [sampleAt "20260326080000",
            sampleAt "20260325180500"])).length ≤ 1 := by decide +kernel
      intro date kept first rest split _
      have single := few date kept
      rw [split, List.length_cons] at single
      exact List.length_eq_zero_iff.mp (by omega)) (by decide +kernel)

/-- Two reports of one day and one id. -/
theorem answer_blends : ¬∀ engine, Documented engine → ∀ maxChannels maxTablesPerDb messages,
    (∀ msg ∈ messages, Admitted maxChannels msg) → (∀ msg ∈ messages, msg.registerMap ≠ []) →
    ∀ channel id outMsg,
      (answerAfter engine maxChannels maxTablesPerDb messages channel id outMsg).1 = true →
      (answerAfter engine maxChannels maxTablesPerDb messages channel id outMsg).2 ∈
        onChannel channel messages := by
  intro claim
  have blend : (answerAfter reference 2 2
        [sampleAt "20260325180500", sampleAt "20260325190000"] 1 7 default).1 = true ∧
      (answerAfter reference 2 2
        [sampleAt "20260325180500", sampleAt "20260325190000"] 1 7 default).2 ∉
        onChannel 1 [sampleAt "20260325180500", sampleAt "20260325190000"] := by decide +kernel
  have answer := claim reference reference_documented 2 2
    [sampleAt "20260325180500", sampleAt "20260325190000"] (by decide +kernel) (by decide) 1 7 default
    blend.1
  exact blend.2 answer

end ModbusDatabase.Query
