import ModbusDatabase.Retention

/-! What the table name in a statement's text is once SQLite has read it. The
builders put a name between quotes as it is, so it comes back exactly when it
needed no escaping. -/

namespace ModbusDatabase.Quoting
open Message Tables Sqlite DbManager
set_option autoImplicit false

/-- The text that stands for a name between quotes. -/
def escape (name : Bytes) : Bytes :=
  name.flatMap fun byte => if byte = quote then [quote, quote] else [byte]

theorem escape_cons (byte : Byte) (name : Bytes) :
    escape (byte :: name) = (if byte = quote then [quote, quote] else [byte]) ++ escape name := by
  rw [escape, List.flatMap_cons, escape]

theorem length_escape (name : Bytes) : (escape name).length = name.length + name.count quote := by
  induction name with
  | nil => rfl
  | cons byte name ih =>
    rw [escape_cons, List.length_append, ih, List.length_cons, List.count_cons]
    by_cases same : byte = quote
    · rw [if_pos same, if_pos (beq_iff_eq.mpr same), List.length_cons, List.length_singleton]
      omega
    · rw [if_neg same, if_neg (beq_iff_eq.not.mpr same), List.length_singleton]
      omega

theorem escape_eq_self_iff {name : Bytes} : escape name = name ↔ quote ∉ name := by
  constructor
  · intro same
    have lengths := length_escape name
    rw [same] at lengths
    exact List.count_eq_zero.mp (Nat.add_eq_left.mp lengths.symm)
  · intro plain
    induction name with
    | nil => rfl
    | cons byte name ih =>
      rw [escape_cons, if_neg (Ne.symm (List.ne_of_not_mem_cons plain)),
        ih (List.not_mem_of_not_mem_cons plain), List.singleton_append]

/-- Nothing but the escaped name is read as the name. -/
theorem escape_of_readIdentifier {text name tail : Bytes}
    (named : readIdentifier text = some (name, tail)) : text = escape name ++ quote :: tail := by
  induction text using readIdentifier.induct generalizing name with
  | case1 => cases named
  | case2 =>
    cases named
    rfl
  | case3 byte other =>
    rw [readIdentifier, if_neg other] at named
    cases named
  | case4 byte next rest other ih =>
    rw [readIdentifier, if_pos other, Option.map_eq_some_iff] at named
    obtain ⟨⟨behind, left⟩, inner, same⟩ := named
    cases same
    rw [ih inner, escape_cons, if_neg other, List.append_assoc, List.singleton_append]
  | case5 byte rest closes ih =>
    rw [readIdentifier, if_neg closes, if_pos rfl, Option.map_eq_some_iff] at named
    obtain ⟨⟨behind, left⟩, inner, same⟩ := named
    cases same
    rw [ih inner, escape_cons, if_pos rfl, not_not.mp closes]
    rfl
  | case6 byte next rest closes single =>
    rw [readIdentifier, if_neg closes, if_neg single] at named
    cases named
    rw [not_not.mp closes]
    rfl

/-- SQLite reads the name back, and behind it the text meant to follow. -/
def Survives (form : Form) (name : Bytes) : Prop :=
  readIdentifier ((cStr (form.text name)).drop form.head.length) = some (name, form.tail)

theorem survives_iff {form : Form} {name : Bytes} (free : NulFree name) :
    Survives form name ↔ quote ∉ name := by
  rw [Survives, form.cStr_text free, Form.text, List.drop_left]
  constructor
  · intro named
    have text := escape_of_readIdentifier named
    exact escape_eq_self_iff.mp (List.append_cancel_right text).symm
  · exact fun plain => readIdentifier_plain plain form.closed

/-- In each of the three statements a name survives that holds no quote. -/
theorem name_survives_iff (name : Bytes) (free : NulFree name) :
    ∀ form ∈ [createForm, insertForm, dropForm], (Survives form name ↔ quote ∉ name) :=
  fun _ _ => survives_iff free

theorem name_survives_iff_dated : Survives createForm (bytes "20260325") ∧
    Survives insertForm (bytes "20260325") ∧ Survives dropForm (bytes "20260325") := by
  have free : NulFree (bytes "20260325") := by decide
  have plain : quote ∉ bytes "20260325" := by decide
  refine ⟨?_, ?_, ?_⟩
  · exact (name_survives_iff _ free createForm (by simp)).mpr plain
  · exact (name_survives_iff _ free insertForm (by simp)).mpr plain
  · exact (name_survives_iff _ free dropForm (by simp)).mpr plain

/-- A report's timestamp can put a quote in the name. -/
theorem name_not_survives : ¬∀ msg : ModbusMasterMsg, Report.Accepted msg →
    NulFree (getDateFromTimestamp msg.timestamp) → ∀ form ∈ [createForm, insertForm, dropForm],
      Survives form (getDateFromTimestamp msg.timestamp) := by
  intro every
  have survives := every (Retention.sampleAt "2026\"401120000")
    (Retention.accepted_sampleAt "2026\"401120000") (by decide) createForm List.mem_cons_self
  exact absurd ((survives_iff (by decide)).mp survives) (by decide)

end ModbusDatabase.Quoting
