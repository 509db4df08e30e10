import Mathlib.Data.List.Chain

/-! Documents of leaves, texts, lists and records, the one sequence of tokens that
each is written as, and a reader with a stack that builds a value from the tokens. -/

namespace ModbusDatabase.Library.Records
set_option autoImplicit false

universe u

inductive Doc (Key Leaf : Type*) where
  | leaf (value : Leaf)
  | text (key : Key)
  | array (items : List (Doc Key Leaf))
  | object (members : List (Key × Doc Key Leaf))

inductive Token (Key Leaf : Type*) where
  | leaf (value : Leaf)
  | text (key : Key)
  | beginArray
  | endArray
  | beginObject
  | endObject
  | nameSeparator
  | valueSeparator
  deriving DecidableEq

variable {Key Leaf : Type*} {Value Fields : Type u}

mutual

def Doc.tokens : Doc Key Leaf → List (Token Key Leaf)
  | .leaf value => [.leaf value]
  | .text key => [.text key]
  | .array items => .beginArray :: ((itemTokens items).tail ++ [.endArray])
  | .object members => .beginObject :: ((memberTokens members).tail ++ [.endObject])

/-- The items, each behind a separator. -/
def itemTokens : List (Doc Key Leaf) → List (Token Key Leaf)
  | [] => []
  | item :: items => .valueSeparator :: (item.tokens ++ itemTokens items)

def memberTokens : List (Key × Doc Key Leaf) → List (Token Key Leaf)
  | [] => []
  | (key, item) :: members =>
    .valueSeparator :: .text key :: .nameSeparator :: (item.tokens ++ memberTokens members)

end

/-- A token that can stand right behind a leaf. -/
def Token.closes : Token Key Leaf → Prop
  | .endArray | .endObject | .valueSeparator => True
  | _ => False

/-- Behind each leaf the document goes on with a closing bracket or a separator. -/
def Guarded (tokens : List (Token Key Leaf)) : Prop :=
  tokens.IsChain fun token next => (∃ value, token = .leaf value) → next.closes

theorem guarded_append {first later : List (Token Key Leaf)} (left : Guarded first)
    (right : Guarded later) (closed : ∀ next ∈ later.head?, next.closes) :
    Guarded (first ++ later) :=
  List.isChain_append.mpr ⟨left, right, fun _ _ next member _ => closed next member⟩

theorem guarded_cons {token : Token Key Leaf} (inner : ∀ value, token ≠ .leaf value)
    {tokens : List (Token Key Leaf)} (guarded : Guarded tokens) : Guarded (token :: tokens) :=
  List.isChain_cons.mpr ⟨fun _ _ ⟨value, same⟩ => absurd same (inner value), guarded⟩

theorem guarded_tail {tokens : List (Token Key Leaf)} (guarded : Guarded tokens) :
    Guarded tokens.tail := List.IsChain.tail guarded

mutual

theorem guarded_tokens (doc : Doc Key Leaf) : Guarded doc.tokens := by
  match doc with
  | .leaf value => rw [Doc.tokens]; exact List.isChain_singleton _
  | .text key => rw [Doc.tokens]; exact List.isChain_singleton _
  | .array items =>
    rw [Doc.tokens]
    refine guarded_cons (by rintro _ ⟨⟩) ?_
    refine guarded_append (guarded_tail (guarded_items items)) (List.isChain_singleton _) ?_
    rintro next ⟨⟩
    trivial
  | .object members =>
    rw [Doc.tokens]
    refine guarded_cons (by rintro _ ⟨⟩) ?_
    refine guarded_append (guarded_tail (guarded_members members)) (List.isChain_singleton _) ?_
    rintro next ⟨⟩
    trivial

theorem guarded_items (items : List (Doc Key Leaf)) : Guarded (itemTokens items) := by
  match items with
  | [] => rw [itemTokens]; exact List.isChain_nil
  | item :: items =>
    rw [itemTokens]
    refine guarded_cons (by rintro _ ⟨⟩) ?_
    refine guarded_append (guarded_tokens item) (guarded_items items) ?_
    intro next member
    cases items with
    | nil => rw [itemTokens] at member; cases member
    | cons other items => rw [itemTokens] at member; cases member; trivial

theorem guarded_members (members : List (Key × Doc Key Leaf)) : Guarded (memberTokens members) := by
  match members with
  | [] => rw [memberTokens]; exact List.isChain_nil
  | (key, item) :: members =>
    rw [memberTokens]
    refine guarded_cons (by rintro _ ⟨⟩) ?_
    refine guarded_cons (by rintro _ ⟨⟩) ?_
    refine guarded_cons (by rintro _ ⟨⟩) ?_
    refine guarded_append (guarded_tokens item) (guarded_members members) ?_
    intro next member
    cases members with
    | nil => rw [memberTokens] at member; cases member
    | cons other members => rw [memberTokens] at member; cases member; trivial

end

/-- How a value is made of its parts. The fields of a record are set one after the other. -/
structure Builder (Key Leaf : Type*) (Value Fields : Type u) where
  leaf : Leaf → Value
  text : Key → Value
  array : List Value → Value
  object : Fields → Value
  empty : Fields
  set : Fields → Key → Value → Fields

mutual

def Doc.value (builder : Builder Key Leaf Value Fields) : Doc Key Leaf → Value
  | .leaf value => builder.leaf value
  | .text key => builder.text key
  | .array items => builder.array (values builder items)
  | .object members => builder.object (setAll builder builder.empty members)

def values (builder : Builder Key Leaf Value Fields) : List (Doc Key Leaf) → List Value
  | [] => []
  | item :: items => item.value builder :: values builder items

def setAll (builder : Builder Key Leaf Value Fields) (fields : Fields) :
    List (Key × Doc Key Leaf) → Fields
  | [] => fields
  | (key, item) :: members => setAll builder (builder.set fields key (item.value builder)) members

end

section
variable {builder : Builder Key Leaf Value Fields} {Holds : Value → Prop} {Kept : Fields → Prop}
  {Fine : Token Key Leaf → Prop}

/-- What the builder keeps of such tokens. -/
structure Preserves (builder : Builder Key Leaf Value Fields) (Fine : Token Key Leaf → Prop)
    (Holds : Value → Prop) (Kept : Fields → Prop) : Prop where
  leaf : ∀ value, Fine (.leaf value) → Holds (builder.leaf value)
  text : ∀ key, Fine (.text key) → Holds (builder.text key)
  array : ∀ items, (∀ item ∈ items, Holds item) → Holds (builder.array items)
  object : ∀ fields, Kept fields → Holds (builder.object fields)
  empty : Kept builder.empty
  set : ∀ fields key value, Kept fields → Fine (.text key) → Holds value →
    Kept (builder.set fields key value)

mutual

/-- What holds of the tokens and is kept by the builder holds of the value. -/
theorem holds_value (preserves : Preserves builder Fine Holds Kept) (doc : Doc Key Leaf)
    (fine : ∀ token ∈ doc.tokens, Fine token) : Holds (doc.value builder) := by
  match doc with
  | .leaf value =>
    rw [Doc.value]
    rw [Doc.tokens] at fine
    exact preserves.leaf value (fine _ List.mem_cons_self)
  | .text key =>
    rw [Doc.value]
    rw [Doc.tokens] at fine
    exact preserves.text key (fine _ List.mem_cons_self)
  | .array items =>
    rw [Doc.value]
    rw [Doc.tokens] at fine
    refine preserves.array _ (holds_values preserves items fun token member => fine token ?_)
    exact List.mem_cons_of_mem _ (List.mem_append_left _ member)
  | .object members =>
    rw [Doc.value]
    rw [Doc.tokens] at fine
    refine preserves.object _ (kept_setAll preserves members builder.empty preserves.empty
      fun token member => fine token ?_)
    exact List.mem_cons_of_mem _ (List.mem_append_left _ member)

theorem holds_values (preserves : Preserves builder Fine Holds Kept) (items : List (Doc Key Leaf))
    (fine : ∀ token ∈ (itemTokens items).tail, Fine token) : ∀ item ∈ values builder items, Holds item := by
  match items with
  | [] =>
    rw [values]
    exact fun _ absent => nomatch absent
  | item :: items =>
    rw [itemTokens, List.tail_cons] at fine
    rw [values]
    intro value member
    rcases List.mem_cons.mp member with rfl | later
    · exact holds_value preserves item fun token inside => fine token (List.mem_append_left _ inside)
    · refine holds_values preserves items (fun token inside => fine token ?_) value later
      exact List.mem_append_right _ (List.mem_of_mem_tail inside)

theorem kept_setAll (preserves : Preserves builder Fine Holds Kept)
    (members : List (Key × Doc Key Leaf)) (fields : Fields) (kept : Kept fields)
    (fine : ∀ token ∈ (memberTokens members).tail, Fine token) : Kept (setAll builder fields members) := by
  match members with
  | [] => rw [setAll]; exact kept
  | (key, item) :: members =>
    rw [memberTokens, List.tail_cons] at fine
    rw [setAll]
    have named := fine _ List.mem_cons_self
    have value : Holds (item.value builder) := holds_value preserves item fun token inside =>
      fine token (List.mem_cons_of_mem _ (List.mem_cons_of_mem _ (List.mem_append_left _ inside)))
    refine kept_setAll preserves members _ (preserves.set fields key _ kept named value)
      fun token inside => fine token ?_
    exact List.mem_cons_of_mem _ (List.mem_cons_of_mem _
      (List.mem_append_right _ (List.mem_of_mem_tail inside)))

end

end

/-! The reader. -/

/-- A container that is open around the value being read. -/
inductive Frame (Key : Type*) (Value Fields : Type u) where
  | array (items : List Value)
  | object (fields : Fields) (key : Key)

/-- What the reader waits for. -/
inductive Control (Key : Type*) (Value Fields : Type u) where
  | value
  | firstItem
  | firstKey
  | key (fields : Fields)
  | colon (fields : Fields) (key : Key)
  | after (value : Value)

structure State (Key : Type*) (Value Fields : Type u) where
  control : Control Key Value Fields
  frames : List (Frame Key Value Fields)

def start : State Key Value Fields := ⟨.value, []⟩

section
variable (builder : Builder Key Leaf Value Fields)

/-- A token at the place of a value. -/
def beginValue (frames : List (Frame Key Value Fields)) :
    Token Key Leaf → Option (State Key Value Fields)
  | .leaf value => some ⟨.after (builder.leaf value), frames⟩
  | .text key => some ⟨.after (builder.text key), frames⟩
  | .beginArray => some ⟨.firstItem, frames⟩
  | .beginObject => some ⟨.firstKey, frames⟩
  | _ => none

/-- A token behind a value, in the innermost open container. -/
def endValue (value : Value) : List (Frame Key Value Fields) → Token Key Leaf →
    Option (State Key Value Fields)
  | .array items :: frames, .valueSeparator => some ⟨.value, .array (items ++ [value]) :: frames⟩
  | .array items :: frames, .endArray => some ⟨.after (builder.array (items ++ [value])), frames⟩
  | .object fields key :: frames, .valueSeparator =>
    some ⟨.key (builder.set fields key value), frames⟩
  | .object fields key :: frames, .endObject =>
    some ⟨.after (builder.object (builder.set fields key value)), frames⟩
  | _, _ => none

def step (s : State Key Value Fields) (token : Token Key Leaf) : Option (State Key Value Fields) :=
  match s.control, token with
  | .value, token => beginValue builder s.frames token
  | .firstItem, .endArray => some ⟨.after (builder.array []), s.frames⟩
  | .firstItem, token => beginValue builder (.array [] :: s.frames) token
  | .firstKey, .endObject => some ⟨.after (builder.object builder.empty), s.frames⟩
  | .firstKey, .text key => some ⟨.colon builder.empty key, s.frames⟩
  | .key fields, .text key => some ⟨.colon fields key, s.frames⟩
  | .colon fields key, .nameSeparator => some ⟨.value, .object fields key :: s.frames⟩
  | .after value, token => endValue builder value s.frames token
  | _, _ => none

def run (s : State Key Value Fields) (tokens : List (Token Key Leaf)) :
    Option (State Key Value Fields) := tokens.foldlM (step builder) s

variable {builder} {s t : State Key Value Fields} {frames : List (Frame Key Value Fields)}

theorem run_cons (token : Token Key Leaf) (tokens : List (Token Key Leaf)) :
    run builder s (token :: tokens) = (step builder s token).bind fun t => run builder t tokens :=
  List.foldlM_cons

theorem run_append (first later : List (Token Key Leaf)) :
    run builder s (first ++ later) = (run builder s first).bind fun t => run builder t later :=
  List.foldlM_append

/-! Every document is read as what it stands for. -/

theorem tokens_head (doc : Doc Key Leaf) :
    ∃ token rest, doc.tokens = token :: rest ∧ token ≠ .endArray := by
  cases doc with
  | leaf value => exact ⟨.leaf value, [], by rw [Doc.tokens], fun same => nomatch same⟩
  | text key => exact ⟨.text key, [], by rw [Doc.tokens], fun same => nomatch same⟩
  | array items => exact ⟨.beginArray, _, by rw [Doc.tokens], fun same => nomatch same⟩
  | object members => exact ⟨.beginObject, _, by rw [Doc.tokens], fun same => nomatch same⟩

/-- The first item of a list is read as any value in it. -/
theorem run_firstItem (doc : Doc Key Leaf) :
    run builder ⟨.firstItem, frames⟩ doc.tokens =
      run builder ⟨.value, .array [] :: frames⟩ doc.tokens := by
  obtain ⟨token, rest, tokens, other⟩ := tokens_head doc
  rw [tokens, run_cons, run_cons]
  cases token with
  | endArray => exact absurd rfl other
  | _ => rfl

mutual

theorem run_tokens (doc : Doc Key Leaf) (frames : List (Frame Key Value Fields)) :
    run builder ⟨.value, frames⟩ doc.tokens = some ⟨.after (doc.value builder), frames⟩ := by
  match doc with
  | .leaf value => simp only [Doc.tokens, Doc.value]; rfl
  | .text key => simp only [Doc.tokens, Doc.value]; rfl
  | .array [] => simp only [Doc.tokens, itemTokens, Doc.value, values]; rfl
  | .array (item :: items) =>
    simp only [Doc.tokens, itemTokens, List.tail_cons, List.append_assoc, Doc.value, values]
    have opens : step builder ⟨.value, frames⟩ (.beginArray : Token Key Leaf) =
        some ⟨.firstItem, frames⟩ := rfl
    rw [run_cons, opens, Option.bind_some, run_append, run_firstItem, run_tokens item,
      Option.bind_some, run_items items]
    rfl
  | .object [] => simp only [Doc.tokens, memberTokens, Doc.value, setAll]; rfl
  | .object ((key, item) :: members) =>
    simp only [Doc.tokens, memberTokens, List.tail_cons, List.append_assoc, List.cons_append,
      Doc.value, setAll]
    have opens : run builder ⟨.value, frames⟩
        ([.beginObject, .text key, .nameSeparator] : List (Token Key Leaf)) =
          some ⟨.value, .object builder.empty key :: frames⟩ := rfl
    have split : (.beginObject :: .text key :: .nameSeparator ::
        (item.tokens ++ (memberTokens members ++ [.endObject])) : List (Token Key Leaf)) =
          [.beginObject, .text key, .nameSeparator] ++
            (item.tokens ++ (memberTokens members ++ [.endObject])) := rfl
    rw [split, run_append, opens, Option.bind_some, run_append, run_tokens item, Option.bind_some,
      run_members members]

theorem run_items (items : List (Doc Key Leaf)) (value : Value) (before : List Value)
    (frames : List (Frame Key Value Fields)) :
    run builder ⟨.after value, .array before :: frames⟩ (itemTokens items ++ [.endArray]) =
      some ⟨.after (builder.array (before ++ [value] ++ values builder items)), frames⟩ := by
  match items with
  | [] => simp only [itemTokens, values, List.append_nil]; rfl
  | item :: items =>
    simp only [itemTokens, values, List.cons_append, List.append_assoc]
    have next : step builder ⟨.after value, .array before :: frames⟩
        (.valueSeparator : Token Key Leaf) = some ⟨.value, .array (before ++ [value]) :: frames⟩ := rfl
    rw [run_cons, next, Option.bind_some, run_append, run_tokens item, Option.bind_some,
      run_items items]
    simp only [List.append_assoc, List.cons_append, List.nil_append]

theorem run_members (members : List (Key × Doc Key Leaf)) (value : Value) (fields : Fields)
    (key : Key) (frames : List (Frame Key Value Fields)) :
    run builder ⟨.after value, .object fields key :: frames⟩ (memberTokens members ++ [.endObject]) =
      some ⟨.after (builder.object (setAll builder (builder.set fields key value) members)),
        frames⟩ := by
  match members with
  | [] => simp only [memberTokens, setAll]; rfl
  | (name, item) :: members =>
    simp only [memberTokens, setAll, List.cons_append, List.append_assoc]
    have next : run builder ⟨.after value, .object fields key :: frames⟩
        ([.valueSeparator, .text name, .nameSeparator] : List (Token Key Leaf)) =
          some ⟨.value, .object (builder.set fields key value) name :: frames⟩ := rfl
    have split : (.valueSeparator :: .text name :: .nameSeparator ::
        (item.tokens ++ (memberTokens members ++ [.endObject])) : List (Token Key Leaf)) =
          [.valueSeparator, .text name, .nameSeparator] ++
            (item.tokens ++ (memberTokens members ++ [.endObject])) := rfl
    rw [split, run_append, next, Option.bind_some, run_append, run_tokens item, Option.bind_some,
      run_members members]

end

/-! What has been read is a document, or the front of one. -/

theorem itemTokens_append (items more : List (Doc Key Leaf)) :
    itemTokens (items ++ more) = itemTokens items ++ itemTokens more := by
  induction items with
  | nil => rw [List.nil_append, itemTokens, List.nil_append]
  | cons item items ih =>
    rw [List.cons_append, itemTokens, itemTokens, ih, List.cons_append, List.append_assoc]

theorem memberTokens_append (members more : List (Key × Doc Key Leaf)) :
    memberTokens (members ++ more) = memberTokens members ++ memberTokens more := by
  induction members with
  | nil => rw [List.nil_append, memberTokens, List.nil_append]
  | cons member members ih =>
    obtain ⟨key, item⟩ := member
    simp only [List.cons_append, memberTokens, ih, List.append_assoc]

theorem values_append (items more : List (Doc Key Leaf)) :
    values builder (items ++ more) = values builder items ++ values builder more := by
  induction items with
  | nil => rw [List.nil_append, values, List.nil_append]
  | cons item items ih => rw [List.cons_append, values, values, ih, List.cons_append]

theorem setAll_append (fields : Fields) (members more : List (Key × Doc Key Leaf)) :
    setAll builder fields (members ++ more) = setAll builder (setAll builder fields members) more := by
  induction members generalizing fields with
  | nil => rw [List.nil_append, setAll]
  | cons member members ih =>
    obtain ⟨key, item⟩ := member
    rw [List.cons_append, setAll, setAll, ih]

/-- A list up to the place of its next item. -/
def openItems (items : List (Doc Key Leaf)) : List (Token Key Leaf) :=
  .beginArray :: (itemTokens items ++ [Token.valueSeparator]).tail

/-- A record up to its next key, and what has been read of the next member. -/
def openMembers (members : List (Key × Doc Key Leaf)) (behind : List (Token Key Leaf)) :
    List (Token Key Leaf) :=
  .beginObject :: (memberTokens members ++ Token.valueSeparator :: behind).tail

theorem tail_append_cons (front : List (Token Key Leaf)) (token : Token Key Leaf)
    (middle behind : List (Token Key Leaf)) :
    (front ++ token :: middle).tail ++ behind = (front ++ token :: (middle ++ behind)).tail := by
  cases front with
  | nil => rfl
  | cons first front => simp only [List.cons_append, List.tail_cons, List.append_assoc]

theorem openItems_append (items : List (Doc Key Leaf)) (item : Doc Key Leaf) :
    openItems items ++ item.tokens = .beginArray :: (itemTokens (items ++ [item])).tail := by
  rw [openItems, List.cons_append, tail_append_cons, itemTokens_append, itemTokens, itemTokens,
    List.append_nil, List.nil_append]

theorem openMembers_append (members : List (Key × Doc Key Leaf)) (behind more : List (Token Key Leaf)) :
    openMembers members behind ++ more = openMembers members (behind ++ more) := by
  rw [openMembers, List.cons_append, tail_append_cons, openMembers]

theorem openMembers_member (members : List (Key × Doc Key Leaf)) (key : Key) (item : Doc Key Leaf) :
    openMembers members [.text key, .nameSeparator] ++ item.tokens =
      .beginObject :: (memberTokens (members ++ [(key, item)])).tail := by
  rw [openMembers_append, openMembers, memberTokens_append, memberTokens, memberTokens,
    List.append_nil]
  rfl

theorem openItems_close (items : List (Doc Key Leaf)) (item : Doc Key Leaf) :
    openItems items ++ item.tokens ++ [.endArray] = (Doc.array (items ++ [item])).tokens := by
  rw [openItems_append, Doc.tokens, List.cons_append]

theorem openItems_next (items : List (Doc Key Leaf)) (item : Doc Key Leaf) :
    openItems items ++ item.tokens ++ [.valueSeparator] = openItems (items ++ [item]) := by
  have nonempty : itemTokens (items ++ [item]) ≠ [] := by
    rw [itemTokens_append, itemTokens]
    exact List.append_ne_nil_of_right_ne_nil _ (List.cons_ne_nil _ _)
  rw [openItems_append, openItems, List.cons_append, List.tail_append_of_ne_nil nonempty]

theorem openMembers_close (members : List (Key × Doc Key Leaf)) (key : Key) (item : Doc Key Leaf) :
    openMembers members [.text key, .nameSeparator] ++ item.tokens ++ [.endObject] =
      (Doc.object (members ++ [(key, item)])).tokens := by
  rw [openMembers_member, Doc.tokens, List.cons_append]

theorem openMembers_next (members : List (Key × Doc Key Leaf)) (key : Key) (item : Doc Key Leaf) :
    openMembers members [.text key, .nameSeparator] ++ item.tokens ++ [.valueSeparator] =
      openMembers (members ++ [(key, item)]) [] := by
  have nonempty : memberTokens (members ++ [(key, item)]) ≠ [] := by
    rw [memberTokens_append, memberTokens]
    exact List.append_ne_nil_of_right_ne_nil _ (List.cons_ne_nil _ _)
  rw [openMembers_member, openMembers, List.cons_append, List.tail_append_of_ne_nil nonempty]

/-- The tokens that the open containers have taken in. -/
inductive Opened (builder : Builder Key Leaf Value Fields) :
    List (Frame Key Value Fields) → List (Token Key Leaf) → Prop
  | nil : Opened builder [] []
  | array {frames : List (Frame Key Value Fields)} {before : List (Token Key Leaf)}
      (items : List (Doc Key Leaf)) (opened : Opened builder frames before) :
      Opened builder (.array (values builder items) :: frames) (before ++ openItems items)
  | object {frames : List (Frame Key Value Fields)} {before : List (Token Key Leaf)}
      (members : List (Key × Doc Key Leaf)) (key : Key) (opened : Opened builder frames before) :
      Opened builder (.object (setAll builder builder.empty members) key :: frames)
        (before ++ openMembers members [.text key, .nameSeparator])

inductive Reads (builder : Builder Key Leaf Value Fields) :
    State Key Value Fields → List (Token Key Leaf) → Prop
  | value {frames : List (Frame Key Value Fields)} {before : List (Token Key Leaf)}
      (opened : Opened builder frames before) : Reads builder ⟨.value, frames⟩ before
  | firstItem {frames : List (Frame Key Value Fields)} {before : List (Token Key Leaf)}
      (opened : Opened builder frames before) :
      Reads builder ⟨.firstItem, frames⟩ (before ++ [.beginArray])
  | firstKey {frames : List (Frame Key Value Fields)} {before : List (Token Key Leaf)}
      (opened : Opened builder frames before) :
      Reads builder ⟨.firstKey, frames⟩ (before ++ [.beginObject])
  | key {frames : List (Frame Key Value Fields)} {before : List (Token Key Leaf)}
      (members : List (Key × Doc Key Leaf)) (opened : Opened builder frames before) :
      Reads builder ⟨.key (setAll builder builder.empty members), frames⟩
        (before ++ openMembers members [])
  | colon {frames : List (Frame Key Value Fields)} {before : List (Token Key Leaf)}
      (members : List (Key × Doc Key Leaf)) (key : Key) (opened : Opened builder frames before) :
      Reads builder ⟨.colon (setAll builder builder.empty members) key, frames⟩
        (before ++ openMembers members [.text key])
  | after {frames : List (Frame Key Value Fields)} {before : List (Token Key Leaf)}
      (doc : Doc Key Leaf) (opened : Opened builder frames before) :
      Reads builder ⟨.after (doc.value builder), frames⟩ (before ++ doc.tokens)

theorem reads_beginValue {before : List (Token Key Leaf)} {token : Token Key Leaf}
    (opened : Opened builder frames before) (step : beginValue builder frames token = some t) :
    Reads builder t (before ++ [token]) := by
  cases token with
  | leaf value =>
    cases step
    have reads := Reads.after (.leaf value) opened
    rw [Doc.value, Doc.tokens] at reads
    exact reads
  | text key =>
    cases step
    have reads := Reads.after (.text key) opened
    rw [Doc.value, Doc.tokens] at reads
    exact reads
  | beginArray => cases step; exact .firstItem opened
  | beginObject => cases step; exact .firstKey opened
  | _ => cases step

theorem reads_endValue {before : List (Token Key Leaf)} {token : Token Key Leaf}
    (doc : Doc Key Leaf) (opened : Opened builder frames before)
    (step : endValue builder (doc.value builder) frames token = some t) :
    Reads builder t (before ++ doc.tokens ++ [token]) := by
  cases opened with
  | nil => cases step
  | @array frames before items opened =>
    have grown : values builder items ++ [doc.value builder] = values builder (items ++ [doc]) := by
      rw [values_append, values, values]
    cases token with
    | valueSeparator =>
      cases step
      rw [grown, List.append_assoc before, List.append_assoc before, openItems_next]
      exact .value (.array _ opened)
    | endArray =>
      cases step
      have reads := Reads.after (.array (items ++ [doc])) opened
      rw [Doc.value, ← openItems_close] at reads
      rw [grown, List.append_assoc before, List.append_assoc before]
      exact reads
    | _ => cases step
  | @object frames before members key opened =>
    have grown : builder.set (setAll builder builder.empty members) key (doc.value builder) =
        setAll builder builder.empty (members ++ [(key, doc)]) := by
      rw [setAll_append, setAll, setAll]
    cases token with
    | valueSeparator =>
      cases step
      rw [grown, List.append_assoc before, List.append_assoc before, openMembers_next]
      exact .key _ opened
    | endObject =>
      cases step
      have reads := Reads.after (.object (members ++ [(key, doc)])) opened
      rw [Doc.value, ← openMembers_close] at reads
      rw [grown, List.append_assoc before, List.append_assoc before]
      exact reads
    | _ => cases step

theorem reads_step {tokens : List (Token Key Leaf)} {token : Token Key Leaf}
    (reads : Reads builder s tokens) (step : step builder s token = some t) :
    Reads builder t (tokens ++ [token]) := by
  cases reads with
  | value opened => exact reads_beginValue opened step
  | after doc opened => exact reads_endValue doc opened step
  | @firstItem frames before opened =>
    rw [List.append_assoc]
    by_cases closed : token = .endArray
    · subst closed
      cases step
      have reads := Reads.after (.array []) opened
      rw [Doc.value, values, Doc.tokens, itemTokens] at reads
      exact reads
    · have begins : beginValue builder (.array [] :: frames) token = some t := by
        cases token with
        | endArray => exact absurd rfl closed
        | _ => exact step
      have inside := Opened.array [] opened
      rw [values, openItems, itemTokens] at inside
      rw [← List.append_assoc]
      exact reads_beginValue inside begins
  | @firstKey frames before opened =>
    rw [List.append_assoc]
    cases token with
    | endObject =>
      cases step
      have reads := Reads.after (.object []) opened
      rw [Doc.value, setAll, Doc.tokens, memberTokens] at reads
      exact reads
    | text key =>
      cases step
      have reads := Reads.colon [] key opened
      rw [setAll, openMembers, memberTokens] at reads
      exact reads
    | _ => cases step
  | @key frames before members opened =>
    rw [List.append_assoc, openMembers_append]
    cases token with
    | text key => cases step; exact .colon members key opened
    | _ => cases step
  | @colon frames before members key opened =>
    rw [List.append_assoc, openMembers_append]
    cases token with
    | nameSeparator => cases step; exact .value (.object members key opened)
    | _ => cases step

theorem reads_run {before tokens : List (Token Key Leaf)} (reads : Reads builder s before)
    (ran : run builder s tokens = some t) : Reads builder t (before ++ tokens) := by
  induction tokens generalizing s before with
  | nil =>
    cases ran
    rw [List.append_nil]
    exact reads
  | cons token tokens ih =>
    rw [run_cons] at ran
    obtain ⟨next, stepped, later⟩ := Option.bind_eq_some_iff.mp ran
    have onward := ih (reads_step reads stepped) later
    rw [List.append_assoc] at onward
    exact onward

/-- The reader ends behind a value exactly on the tokens of a document, and with its value. -/
theorem run_eq_some {tokens : List (Token Key Leaf)} {value : Value} :
    run builder start tokens = some ⟨.after value, []⟩ ↔
      ∃ doc : Doc Key Leaf, doc.tokens = tokens ∧ doc.value builder = value := by
  constructor
  · intro ran
    have reads := reads_run (.value .nil) ran
    rw [List.nil_append] at reads
    generalize ended : (⟨.after value, []⟩ : State Key Value Fields) = t at reads
    cases reads with
    | after doc opened =>
      cases ended
      cases opened
      exact ⟨doc, rfl, rfl⟩
    | _ => cases ended
  · rintro ⟨doc, rfl, rfl⟩
    exact run_tokens doc []

end

end ModbusDatabase.Library.Records
