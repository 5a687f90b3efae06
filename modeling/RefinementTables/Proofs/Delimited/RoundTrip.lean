import RefinementTables.Delimited.Encode
import RefinementTables.Proofs.Delimited.Field
import RefinementTables.Proofs.Text

/-!
Reading what was written.

The scanner is followed along the bytes of the encoder, with any bytes behind
them: a field leads it from one state to another, and a record gives one piece.

* `run_encodeRecord` — a record that was written is read as its fields.
* `readsAs_encoded` — so a file of written records is read as these records, with
  their texts trimmed, unless its first text begins with a byte order mark.
* `getLast?_encodeRecord` — every record is written with a line feed at its end.
-/

namespace RefinementTables.Delimited

variable {d : UInt8}

/-- A delimiter that does not stand for a quote or a break. -/
structure Separates (d : UInt8) : Prop where
  notQuote : d ≠ quote
  notBreak : isBreak d = false

theorem separates_iff : Separates d ↔ d ≠ quote ∧ d ≠ lineFeed ∧ d ≠ carriageReturn := by
  have broken : isBreak d = false ↔ d ≠ lineFeed ∧ d ≠ carriageReturn := by
    simp [isBreak]
  rw [← broken]
  exact ⟨fun h => ⟨h.notQuote, h.notBreak⟩, fun h => ⟨h.1, h.2⟩⟩

/-- The place after some bytes. -/
def Cursor.past (c : Cursor) (bytes : Bytes) : Cursor :=
  bytes.foldl Cursor.after c

theorem Cursor.past_append (c : Cursor) (xs ys : Bytes) :
    c.past (xs ++ ys) = (c.past xs).past ys :=
  List.foldl_append

/-! ### Moves -/

/-- Whether a field may begin in a mode. -/
def Mode.opens (m : Mode) : Bool := m = .recordStart || m = .fieldStart

namespace Mode

variable {m : Mode} {b : UInt8}

theorem move_plain (unquoted : m ≠ .quoted) (plain : needsQuotes d b = false) :
    m.move d b = (.bare, .keep) := by
  simp only [needsQuotes, Bool.or_eq_false_iff, beq_eq_false_iff_ne] at plain
  obtain ⟨⟨notDelimiter, notQuote⟩, notBreak⟩ := plain
  cases m <;> simp_all [move, outside]

theorem move_delimiter (separates : Separates d) (unquoted : m ≠ .quoted) :
    m.move d d = (.fieldStart, .endField) := by
  obtain ⟨notQuote, notBreak⟩ := separates
  cases m <;> simp_all [move, outside]

theorem move_lineFeed (separates : Separates d) (unquoted : m ≠ .quoted)
    (inside : m ≠ .recordStart) : m.move d lineFeed = (.recordStart, .endRecord) := by
  have notDelimiter : lineFeed ≠ d := by
    rintro rfl
    exact absurd separates.notBreak (by decide)
  cases m <;> simp_all [move, outside, isBreak, lineFeed, quote]

theorem move_quote (opens : m.opens = true) : m.move d quote = (.quoted, .drop) := by
  cases m <;> simp_all [Mode.opens, move, isBreak, lineFeed, carriageReturn, quote]

end Mode

namespace State

variable {s s' s'' : State} {b : UInt8} {mode : Mode} {f : Bytes}

/-- The scanner further on in the same field: some bytes have been passed, and
some kept. -/
def within (s : State) (mode : Mode) (passed kept : Bytes) : State :=
  { s with mode, here := s.here.past passed, field := kept.reverse ++ s.field }

@[simp] theorem mode_within (s : State) (mode : Mode) (passed kept : Bytes) :
    (s.within mode passed kept).mode = mode := rfl

@[simp] theorem within_within (s : State) (mode mode' : Mode) (passed passed' kept kept' : Bytes) :
    (s.within mode passed kept).within mode' passed' kept' =
      s.within mode' (passed ++ passed') (kept ++ kept') := by
  simp [within, Cursor.past_append]

/-- Some bytes lead from one state to another, and no record ends on the way. -/
def Leads (d : UInt8) (s : State) (bytes : Bytes) (s' : State) : Prop :=
  ∀ rest, s.run d (bytes ++ rest) = s'.run d rest

theorem Leads.append {xs ys : Bytes} (first : Leads d s xs s') (second : Leads d s' ys s'') :
    Leads d s (xs ++ ys) s'' := by
  intro rest
  rw [List.append_assoc, first, second]

theorem Leads.cons {bs : Bytes} (first : Leads d s [b] s') (second : Leads d s' bs s'') :
    Leads d s (b :: bs) s'' :=
  first.append second

/-! ### One byte -/

theorem leads_drop (move : s.mode.move d b = (mode, .drop)) :
    Leads d s [b] (s.within mode [b] []) := by
  intro rest
  rw [List.singleton_append, run, step, move]
  rfl

theorem leads_keep (move : s.mode.move d b = (mode, .keep)) :
    Leads d s [b] (s.within mode [b] [b]) := by
  intro rest
  rw [List.singleton_append, run, step, move]
  rfl

theorem run_endRecord (move : s.mode.move d b = (mode, .endRecord)) (rest : Bytes) :
    s.run d (b :: rest) = s.piece :: (between (s.here.after b)).run d rest := by
  rw [run, step, move]

/-! ### One field -/

/-- A field that needs no quotes is kept as it is. -/
theorem leads_plain (unquoted : s.mode ≠ .quoted) (plain : ∀ b ∈ f, needsQuotes d b = false) :
    Leads d s f (s.within (if f = [] then s.mode else .bare) f f) := by
  induction f generalizing s with
  | nil => exact fun _ => rfl
  | cons b f ih =>
    obtain ⟨plain_b, plain_f⟩ := List.forall_mem_cons.mp plain
    have first := leads_keep (Mode.move_plain unquoted plain_b)
    have later := ih (s := s.within .bare [b] [b]) nofun plain_f
    rw [mode_within, within_within, ite_self] at later
    exact first.cons later

/-- In quotes, a field is kept with its doubled quotes single. -/
theorem leads_doubleQuotes (quoted : s.mode = .quoted) :
    Leads d s (doubleQuotes f) (s.within .quoted (doubleQuotes f) f) := by
  induction f generalizing s with
  | nil => exact fun _ => by rw [← quoted]; rfl
  | cons b f ih =>
    rw [doubleQuotes]
    split
    · next isQuote =>
      subst isQuote
      have closes : Leads d s [quote] (s.within .closed [quote] []) :=
        leads_drop (by rw [quoted]; rfl)
      have reopens : Leads d (s.within .closed [quote] []) [quote]
          ((s.within .closed [quote] []).within .quoted [quote] [quote]) := leads_keep rfl
      rw [within_within] at reopens
      have later := ih (s := s.within .quoted [quote, quote] [quote]) rfl
      rw [within_within] at later
      exact closes.cons (reopens.cons later)
    · next notQuote =>
      have first : Leads d s [b] (s.within .quoted [b] [b]) :=
        leads_keep (by rw [quoted]; simp [Mode.move, notQuote])
      have later := ih (s := s.within .quoted [b] [b]) rfl
      rw [within_within] at later
      exact first.cons later

/-- The mode after a field. An empty field without quotes leaves no trace. -/
def modeAfter (d : UInt8) (mode : Mode) (f : Bytes) : Mode :=
  if f.any (needsQuotes d) then .closed else if f = [] then mode else .bare

/-- A written field is kept as it was before. -/
theorem leads_encodeField (opens : s.mode.opens = true) (f : Bytes) :
    Leads d s (encodeField d f) (s.within (modeAfter d s.mode f) (encodeField d f) f) := by
  unfold encodeField modeAfter
  cases special : f.any (needsQuotes d) with
  | false =>
    refine leads_plain ?_ ?_
    · rintro quoted
      rw [quoted] at opens
      cases opens
    · simpa using special
  | true =>
    simp only [if_true]
    have opened : Leads d s [quote] (s.within .quoted [quote] []) :=
      leads_drop (Mode.move_quote opens)
    have inside : Leads d (s.within .quoted [quote] []) (doubleQuotes f)
        (s.within .quoted (quote :: doubleQuotes f) f) := by
      simpa using leads_doubleQuotes (s := s.within .quoted [quote] []) rfl
    have closed : Leads d (s.within .quoted (quote :: doubleQuotes f) f) [quote]
        (s.within .closed (quote :: doubleQuotes f ++ [quote]) f) := by
      have dropped : Leads d (s.within .quoted (quote :: doubleQuotes f) f) [quote]
          ((s.within .quoted (quote :: doubleQuotes f) f).within .closed [quote] []) :=
        leads_drop rfl
      simpa using dropped
    exact opened.cons (inside.append closed)

theorem modeAfter_ne_quoted (opens : mode.opens = true) (f : Bytes) :
    modeAfter d mode f ≠ .quoted := by
  unfold modeAfter
  rintro quoted
  split at quoted
  · cases quoted
  · split at quoted
    · rw [quoted] at opens
      cases opens
    · cases quoted

/-- Only an empty field leaves the scanner at the start of a record. -/
theorem encodeField_eq_nil_of_modeAfter (started : modeAfter d mode f = .recordStart) :
    mode = .recordStart ∧ encodeField d f = [] := by
  unfold modeAfter at started
  unfold encodeField
  split at started
  · cases started
  · next plain =>
    split at started
    · next empty =>
      subst empty
      exact ⟨started, rfl⟩
    · cases started

/-! ### One record -/

/-- The scanner at the start of the next field. -/
def nextField (s : State) (b : UInt8) : State :=
  { s with
    mode := .fieldStart
    here := s.here.after b
    field := []
    fields := s.field.reverse :: s.fields }

theorem leads_delimiter (separates : Separates d) (unquoted : s.mode ≠ .quoted) :
    Leads d s [d] (s.nextField d) := by
  intro rest
  rw [List.singleton_append, run, step, Mode.move_delimiter separates unquoted]
  rfl

/-- Fields with delimiters between them, and a line feed behind, are read as one
record. At the start of a record there has to be something before the line feed. -/
theorem run_joinFields (separates : Separates d) {fields : List Bytes} (nonempty : fields ≠ [])
    (opens : s.mode.opens = true) (clear : s.field = [])
    (filled : s.mode = .recordStart → joinFields d fields ≠ []) (rest : Bytes) :
    s.run d (joinFields d fields ++ lineFeed :: rest) =
      ⟨s.fields.reverse ++ fields, s.start⟩ ::
        (between (s.here.past (joinFields d fields ++ [lineFeed]))).run d rest := by
  induction fields generalizing s with
  | nil => exact absurd rfl nonempty
  | cons f fields ih =>
    have field := leads_encodeField (d := d) opens f
    have unquoted := modeAfter_ne_quoted (d := d) opens f
    cases fields with
    | nil =>
      -- At the start of a record a line feed would be passed over.
      have inside : modeAfter d s.mode f ≠ .recordStart := by
        intro started
        obtain ⟨start, empty⟩ := encodeField_eq_nil_of_modeAfter started
        exact filled start empty
      rw [joinFields, field, run_endRecord (Mode.move_lineFeed separates unquoted inside)]
      simp [piece, within, clear, Cursor.past]
    | cons g fields =>
      have both := field.append (leads_delimiter separates unquoted)
      have split : joinFields d (f :: g :: fields) =
          (encodeField d f ++ [d]) ++ joinFields d (g :: fields) := by simp [joinFields]
      rw [split, List.append_assoc, both, ih (by simp) rfl rfl (fun started => by cases started)]
      simp [nextField, within, clear, Cursor.past]

theorem eq_nil_of_encodeField (empty : encodeField d f = []) : f = [] := by
  unfold encodeField at empty
  split at empty
  · cases empty
  · exact empty

/-- Only a single empty field takes no bytes. -/
theorem eq_singleton_of_joinFields {fields : List Bytes} (nonempty : fields ≠ [])
    (empty : joinFields d fields = []) : fields = [[]] := by
  cases fields with
  | nil => exact absurd rfl nonempty
  | cons f fields =>
    cases fields with
    | nil => rw [eq_nil_of_encodeField empty]
    | cons g fields => simp [joinFields] at empty

/-- A written record is read as its fields. -/
theorem run_encodeRecord (separates : Separates d) {fields : List Bytes} (nonempty : fields ≠ [])
    (here : Cursor) (rest : Bytes) :
    (between here).run d (encodeRecord d fields ++ rest) =
      ⟨fields, here⟩ :: (between (here.past (encodeRecord d fields))).run d rest := by
  unfold encodeRecord
  cases line : joinFields d fields with
  | cons b bs =>
    have filled : joinFields d fields ≠ [] := by simp [line]
    have read :=
      run_joinFields (s := between here) separates nonempty rfl rfl (fun _ => filled) rest
    simpa [line, between] using read
  | nil =>
    -- The record is written as a quoted empty field.
    rw [eq_singleton_of_joinFields nonempty line]
    have opened : Leads d (between here) [quote] ((between here).within .quoted [quote] []) :=
      leads_drop (Mode.move_quote rfl)
    have closed : Leads d ((between here).within .quoted [quote] []) [quote]
        (((between here).within .quoted [quote] []).within .closed [quote] []) := leads_drop rfl
    rw [within_within] at closed
    have read := (opened.cons closed) (lineFeed :: rest)
    rw [run_endRecord (Mode.move_lineFeed separates (by simp) (by simp))] at read
    exact read

/-- Written records, one after the other, are read as their fields. -/
theorem fields_run_encoded (separates : Separates d) {records : List (List Bytes)}
    (nonempty : ∀ fields ∈ records, fields ≠ []) (here : Cursor) :
    ((between here).run d (records.flatMap (encodeRecord d))).map Piece.fields = records := by
  induction records generalizing here with
  | nil => rfl
  | cons fields records ih =>
    obtain ⟨first, later⟩ := List.forall_mem_cons.mp nonempty
    rw [List.flatMap_cons, run_encodeRecord separates first, List.map_cons, ih later]

end State

/-! ### Whole files -/

/-- The texts of a record, written. -/
def encodeTexts (d : UInt8) (texts : List String) : Bytes :=
  encodeRecord d (texts.map Text.toBytes)

/-- Texts are read with the white space at their ends taken off. -/
theorem fieldTexts_map_toBytes (texts : List String) :
    fieldTexts (texts.map Text.toBytes) = .ok (texts.map Text.trim) := by
  rw [fieldTexts_eq_ok_iff, List.map_map, List.map_map]
  refine List.map_congr_left fun text _ => ?_
  rw [Function.comp_apply, fieldText?, Text.ofBytes?_toBytes]
  rfl

/-- Pieces whose fields are texts give entries with these texts, trimmed. -/
theorem entries_of_pieces {found : List Piece} {records : List (List String)}
    (fields : found.map Piece.fields = records.map (·.map Text.toBytes)) (index : Nat) :
    ∃ read : List Entry, (found.zipIdx index).map (fun (p, i) => p.entry i) = read.map .ok ∧
      read.map Entry.fields = records.map (·.map Text.trim) := by
  induction records generalizing found index with
  | nil =>
    rw [List.map_eq_nil_iff.mp fields]
    exact ⟨[], rfl, rfl⟩
  | cons texts records ih =>
    cases found with
    | nil => cases fields
    | cons p found =>
      obtain ⟨first, later⟩ := List.cons.inj fields
      obtain ⟨read, entries, texts_read⟩ := ih later (index + 1)
      have entry : p.entry index = .ok ⟨texts.map Text.trim, p.start.line⟩ := by
        rw [Piece.entry, first, fieldTexts_map_toBytes]
      refine ⟨⟨texts.map Text.trim, p.start.line⟩ :: read, ?_, ?_⟩
      · rw [List.zipIdx_cons, List.map_cons, entries, List.map_cons]
        exact congrArg (· :: read.map .ok) entry
      · rw [List.map_cons, List.map_cons, texts_read]

/-- A reader finds these records in the bytes and nothing else, with the white space
at the ends of their texts taken off. -/
def ReadsAs (d : UInt8) (bytes : Bytes) (records : List (List String)) : Prop :=
  ∃ read : List Entry, entries d bytes = read.map .ok ∧
    read.map Entry.fields = records.map (·.map Text.trim)

theorem readsAs_of_unmarked (separates : Separates d) {records : List (List String)}
    (nonempty : ∀ texts ∈ records, texts ≠ [])
    (unmarked : byteOrderMark.isPrefixOf (records.flatMap (encodeTexts d)) = false) :
    ReadsAs d (records.flatMap (encodeTexts d)) records := by
  refine entries_of_pieces ?_ 0
  have encoded : records.flatMap (encodeTexts d) =
      (records.map (·.map Text.toBytes)).flatMap (encodeRecord d) := by
    rw [List.flatMap_map]
    rfl
  rw [pieces, unmarked, encoded]
  refine State.fields_run_encoded separates ?_ .start
  simpa using nonempty

/-! ### The byte order mark -/

/-- A written record begins with its first field as it is, or with a quote or a
delimiter. -/
theorem encodeRecord_begins (d : UInt8) (f : Bytes) (fields : List Bytes) :
    (f ≠ [] ∧ ∃ tail, encodeRecord d (f :: fields) = f ++ tail) ∨
      ∃ b tail, (b = quote ∨ b = d) ∧ encodeRecord d (f :: fields) = b :: tail := by
  have joined : ∃ tail, joinFields d (f :: fields) = encodeField d f ++ tail ∧
      (tail = [] ∨ ∃ more, tail = d :: more) := by
    cases fields with
    | nil => exact ⟨[], by simp [joinFields], .inl rfl⟩
    | cons g fields => exact ⟨d :: joinFields d (g :: fields), by simp [joinFields], .inr ⟨_, rfl⟩⟩
  obtain ⟨tail, joined, tail_begins⟩ := joined
  rw [encodeRecord, joined, encodeField]
  split
  · exact .inr ⟨quote, _, .inl rfl, rfl⟩
  · next plain =>
    cases f with
    | cons b f => exact .inl ⟨by simp, by simp⟩
    | nil =>
      rcases tail_begins with rfl | ⟨more, rfl⟩
      · exact .inr ⟨quote, _, .inl rfl, rfl⟩
      · exact .inr ⟨d, _, .inr rfl, rfl⟩

/-- Only a first text that begins with a byte order mark gives a file that does. -/
theorem unmarked_encodeTexts (ascii : d < 128) {text : String} {texts : List String}
    (first : text.toList.head? ≠ some '\uFEFF') (rest : Bytes) :
    byteOrderMark.isPrefixOf (encodeTexts d (text :: texts) ++ rest) = false := by
  refine Bool.eq_false_iff.mpr ?_
  intro marked
  rw [List.isPrefixOf_iff_prefix] at marked
  obtain ⟨after, marked⟩ := marked
  rw [encodeTexts, List.map_cons] at marked
  rcases encodeRecord_begins d (Text.toBytes text) (texts.map Text.toBytes) with
    ⟨nonempty, tail, begins⟩ | ⟨b, tail, special, begins⟩
  · rw [begins] at marked
    cases chars : text.toList with
    | nil => exact nonempty (by rw [Text.toBytes_eq_flatMap, chars, List.flatMap_nil])
    | cons c cs =>
      rw [Text.toBytes_eq_flatMap, chars, List.flatMap_cons, List.append_assoc,
        List.append_assoc] at marked
      have same : '\uFEFF' = c := Text.eq_of_utf8EncodeChar_append marked
      exact first (by rw [chars, same, List.head?_cons])
  · rw [begins] at marked
    obtain ⟨same, _⟩ := List.cons.inj marked
    rcases special with rfl | rfl
    · exact absurd same (by decide)
    · rw [← same] at ascii
      exact absurd ascii (by decide)

/-- A file of written records is read as these records, unless its first text begins
with a byte order mark. -/
theorem readsAs_encoded (ascii : d < 128) (separates : Separates d) {text : String}
    {texts : List String} (unmarked : text.toList.head? ≠ some '\uFEFF')
    {records : List (List String)} (nonempty : ∀ texts ∈ records, texts ≠ []) :
    ReadsAs d (((text :: texts) :: records).flatMap (encodeTexts d))
      ((text :: texts) :: records) := by
  refine readsAs_of_unmarked separates ?_ ?_
  · exact List.forall_mem_cons.mpr ⟨List.cons_ne_nil _ _, nonempty⟩
  · rw [List.flatMap_cons]
    exact unmarked_encodeTexts ascii unmarked _

/-! ### Ends of lines -/

/-- A record is written with a line feed at its end. -/
theorem getLast?_encodeRecord (d : UInt8) (fields : List Bytes) :
    (encodeRecord d fields).getLast? = some lineFeed := by
  rw [encodeRecord, List.getLast?_concat]

end RefinementTables.Delimited
