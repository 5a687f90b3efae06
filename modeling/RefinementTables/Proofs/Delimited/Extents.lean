import RefinementTables.Proofs.Delimited.RoundTrip

/-!
Where the records of a file stand.

A record begins with the first byte that is no break, and goes on until a break outside of
quotes. `FallsInto` says so of a whole file, without reading any fields: its records are
stretches of bytes with nothing but breaks between them.

* `existsUnique_fallsInto` — every file falls into records, and in one way.
* `through_placed` — what a record holds does not depend on where it stands.
* `pieces_of_fallsInto` — the records that are read are the stretches, in order, each with
  the fields that it has when it is read on its own, and with the end of the one before it
  as its start.
-/

namespace RefinementTables.Delimited

variable {d : UInt8}

/-- A place is a count of line feeds and of bytes. -/
theorem Cursor.past_eq (c : Cursor) (bytes : Bytes) :
    c.past bytes = ⟨c.line + bytes.count lineFeed, c.offset + bytes.length⟩ := by
  induction bytes generalizing c with
  | nil => rfl
  | cons b bytes ih =>
    have first : c.past (b :: bytes) = (c.after b).past bytes := rfl
    rw [first, ih, List.count_cons, List.length_cons, Cursor.mk.injEq]
    simp only [Cursor.after, beq_iff_eq]
    split <;> omega

/-! ### Stretches of a file -/

/-- The mode after some bytes. -/
def Mode.through (d : UInt8) (m : Mode) (bytes : Bytes) : Mode :=
  bytes.foldl (fun m b => (m.move d b).1) m

/-- Bytes of which none ends a record. -/
def Unbroken (d : UInt8) : Mode → Bytes → Prop
  | _, [] => True
  | m, b :: bytes => (m.move d b).2 ≠ .endRecord ∧ Unbroken d (m.move d b).1 bytes

/-- The bytes of a record, without the break that ends it. -/
structure IsRecord (d : UInt8) (text : Bytes) : Prop where
  begins : ∃ b bytes, text = b :: bytes ∧ isBreak b = false
  unbroken : Unbroken d .recordStart text

/-- Where a record stands in a file: what has been passed up to the end of the record
before it, what is skipped from there, and its own bytes. -/
structure Extent where
  passed : Bytes
  gap : Bytes
  text : Bytes
deriving DecidableEq, Repr

/-- What stands in front of a record. -/
def Extent.before (e : Extent) : Bytes := e.passed ++ e.gap

/-- The rest of a file falls into records. Some bytes have been passed up to the end of
the last record, and some more skipped. -/
inductive RestFallsInto (d : UInt8) : Bytes → Bytes → Bytes → List Extent → Prop
  /-- No record is left. -/
  | done {passed skipped gap : Bytes} (blank : ∀ b ∈ gap, isBreak b = true) :
      RestFallsInto d passed skipped gap []
  /-- The last record is ended by the file. -/
  | last {passed skipped gap text : Bytes} (blank : ∀ b ∈ gap, isBreak b = true)
      (record : IsRecord d text) :
      RestFallsInto d passed skipped (gap ++ text) [⟨passed, skipped ++ gap, text⟩]
  /-- A record is ended by a byte, and more follows. -/
  | more {passed skipped gap text rest : Bytes} {b : UInt8} {later : List Extent}
      (blank : ∀ b ∈ gap, isBreak b = true) (record : IsRecord d text)
      (ends : ((Mode.through d .recordStart text).move d b).2 = .endRecord)
      (falls : RestFallsInto d (passed ++ (skipped ++ gap) ++ text ++ [b]) [] rest later) :
      RestFallsInto d passed skipped (gap ++ (text ++ b :: rest))
        (⟨passed, skipped ++ gap, text⟩ :: later)

/-- The byte order mark at the start of a file, if it has one. -/
def mark (bytes : Bytes) : Bytes :=
  if byteOrderMark.isPrefixOf bytes then byteOrderMark else []

/-- A file without its byte order mark. -/
def unmarked (bytes : Bytes) : Bytes := bytes.drop (mark bytes).length

/-- A file falls into records. A byte order mark at its start is skipped. -/
def FallsInto (d : UInt8) (bytes : Bytes) (records : List Extent) : Prop :=
  RestFallsInto d [] (mark bytes) (unmarked bytes) records

theorem mark_append_unmarked (bytes : Bytes) : mark bytes ++ unmarked bytes = bytes := by
  unfold unmarked mark
  split
  · next marked =>
    obtain ⟨rest, rfl⟩ := List.isPrefixOf_iff_prefix.mp marked
    rw [List.drop_left]
  · rfl

/-! ### Moves -/

/-- Only a break ends a record, and the scanner is then at the start of one. -/
theorem Mode.isBreak_of_endRecord {m : Mode} {b : UInt8}
    (ends : (m.move d b).2 = .endRecord) :
    isBreak b = true ∧ (m.move d b).1 = .recordStart := by
  cases m <;> simp only [move, outside] at ends ⊢ <;> split_ifs at ends ⊢ <;> simp_all

/-- At the start of a record a break is skipped. -/
theorem Mode.move_recordStart_break {b : UInt8} (broken : isBreak b = true) :
    Mode.recordStart.move d b = (.recordStart, .drop) := by
  rw [move, if_pos broken]

/-- The scanner is back at the start of a record only where one has ended. -/
theorem Mode.move_ne_recordStart {m : Mode} {b : UInt8}
    (unended : (m.move d b).2 ≠ .endRecord) (inside : m ≠ .recordStart ∨ isBreak b = false) :
    (m.move d b).1 ≠ .recordStart := by
  cases m <;> simp only [move, outside] at unended ⊢ <;> split_ifs at unended ⊢ <;> simp_all

theorem Mode.through_append (m : Mode) (xs ys : Bytes) :
    m.through d (xs ++ ys) = (m.through d xs).through d ys :=
  List.foldl_append

theorem Unbroken.of_append {m : Mode} {xs ys : Bytes} (unbroken : Unbroken d m (xs ++ ys)) :
    Unbroken d (m.through d xs) ys := by
  induction xs generalizing m with
  | nil => exact unbroken
  | cons b xs ih => exact ih unbroken.2

theorem Unbroken.through_ne_recordStart {m : Mode} {bytes : Bytes} (unbroken : Unbroken d m bytes)
    (inside : m ≠ .recordStart) : m.through d bytes ≠ .recordStart := by
  induction bytes generalizing m with
  | nil => exact inside
  | cons b bytes ih =>
    obtain ⟨unended, unbroken⟩ := unbroken
    exact ih unbroken (Mode.move_ne_recordStart unended (.inl inside))

/-- Within a record the scanner does not come back to its start. -/
theorem IsRecord.through_ne_recordStart {text : Bytes} (record : IsRecord d text) :
    Mode.through d .recordStart text ≠ .recordStart := by
  obtain ⟨⟨b, bytes, rfl, unbroken_b⟩, unended, unbroken⟩ := record
  exact unbroken.through_ne_recordStart (Mode.move_ne_recordStart unended (.inr unbroken_b))

/-! ### Every file falls into records -/

/-- Bytes up to the first that is no break. -/
theorem exists_gap (bytes : Bytes) :
    ∃ gap after, bytes = gap ++ after ∧ (∀ b ∈ gap, isBreak b = true) ∧
      ∀ b rest, after = b :: rest → isBreak b = false := by
  refine ⟨bytes.takeWhile isBreak, bytes.dropWhile isBreak,
    List.takeWhile_append_dropWhile.symm, List.all_eq_true.mp List.all_takeWhile, ?_⟩
  intro b rest starts
  have head := List.head?_dropWhile_not isBreak bytes
  rw [starts] at head
  exact head

/-- What follows ends the record: the first byte does, if one is left. -/
def Ends (d : UInt8) (m : Mode) (after : Bytes) : Prop :=
  ∀ b rest, after = b :: rest → (m.move d b).2 = .endRecord

/-- Bytes up to the first that ends the record. -/
theorem exists_unbroken (d : UInt8) (m : Mode) (bytes : Bytes) :
    ∃ text after, bytes = text ++ after ∧ Unbroken d m text ∧ Ends d (m.through d text) after := by
  induction bytes generalizing m with
  | nil => exact ⟨[], [], rfl, trivial, nofun⟩
  | cons b bytes ih =>
    by_cases ends : (m.move d b).2 = .endRecord
    · refine ⟨[], b :: bytes, rfl, trivial, ?_⟩
      rintro _ _ ⟨⟩
      exact ends
    · obtain ⟨text, after, rfl, unbroken, stops⟩ := ih (m.move d b).1
      exact ⟨b :: text, after, rfl, ⟨ends, unbroken⟩, stops⟩

theorem exists_restFallsInto (d : UInt8) (passed skipped rest : Bytes) :
    ∃ records, RestFallsInto d passed skipped rest records := by
  obtain ⟨gap, after, split, blank, starts⟩ := exists_gap rest
  cases after with
  | nil =>
    rw [List.append_nil] at split
    exact ⟨[], .done (split ▸ blank)⟩
  | cons b bytes =>
    have unbroken_b := starts b bytes rfl
    have unended : (Mode.recordStart.move d b).2 ≠ .endRecord := by
      intro ends
      rw [(Mode.isBreak_of_endRecord ends).1] at unbroken_b
      cases unbroken_b
    obtain ⟨text, after, rfl, unbroken, stops⟩ :=
      exists_unbroken d (Mode.recordStart.move d b).1 bytes
    have record : IsRecord d (b :: text) := ⟨⟨b, text, rfl, unbroken_b⟩, unended, unbroken⟩
    cases after with
    | nil =>
      rw [List.append_nil] at split
      rw [split]
      exact ⟨_, .last blank record⟩
    | cons stop after =>
      obtain ⟨later, falls⟩ := exists_restFallsInto d
        (passed ++ (skipped ++ gap) ++ (b :: text) ++ [stop]) [] after
      rw [split]
      exact ⟨_, .more blank record (stops stop after rfl) falls⟩
termination_by rest.length
decreasing_by simp [split]; omega

/-! ### In one way -/

/-- No record goes on behind its end. -/
theorem Ends.eq_nil {m : Mode} {text more after : Bytes}
    (ends : Ends d (m.through d text) (more ++ after)) (unbroken : Unbroken d m (text ++ more)) :
    more = [] := by
  cases more with
  | nil => rfl
  | cons b more => exact absurd (ends b (more ++ after) rfl) unbroken.of_append.1

/-- A record in front of a byte that ends it is the only one there. -/
theorem Ends.unique {m : Mode} {text text' after after' : Bytes}
    (ends : Ends d (m.through d text) after) (same : text ++ after = text' ++ after')
    (unbroken : Unbroken d m text) (unbroken' : Unbroken d m text')
    (ends' : Ends d (m.through d text') after') :
    text = text' ∧ after = after' := by
  rcases List.append_eq_append_iff.mp same with ⟨more, rfl, rfl⟩ | ⟨more, rfl, rfl⟩
  · obtain rfl := ends.eq_nil unbroken'
    rw [List.append_nil, List.nil_append]
    exact ⟨rfl, rfl⟩
  · obtain rfl := ends'.eq_nil unbroken
    rw [List.append_nil, List.nil_append]
    exact ⟨rfl, rfl⟩

/-- The breaks in front of a record are those in front of the first byte that is none. -/
theorem IsRecord.takeWhile_eq {gap text : Bytes} (record : IsRecord d text)
    (blank : ∀ b ∈ gap, isBreak b = true) (after : Bytes) :
    (gap ++ (text ++ after)).takeWhile isBreak = gap := by
  obtain ⟨b, bytes, rfl, starts⟩ := record.begins
  rw [List.takeWhile_append_of_pos blank, List.cons_append,
    List.takeWhile_cons_of_neg (by simp [starts]), List.append_nil]

/-- Records behind breaks stand behind the same breaks. -/
theorem IsRecord.gap_unique {gap gap' text text' after after' : Bytes}
    (same : gap ++ (text ++ after) = gap' ++ (text' ++ after'))
    (record : IsRecord d text) (blank : ∀ b ∈ gap, isBreak b = true)
    (record' : IsRecord d text') (blank' : ∀ b ∈ gap', isBreak b = true) :
    gap = gap' ∧ text ++ after = text' ++ after' := by
  have gaps : gap = gap' := by
    rw [← record.takeWhile_eq blank after, same, record'.takeWhile_eq blank']
  rw [gaps] at same
  exact ⟨gaps, List.append_cancel_left same⟩

/-- There is no record in nothing but breaks. -/
theorem IsRecord.not_blank {gap text : Bytes} (record : IsRecord d text) (after : Bytes) :
    ¬ ∀ b ∈ gap ++ (text ++ after), isBreak b = true := by
  obtain ⟨b, bytes, rfl, starts⟩ := record.begins
  intro blank
  have broken := blank b (by simp)
  rw [starts] at broken
  cases broken

/-- A file falls into records in one way: each begins at the first byte that is no break, and
goes on to the first that ends it. -/
theorem RestFallsInto.unique {passed skipped rest rest' : Bytes} {records records' : List Extent}
    (falls : RestFallsInto d passed skipped rest records)
    (falls' : RestFallsInto d passed skipped rest' records') (same : rest = rest') :
    records = records' := by
  induction falls generalizing rest' records' with
  | @done passed skipped gap blank =>
    rw [same] at blank
    cases falls' with
    | done => rfl
    | @last _ _ gap' text' _ record' =>
      rw [← List.append_nil text'] at blank
      exact absurd blank (record'.not_blank [])
    | more _ record' => exact absurd blank (record'.not_blank _)
  | @last passed skipped gap text blank record =>
    rw [← List.append_nil text] at same
    cases falls' with
    | done blank' => exact absurd (same ▸ blank') (record.not_blank _)
    | @last _ _ gap' text' blank' record' =>
      rw [← List.append_nil text'] at same
      obtain ⟨rfl, texts⟩ := IsRecord.gap_unique same record blank record' blank'
      rw [List.append_nil, List.append_nil] at texts
      rw [texts]
    | @more _ _ gap' text' rest' b later blank' record' ends' _ =>
      obtain ⟨rfl, texts⟩ := IsRecord.gap_unique same record blank record' blank'
      have none : Ends d (Mode.through d .recordStart text) [] := nofun
      obtain ⟨-, impossible⟩ := none.unique texts record.unbroken record'.unbroken
        (by rintro _ _ ⟨⟩; exact ends')
      cases impossible
  | @more passed skipped gap text rest b later blank record ends falls ih =>
    have stops : Ends d (Mode.through d .recordStart text) (b :: rest) := by
      rintro _ _ ⟨⟩
      exact ends
    cases falls' with
    | done blank' => exact absurd (same ▸ blank') (record.not_blank _)
    | @last _ _ gap' text' blank' record' =>
      rw [← List.append_nil text'] at same
      obtain ⟨rfl, texts⟩ := IsRecord.gap_unique same record blank record' blank'
      obtain ⟨-, impossible⟩ := stops.unique texts record.unbroken record'.unbroken nofun
      cases impossible
    | @more _ _ gap' text' rest' b' later' blank' record' ends' falls' =>
      obtain ⟨rfl, texts⟩ := IsRecord.gap_unique same record blank record' blank'
      obtain ⟨rfl, afters⟩ := stops.unique texts record.unbroken record'.unbroken
        (by rintro _ _ ⟨⟩; exact ends')
      obtain ⟨rfl, rfl⟩ := List.cons.inj afters
      rw [ih falls' rfl]

/-- Every file falls into records, and in one way. -/
theorem existsUnique_fallsInto (d : UInt8) (bytes : Bytes) :
    ∃! records, FallsInto d bytes records := by
  obtain ⟨records, falls⟩ := exists_restFallsInto d [] (mark bytes) (unmarked bytes)
  refine ⟨records, falls, ?_⟩
  intro others falls_others
  exact falls_others.unique falls rfl

/-! ### Reading a record -/

namespace State

variable {s : State}

/-- The scanner after some bytes. -/
def through (d : UInt8) (s : State) (bytes : Bytes) : State :=
  bytes.foldl (fun s b => (s.step d b).1) s

/-- What a byte does that ends no record: it gives none, and what becomes of the record at
hand does not depend on where it stands. -/
theorem step_unended {b : UInt8} (unended : (s.mode.move d b).2 ≠ .endRecord) :
    (s.step d b).2 = none ∧ (s.step d b).1.mode = (s.mode.move d b).1 ∧
      ∀ start here : Cursor, ({ s with start, here }.step d b).1 =
        { (s.step d b).1 with start, here := here.after b } := by
  simp only [step]
  rcases moved : s.mode.move d b with ⟨mode, action⟩
  cases action with
  | endRecord => exact absurd (congrArg Prod.snd moved) unended
  | drop | keep | endField => exact ⟨rfl, rfl, fun _ _ => rfl⟩

theorem leads_step {b : UInt8} (unended : (s.mode.move d b).2 ≠ .endRecord) :
    Leads d s [b] (s.step d b).1 := by
  intro rest
  obtain ⟨none, -⟩ := step_unended unended
  rw [List.singleton_append, run]
  rcases stepped : s.step d b with ⟨next, piece⟩
  rw [stepped] at none
  cases none
  rfl

/-- Bytes of which none ends the record lead the scanner on, to the mode after them. -/
theorem leads_through {bytes : Bytes} (unbroken : Unbroken d s.mode bytes) :
    Leads d s bytes (s.through d bytes) ∧ (s.through d bytes).mode = s.mode.through d bytes := by
  induction bytes generalizing s with
  | nil => exact ⟨fun _ => rfl, rfl⟩
  | cons b bytes ih =>
    obtain ⟨unended, unbroken⟩ := unbroken
    obtain ⟨-, mode, -⟩ := step_unended unended
    obtain ⟨leads, mode_after⟩ := ih (mode ▸ unbroken)
    rw [mode] at mode_after
    exact ⟨(leads_step unended).cons leads, mode_after⟩

/-- What becomes of the record at hand does not depend on where it stands. -/
theorem through_placed {bytes : Bytes} (unbroken : Unbroken d s.mode bytes) (start here : Cursor) :
    { s with start, here }.through d bytes =
      { s.through d bytes with start, here := here.past bytes } := by
  induction bytes generalizing s here with
  | nil => rfl
  | cons b bytes ih =>
    obtain ⟨unended, unbroken⟩ := unbroken
    obtain ⟨-, mode, placed⟩ := step_unended unended
    have later := ih (mode ▸ unbroken) (here.after b)
    rw [← placed] at later
    exact later

/-- The scanner between two records: some bytes have been passed up to the end of the last
one, and some more skipped. -/
def waiting (passed skipped : Bytes) : State :=
  { between (Cursor.start.past passed) with here := Cursor.start.past (passed ++ skipped) }

/-- Breaks between records are skipped. -/
theorem leads_gap {passed skipped gap : Bytes} (blank : ∀ b ∈ gap, isBreak b = true) :
    Leads d (waiting passed skipped) gap (waiting passed (skipped ++ gap)) := by
  induction gap generalizing skipped with
  | nil =>
    rw [List.append_nil]
    exact fun _ => rfl
  | cons b gap ih =>
    obtain ⟨broken, blank⟩ := List.forall_mem_cons.mp blank
    have skips : (waiting passed skipped).within .recordStart [b] [] =
        waiting passed (skipped ++ [b]) := by
      simp [waiting, within, between, Cursor.past_append]
    have first : Leads d (waiting passed skipped) [b] (waiting passed (skipped ++ [b])) :=
      skips ▸ leads_drop (Mode.move_recordStart_break broken)
    rw [List.append_cons]
    exact first.cons (ih blank)

end State

/-- The fields of a record, read on its own. -/
def fieldsOf (d : UInt8) (text : Bytes) : List Bytes :=
  ((State.between .start).through d text).piece.fields

namespace Extent

/-- The line on which the reading of a record begins. -/
def line (e : Extent) : Nat := 1 + e.passed.count lineFeed

/-- The record as it is read. -/
def piece (d : UInt8) (e : Extent) : Piece := ⟨fieldsOf d e.text, e.line, e.passed.length⟩

end Extent

/-- The bytes of a record lead the scanner to a state in which the record is at hand. -/
theorem State.leads_record {text : Bytes} (record : IsRecord d text) (passed skipped : Bytes) :
    ∃ s : State, Leads d (waiting passed skipped) text s ∧
      s.mode = Mode.through d .recordStart text ∧
      s.piece = (Extent.mk passed skipped text).piece d ∧
      s.here = Cursor.start.past (passed ++ skipped ++ text) := by
  obtain ⟨leads, mode⟩ := leads_through (s := waiting passed skipped) record.unbroken
  have placed : (waiting passed skipped).through d text = _ :=
    through_placed (s := between .start) record.unbroken (Cursor.start.past passed)
      (Cursor.start.past (passed ++ skipped))
  refine ⟨_, leads, mode, ?_, ?_⟩
  · rw [placed, Cursor.past_eq]
    simp [piece, Extent.piece, Extent.line, fieldsOf, Cursor.start]
  · simp only [placed, Cursor.past_append]

/-! ### Reading a file -/

/-- The records that are read are those into which a file falls. -/
theorem run_of_restFallsInto {passed skipped rest : Bytes} {records : List Extent}
    (falls : RestFallsInto d passed skipped rest records) :
    (State.waiting passed skipped).run d rest = records.map (Extent.piece d) := by
  induction falls with
  | @done passed skipped gap blank =>
    have skips : State.Leads d (State.waiting passed skipped) gap _ := State.leads_gap blank
    have ended := skips []
    rw [List.append_nil] at ended
    rw [ended]
    rfl
  | @last passed skipped gap text blank record =>
    obtain ⟨s, leads, mode, piece, -⟩ := State.leads_record record passed (skipped ++ gap)
    have ended := leads []
    rw [List.append_nil] at ended
    rw [State.leads_gap blank, ended, State.run, State.finish, mode,
      if_neg record.through_ne_recordStart, piece]
    rfl
  | @more passed skipped gap text rest b later blank record ends _ ih =>
    obtain ⟨s, leads, mode, piece, here⟩ := State.leads_record record passed (skipped ++ gap)
    have move : s.mode.move d b = ((s.mode.move d b).1, .endRecord) := by
      rw [mode, ← ends]
    have next : State.between (s.here.after b) =
        State.waiting (passed ++ (skipped ++ gap) ++ text ++ [b]) [] := by
      rw [here, State.waiting, List.append_nil, Cursor.past_append _ _ [b]]
      rfl
    rw [State.leads_gap blank, leads, State.run_endRecord move, piece, next, ih, List.map_cons]

/-- The records of a file are those into which it falls. -/
theorem pieces_of_fallsInto {bytes : Bytes} {records : List Extent}
    (falls : FallsInto d bytes records) : pieces d bytes = records.map (Extent.piece d) := by
  rw [← run_of_restFallsInto falls]
  unfold pieces unmarked mark
  split <;> rfl

end RefinementTables.Delimited
