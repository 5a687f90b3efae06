import RefinementTables.Delimited.Field
import RefinementTables.Proofs.Checked

/-!
The texts of records.

* `fieldTexts_eq_ok_iff` — a record has texts exactly when each of its fields is
  text, and these are the fields' texts without the white space at their ends.
* `fieldTexts_eq_error_iff` — otherwise its first field that is not text is named.
* `entry_eq_ok_iff`, `map_entry_eq_ok_iff` — so has a piece, and a list of pieces.
-/

namespace RefinementTables.Delimited

/-- The text of a field, if it is text, without the white space at its ends. -/
def fieldText? (field : Bytes) : Option String :=
  (Text.ofBytes? field).map Text.trim

theorem fieldTexts_eq_ok_iff {fields : List Bytes} {texts : List String} :
    fieldTexts fields = .ok texts ↔ fields.map fieldText? = texts.map some := by
  induction fields generalizing texts with
  | nil => cases texts <;> simp [fieldTexts]
  | cons field fields ih =>
    cases texts with
    | nil =>
      simp only [fieldTexts, List.map_cons, List.map_nil, reduceCtorEq, iff_false]
      intro h
      split at h
      · cases h
      · split at h <;> cases h
    | cons text texts =>
      rw [List.map_cons, List.map_cons, List.cons.injEq, ← ih, fieldTexts, fieldText?]
      cases Text.ofBytes? field with
      | none => simp
      | some raw => cases fieldTexts fields <;> simp

/-- The first field of a record that is not text, behind those in front of it. -/
structure FirstUnreadable (fields before : List Bytes) (field : Bytes) : Prop where
  place : ∃ after, fields = before ++ field :: after
  readable : ∀ f ∈ before, (Text.ofBytes? f).isSome
  unreadable : Text.ofBytes? field = none

theorem fieldTexts_firstUnreadable {fields before : List Bytes} {field : Bytes}
    (first : FirstUnreadable fields before field) :
    fieldTexts fields =
      .error (before.length, Text.validPrefix (Text.trimWhile isAsciiBlank field)) := by
  obtain ⟨⟨after, rfl⟩, readable, unreadable⟩ := first
  induction before with
  | nil => rw [List.nil_append, fieldTexts, unreadable, List.length_nil]
  | cons f before ih =>
    obtain ⟨first, readable⟩ := List.forall_mem_cons.mp readable
    obtain ⟨text, text_eq⟩ := Option.isSome_iff_exists.mp first
    rw [List.cons_append, fieldTexts, text_eq, ih readable, List.length_cons]

/-- A record without texts has a first field that is not text. -/
theorem exists_firstUnreadable {fields : List Bytes} {fault : Nat × Nat}
    (failed : fieldTexts fields = .error fault) :
    ∃ before field, FirstUnreadable fields before field := by
  induction fields generalizing fault with
  | nil => cases failed
  | cons field fields ih =>
    rw [fieldTexts] at failed
    cases first : Text.ofBytes? field with
    | none => exact ⟨[], field, ⟨fields, rfl⟩, nofun, first⟩
    | some text =>
      rw [first] at failed
      cases rest : fieldTexts fields with
      | ok texts =>
        rw [rest] at failed
        cases failed
      | error later =>
        obtain ⟨before, bad, ⟨after, rfl⟩, readable, unreadable⟩ := ih rest
        have readable_first : (Text.ofBytes? field).isSome := by
          rw [first]
          rfl
        exact ⟨field :: before, bad, ⟨after, rfl⟩,
          List.forall_mem_cons.mpr ⟨readable_first, readable⟩, unreadable⟩

/-- A record without texts is at fault for its first field that is not text. -/
theorem fieldTexts_eq_error_iff {fields : List Bytes} {index validUpTo : Nat} :
    fieldTexts fields = .error (index, validUpTo) ↔
      ∃ before field, FirstUnreadable fields before field ∧ index = before.length ∧
        validUpTo = Text.validPrefix (Text.trimWhile isAsciiBlank field) := by
  constructor
  · intro failed
    obtain ⟨before, field, first⟩ := exists_firstUnreadable failed
    rw [fieldTexts_firstUnreadable first] at failed
    cases failed
    exact ⟨before, field, first, rfl, rfl⟩
  · rintro ⟨before, field, first, rfl, rfl⟩
    exact fieldTexts_firstUnreadable first

/-- The blank in front of a bad byte is not counted, in the first record of a file as
in the next. -/
example : entries 44 [0x20, 0xFF, 44, 50, lineFeed, 50, 44, 0x20, 0xFF, lineFeed] =
    [.error (.notText 0 1 0 0 0), .error (.notText 1 2 1 5 0)] := by
  decide +kernel

variable {index : Nat} {p : Piece} {e : Entry}

theorem entry_eq_ok_iff :
    p.entry index = .ok e ↔
      p.fields.map fieldText? = e.fields.map some ∧ e.line = p.start.line := by
  rw [← fieldTexts_eq_ok_iff, Piece.entry]
  obtain ⟨fields, line⟩ := e
  cases fieldTexts p.fields <;> simp [eq_comm]

theorem map_entry_eq_ok_iff {found : List Piece} {read : List Entry} :
    (found.zipIdx index).map (fun (p, i) => p.entry i) = read.map .ok ↔
      List.Forall₂ (fun p e => p.fields.map fieldText? = e.fields.map some ∧ e.line = p.start.line)
        found read := by
  induction found generalizing index read with
  | nil => cases read <;> simp
  | cons p found ih =>
    cases read with
    | nil => simp
    | cons e read =>
      rw [List.zipIdx_cons, List.map_cons, List.map_cons, List.cons.injEq, ih, List.forall₂_cons,
        entry_eq_ok_iff]

end RefinementTables.Delimited
