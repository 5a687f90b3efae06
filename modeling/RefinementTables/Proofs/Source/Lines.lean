import RefinementTables.Proofs.Delimited.Lines
import RefinementTables.Proofs.Source.Calls

/-!
The row numbers of a table.

A row, and the fault of a record with a wrong number of fields, carry the number of a row.
Where no line is empty, it is that of the line on which the record's first byte stands.

* `AnswerOf.row?_eq` — the number is the line of the record that was met.
* `row_numbers` — whatever was passed over and went wrong before, it is one more than the
  line feeds in front of the record, and the numbers grow from call to call.
-/

namespace RefinementTables.Source

open Delimited

/-- The row number in an answer. -/
def Answer.row? : Answer → Option Nat
  | .item (some (.ok row)) => row.origin.map Location.row
  | .item (some (.error (.malformedRow _ row _ _))) => some row
  | _ => none

variable {t : FileTree} {path : String} {place : Place} {bytes : Bytes} {d : UInt8}
  {columns : List String} {records : List Extent} {index : Nat} {call : Call}
  {record : Option Extent} {given : Answer}

/-- The row number in an answer is the line of the record that was met. -/
theorem AnswerOf.row?_eq (answered : AnswerOf d path columns index call record given) {n : Nat}
    (numbered : given.row? = some n) : ∃ e, record = some e ∧ n = e.line := by
  cases answered with
  | passedEnd | nextEnd | header | garbledHeader => cases numbered
  | @item e _ item =>
    cases item with
    | garbled => cases numbered
    | malformed reads differs => exact ⟨e, rfl, (Option.some.inj numbered).symm⟩
    | row reads fills origin =>
      rw [Answer.row?, origin] at numbered
      exact ⟨e, rfl, (Option.some.inj numbered).symm⟩

/-- A row has a number. -/
theorem AnswerOf.isSome_row? (answered : AnswerOf d path columns index call record given)
    (is_row : given.isRow) : given.row?.isSome := by
  cases answered with
  | passedEnd | nextEnd | header | garbledHeader => cases is_row
  | item item =>
    cases item with
    | garbled | malformed => cases is_row
    | row reads fills origin =>
      rw [Answer.row?, origin]
      rfl

/-- The answer in a place is that of the record in this place. -/
theorem answerOf_of_getElem? (falls : FallsInto d bytes records) {calls : List Call} {k : Nat}
    (there : ((Source.mk path columns (entries d bytes) 0).answers calls).1[k]? = some given) :
    ∃ call, AnswerOf d path columns k call records[k]? given := by
  obtain ⟨length, -, -⟩ := answers_eq ⟨path, columns, entries d bytes, 0⟩ calls
  have below : k < calls.length := by
    rw [← length]
    exact (List.getElem?_eq_some_iff.mp there).1
  have met : calls[k]? = some calls[k] := List.getElem?_eq_getElem below
  exact ⟨calls[k], (answers_of_fallsInto falls path columns met given).mp there⟩

/-- In a file without carriage returns and empty lines the number in an answer is that of
the line on which the record begins, and so the numbers grow from call to call. -/
theorem row_numbers (found : t.find path = .ok (place, .file bytes))
    (no_return : carriageReturn ∉ bytes) (no_empty : NoEmptyLine d (unmarked bytes))
    (columns : List String) :
    (∃! records, FallsInto d bytes records) ∧
      ∀ records, FallsInto d bytes records →
        ∃ source, ofTree t path d columns = .ok source ∧ ∀ calls,
          (∀ given ∈ (source.answers calls).1, given.isRow → given.row?.isSome) ∧
          (∀ (k : Nat) (given : Answer) (n : Nat), (source.answers calls).1[k]? = some given →
            given.row? = some n → ∃ e after, records[k]? = some e ∧
              bytes = e.before ++ e.text ++ after ∧ n = 1 + e.before.count lineFeed) ∧
          ∀ (i j : Nat) (first later : Answer) (m n : Nat), i < j →
            (source.answers calls).1[i]? = some first → first.row? = some m →
            (source.answers calls).1[j]? = some later → later.row? = some n → m < n := by
  refine ⟨existsUnique_fallsInto d bytes, ?_⟩
  intro records falls
  refine ⟨_, ofTree_file found, ?_⟩
  intro calls
  -- The line in an answer is that of the record with the number of the call.
  have line {k n : Nat} {given : Answer}
      (there : ((Source.mk path columns (entries d bytes) 0).answers calls).1[k]? = some given)
      (numbered : given.row? = some n) : ∃ e, records[k]? = some e ∧ n = e.line := by
    obtain ⟨call, answered⟩ := answerOf_of_getElem? falls there
    exact answered.row?_eq numbered
  refine ⟨?_, ?_, ?_⟩
  · intro given mem is_row
    obtain ⟨k, there⟩ := List.mem_iff_getElem?.mp mem
    obtain ⟨call, answered⟩ := answerOf_of_getElem? falls there
    exact answered.isSome_row? is_row
  · intro k given n there numbered
    obtain ⟨e, met, rfl⟩ := line there numbered
    have mem := List.mem_of_getElem? met
    obtain ⟨after, stands⟩ := eq_append_of_fallsInto falls mem
    exact ⟨e, after, met, stands, line_eq_of_fallsInto falls no_return no_empty mem⟩
  · intro i j first later m n before first_there first_numbered later_there later_numbered
    obtain ⟨e, e_met, rfl⟩ := line first_there first_numbered
    obtain ⟨f, f_met, rfl⟩ := line later_there later_numbered
    obtain ⟨i_lt, rfl⟩ := List.getElem?_eq_some_iff.mp e_met
    obtain ⟨j_lt, rfl⟩ := List.getElem?_eq_some_iff.mp f_met
    exact List.pairwise_iff_getElem.mp (pairwise_line_of_fallsInto falls no_return)
      i j i_lt j_lt before

/-- The numbers in any answers about a file with a field over two lines. -/
theorem row_numbers_mixedTree :
    mixedTree.find "t.csv" = .ok (["t.csv"], .file mixedFile) ∧
    carriageReturn ∉ mixedFile ∧ NoEmptyLine 59 (unmarked mixedFile) ∧
    (∃! records, FallsInto 59 mixedFile records) ∧
      ∀ records, FallsInto 59 mixedFile records →
        ∃ source, ofTree mixedTree "t.csv" 59 ["q", "q"] = .ok source ∧ ∀ calls,
          (∀ given ∈ (source.answers calls).1, given.isRow → given.row?.isSome) ∧
          (∀ (k : Nat) (given : Answer) (n : Nat), (source.answers calls).1[k]? = some given →
            given.row? = some n → ∃ e after, records[k]? = some e ∧
              mixedFile = e.before ++ e.text ++ after ∧ n = 1 + e.before.count lineFeed) ∧
          ∀ (i j : Nat) (first later : Answer) (m n : Nat), i < j →
            (source.answers calls).1[i]? = some first → first.row? = some m →
            (source.answers calls).1[j]? = some later → later.row? = some n → m < n := by
  have found : mixedTree.find "t.csv" = .ok (["t.csv"], .file mixedFile) := by rfl
  have no_return : carriageReturn ∉ mixedFile := by decide +kernel
  have no_empty : NoEmptyLine 59 (unmarked mixedFile) := by decide +kernel
  exact ⟨found, no_return, no_empty, row_numbers found no_return no_empty ["q", "q"]⟩

end RefinementTables.Source
