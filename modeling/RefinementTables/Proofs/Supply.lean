import RefinementTables.Proofs.Layout
import RefinementTables.Proofs.Source

/-!
Columns that are asked of a row and are there.

A record that lacks a column is a fault of its own, which no schema lets through:
the rows of a source have all columns of its schema, or there is another fault in
their place.

* `Finds` — a computation that does not end because a record lacks a column, and
  what is known of its result. `Finds.bind` follows it along a chain.
* `Supplies`, `supplies_rows` — a stream whose rows have some columns, as those of
  a source have all of its schema.
* `findsAll_measure`, `findsAll_write` — so measuring and writing such rows ends
  for other reasons, if it ends.
-/

namespace RefinementTables

/-- Whether a fault is that a record lacks a column. -/
def Fault.isIncompleteRecord : Fault → Bool
  | incompleteRecord .. => true
  | _ => false

theorem Fault.isIncompleteRecord_eq_false_iff {f : Fault} :
    f.isIncompleteRecord = false ↔ f.kind ≠ "IncompleteRecordError" := by
  cases f <;> simp [isIncompleteRecord, kind]

/-- A computation whose result has a property, and that ends without one only for
other reasons than a record that lacks a column. -/
def Finds {α : Type} (P : α → Prop) : Except Fault α → Prop
  | .ok a => P a
  | .error fault => fault.isIncompleteRecord = false

/-- The same, with nothing known of the result. -/
abbrev FindsAll {α : Type} : Except Fault α → Prop :=
  Finds fun _ => True

namespace Finds

variable {α β : Type} {P : α → Prop} {Q : β → Prop} {x : Except Fault α}

theorem fault (finds : Finds P x) {fault : Fault} (ended : x = .error fault) :
    fault.isIncompleteRecord = false := by
  subst ended
  exact finds

theorem result (finds : Finds P x) {a : α} (ok : x = .ok a) : P a := by
  subst ok
  exact finds

/-- What is known of the result may follow from what it is the result of. -/
theorem of_ok (finds : FindsAll x) (known : ∀ a, x = .ok a → P a) : Finds P x := by
  cases x with
  | error fault => exact finds
  | ok a => exact known a rfl

theorem all (finds : Finds P x) : FindsAll x := by
  cases x with
  | error fault => exact finds
  | ok a => trivial

/-- A chain finds all columns if its first step does, and the rest does after it. -/
theorem bind {f : α → Except Fault β} (first : Finds P x) (rest : ∀ a, P a → Finds Q (f a)) :
    Finds Q (x >>= f) := by
  cases x with
  | error fault => exact first
  | ok a => exact rest a first

theorem map {f : α → β} (finds : Finds P x) (known : ∀ a, P a → Q (f a)) : Finds Q (x.map f) := by
  cases x with
  | error fault => exact finds
  | ok a => exact known a finds

theorem mapM {f : β → Except Fault α} {xs : List β} (each : ∀ x ∈ xs, Finds P (f x)) :
    Finds (fun ys => ∀ y ∈ ys, P y) (xs.mapM f) := by
  induction xs with
  | nil =>
    rw [List.mapM_nil]
    exact fun _ mem => absurd mem List.not_mem_nil
  | cons x xs ih =>
    obtain ⟨first, later⟩ := List.forall_mem_cons.mp each
    rw [List.mapM_cons]
    refine first.bind fun y known => (ih later).bind fun ys all => ?_
    exact List.forall_mem_cons.mpr ⟨known, all⟩

end Finds

/-! ### Rows -/

/-- An item of a stream that offers some columns: a row that has them, or a fault
that is another than their lack. -/
def Offers (names : List String) : Except Fault Row → Prop :=
  Finds fun row => names ⊆ row.columns

/-- A stream of such items. -/
def Supplies (names : List String) (stream : RowStream) : Prop :=
  ∀ item ∈ stream, Offers names item

theorem supplies_cons {names : List String} {item : Except Fault Row} {rest : RowStream} :
    Supplies names (item :: rest) ↔ Offers names item ∧ Supplies names rest :=
  List.forall_mem_cons

theorem Supplies.of_subset {names names' : List String} {stream : RowStream}
    (supplied : Supplies names stream) (fewer : names' ⊆ names) : Supplies names' stream := by
  intro item mem
  have offered := supplied item mem
  cases item with
  | error fault => exact offered
  | ok row => exact fun name asked => offered (fewer asked)

namespace Row

variable {r : Row} {column : String}

theorem findsAll_require (there : column ∈ r.columns) : FindsAll (r.require column) := by
  obtain ⟨cell, found⟩ := Option.isSome_iff_exists.mp (isSome_get?_iff.mpr there)
  rw [require_eq_ok_iff.mpr found]
  trivial

theorem findsAll_measure (there : column ∈ r.columns) : FindsAll (r.measure column) := by
  refine (findsAll_require there).bind ?_
  intro cell _
  split
  · split
    · trivial
    · rfl
  · rfl

end Row

/-! ### Reading and writing -/

/-- A source supplies the columns of its schema, whatever the file holds: a record
with another number of fields is a malformed row. -/
theorem Source.supplies_rows (source : Source) : Supplies source.columns source.rows := by
  intro item mem
  obtain ⟨record, -, rfl⟩ := List.mem_map.mp mem
  cases record with
  | error fault => rfl
  | ok entry =>
    have finds : FindsAll (rowOf source.path source.columns entry) := by
      unfold rowOf
      split
      · trivial
      · rfl
    exact finds.of_ok fun row read => (rowOf_ok read).subset_columns

namespace Layout

variable {l : Layout}

theorem lines_fault {stream : RowStream} (supplied : Supplies l.columns stream) {index : Nat}
    {fault : Fault} (ended : (l.lines index stream).fault = some fault) :
    fault.isIncompleteRecord = false := by
  induction stream generalizing index with
  | nil => cases ended
  | cons item rest ih =>
    obtain ⟨first, later⟩ := supplies_cons.mp supplied
    cases item with
    | error cause =>
      cases ended
      exact first
    | ok r =>
      obtain ⟨texts, rendered⟩ := exists_renders first
      unfold lines at ended
      rw [texts_ok_iff.mpr rendered] at ended
      exact ih later ended

/-- Writing a stream that supplies all columns finds them all. -/
theorem findsAll_write {stream : RowStream} (supplied : Supplies l.columns stream) :
    FindsAll (l.write stream).result := by
  unfold Written.result
  split
  · trivial
  · next cause stopped => exact lines_fault supplied stopped

end Layout

end RefinementTables
