import RefinementTables.Proofs.Checked
import RefinementTables.Row

/-!
Rows built by insertions.

* `get?_foldl_insert` — of the cells that are inserted under one name the last one
  stays.
* `columns_ofPairs` — a row made of pairs has their names, each at its first place.
* `eq_of_get?` — a row is settled by its columns, what is found under them and its origin.
* `foldl_insert_eq` — new names come last, in the order of their insertion, so
  that a row made of pairs with distinct names has these pairs as its cells
  (`cells_ofPairs`).
* `lookup_of_mem` — every cell is then found under its own name.
* `measure_eq_ok_iff` — a measurement is the number that a cell holds, if it is
  one that can be measured.
* `measurement?`, `fault?` — what measuring a column gives, and why it gives
  nothing, read off the cell (`measure_ok_iff`, `measure_error_iff`).
-/

namespace RefinementTables

namespace Row

/-! ### Cells -/

/-- A cell goes past the cells with other names. -/
theorem put_append {column : String} {front : List (String × Cell)}
    (absent : column ∉ front.map Prod.fst) (cell : Cell) (rest : List (String × Cell)) :
    put column cell (front ++ rest) = front ++ put column cell rest := by
  induction front with
  | nil => rfl
  | cons entry front ih =>
    obtain ⟨name, old⟩ := entry
    rw [List.map_cons, List.mem_cons, not_or] at absent
    rw [List.cons_append, put, if_neg (Ne.symm absent.1), ih absent.2, List.cons_append]

/-- Under a new name it comes last. -/
theorem put_of_not_mem {column : String} {cells : List (String × Cell)}
    (absent : column ∉ cells.map Prod.fst) (cell : Cell) :
    put column cell cells = cells ++ [(column, cell)] := by
  have past := put_append absent cell []
  rwa [List.append_nil] at past

/-- The cell that is found under a name is the first with this name, and the one that
is put there takes its place. -/
theorem exists_put {column : String} {old : Cell} {cells : List (String × Cell)}
    (there : cells.lookup column = some old) :
    ∃ front back, column ∉ front.map Prod.fst ∧ cells = front ++ (column, old) :: back ∧
      ∀ cell, put column cell cells = front ++ (column, cell) :: back := by
  obtain ⟨front, back, rfl, others⟩ := List.lookup_eq_some_iff.mp there
  have absent : column ∉ front.map Prod.fst := by
    intro mem
    obtain ⟨entry, of_front, rfl⟩ := List.mem_map.mp mem
    exact bne_iff_ne.mp (others entry of_front) rfl
  refine ⟨front, back, absent, rfl, fun cell => ?_⟩
  rw [put_append absent, put, if_pos rfl]

/-- Among distinct names every cell is found under its own. -/
theorem lookup_of_mem {cells : List (String × Cell)} (distinct : (cells.map Prod.fst).Nodup)
    {name : String} {cell : Cell} (mem : (name, cell) ∈ cells) :
    cells.lookup name = some cell := by
  induction cells with
  | nil => cases mem
  | cons entry rest ih =>
    obtain ⟨absent, rest_distinct⟩ := List.nodup_cons.mp distinct
    rcases List.mem_cons.mp mem with rfl | later
    · rw [List.lookup_cons_self]
    · have different : name ≠ entry.1 := by
        rintro rfl
        exact absent (List.mem_map.mpr ⟨_, later, rfl⟩)
      rw [List.lookup_cons, beq_false_of_ne different]
      exact ih rest_distinct later

theorem require_eq_ok_iff {r : Row} {column : String} {cell : Cell} :
    r.require column = .ok cell ↔ r.get? column = some cell := by
  unfold require
  cases r.get? column <;> simp

theorem isSome_lookup_iff {cells : List (String × Cell)} {name : String} :
    (cells.lookup name).isSome ↔ name ∈ cells.map Prod.fst := by
  rw [List.lookup_isSome_iff, List.mem_map]
  constructor
  · rintro ⟨entry, mem, same⟩
    exact ⟨entry, mem, (beq_iff_eq.mp same).symm⟩
  · rintro ⟨entry, mem, rfl⟩
    exact ⟨entry, mem, beq_self_eq_true _⟩

/-- A row holds a cell under each of its columns. -/
theorem isSome_get?_iff {r : Row} {name : String} : (r.get? name).isSome ↔ name ∈ r.columns :=
  isSome_lookup_iff

/-- Cells with the same distinct names are the same if the same is found under each. -/
theorem eq_of_lookup {cells others : List (String × Cell)}
    (distinct : (cells.map Prod.fst).Nodup) (names : others.map Prod.fst = cells.map Prod.fst)
    (found : ∀ name ∈ cells.map Prod.fst, others.lookup name = cells.lookup name) :
    others = cells := by
  induction cells generalizing others with
  | nil => exact List.map_eq_nil_iff.mp names
  | cons entry rest ih =>
    obtain ⟨name, cell⟩ := entry
    obtain ⟨absent, rest_distinct⟩ := List.nodup_cons.mp distinct
    cases others with
    | nil => cases names
    | cons other others =>
      obtain ⟨name', cell'⟩ := other
      obtain ⟨same, rest_names⟩ := List.cons.inj names
      obtain rfl : name' = name := same
      have first := found name' List.mem_cons_self
      rw [List.lookup_cons_self, List.lookup_cons_self, Option.some.injEq] at first
      have rest_found : ∀ name ∈ rest.map Prod.fst, others.lookup name = rest.lookup name := by
        intro name mem
        have different : name ≠ name' := by
          rintro rfl
          exact absent mem
        have there := found name (List.mem_cons_of_mem _ mem)
        rwa [List.lookup_cons, List.lookup_cons, beq_false_of_ne different] at there
      rw [first, ih rest_distinct rest_names rest_found]

/-- Rows are the same if they have the same distinct columns, the same cells in them and the
same origin. -/
theorem eq_of_get? {r other : Row} (distinct : r.columns.Nodup)
    (columns : other.columns = r.columns)
    (cells : ∀ name ∈ r.columns, other.get? name = r.get? name)
    (origin : other.origin = r.origin) : other = r := by
  obtain ⟨cells_r, origin_r⟩ := r
  obtain ⟨cells_other, origin_other⟩ := other
  obtain rfl : cells_other = cells_r := eq_of_lookup distinct columns cells
  obtain rfl : origin_other = origin_r := origin
  rfl

/-- A row that holds what another one holds, but under some names. -/
def SameBut (names : List String) (r out : Row) : Prop :=
  ∀ name ∉ names, out.get? name = r.get? name

/-! ### Insertions -/

/-- Of the cells that are inserted under one name, the last one stays. -/
theorem get?_foldl_insert (r : Row) (pairs : List (String × Cell)) (name : String) :
    (pairs.foldl (fun r (column, cell) => r.insert column cell) r).get? name =
      (pairs.reverse.lookup name).or (r.get? name) := by
  induction pairs generalizing r with
  | nil => rfl
  | cons pair rest ih =>
    obtain ⟨column, cell⟩ := pair
    rw [List.foldl_cons, ih, get?_insert, List.reverse_cons, List.lookup_append, Option.or_assoc,
      List.lookup_cons]
    by_cases same : name = column
    · subst same
      simp
    · simp [same, beq_false_of_ne same]

/-- A row holds the names that were inserted, and those that it held before. -/
theorem isSome_get?_foldl_insert (r : Row) (pairs : List (String × Cell)) (name : String) :
    ((pairs.foldl (fun r (column, cell) => r.insert column cell) r).get? name).isSome ↔
      name ∈ pairs.map Prod.fst ∨ (r.get? name).isSome := by
  rw [get?_foldl_insert, Option.isSome_or, Bool.or_eq_true, isSome_lookup_iff, List.map_reverse,
    List.mem_reverse]

/-- Insertions leave what is under other names. -/
theorem sameBut_foldl_insert (r : Row) (pairs : List (String × Cell)) :
    SameBut (pairs.map Prod.fst) r
      (pairs.foldl (fun r (column, cell) => r.insert column cell) r) := by
  intro name other
  have absent : pairs.reverse.lookup name = none := by
    rw [← Option.not_isSome_iff_eq_none, isSome_lookup_iff, List.map_reverse, List.mem_reverse]
    exact other
  rw [get?_foldl_insert, absent, Option.none_or]

/-- Insertions add the names that a row does not have yet, in the order in which each is
first inserted. -/
theorem columns_foldl_insert (r : Row) (pairs : List (String × Cell)) :
    (pairs.foldl (fun r (column, cell) => r.insert column cell) r).columns =
      r.columns ++ ((pairs.map Prod.fst).filter fun name => name ∉ r.columns).eraseDups := by
  induction pairs generalizing r with
  | nil => simp
  | cons pair rest ih =>
    obtain ⟨column, cell⟩ := pair
    rw [List.foldl_cons, ih, columns_insert, List.map_cons, List.filter_cons]
    by_cases there : column ∈ r.columns
    · simp [there]
    · simp only [there, if_false, not_false_eq_true, decide_true, if_true, List.eraseDups_cons,
        List.filter_filter, List.append_assoc, List.singleton_append]
      congr 4
      funext name
      by_cases same : name = column <;> simp [same]

/-- A row made of pairs has their names, each at its first place. -/
theorem columns_ofPairs (pairs : List (String × Cell)) :
    (ofPairs pairs).columns = (pairs.map Prod.fst).eraseDups := by
  rw [ofPairs, columns_foldl_insert]
  simp [empty, columns]

theorem nodup_columns_foldl_insert {r : Row} (distinct : r.columns.Nodup)
    (pairs : List (String × Cell)) :
    (pairs.foldl (fun r (column, cell) => r.insert column cell) r).columns.Nodup := by
  induction pairs generalizing r with
  | nil => exact distinct
  | cons pair rest ih => exact ih (nodup_columns_insert distinct pair.1 pair.2)

/-- A row made of pairs has each of its names once. -/
theorem nodup_columns_ofPairs (pairs : List (String × Cell)) :
    (ofPairs pairs).columns.Nodup := by
  have none_yet : empty.columns.Nodup := List.nodup_nil
  exact nodup_columns_foldl_insert none_yet pairs

/-- New names in a row come last, in order. -/
theorem foldl_insert_eq {r : Row} {pairs : List (String × Cell)}
    (distinct : (pairs.map Prod.fst).Nodup) (new : ∀ name ∈ pairs.map Prod.fst, name ∉ r.columns) :
    pairs.foldl (fun r (column, cell) => r.insert column cell) r =
      { r with cells := r.cells ++ pairs } := by
  induction pairs generalizing r with
  | nil => simp
  | cons pair rest ih =>
    obtain ⟨column, cell⟩ := pair
    obtain ⟨alone, distinct⟩ := List.nodup_cons.mp distinct
    obtain ⟨absent, new⟩ := List.forall_mem_cons.mp new
    have inserted : r.insert column cell = { r with cells := r.cells ++ [(column, cell)] } := by
      rw [insert, put_of_not_mem absent]
    have still_new : ∀ name ∈ rest.map Prod.fst, name ∉ (r.insert column cell).columns := by
      intro name hn there
      rw [columns_insert, if_neg absent, List.mem_append, List.mem_singleton] at there
      rcases there with there | rfl
      · exact new name hn there
      · exact alone hn
    refine (ih distinct still_new).trans ?_
    simp [inserted]

/-- A row made of pairs with distinct names has these as its cells. -/
theorem cells_ofPairs {pairs : List (String × Cell)} (distinct : (pairs.map Prod.fst).Nodup) :
    (ofPairs pairs).cells = pairs := by
  rw [ofPairs, foldl_insert_eq distinct (by simp [empty, columns])]
  rfl

/-! ### Measurements -/

/-- The number in a column, if there is one. -/
def number? (r : Row) (column : String) : Option Binary64 :=
  (r.get? column).bind Cell.number?

/-- A column holds a number that is finite and above zero. -/
def Measures (r : Row) (column : String) : Prop :=
  ∃ x, r.number? column = some x ∧ x.isMeasure = true

instance (r : Row) (column : String) : Decidable (r.Measures column) :=
  decidable_of_iff ((r.number? column).any Binary64.isMeasure = true) (Option.any_eq_true _ _)

theorem measure_eq_ok_iff {r : Row} {column : String} {x : Binary64} :
    r.measure column = .ok x ↔ r.number? column = some x ∧ x.isMeasure = true := by
  unfold measure number?
  rw [bind_eq_ok_iff]
  constructor
  · rintro ⟨cell, there, h⟩
    rw [require_eq_ok_iff.mp there, Option.bind_some]
    split at h
    · next y number =>
      split at h
      · next measured =>
        cases h
        exact ⟨number, measured⟩
      · cases h
    · cases h
  · rintro ⟨number, measured⟩
    obtain ⟨cell, there, number⟩ := Option.bind_eq_some_iff.mp number
    refine ⟨cell, require_eq_ok_iff.mpr there, ?_⟩
    simp only [number, measured, if_true]

/-- The number in a column, if it is finite and above zero. -/
def measurement? (r : Row) (column : String) : Option Binary64 :=
  (r.number? column).filter Binary64.isMeasure

/-- Why a column holds no measurement, if it does not: it is missing, or its cell is
invalid. -/
def fault? (r : Row) (column : String) : Option Fault :=
  match r.get? column with
  | none => some (.incompleteRecord column r.describe)
  | some cell =>
    if cell.number?.any Binary64.isMeasure then none else some (r.invalid column cell)

theorem measure_ok_iff {r : Row} {column : String} {x : Binary64} :
    r.measure column = .ok x ↔ r.measurement? column = some x := by
  rw [measure_eq_ok_iff, measurement?, Option.filter_eq_some_iff]

/-- What cannot be measured has no measurement. -/
theorem measurement?_of_error {r : Row} {column : String} {f : Fault}
    (failed : r.measure column = .error f) : r.measurement? column = none := by
  rw [Option.eq_none_iff_forall_ne_some]
  intro x measured
  cases failed.symm.trans (measure_ok_iff.mpr measured)

theorem measures_iff {r : Row} {column : String} :
    r.Measures column ↔ ∃ x, r.measurement? column = some x :=
  exists_congr fun _ => measure_eq_ok_iff.symm.trans measure_ok_iff

theorem measure_error_iff {r : Row} {column : String} {f : Fault} :
    r.measure column = .error f ↔ r.fault? column = some f := by
  unfold measure require fault?
  cases r.get? column with
  | none => simp [bind, Except.bind]
  | some cell =>
    cases number : cell.number? with
    | none => simp [number, bind, Except.bind]
    | some x => cases measured : x.isMeasure <;> simp [number, measured, bind, Except.bind]

/-- A column is measured exactly if nothing is the matter with it. -/
theorem fault?_eq_none_iff {r : Row} {column : String} :
    r.fault? column = none ↔ r.Measures column := by
  rw [measures_iff]
  cases found : r.measure column with
  | ok x => simp [measure_ok_iff.mp found, Option.eq_none_iff_forall_ne_some, ← measure_error_iff,
      found]
  | error f => simp [measure_error_iff.mp found, ← measure_ok_iff, found]

/-- Of the two things that can be the matter, only that it is missing is no invalid
measurement. -/
theorem isInvalidMeasurement_fault? {r : Row} {column : String} {f : Fault}
    (failed : r.fault? column = some f) :
    f.isInvalidMeasurement = true ↔ column ∈ r.columns := by
  rw [← isSome_get?_iff]
  unfold fault? at failed
  split at failed
  · next absent =>
    cases failed
    simp [absent, Fault.isInvalidMeasurement]
  · next cell there =>
    split at failed
    · cases failed
    · cases failed
      simp [there, invalid, Fault.isInvalidMeasurement]

/-- What is measured is there. -/
theorem Measures.mem_columns {r : Row} {column : String} (measured : r.Measures column) :
    column ∈ r.columns := by
  obtain ⟨x, number, -⟩ := measured
  obtain ⟨cell, there, -⟩ := Option.bind_eq_some_iff.mp number
  exact isSome_get?_iff.mp (Option.isSome_iff_exists.mpr ⟨cell, there⟩)

end Row

end RefinementTables
