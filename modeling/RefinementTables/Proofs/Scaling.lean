import RefinementTables.Proofs.Supply
import RefinementTables.Scaling

/-!
Scaling one column of a stream.

* `scale_eq_ok_iff` — a row is scaled exactly if its column holds a finite number.
* `scale_sameBut` — a stream that is scaled to its end keeps what its rows hold
  under every other name.
* `supplies_scale` — scaling a column that is there takes no column away.
* `scale_itemwise` — every item is treated by itself: in a row that is scaled one
  cell is replaced in its place, and another row becomes a fault in its own place.
-/

namespace RefinementTables

variable {column : String} {factor : Binary64}

namespace Row

variable {r out : Row}

theorem scale_eq_ok_iff : r.scale column factor = .ok out ↔
    ∃ x, r.number? column = some x ∧ x.isFinite = true ∧
      out = r.insert column (.number (factor.mul x)) := by
  unfold scale number?
  rw [bind_eq_ok_iff]
  constructor
  · rintro ⟨cell, there, h⟩
    rw [require_eq_ok_iff.mp there, Option.bind_some]
    split at h
    · next x number =>
      split at h
      · next finite =>
        cases h
        exact ⟨x, number, finite, rfl⟩
      · cases h
    · cases h
  · rintro ⟨x, number, finite, rfl⟩
    obtain ⟨cell, there, number⟩ := Option.bind_eq_some_iff.mp number
    refine ⟨cell, require_eq_ok_iff.mpr there, ?_⟩
    simp only [number, finite, if_true]

/-- A scaled row holds what the row held under other names. -/
theorem sameBut_scale (scaled : r.scale column factor = .ok out) : SameBut [column] r out := by
  obtain ⟨x, -, -, rfl⟩ := scale_eq_ok_iff.mp scaled
  intro name other
  rw [get?_insert, if_neg fun same => other (List.mem_singleton.mpr same)]

/-- A scaled row has the columns of the row. -/
theorem columns_scale (scaled : r.scale column factor = .ok out) : out.columns = r.columns := by
  obtain ⟨x, number, -, rfl⟩ := scale_eq_ok_iff.mp scaled
  obtain ⟨cell, there, -⟩ := Option.bind_eq_some_iff.mp number
  have held : column ∈ r.columns := isSome_get?_iff.mp (Option.isSome_of_eq_some there)
  rw [columns_insert, if_pos held]

/-- A scaled row is the row with one cell replaced in its place. -/
theorem exists_cells_scale (scaled : r.scale column factor = .ok out) :
    ∃ front cell x back, column ∉ front.map Prod.fst ∧ cell.number? = some x ∧
      x.isFinite = true ∧ r = ⟨front ++ (column, cell) :: back, r.origin⟩ ∧
      out = ⟨front ++ (column, .number (factor.mul x)) :: back, r.origin⟩ := by
  obtain ⟨x, number, finite, rfl⟩ := scale_eq_ok_iff.mp scaled
  obtain ⟨cell, there, number⟩ := Option.bind_eq_some_iff.mp number
  obtain ⟨front, back, absent, cells, put_eq⟩ := exists_put there
  refine ⟨front, cell, x, back, absent, number, finite, ?_, ?_⟩
  · rw [← cells]
  · rw [insert, put_eq]

/-- What is the matter with a row that is not scaled: the column is missing, or its
cell holds no finite number. -/
theorem scale_error_iff {f : Fault} : r.scale column factor = .error f ↔
    (column ∉ r.columns ∧ .incompleteRecord column r.describe = f) ∨
      ∃ cell, r.get? column = some cell ∧ (∀ x, cell.number? = some x → x.isFinite = false) ∧
        r.invalid column cell = f := by
  rw [← isSome_get?_iff]
  unfold scale require
  cases r.get? column with
  | none => simp [bind, Except.bind]
  | some cell =>
    cases number : cell.number? with
    | none => simp [number, bind, Except.bind]
    | some x => cases finite : x.isFinite <;> simp [number, finite, bind, Except.bind]

theorem findsAll_scale (there : column ∈ r.columns) : FindsAll (r.scale column factor) := by
  refine (findsAll_require there).bind ?_
  intro cell _
  split
  · split
    · trivial
    · rfl
  · rfl

end Row

namespace RowStream

/-- A stream that is scaled to its end has rows only, and what comes out holds what
they held, but in the scaled column. -/
theorem scale_sameBut {stream : RowStream} {out : List Row}
    (through : stream.scale column factor = out.map .ok) :
    ∃ rows, stream = rows.map .ok ∧ List.Forall₂ (Row.SameBut [column]) rows out := by
  induction stream generalizing out with
  | nil =>
    cases List.map_eq_nil_iff.mp through.symm
    exact ⟨[], rfl, .nil⟩
  | cons item rest ih =>
    cases out with
    | nil => cases through
    | cons first out =>
      obtain ⟨item_ok, later⟩ := List.cons.inj through
      obtain ⟨rows, rfl, same⟩ := ih later
      cases item with
      | error fault => cases item_ok
      | ok row => exact ⟨row :: rows, rfl, .cons (Row.sameBut_scale item_ok) same⟩

/-- Scaling one of the columns that a stream has leaves it all of them. -/
theorem supplies_scale {names : List String} {stream : RowStream} (declared : column ∈ names)
    (supplied : Supplies names stream) : Supplies names (stream.scale column factor) := by
  intro item mem
  obtain ⟨source, there, rfl⟩ := List.mem_map.mp mem
  refine Finds.bind (supplied source there) ?_
  intro row held
  refine (Row.findsAll_scale (held declared)).of_ok ?_
  intro out scaled
  rw [Row.columns_scale scaled]
  exact held

/-! ### Item by item -/

/-- What becomes of an item. A fault stays. A row without the column becomes a fault
that says so, as does one whose cell holds no finite number. In any other row the
first cell of that name, which is the one that is found under it, is replaced. -/
inductive BecomesScaled (column : String) (factor : Binary64) :
    Except Fault Row → Except Fault Row → Prop where
  | fault (f : Fault) : BecomesScaled column factor (.error f) (.error f)
  | missing {r : Row} (absent : column ∉ r.columns) :
      BecomesScaled column factor (.ok r) (.error (.incompleteRecord column r.describe))
  | invalid {r : Row} {cell : Cell} (there : r.get? column = some cell)
      (unscalable : ∀ x, cell.number? = some x → x.isFinite = false) :
      BecomesScaled column factor (.ok r)
        (.error (.invalidMeasurement column (cell.render .notANumber) r.location))
  | row {front back : List (String × Cell)} {cell : Cell} {x : Binary64}
      {origin : Option Location} (first : column ∉ front.map Prod.fst)
      (number : cell.number? = some x) (finite : x.isFinite = true) :
      BecomesScaled column factor (.ok ⟨front ++ (column, cell) :: back, origin⟩)
        (.ok ⟨front ++ (column, .number (factor.mul x)) :: back, origin⟩)

theorem becomesScaled (item : Except Fault Row) :
    BecomesScaled column factor item (item.bind (Row.scale column factor)) := by
  cases item with
  | error f => exact .fault f
  | ok r =>
    show BecomesScaled column factor (.ok r) (r.scale column factor)
    cases scaled : r.scale column factor with
    | ok out =>
      obtain ⟨front, cell, x, back, first, number, finite, r_eq, out_eq⟩ :=
        Row.exists_cells_scale scaled
      rw [r_eq, out_eq]
      exact .row first number finite
    | error f =>
      rcases Row.scale_error_iff.mp scaled with ⟨absent, rfl⟩ | ⟨cell, there, unscalable, rfl⟩
      · exact .missing absent
      · exact .invalid there unscalable

theorem getElem?_scale (stream : RowStream) (i : Nat) :
    (stream.scale column factor)[i]? = stream[i]?.map fun item =>
      item.bind (Row.scale column factor) :=
  List.getElem?_map

end RowStream

end RefinementTables
