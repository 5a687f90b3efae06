import RefinementTables.Proofs.Layout
import RefinementTables.Settings

/-!
What preferences come to when they are resolved.

Only the delimiter and the palette are checked, and a delimiter only for being one
byte; and of two sources of columns the header wins.

* `splits_iff` — the tables that are written under resolved preferences are split
  back into their records exactly if the delimiter is neither a quote nor a break.
* `apply_overrides` — what the command line says is in force, but for columns that
  it names where the configuration takes them from the header.
-/

namespace RefinementTables

namespace Preferences

variable {p : Preferences} {defaults : Defaults} {s : Settings}

/-- The settings that preferences state, with the gaps filled. -/
def settled (p : Preferences) (defaults : Defaults) : Settings where
  axis := p.axis.getD defaults.axis
  quantities := if p.quantities.isEmpty then defaults.quantities else p.quantities
  columns := p.columns
  columnsFromHeader := p.columnsFromHeader
  delimiter := UInt8.ofNat p.delimiter.toNat
  sentinel := p.sentinel
  hasHeaderRow := p.hasHeaderRow || p.columnsFromHeader
  lenient := p.lenient
  palette := p.palette

theorem resolve_eq (p : Preferences) (defaults : Defaults) :
    p.resolve defaults =
      if 128 ≤ p.delimiter.toNat then .error (.settings (.wideDelimiter p.delimiter))
      else p.palette.check.map fun _ => p.settled defaults := by
  unfold resolve
  by_cases wide : 128 ≤ p.delimiter.toNat
  · simp only [if_pos wide]
    rfl
  · simp only [if_neg wide]
    cases p.palette.check <;> rfl

theorem resolve_ok (resolved : p.resolve defaults = .ok s) :
    p.delimiter.toNat < 128 ∧ s = p.settled defaults := by
  rw [resolve_eq] at resolved
  split at resolved
  · cases resolved
  · next narrow =>
    refine ⟨Nat.lt_of_not_le narrow, ?_⟩
    cases checked : p.palette.check with
    | error fault =>
      rw [checked] at resolved
      cases resolved
    | ok u =>
      rw [checked] at resolved
      exact (Except.ok.inj resolved).symm

/-! ### Delimiters -/

theorem toNat_ofNat_of_ascii {c : Char} (narrow : c.toNat < 128) :
    (UInt8.ofNat c.toNat).toNat = c.toNat := by
  rw [UInt8.toNat_ofNat']
  omega

/-- A delimiter of one byte separates fields unless it is a quote or a break. -/
theorem separates_ofNat_iff {c : Char} (narrow : c.toNat < 128) :
    Delimited.Separates (UInt8.ofNat c.toNat) ↔ c ∉ ['"', '\n', '\r'] := by
  have same : ∀ c' : Char, c'.toNat < 128 →
      (UInt8.ofNat c.toNat = UInt8.ofNat c'.toNat ↔ c = c') := by
    intro c' narrow'
    rw [← UInt8.toNat_inj, toNat_ofNat_of_ascii narrow, toNat_ofNat_of_ascii narrow',
      Char.toNat_inj]
  have quote := same '"' (by decide)
  have lineFeed := same '\n' (by decide)
  have carriageReturn := same '\r' (by decide)
  rw [Delimited.separates_iff, List.mem_cons, List.mem_cons, List.mem_singleton, not_or, not_or]
  exact and_congr (not_congr quote) (and_congr (not_congr lineFeed) (not_congr carriageReturn))

theorem delimiter_lt_of_resolve (resolved : p.resolve defaults = .ok s) : s.delimiter < 128 := by
  obtain ⟨narrow, rfl⟩ := resolve_ok resolved
  rw [settled, UInt8.lt_iff_toNat_lt, toNat_ofNat_of_ascii narrow]
  exact narrow

/-- Under preferences that are resolved, all tables with names of ASCII characters
are split back into their records and fields exactly if the delimiter is neither a
quote nor a break. -/
theorem splits_iff (resolved : p.resolve defaults = .ok s) :
    (∀ columns, columns ≠ [] →
      (∀ name ∈ columns, name ≠ "" ∧ ∀ c ∈ name.toList, c.toNat < 128) →
      ∀ records, (∀ r ∈ records, columns ⊆ r.columns) → (s.layout columns).Splits records) ↔
    p.delimiter ∉ ['"', '\n', '\r'] := by
  have ascii := delimiter_lt_of_resolve resolved
  obtain ⟨narrow, rfl⟩ := resolve_ok resolved
  rw [← separates_ofNat_iff narrow]
  constructor
  · intro all
    by_contra awkward
    have there : ∀ r ∈ [Layout.hollowRow], ["a", "b"] ⊆ r.columns := by
      simp [Layout.columns_hollowRow]
    have splits := all ["a", "b"] (List.cons_ne_nil _ _) Layout.ascii_columns_hollowRow
      [Layout.hollowRow] there
    exact Layout.not_splits awkward p.sentinel splits
  · intro separates columns nonempty names records there
    refine Layout.splits_of_separates ascii separates nonempty ?_ there
    intro name first marked
    have narrow_mark := (names name (List.mem_of_head? first)).2 _ (List.mem_of_head? marked)
    exact absurd narrow_mark (by decide)

/-- Preferences that name nothing are resolved, and their tables are split back. -/
theorem standard_splits :
    ∃ s, standard.resolve .eoc = .ok s ∧
      (s.layout ["a", "b"]).Splits [Layout.hollowRow, Layout.hollowRow] := by
  have resolved : standard.resolve .eoc = .ok (standard.settled .eoc) := by rfl
  refine ⟨_, resolved, ?_⟩
  refine (splits_iff resolved).mpr (by decide) ["a", "b"] (List.cons_ne_nil _ _)
    Layout.ascii_columns_hollowRow _ ?_
  simp [Layout.columns_hollowRow]

/-- A quote is accepted as a delimiter, and one of the tables that are written with
it is not split back. -/
theorem quote_accepted :
    ∃ s, { standard with delimiter := '"' }.resolve .eoc = .ok s ∧
      (∀ r ∈ [Layout.hollowRow], ["a", "b"] ⊆ r.columns) ∧
      ¬ (s.layout ["a", "b"]).Splits [Layout.hollowRow] := by
  have resolved : { standard with delimiter := '"' }.resolve .eoc =
      .ok ({ standard with delimiter := '"' }.settled .eoc) := by rfl
  have awkward : ¬ Delimited.Separates 34 := fun separates => separates.notQuote rfl
  refine ⟨_, resolved, ?_, Layout.not_splits awkward _⟩
  simp [Layout.columns_hollowRow]

end Preferences

/-! ### Overrides -/

namespace Overrides

variable {o : Overrides} {p : Preferences} {defaults : Defaults} {s : Settings}

/-- The axis, the quantities, the delimiter and the sentinel of a command line are
in force. So are columns from the header, if it asks for them; columns that it names
are in force exactly if the configuration does not take them from the header. -/
theorem apply_overrides (resolved : (o.apply p).resolve defaults = .ok s) :
    (∀ axis ∈ o.axis, s.axis = axis) ∧
    (o.quantities ≠ [] → s.quantities = o.quantities) ∧
    (∀ delimiter ∈ o.delimiter, s.delimiter.toNat = delimiter.toNat) ∧
    (∀ sentinel ∈ o.sentinel, s.sentinel = sentinel) ∧
    ∀ t path,
      (o.columnsFromHeader = true → s.schemaOf t path = namesInHeader t path s.delimiter) ∧
      (o.columns ≠ [] → o.columnsFromHeader = false →
        s.schemaOf t path =
          if p.columnsFromHeader then namesInHeader t path s.delimiter else .ok o.columns) := by
  obtain ⟨narrow, rfl⟩ := Preferences.resolve_ok resolved
  refine ⟨?_, ?_, ?_, ?_, ?_⟩
  · intro axis given
    have given : o.axis = some axis := given
    simp [Preferences.settled, apply, given]
  · intro given
    simp [Preferences.settled, apply, given]
  · intro delimiter given
    have given : o.delimiter = some delimiter := given
    have in_force : (o.apply p).delimiter = delimiter := by rw [apply, given, Option.getD_some]
    rw [in_force] at narrow
    rw [Preferences.settled, in_force, Preferences.toNat_ofNat_of_ascii narrow]
  · intro sentinel given
    have given : o.sentinel = some sentinel := given
    simp [Preferences.settled, apply, given]
  · intro t path
    constructor
    · intro given
      simp [Settings.schemaOf, Preferences.settled, apply, given]
    · intro given no_header
      simp [Settings.schemaOf, Preferences.settled, apply, given, no_header]

/-- A command line that names everything, and a configuration that names other
things and does not take its columns from the header. -/
theorem options_in_force :
    let o : Overrides :=
      ⟨["q"], ["h", "q"], false, some "h", some ',', some .notANumber, false, false⟩
    let p : Preferences := { Preferences.standard with
      axis := some "v", quantities := ["u"], columns := some ["u", "v"], delimiter := ';' }
    ∃ s, (o.apply p).resolve .eoc = .ok s ∧ s.axis = "h" ∧ s.quantities = ["q"] ∧
      s.delimiter.toNat = ','.toNat ∧ s.sentinel = .notANumber ∧
      ∀ t path, s.schemaOf t path = .ok ["h", "q"] := by
  intro o p
  have resolved : (o.apply p).resolve .eoc = .ok ((o.apply p).settled .eoc) := by rfl
  obtain ⟨axis, quantities, delimiter, sentinel, columns⟩ := apply_overrides resolved
  refine ⟨_, resolved, axis "h" rfl, quantities (List.cons_ne_nil _ _), delimiter ',' rfl,
    sentinel .notANumber rfl, ?_⟩
  intro t path
  exact (columns t path).2 (List.cons_ne_nil _ _) rfl

/-- Columns that a command line names are not in force under a configuration that
takes them from the header. -/
theorem header_in_force :
    let o : Overrides := ⟨["q"], ["h", "q"], false, some "h", .none, .none, false, false⟩
    let t := Layout.oneFile (Text.toBytes "u\tv\n1\t2\n")
    let configuration := "columns_from_header = true\nhas_header_row = true\n"
    ∃ p s, Preferences.ofText configuration = .ok p ∧
      (o.apply p).resolve .eoc = .ok s ∧ s.schemaOf t "t" = .ok ["u", "v"] ∧
      s.schemaOf t "t" ≠ .ok o.columns := by
  intro o t configuration
  let p : Preferences :=
    { Preferences.standard with columnsFromHeader := true, hasHeaderRow := true }
  have stated : Preferences.ofText configuration = .ok p := by decide +kernel
  have schema : ((o.apply p).settled .eoc).schemaOf t "t" = .ok ["u", "v"] := by decide +kernel
  refine ⟨p, (o.apply p).settled .eoc, stated, rfl, schema, ?_⟩
  rw [schema]
  decide

end Overrides

end RefinementTables
