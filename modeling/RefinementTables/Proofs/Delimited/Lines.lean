import RefinementTables.Proofs.Delimited.Extents

/-!
The lines of a file and its records.

The line of a record is counted where its reading begins, at the end of the record before
it. In a file without carriage returns and without empty lines nothing is skipped from
there, so the line is that of the first byte of the record.

* `LineStart.gap_eq_nil` — where a record has ended the next one begins.
* `line_eq_of_fallsInto` — the line of a record is one more than the line feeds in front of
  its first byte, those within quotes included.
* `pairwise_line_of_fallsInto` — every record begins on a later line than the one before it.
-/

namespace RefinementTables.Delimited

variable {d : UInt8} {body passed skipped rest front : Bytes} {records : List Extent}

/-- A line feed at the start of a line, which is thereby empty, stands in a quoted field. -/
def NoEmptyLine (d : UInt8) (body : Bytes) : Prop :=
  ∀ i < body.length, body[i]? = some lineFeed → i = 0 ∨ body[i - 1]? = some lineFeed →
    Mode.through d .recordStart (body.take i) = .quoted

instance (d : UInt8) (body : Bytes) : Decidable (NoEmptyLine d body) :=
  inferInstanceAs (Decidable (∀ i < body.length, body[i]? = some lineFeed →
    i = 0 ∨ body[i - 1]? = some lineFeed → Mode.through d .recordStart (body.take i) = .quoted))

/-! ### Where the records stand -/

/-- A record stands behind what has been passed. -/
theorem RestFallsInto.passed_prefix (falls : RestFallsInto d passed skipped rest records) :
    ∀ e ∈ records, passed <+: e.passed := by
  induction falls with
  | done => exact nofun
  | last => exact List.forall_mem_singleton.mpr (List.prefix_refl _)
  | @more passed skipped gap text rest b later blank record ends _ ih =>
    refine List.forall_mem_cons.mpr ⟨List.prefix_refl _, ?_⟩
    intro e mem
    rw [List.append_assoc, List.append_assoc] at ih
    exact (List.prefix_append _ _).trans (ih e mem)

/-- A record stands in the file where it is said to stand. -/
theorem RestFallsInto.eq_append (falls : RestFallsInto d passed skipped rest records) :
    ∀ e ∈ records, ∃ after, passed ++ skipped ++ rest = e.before ++ e.text ++ after := by
  induction falls with
  | done => exact nofun
  | last =>
    refine List.forall_mem_singleton.mpr ⟨[], ?_⟩
    simp [Extent.before]
  | @more passed skipped gap text rest b later blank record ends _ ih =>
    refine List.forall_mem_cons.mpr ⟨⟨b :: rest, by simp [Extent.before]⟩, ?_⟩
    intro e mem
    obtain ⟨after, there⟩ := ih e mem
    refine ⟨after, ?_⟩
    rw [← there]
    simp

/-! ### Lines without gaps -/

/-- A line begins here, outside of any record. -/
structure LineStart (d : UInt8) (front : Bytes) : Prop where
  outside : Mode.through d .recordStart front = .recordStart
  line : front = [] ∨ front.getLast? = some lineFeed

/-- Of the two breaks only the line feed is left. -/
theorem eq_lineFeed_of_isBreak {b : UInt8} (broken : isBreak b = true) (b_ne : b ≠ carriageReturn) :
    b = lineFeed := by
  simp only [isBreak, Bool.or_eq_true, beq_iff_eq] at broken
  exact broken.resolve_right b_ne

/-- Behind a record a line begins. -/
theorem LineStart.after_record {text : Bytes} {b : UInt8} (start : LineStart d front)
    (ends : ((Mode.through d .recordStart text).move d b).2 = .endRecord)
    (b_ne : b ≠ carriageReturn) : LineStart d (front ++ text ++ [b]) := by
  obtain ⟨broken, back⟩ := Mode.isBreak_of_endRecord ends
  refine ⟨?_, .inr ?_⟩
  · rw [Mode.through_append, Mode.through_append, start.outside]
    exact back
  · rw [List.getLast?_concat, eq_lineFeed_of_isBreak broken b_ne]

/-- A line feed where a line begins, outside of any record, leaves an empty line. -/
theorem LineStart.not_noEmptyLine (start : LineStart d front) :
    ¬ NoEmptyLine d (front ++ lineFeed :: rest) := by
  intro no_empty
  have quoted := no_empty front.length (by simp) (by simp) ?_
  · rw [List.take_left, start.outside] at quoted
    cases quoted
  · rcases start.line with rfl | ended
    · exact .inl rfl
    · right
      have pos : 0 < front.length := by
        rw [List.length_pos_iff]
        rintro rfl
        cases ended
      rw [List.getElem?_append_left (by omega), ← List.getLast?_eq_getElem?, ended]

/-- Where a line begins outside of a record, no breaks are skipped. -/
theorem LineStart.gap_eq_nil {gap : Bytes} (start : LineStart d front)
    (no_empty : NoEmptyLine d (front ++ (gap ++ rest))) (blank : ∀ b ∈ gap, isBreak b = true)
    (no_return : carriageReturn ∉ gap) : gap = [] := by
  cases gap with
  | nil => rfl
  | cons b gap =>
    have b_ne : b ≠ carriageReturn := by
      rintro rfl
      exact no_return List.mem_cons_self
    rw [eq_lineFeed_of_isBreak (blank b List.mem_cons_self) b_ne] at no_empty
    exact absurd no_empty start.not_noEmptyLine

/-- No line feeds are skipped between the records. -/
theorem RestFallsInto.lineFeed_not_mem_gap (falls : RestFallsInto d passed skipped rest records)
    (start : LineStart d front) (no_empty : NoEmptyLine d (front ++ rest))
    (no_return : carriageReturn ∉ rest) (skips_none : lineFeed ∉ skipped) :
    ∀ e ∈ records, lineFeed ∉ e.gap := by
  induction falls generalizing front with
  | done => exact nofun
  | @last passed skipped gap text blank record =>
    rw [List.mem_append, not_or] at no_return
    have none := start.gap_eq_nil no_empty blank no_return.1
    refine List.forall_mem_singleton.mpr ?_
    rw [none, List.append_nil]
    exact skips_none
  | @more passed skipped gap text rest b later blank record ends _ ih =>
    simp only [List.mem_append, List.mem_cons, not_or] at no_return
    obtain ⟨gap_clean, -, b_ne, rest_clean⟩ := no_return
    have none := start.gap_eq_nil no_empty blank gap_clean
    rw [none, List.append_nil]
    refine List.forall_mem_cons.mpr ⟨skips_none, ?_⟩
    apply ih (start.after_record ends (Ne.symm b_ne)) ?_ rest_clean nofun
    rw [none] at no_empty
    simpa using no_empty

/-- The records begin on one line after the other. -/
theorem RestFallsInto.pairwise_line (falls : RestFallsInto d passed skipped rest records)
    (no_return : carriageReturn ∉ rest) : records.Pairwise fun e f => e.line < f.line := by
  induction falls with
  | done => exact .nil
  | last => exact List.pairwise_singleton _ _
  | @more passed skipped gap text rest b later blank record ends falls ih =>
    simp only [List.mem_append, List.mem_cons, not_or] at no_return
    obtain ⟨-, -, b_ne, rest_clean⟩ := no_return
    refine List.pairwise_cons.mpr ⟨?_, ih rest_clean⟩
    intro f mem
    have ended : b = lineFeed :=
      eq_lineFeed_of_isBreak (Mode.isBreak_of_endRecord ends).1 (Ne.symm b_ne)
    have grown := (falls.passed_prefix f mem).sublist.count_le lineFeed
    rw [ended] at grown
    simp only [List.count_append, List.count_singleton_self] at grown
    simp only [Extent.line]
    omega

/-! ### Whole files -/

section Files

variable {bytes : Bytes}

theorem lineFeed_not_mem_mark (bytes : Bytes) : lineFeed ∉ mark bytes := by
  unfold mark
  split <;> decide

/-- A record stands in its file where it is said to stand. -/
theorem eq_append_of_fallsInto (falls : FallsInto d bytes records) {e : Extent}
    (mem : e ∈ records) : ∃ after, bytes = e.before ++ e.text ++ after := by
  have there := falls.eq_append e mem
  rwa [List.nil_append, mark_append_unmarked] at there

theorem carriageReturn_not_mem_unmarked (no_return : carriageReturn ∉ bytes) :
    carriageReturn ∉ unmarked bytes :=
  fun mem => no_return (List.mem_of_mem_drop mem)

/-- The line of a record is that of its first byte. -/
theorem line_eq_of_fallsInto (falls : FallsInto d bytes records)
    (no_return : carriageReturn ∉ bytes) (no_empty : NoEmptyLine d (unmarked bytes))
    {e : Extent} (mem : e ∈ records) : e.line = 1 + e.before.count lineFeed := by
  have start : LineStart d [] := ⟨rfl, .inl rfl⟩
  have clean := falls.lineFeed_not_mem_gap start no_empty
    (carriageReturn_not_mem_unmarked no_return) (lineFeed_not_mem_mark bytes) e mem
  rw [Extent.line, Extent.before, List.count_append, List.count_eq_zero.mpr clean, Nat.add_zero]

theorem pairwise_line_of_fallsInto (falls : FallsInto d bytes records)
    (no_return : carriageReturn ∉ bytes) : records.Pairwise fun e f => e.line < f.line :=
  falls.pairwise_line (carriageReturn_not_mem_unmarked no_return)

end Files

end RefinementTables.Delimited
