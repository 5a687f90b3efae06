import Mathlib.Data.List.Nodup
import RefinementTables.Proofs.Comparison.Columns

/-!
Which columns clash.

Joining a quantity and a title with an underscore does not tell where the one ends and
the other begins, so that different pairs can have one column, and a pair can have the
axis.

* `FirstRepeat` — the first element of a list that repeats an earlier one.
* `firstRepeated_cases`, `addColumns_cases` — the search among the titles and the one
  among the columns both end there, or at the end of a list of distinct elements.
* `columns_exact` — columns are accepted exactly if there is a quantity and all names are
  distinct; if not, the fault names the first title or the first column that repeats an
  earlier one.
-/

namespace RefinementTables

/-- The first element of a list that repeats an earlier one, behind what stands in front
of it. -/
structure FirstRepeat {α : Type} (xs before : List α) (x : α) : Prop where
  place : ∃ after, xs = before ++ x :: after
  distinct : before.Nodup
  repeats : x ∈ before

namespace FirstRepeat

variable {α : Type} {xs before before' : List α} {x x' : α}

theorem not_nodup (first : FirstRepeat xs before x) : ¬ xs.Nodup := by
  obtain ⟨⟨after, rfl⟩, -, repeats⟩ := first
  intro distinct
  exact (List.nodup_append.mp distinct).2.2 x repeats x List.mem_cons_self rfl

/-- No two elements of a list are the first to repeat an earlier one. -/
theorem unique (first : FirstRepeat xs before x) (other : FirstRepeat xs before' x') :
    before = before' ∧ x = x' := by
  obtain ⟨⟨after, rfl⟩, distinct, repeats⟩ := first
  obtain ⟨⟨after', same⟩, distinct', repeats'⟩ := other
  -- What stands in front of the later of the two would hold the earlier one twice.
  have apart : ∀ {front gap : List α} {y : α}, y ∈ front → ¬ (front ++ y :: gap).Nodup := by
    intro front gap y mem distinct
    exact (List.nodup_append.mp distinct).2.2 y mem y List.mem_cons_self rfl
  rcases List.append_eq_append_iff.mp same with ⟨gap, rfl, rest⟩ | ⟨gap, rfl, rest⟩
  · cases gap with
    | nil =>
      obtain ⟨rfl, -⟩ := List.cons.inj rest
      exact ⟨(List.append_nil before).symm, rfl⟩
    | cons y gap =>
      obtain ⟨rfl, -⟩ := List.cons.inj rest
      exact absurd distinct' (apart repeats)
  · cases gap with
    | nil =>
      obtain ⟨rfl, -⟩ := List.cons.inj rest
      exact ⟨List.append_nil before', rfl⟩
    | cons y gap =>
      obtain ⟨rfl, -⟩ := List.cons.inj rest
      exact absurd distinct (apart repeats')

end FirstRepeat

namespace Comparison

variable {c : Comparison} {titles : List String}

/-! ### The two searches -/

/-- A search, with the distinct elements that it has passed, last first: it finds nothing
in a list of distinct elements, or else the first that repeats an earlier one. -/
theorem firstRepeated_cases {α : Type} [DecidableEq α] {seen : List α} (distinct : seen.Nodup)
    (xs : List α) :
    (firstRepeated seen xs = none ∧ (seen.reverse ++ xs).Nodup) ∨
      ∃ before x, firstRepeated seen xs = some x ∧ FirstRepeat (seen.reverse ++ xs) before x := by
  induction xs generalizing seen with
  | nil =>
    left
    rw [List.append_nil]
    exact ⟨rfl, List.pairwise_reverse.mpr (distinct.imp Ne.symm)⟩
  | cons x xs ih =>
    have passed : seen.reverse.Nodup := List.pairwise_reverse.mpr (distinct.imp Ne.symm)
    rw [firstRepeated]
    by_cases there : x ∈ seen
    · right
      exact ⟨seen.reverse, x, if_pos there, ⟨xs, rfl⟩, passed, List.mem_reverse.mpr there⟩
    · rw [if_neg there, List.append_cons, ← List.reverse_cons]
      exact ih (List.nodup_cons.mpr ⟨there, distinct⟩)

/-- Adding the columns of pairs to distinct columns: all of them are added, and they are
distinct, or the fault names the first that repeats an earlier one. -/
theorem addColumns_cases {columns : List String} (distinct : columns.Nodup)
    (pairs : List (String × String)) :
    (addColumns columns pairs = .ok (columns ++ pairs.map fun p => schemeColumn p.1 p.2) ∧
      (columns ++ pairs.map fun p => schemeColumn p.1 p.2).Nodup) ∨
    ∃ before quantity title after, pairs = before ++ (quantity, title) :: after ∧
      addColumns columns pairs = .error
        (.duplicateColumn (schemeColumn quantity title) (.quantityOfScheme quantity title)) ∧
      FirstRepeat (columns ++ pairs.map fun p => schemeColumn p.1 p.2)
        (columns ++ before.map fun p => schemeColumn p.1 p.2) (schemeColumn quantity title) := by
  induction pairs generalizing columns with
  | nil =>
    left
    rw [List.map_nil, List.append_nil]
    exact ⟨rfl, distinct⟩
  | cons p rest ih =>
    obtain ⟨quantity, title⟩ := p
    rw [addColumns, List.map_cons]
    by_cases taken : schemeColumn quantity title ∈ columns
    · right
      refine ⟨[], quantity, title, rest, rfl, if_pos taken, ?_⟩
      rw [List.map_nil, List.append_nil]
      exact ⟨⟨_, rfl⟩, distinct, taken⟩
    · rw [if_neg taken]
      have still_distinct : (columns ++ [schemeColumn quantity title]).Nodup :=
        List.nodup_append.mpr ⟨distinct, List.nodup_singleton _, by
          rintro a mem b last rfl
          exact taken (List.mem_singleton.mp last ▸ mem)⟩
      have rest_cases := ih still_distinct
      simp only [List.append_assoc, List.singleton_append] at rest_cases
      rcases rest_cases with added | ⟨before, q, t, after, rfl, failed, first⟩
      · exact .inl added
      · exact .inr ⟨(quantity, title) :: before, q, t, after, rfl, failed, first⟩

/-! ### Accepted and refused columns -/

/-- The names that the columns of a comparison should have: the axis, and then each
quantity joined with each title. -/
def names (c : Comparison) (titles : List String) : List String :=
  c.axis :: (c.pairs titles).map fun p => schemeColumn p.1 p.2

/-- Why columns are refused. -/
inductive Refusal (c : Comparison) (titles : List String) : Fault → Prop
  | noQuantities (none : c.quantities = []) : Refusal c titles (.settings .noQuantities)
  /-- A title is used twice. The first quantity stands for all that it would clash in. -/
  | repeatedTitle {quantity title : String} {rest before : List String}
      (chosen : c.quantities = quantity :: rest) (first : FirstRepeat titles before title) :
      Refusal c titles (.duplicateColumn (schemeColumn quantity title) (.repeatedTitle title))
  /-- The column of a pair is the axis or that of an earlier pair. -/
  | collision {quantity title : String} {before after : List (String × String)}
      (chosen : c.quantities ≠ []) (distinct : titles.Nodup)
      (place : c.pairs titles = before ++ (quantity, title) :: after)
      (first : FirstRepeat (c.names titles)
        (c.axis :: before.map fun p => schemeColumn p.1 p.2) (schemeColumn quantity title)) :
      Refusal c titles
        (.duplicateColumn (schemeColumn quantity title) (.quantityOfScheme quantity title))

/-- Titles are distinct if the columns that they make with one quantity are. -/
theorem nodup_titles (chosen : c.quantities ≠ []) (distinct : (c.names titles).Nodup) :
    titles.Nodup := by
  obtain ⟨quantity, rest, quantities⟩ := List.exists_cons_of_ne_nil chosen
  have columns := (List.nodup_cons.mp distinct).2
  rw [pairs, quantities, List.flatMap_cons, List.map_append, List.map_map] at columns
  exact (List.nodup_append.mp columns).1.of_map

/-- Everything that can come of the columns of a comparison. -/
theorem columns_cases (c : Comparison) (titles : List String) :
    (c.columns titles = .ok (c.names titles) ∧ c.quantities ≠ [] ∧ (c.names titles).Nodup) ∨
      ∃ fault, c.columns titles = .error fault ∧ c.Refusal titles fault := by
  unfold columns
  cases quantities : c.quantities with
  | nil => exact .inr ⟨_, rfl, .noQuantities quantities⟩
  | cons quantity rest =>
    have chosen : c.quantities ≠ [] := quantities ▸ List.cons_ne_nil quantity rest
    rcases firstRepeated_cases List.nodup_nil titles with
      ⟨search, distinct⟩ | ⟨before, title, search, first⟩
    · rw [search]
      rcases addColumns_cases (List.nodup_singleton c.axis) (c.pairs titles) with
        ⟨added, distinct⟩ | ⟨before, q, t, after, place, failed, first⟩
      · exact .inl ⟨added, List.cons_ne_nil quantity rest, distinct⟩
      · exact .inr ⟨_, failed, .collision chosen distinct place first⟩
    · rw [search]
      exact .inr ⟨_, rfl, .repeatedTitle quantities first⟩

theorem Refusal.not_accepted {fault : Fault} (refused : c.Refusal titles fault)
    (chosen : c.quantities ≠ []) : ¬ (c.names titles).Nodup := by
  cases refused with
  | noQuantities none => exact absurd none chosen
  | repeatedTitle _ first => exact fun distinct => first.not_nodup (nodup_titles chosen distinct)
  | collision _ _ _ first => exact first.not_nodup

/-- Columns are refused for one reason. -/
theorem Refusal.unique {fault fault' : Fault} (refused : c.Refusal titles fault)
    (refused' : c.Refusal titles fault') : fault = fault' := by
  cases refused with
  | noQuantities none =>
    cases refused' with
    | noQuantities => rfl
    | repeatedTitle chosen => cases none.symm.trans chosen
    | collision chosen => exact absurd none chosen
  | repeatedTitle chosen first =>
    cases refused' with
    | noQuantities none => cases none.symm.trans chosen
    | repeatedTitle chosen' first' =>
      obtain ⟨rfl, -⟩ := List.cons.inj (chosen.symm.trans chosen')
      obtain ⟨-, rfl⟩ := first.unique first'
      rfl
    | collision _ distinct => exact absurd distinct first.not_nodup
  | collision chosen distinct place first =>
    cases refused' with
    | noQuantities none => exact absurd none chosen
    | repeatedTitle _ first' => exact absurd distinct first'.not_nodup
    | collision _ _ place' first' =>
      obtain ⟨names_before, -⟩ := first.unique first'
      have sized := congrArg List.length (List.cons.inj names_before).2
      rw [List.length_map, List.length_map] at sized
      obtain ⟨-, same⟩ := List.append_inj (place.symm.trans place') sized
      cases same
      rfl

/-- The columns of a comparison are accepted exactly if there is a quantity and the axis
and the names of all pairs are distinct, and are then these names. Otherwise they are
refused: with a faulty setting if there is no quantity, and else with a duplicate column,
which is that of the first repeated title, or, among distinct titles, the first name that
is the axis or an earlier name. -/
theorem columns_exact (c : Comparison) (titles : List String) :
    (∀ columns, c.columns titles = .ok columns ↔
      c.quantities ≠ [] ∧ (c.names titles).Nodup ∧ columns = c.names titles) ∧
    (∀ fault, c.columns titles = .error fault ↔ c.Refusal titles fault) ∧
    ∀ fault, c.Refusal titles fault →
      fault.kind = if c.quantities = [] then "ConfigError" else "DuplicateColumnError" := by
  refine ⟨?_, ?_, ?_⟩
  · intro columns
    rcases columns_cases c titles with ⟨named, chosen, distinct⟩ | ⟨fault, failed, refused⟩
    · rw [named, Except.ok.injEq]
      exact ⟨fun same => ⟨chosen, distinct, same.symm⟩, fun accepted => accepted.2.2.symm⟩
    · rw [failed]
      constructor
      · rintro ⟨⟩
      · rintro ⟨chosen, distinct, -⟩
        exact absurd distinct (refused.not_accepted chosen)
  · intro fault
    rcases columns_cases c titles with ⟨named, chosen, distinct⟩ | ⟨fault', failed, refused⟩
    · rw [named]
      constructor
      · rintro ⟨⟩
      · intro refused
        exact absurd distinct (refused.not_accepted chosen)
    · rw [failed, Except.error.injEq]
      constructor
      · rintro rfl
        exact refused
      · exact refused.unique
  · intro fault refused
    cases refused with
    | noQuantities none => rw [if_pos none]; rfl
    | repeatedTitle chosen => rw [if_neg (chosen ▸ List.cons_ne_nil _ _)]; rfl
    | collision chosen => rw [if_neg chosen]; rfl

/-- The quantity `a_b` of the scheme `c` and the quantity `a` of the scheme `b_c` would
have one column, although no title and no quantity is repeated. -/
theorem columns_joinedAlike :
    let c : Comparison := ⟨"h", ["a_b", "a"]⟩
    let clash : Fault := .duplicateColumn "a_b_c" (.quantityOfScheme "a" "b_c")
    c.Refusal ["c", "b_c"] clash ∧ c.columns ["c", "b_c"] = .error clash ∧
      clash.kind = "DuplicateColumnError" := by
  intro c clash
  have failed : c.columns ["c", "b_c"] = .error clash := by decide
  have refused : c.Refusal ["c", "b_c"] clash := ((columns_exact c _).2.1 clash).mp failed
  exact ⟨refused, failed, (columns_exact c _).2.2 clash refused⟩

end Comparison

end RefinementTables
