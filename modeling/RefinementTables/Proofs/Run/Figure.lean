import RefinementTables.Proofs.Plot.Palette
import RefinementTables.Proofs.Plot.Tex
import RefinementTables.Proofs.Run.Merge

/-!
The figure of a merge and its table.

The columns of the table and the curves of the figure are made apart, from the same
quantities and titles. What a merge leaves has them in step.

* `curves_ofComparison` — the curves of a figure in terms of the pairs of quantities
  and titles that also make the columns.
* `figure_in_step` — every curve is drawn from the first column of the table that is
  delivered with it and from a column of its own.
-/

namespace RefinementTables

open FileTree

variable {t : FileTree}

/-! ### Curves -/

namespace Figure

variable {c : Comparison} {styles : List Style} {table caption : String} {delimiter : UInt8}

theorem quantities_ofComparison :
    (ofComparison c styles table delimiter caption).panels.map Panel.quantity = c.quantities := by
  simp [ofComparison, Function.comp_def, panel]

theorem legends_ofComparison {p : Panel}
    (mem : p ∈ (ofComparison c styles table delimiter caption).panels) :
    p.curves.map Curve.legend = styles.map Style.title := by
  obtain ⟨quantity, -, rfl⟩ := List.mem_map.mp mem
  simp [panel, Function.comp_def, curve]

theorem x_ofComparison {curve : Curve}
    (mem : curve ∈ (ofComparison c styles table delimiter caption).curves) : curve.x = c.axis := by
  obtain ⟨p, hp, mem⟩ := List.mem_flatMap.mp mem
  obtain ⟨quantity, -, rfl⟩ := List.mem_map.mp hp
  obtain ⟨style, -, rfl⟩ := List.mem_map.mp mem
  rfl

/-- The ordinates of a figure are the columns of the pairs of its quantities and its
styles' titles. -/
theorem ys_ofComparison :
    (ofComparison c styles table delimiter caption).curves.map Curve.y =
      (c.pairs (styles.map Style.title)).map fun p => schemeColumn p.1 p.2 := by
  simp [ofComparison, curves, Comparison.pairs, List.map_flatMap, List.flatMap_map,
    Function.comp_def, panel, curve]

/-- A figure in step with the columns of a table: its panels are those of some
quantities and their curves those of some titles, the abscissa of every curve is the
first column, and the ordinates are the other columns in their order, each of them
once. -/
structure InStep (figure : Figure) (columns quantities titles : List String) : Prop where
  quantities : figure.panels.map Panel.quantity = quantities
  legends : ∀ p ∈ figure.panels, p.curves.map Curve.legend = titles
  abscissas : ∀ c ∈ figure.curves, columns.head? = some c.x
  ordinates : figure.curves.map Curve.y = columns.tail
  once : ∀ column ∈ columns.tail, (figure.curves.map Curve.y).count column = 1

/-- The figure of a comparison is in step with its columns. -/
theorem inStep_ofComparison {columns titles : List String} (named : c.columns titles = .ok columns)
    (titled : styles.map Style.title = titles) :
    (ofComparison c styles table delimiter caption).InStep columns c.quantities titles := by
  obtain ⟨rfl, distinct⟩ := Comparison.columns_ok named
  have ys : (ofComparison c styles table delimiter caption).curves.map Curve.y =
      (c.pairs titles).map fun p => schemeColumn p.1 p.2 := titled ▸ ys_ofComparison
  exact {
    quantities := quantities_ofComparison
    legends := fun p mem => (legends_ofComparison mem).trans titled
    abscissas := fun curve mem => congrArg some (x_ofComparison mem).symm
    ordinates := ys
    once := fun column mem => by
      rw [ys]
      exact List.count_eq_one_of_mem (List.nodup_cons.mp distinct).2 mem }

end Figure

/-! ### Merges -/

namespace Run

variable {s : Settings} {inputs : List String} {caption outPrefix : String} {format : FigureFormat}

/-- A merge that draws a figure and ends well delivers it together with a table, and
the two are in step: the figure has the quantities of the settings and the titles of
the merge, refers to the table by the name of its file, and has curves through the
columns of its header. In TeX, the references of the curves stand in the order of
these columns. -/
theorem figure_in_step (tree : t.IsTree)
    (ended : (merge s t inputs caption outPrefix (some format)).result = .ok ()) :
    ∃ (files titles columns : List String) (figure : Figure) (outputs : List Output)
      (before : List Event) (report : List String → List Nat → List Event) (rows : Bytes)
      (place place' : Place),
      let left := (merge s t inputs caption outPrefix (some format)).tree
      let tableBytes := (s.layout columns).header ++ rows
      let figureText := format.render figure
      inputs = files ++ titles ∧ files.length = titles.length ∧
      figure.InStep columns s.quantities titles ∧
      (merge s t inputs caption outPrefix (some format) = deliver t before outputs report ∧
        outputs.map Output.content = [(s!"{outPrefix}.csv", tableBytes),
          (s!"{outPrefix}.{format.extension}", Text.toBytes figureText)]) ∧
      left.find s!"{outPrefix}.csv" = .ok (place, .file tableBytes) ∧
      place.getLast? = some figure.table ∧
      left.find s!"{outPrefix}.{format.extension}" =
        .ok (place', .file (Text.toBytes figureText)) ∧
      (format = .tex → Text.InOrder (figure.curves.map (Tex.reference figure)) figureText ∧
        (figure.Unbroken → (Text.splitText '\n' figureText).filter Tex.isReference =
          figure.curves.map (Tex.reference figure))) := by
  obtain ⟨files, titles, opened, table, before, report, halves, opened_ok, merged, delivers⟩ :=
    merge_delivers ended
  obtain ⟨split, sized⟩ := filesAndTitles_eq_ok_iff.mp halves
  obtain ⟨comparison, styles, titles_eq, -⟩ := openSchemes_ok sized opened_ok
  obtain ⟨-, -, -, -, -, named, -⟩ := Comparison.merge_ok merged
  rw [titles_eq] at named
  have titled : opened.styles.map Style.title = titles := by
    rw [styles]
    exact Palette.map_title_handedOut s.palette titles
  have quantities : opened.comparison.quantities = s.quantities := by
    rw [comparison]
  rw [delivers] at ended ⊢
  have found := deliver_find tree before (apart_mergeOutputs t opened table) report ended
  obtain ⟨place, table_found⟩ := found _ List.mem_cons_self
  obtain ⟨place', figure_found⟩ := found _ (List.mem_cons_of_mem _ List.mem_cons_self)
  have place_named := ((find_file_iff (deliver_leaves tree ended).tree).mp table_found).1
  refine ⟨files, titles, table.columns, _, _, before, report, _, place, place', split, sized,
    quantities ▸ Figure.inStep_ofComparison named titled, ⟨rfl, rfl⟩, table_found,
    (getLast?_eq_fileName place_named).1, figure_found, ?_⟩
  rintro rfl
  exact ⟨Tex.references_inOrder _ _, Tex.references_exact _⟩

/-- The figure of two plain tables has one curve for each, from the columns of the
table `out.csv`. -/
theorem plainTables_figure :
    let merged := merge commaSettings plainTables ["a.csv", "b.csv", "A", "B"] "" "out" (some .tex)
    plainTables.IsTree ∧ merged.result = .ok () ∧
      ∃ (columns : List String) (figure : Figure) (place : Place),
        figure.InStep columns ["e"] ["A", "B"] ∧ figure.table = "out.csv" ∧
        Text.InOrder (figure.curves.map (Tex.reference figure)) (FigureFormat.tex.render figure) ∧
        merged.tree.find "out.tex" =
          .ok (place, .file (Text.toBytes (FigureFormat.tex.render figure))) := by
  intro merged
  have tree : plainTables.IsTree := isTree_of_nodes (by decide) (by decide)
  have ended : merged.result = .ok () := by decide +kernel
  obtain ⟨files, titles, columns, figure, outputs, before, report, rows, place, place', split, sized,
    inStep, -, table_found, table_named, figure_found, tex⟩ := figure_in_step tree ended
  have halves : ["a.csv", "b.csv"] ++ ["A", "B"] = files ++ titles := split
  have half : ["a.csv", "b.csv"].length = files.length := by
    have lengths := congrArg List.length halves
    simp only [List.length_append, List.length_cons, List.length_nil] at lengths ⊢
    omega
  obtain ⟨rfl, rfl⟩ := List.append_inj halves half
  have named : figure.table = "out.csv" := by
    have there : (merged.tree.find "out.csv").map Prod.fst = .ok ["out.csv"] := by decide +kernel
    have found : merged.tree.find "out.csv" = .ok (place, _) := table_found
    rw [found] at there
    cases there
    exact (Option.some.inj table_named).symm
  exact ⟨tree, ended, columns, figure, place', inStep, named, (tex rfl).1, figure_found⟩

end Run

end RefinementTables
