import RefinementTables.Proofs.Comparison.Texts
import RefinementTables.Proofs.Preferences
import RefinementTables.Proofs.Run.Tables
import RefinementTables.Proofs.Settings

/-!
The merge command, from its command line to the files it leaves.

What a merge writes is settled by a plan, which has what its command line and
configuration say, and by the texts that its files have on their common levels. The
paths of a plan are texts, and so valid Unicode.

* `Merges` — the plan of a command line and the tables that its files show.
* `MergePlan.readsAs_tableBytes` — the compared table is read as its header and its
  texts.
* `merge_end_to_end` — a merge that ends well leaves the compared table of these
  texts, and the figure of its plan; any other merge with the same plan and the
  same texts leaves the same bytes.
-/

namespace RefinementTables

open FileTree

variable {t : FileTree}

/-! ### Plans -/

/-- What a merge has to know, apart from what its files hold. -/
structure MergePlan where
  comparison : Comparison
  titles : List String
  delimiter : UInt8
  palette : Palette
  caption : String
  outPrefix : String
  plot : Option FigureFormat
deriving DecidableEq, Repr

namespace MergePlan

/-- The plan of a merge under settings. -/
def of (s : Settings) (titles : List String) (caption outPrefix : String)
    (plot : Option FigureFormat) : MergePlan where
  comparison := ⟨s.axis, s.quantities⟩
  titles := titles
  delimiter := s.delimiter
  palette := s.palette
  caption := caption
  outPrefix := outPrefix
  plot := plot

def tablePath (p : MergePlan) : String := s!"{p.outPrefix}.csv"

def figurePath (p : MergePlan) (format : FigureFormat) : String :=
  s!"{p.outPrefix}.{format.extension}"

/-- The axis, and then for each quantity one column for each title. -/
def header (p : MergePlan) : List String :=
  p.comparison.axis :: p.comparison.quantities.flatMap fun quantity =>
    p.titles.map (schemeColumn quantity)

theorem header_eq (p : MergePlan) :
    p.header = p.comparison.axis ::
      (p.comparison.pairs p.titles).map fun q => schemeColumn q.1 q.2 := by
  rw [header, Comparison.pairs, List.map_flatMap]
  simp only [List.map_map, Function.comp_def]

/-- The table with some texts below the header. -/
def tableBytes (p : MergePlan) (texts : List (List String)) : Bytes :=
  (p.header :: texts).flatMap (Delimited.encodeTexts p.delimiter)

/-- A reader finds the header and the texts in the table. -/
theorem readsAs_tableBytes {p : MergePlan} (ascii : p.delimiter < 128)
    (separates : Delimited.Separates p.delimiter)
    (unmarked : p.comparison.axis.toList.head? ≠ some '\uFEFF') {texts : List (List String)}
    (nonempty : ∀ row ∈ texts, row ≠ []) :
    Delimited.ReadsAs p.delimiter (p.tableBytes texts) (p.header :: texts) :=
  Delimited.readsAs_encoded ascii separates unmarked nonempty

/-- The styles of the schemes, handed out in the order of their titles. -/
def styles (p : MergePlan) : List Style :=
  p.titles.zipIdx.map fun (title, index) => p.palette.style title index

def figureBytes (p : MergePlan) (format : FigureFormat) : Bytes :=
  Text.toBytes (format.render
    (Figure.ofComparison p.comparison p.styles (fileName p.tablePath) p.delimiter p.caption))

/-- A tree with the outputs of a plan: the table with some texts, and the figure if
one is wanted. -/
structure LeftIn (p : MergePlan) (texts : List (List String)) (t : FileTree) : Prop where
  table : ∃ place, t.find p.tablePath = .ok (place, .file (p.tableBytes texts))
  figure : ∀ format ∈ p.plot, ∃ place,
    t.find (p.figurePath format) = .ok (place, .file (p.figureBytes format))

end MergePlan

/-- A command line merges tables by a plan: it names files and then as many titles,
and the files show the tables under its settings. -/
inductive Merges (arguments : List String) (t : FileTree) : MergePlan → List DataTable → Prop where
  | intro {i : Invocation} {files titles : List String} {caption outPrefix : String}
      {plot : FigureFormat} {noPlot : Bool} {overrides : Overrides} {s : Settings}
      {tables : List DataTable}
      (parsed : CommandLine.parse arguments = .ok i)
      (command : i.command = .merge (files ++ titles) caption outPrefix plot noPlot overrides)
      (sized : files.length = titles.length)
      (settled : Run.settings t i.configuration overrides .merge = .ok s)
      (shown : List.Forall₂ (s.Shows t) files tables) :
      Merges arguments t
        (.of s titles caption outPrefix (if noPlot then none else some plot)) tables

/-! ### Inputs -/

theorem filesAndTitles_eq_ok_iff {inputs files titles : List String} :
    filesAndTitles inputs = .ok (files, titles) ↔
      inputs = files ++ titles ∧ files.length = titles.length := by
  unfold filesAndTitles
  constructor
  · intro h
    split at h
    · next even =>
      cases h
      refine ⟨(List.take_append_drop _ _).symm, ?_⟩
      rw [List.length_take, List.length_drop]
      omega
    · cases h
  · rintro ⟨rfl, sized⟩
    have half : (files ++ titles).length / 2 = files.length := by
      rw [List.length_append]
      omega
    have even : (files ++ titles).length % 2 = 0 := by
      rw [List.length_append]
      omega
    rw [if_pos even, half, List.take_left, List.drop_left]

namespace Run

variable {s : Settings} {inputs files titles : List String} {caption outPrefix : String}
  {plot : Option FigureFormat}

/-- The schemes of a merge are its titles, with the rows of its files. -/
theorem openSchemes_ok {opened : MergeInputs} (sized : files.length = titles.length)
    (ok : openSchemes s t files titles = .ok opened) :
    opened.comparison = ⟨s.axis, s.quantities⟩ ∧
      opened.styles = (titles.zipIdx.map fun (title, index) => s.palette.style title index) ∧
      opened.schemes.map Scheme.title = titles ∧
      List.Forall₂ (fun file scheme => ∃ source, s.openStudy t file = .ok source ∧
        scheme.rows = source.rows) files opened.schemes := by
  obtain ⟨columns, -, h⟩ := bind_eq_ok_iff.mp ok
  obtain ⟨styles, styled, h⟩ := bind_eq_ok_iff.mp h
  obtain ⟨schemes, mapped, h⟩ := bind_eq_ok_iff.mp h
  cases h
  obtain ⟨⟨⟩, -, styled⟩ := bind_eq_ok_iff.mp styled
  cases styled
  have each : List.Forall₂ (fun (p : String × String) scheme => ∃ source,
      s.openStudy t p.1 = .ok source ∧ scheme = ⟨p.2, source.rows⟩) (files.zip titles) schemes := by
    refine (mapM_eq_ok_iff.mp mapped).imp ?_
    rintro ⟨file, title⟩ scheme h
    obtain ⟨source, opened, h⟩ := bind_eq_ok_iff.mp h
    cases h
    exact ⟨source, opened, rfl⟩
  refine ⟨rfl, rfl, ?_, ?_⟩
  · have same : (files.zip titles).map Prod.snd = schemes.map Scheme.title := by
      refine map_eq_map_of_forall₂ (each.imp ?_)
      rintro p scheme ⟨source, -, rfl⟩
      rfl
    exact same.symm.trans (List.map_snd_zip (Nat.le_of_eq sized.symm))
  · have files_eq : (files.zip titles).map Prod.fst = files :=
      List.map_fst_zip (Nat.le_of_eq sized)
    rw [← files_eq, List.forall₂_map_left_iff]
    refine each.imp ?_
    rintro p scheme ⟨source, opened, rfl⟩
    exact ⟨source, opened, rfl⟩

/-- A merge that ends well has opened its files, merged their schemes and delivered
the outputs. -/
theorem merge_delivers (ended : (merge s t inputs caption outPrefix plot).result = .ok ()) :
    ∃ files titles opened table before report,
      filesAndTitles inputs = .ok (files, titles) ∧
      openSchemes s t files titles = .ok opened ∧
      opened.comparison.merge opened.schemes = .ok table ∧
      merge s t inputs caption outPrefix plot =
        deliver t before (mergeOutputs s opened table caption outPrefix plot) report := by
  unfold merge at ended ⊢
  dsimp only at ended ⊢
  split at ended
  · cases ended
  · next opened opened_ok =>
    obtain ⟨⟨files, titles⟩, halves, opened_ok'⟩ := bind_eq_ok_iff.mp opened_ok
    split at ended
    · cases ended
    · next table merged =>
      exact ⟨files, titles, opened, table, _, _, halves, opened_ok', merged, rfl⟩

/-- The files of a merge that ends well show tables. -/
theorem merge_shows (ended : (merge s t inputs caption outPrefix plot).result = .ok ()) :
    ∃ files titles tables, inputs = files ++ titles ∧ files.length = titles.length ∧
      List.Forall₂ (s.Shows t) files tables := by
  obtain ⟨files, titles, opened, table, -, -, halves, opened_ok, merged, -⟩ := merge_delivers ended
  obtain ⟨split, sized⟩ := filesAndTitles_eq_ok_iff.mp halves
  obtain ⟨-, -, -, sources⟩ := openSchemes_ok sized opened_ok
  have each : ∀ file ∈ files, ∃ d, s.Shows t file d := by
    intro file mem
    obtain ⟨scheme, hs, source, opened, rows⟩ := exists_of_mem_left sources mem
    have sound := Comparison.merge_sound merged scheme hs
    rw [rows] at sound
    obtain ⟨d, shows, -⟩ := Settings.openStudy_ok opened sound
    exact ⟨d, shows⟩
  obtain ⟨tables, shown⟩ := exists_forall₂ each
  exact ⟨files, titles, tables, split, sized, shown⟩

/-- The schemes that were opened have the rows of these tables, if the schemas are
without repetition. -/
theorem schemes_show {tables : List DataTable} {schemes : List Scheme}
    (sources : List.Forall₂ (fun file scheme => ∃ source, s.openStudy t file = .ok source ∧
      scheme.rows = source.rows) files schemes)
    (sound : ∀ scheme ∈ schemes, FaultFree scheme.rows)
    (shown : List.Forall₂ (s.Shows t) files tables) (distinct : ∀ d ∈ tables, d.schema.Nodup) :
    List.Forall₂ (Comparison.Shows ⟨s.axis, s.quantities⟩) schemes tables := by
  refine forall₂_of_mem (forall₂_join sources shown) ?_
  rintro scheme hs d hd ⟨file, ⟨source, opened, rows⟩, shows⟩
  have source_sound := sound scheme hs
  rw [rows] at source_sound
  obtain ⟨d', shows', declared, -, represented⟩ := Settings.openStudy_ok opened source_sound
  cases shows.unique shows'
  obtain ⟨table_rows, rows_eq, represents⟩ := represented (distinct d hd)
  refine ⟨?_, declared⟩
  rw [rows, rows_eq, Comparison.rowsOf_map_ok]
  exact represents

/-- The table and the figure of a merge are different files. -/
theorem apart_mergeOutputs (t : FileTree) (opened : MergeInputs) (table : ComparedTable) :
    Apart (mergeOutputs s opened table caption outPrefix plot) t := by
  cases plot with
  | none => exact List.pairwise_singleton _ _
  | some format =>
    refine List.pairwise_pair.mpr fun place named => filePlace?_ne ?_ named
    cases format <;> simp [FigureFormat.extension, toString]

/-- A merge that ends well leaves the outputs of its plan. -/
theorem merge_leftIn (tree : t.IsTree) {tables : List DataTable}
    (ended : (merge s t (files ++ titles) caption outPrefix plot).result = .ok ())
    (sized : files.length = titles.length) (shown : List.Forall₂ (s.Shows t) files tables)
    (distinct : ∀ d ∈ tables, d.schema.Nodup) :
    ∃ texts : List (List String),
      texts.map (·.map some) = Comparison.allTexts ⟨s.axis, s.quantities⟩ tables ∧
      (MergePlan.of s titles caption outPrefix plot).LeftIn texts
        (merge s t (files ++ titles) caption outPrefix plot).tree := by
  obtain ⟨files', titles', opened, table, before, report, halves, opened_ok, merged, delivers⟩ :=
    merge_delivers ended
  rw [filesAndTitles_eq_ok_iff.mpr ⟨rfl, sized⟩] at halves
  cases halves
  obtain ⟨comparison, styles, titles_eq, sources⟩ := openSchemes_ok sized opened_ok
  rw [delivers] at ended ⊢
  have left := deliver_find tree before (apart_mergeOutputs t opened table) report ended
  have shows := schemes_show sources (Comparison.merge_sound merged) shown distinct
  rw [← comparison] at shows ⊢
  obtain ⟨texts, tabulates, all⟩ :=
    Comparison.merge_tabulates shows merged (l := s.layout table.columns) rfl
  have table_bytes : ((s.layout table.columns).write (table.rows.map .ok)).bytes =
      (MergePlan.of s titles caption outPrefix plot).tableBytes texts := by
    obtain ⟨-, -, -, -, -, named, -⟩ := Comparison.merge_ok merged
    obtain ⟨columns, -⟩ := Comparison.columns_ok named
    rw [titles_eq, comparison] at columns
    rw [Layout.write_ok tabulates, MergePlan.tableBytes, MergePlan.header_eq]
    have written : (s.layout table.columns).columns = _ := columns
    rw [written]
    rfl
  refine ⟨texts, all, ?_, ?_⟩
  · obtain ⟨place, found⟩ := left _ List.mem_cons_self
    rw [← table_bytes]
    exact ⟨place, found⟩
  · rintro format ⟨⟩
    obtain ⟨place, found⟩ := left _ (List.mem_cons_of_mem _ List.mem_cons_self)
    rw [comparison, styles] at found
    exact ⟨place, found⟩

end Run

/-! ### Command lines -/

/-- A merge that a command line asks for, run under the settings it comes to. -/
theorem exists_settings {arguments inputs : List String} {i : Invocation}
    {caption outPrefix : String} {plot : FigureFormat} {noPlot : Bool} {overrides : Overrides}
    (parsed : CommandLine.parse arguments = .ok i)
    (command : i.command = .merge inputs caption outPrefix plot noPlot overrides)
    (ended : (runCommandLine arguments t).exitCode = 0) :
    ∃ s, Run.settings t i.configuration overrides .merge = .ok s ∧
      (Run.merge s t inputs caption outPrefix (if noPlot then none else some plot)).result = .ok () ∧
      (runCommandLine arguments t).tree t =
        (Run.merge s t inputs caption outPrefix (if noPlot then none else some plot)).tree := by
  obtain ⟨run_ok, tree_eq⟩ := Run.runs_of_exitCode parsed ended
  simp only [Invocation.run, command] at run_ok tree_eq
  obtain ⟨s, settled, merged, run_eq⟩ := Run.withSettings_ok run_ok
  rw [run_eq] at tree_eq
  exact ⟨s, settled, merged, tree_eq⟩

/-- A command line has one plan at the most, and its files show the tables they
show. -/
theorem Merges.unique {arguments : List String} {plan plan' : MergePlan}
    {tables tables' : List DataTable} (merges : Merges arguments t plan tables)
    (merges' : Merges arguments t plan' tables') : plan = plan' ∧ tables = tables' := by
  obtain ⟨parsed, command, sized, settled, shown⟩ := merges
  obtain ⟨parsed', command', sized', settled', shown'⟩ := merges'
  cases parsed.symm.trans parsed'
  injection command.symm.trans command' with inputs caption outPrefix plot noPlot overrides
  cases caption
  cases outPrefix
  cases plot
  cases noPlot
  cases overrides
  have lengths := congrArg List.length inputs
  rw [List.length_append, List.length_append] at lengths
  obtain ⟨rfl, rfl⟩ := List.append_inj inputs (by omega)
  cases settled.symm.trans settled'
  refine ⟨rfl, ?_⟩
  rw [← List.forall₂_eq_eq_eq]
  refine (forall₂_join shown shown').imp ?_
  rintro d d' ⟨file, shows, shows'⟩
  exact shows.unique shows'

/-- The settings of a run are resolved from some preferences. -/
theorem Run.settings_ok {configuration : Option String} {overrides : Overrides}
    {defaults : Defaults} {s : Settings}
    (settled : Run.settings t configuration overrides defaults = .ok s) :
    ∃ preferences, (overrides.apply preferences).resolve defaults = .ok s := by
  cases configuration with
  | none => exact ⟨.standard, settled⟩
  | some path =>
    obtain ⟨preferences, -, resolved⟩ := bind_eq_ok_iff.mp settled
    exact ⟨preferences, resolved⟩

theorem Merges.delimiter_lt {arguments : List String} {plan : MergePlan} {tables : List DataTable}
    (merges : Merges arguments t plan tables) : plan.delimiter < 128 := by
  obtain ⟨-, -, -, settled, -⟩ := merges
  obtain ⟨preferences, resolved⟩ := Run.settings_ok settled
  exact Preferences.delimiter_lt_of_resolve resolved

/-- A merge that ends well leaves the outputs of its plan, with the texts that its
files have on their common levels. -/
theorem Merges.leftIn {arguments : List String} {plan : MergePlan} {tables : List DataTable}
    (tree : t.IsTree) (merges : Merges arguments t plan tables)
    (ended : (runCommandLine arguments t).exitCode = 0) (distinct : ∀ d ∈ tables, d.schema.Nodup) :
    ∃ texts : List (List String), texts.map (·.map some) = plan.comparison.allTexts tables ∧
      plan.LeftIn texts ((runCommandLine arguments t).tree t) := by
  obtain ⟨parsed, command, sized, settled, shown⟩ := merges
  obtain ⟨s, settled', merged, tree_eq⟩ := exists_settings parsed command ended
  rw [settled] at settled'
  cases settled'
  rw [tree_eq]
  exact Run.merge_leftIn tree merged sized shown distinct

/-- A merge that ends well has a plan, and its files show tables. If the names in
each of their schemas are distinct, it leaves the table whose rows are the texts
that these files have on their common levels, and the figure of the plan. A reader
finds the header and these texts in the table again, if the delimiter can be told from
quotes and breaks and no byte order mark begins the header. Any other command line with
the same plan leaves the same, if its files have the same texts. -/
theorem merge_end_to_end (tree : t.IsTree) {arguments inputs : List String} {i : Invocation}
    {caption outPrefix : String} {plot : FigureFormat} {noPlot : Bool} {overrides : Overrides}
    (parsed : CommandLine.parse arguments = .ok i)
    (command : i.command = .merge inputs caption outPrefix plot noPlot overrides)
    (ended : (runCommandLine arguments t).exitCode = 0) :
    ∃ plan tables, Merges arguments t plan tables ∧
      ((∀ d ∈ tables, d.schema.Nodup) →
        ∃ texts : List (List String), texts.map (·.map some) = plan.comparison.allTexts tables ∧
          plan.LeftIn texts ((runCommandLine arguments t).tree t) ∧
          (Delimited.Separates plan.delimiter →
            plan.comparison.axis.toList.head? ≠ some '\uFEFF' →
            Delimited.ReadsAs plan.delimiter (plan.tableBytes texts) (plan.header :: texts)) ∧
          ∀ t' arguments' tables', t'.IsTree → Merges arguments' t' plan tables' →
            (runCommandLine arguments' t').exitCode = 0 → (∀ d ∈ tables', d.schema.Nodup) →
            plan.comparison.allTexts tables' = plan.comparison.allTexts tables →
            plan.LeftIn texts ((runCommandLine arguments' t').tree t')) := by
  obtain ⟨s, settled, merged, -⟩ := exists_settings parsed command ended
  obtain ⟨files, titles, tables, rfl, sized, shown⟩ := Run.merge_shows merged
  have merges := Merges.intro parsed command sized settled shown
  refine ⟨_, tables, merges, ?_⟩
  intro distinct
  obtain ⟨texts, all, left⟩ := merges.leftIn tree ended distinct
  have filled : ∀ row ∈ texts, row ≠ [] := by
    rintro row mem rfl
    exact absurd (all ▸ List.mem_map_of_mem mem) Comparison.nil_not_mem_allTexts
  refine ⟨texts, all, left, ?_, ?_⟩
  · intro separates unmarked
    exact MergePlan.readsAs_tableBytes merges.delimiter_lt separates unmarked filled
  intro t' arguments' tables' tree' merges' ended' distinct' same
  obtain ⟨texts', all', left'⟩ := merges'.leftIn tree' ended' distinct'
  cases eq_of_map_map_some ((all'.trans same).trans all.symm)
  exact left'

/-- Two tables of one common level. -/
def plainTables : FileTree where
  here := []
  nodes := [
    (.named [], .directory),
    (.named ["a.csv"], .file (Text.toBytes "h,e\n1,2\n3,4\n")),
    (.named ["b.csv"], .file (Text.toBytes "e,h\n\"5,\",1\n"))]
  unused := 0

/-- The same level in other files: the columns in another order, with one that is
not compared, and with other quotes and padding. -/
def paddedTables : FileTree where
  here := []
  nodes := [
    (.named [], .directory),
    (.named ["x.csv"], .file (Text.toBytes "n, e ,h\r\n0,\" 2\",1\r\n")),
    (.named ["y.csv"], .file (Text.toBytes "h,e\n7,\"5,\"\n\n8,9\n"))]
  unused := 0

/-- The settings under which both are merged. -/
def commaSettings : Settings where
  axis := "h"
  quantities := ["e"]
  columns := none
  columnsFromHeader := true
  delimiter := 44
  sentinel := .absent
  hasHeaderRow := true
  lenient := false
  palette := .standard

/-- Both merges leave the same table and the same figure. -/
theorem plain_and_padded :
    let options :=
      ["A", "B", "--columns-from-header", "--delimiter", ",", "--axis", "h", "--quantities", "e"]
    let arguments := "merge" :: "a.csv" :: "b.csv" :: options
    let arguments' := "-q" :: "merge" :: "x.csv" :: "y.csv" :: options
    plainTables.IsTree ∧ (runCommandLine arguments plainTables).exitCode = 0 ∧
      ∃ (plan : MergePlan) (texts : List (List String)),
        plan.header = ["h", "e_A", "e_B"] ∧ texts = [["1", "2", "5,"]] ∧
        Delimited.ReadsAs plan.delimiter (plan.tableBytes texts) (plan.header :: texts) ∧
        plan.LeftIn texts ((runCommandLine arguments plainTables).tree plainTables) ∧
        plan.LeftIn texts ((runCommandLine arguments' paddedTables).tree paddedTables) := by
  intro options arguments arguments'
  let overrides : Overrides := ⟨["e"], [], true, some "h", some ',', none, false, false⟩
  have tree : plainTables.IsTree := isTree_of_nodes (by decide) (by decide)
  let invocation : List String → Bool → Invocation := fun files quiet =>
    ⟨none, 0, quiet, .merge (files ++ ["A", "B"]) "" "out" .tex false overrides⟩
  have parsed : CommandLine.parse arguments = .ok (invocation ["a.csv", "b.csv"] false) := by
    decide +kernel
  have parsed' : CommandLine.parse arguments' = .ok (invocation ["x.csv", "y.csv"] true) := by
    decide +kernel
  have ended : (runCommandLine arguments plainTables).exitCode = 0 := by decide +kernel
  have plain : Merges arguments plainTables (.of commaSettings ["A", "B"] "" "out" (some .tex))
      [⟨["h", "e"], [["1", "2"], ["3", "4"]]⟩, ⟨["e", "h"], [["5,", "1"]]⟩] := by
    refine .intro parsed rfl rfl (by decide +kernel) ?_
    refine .cons ⟨by decide +kernel, ["a.csv"], _, rfl, by decide +kernel⟩ ?_
    exact .cons ⟨by decide +kernel, ["b.csv"], _, rfl, by decide +kernel⟩ .nil
  have padded : Merges arguments' paddedTables (.of commaSettings ["A", "B"] "" "out" (some .tex))
      [⟨["n", "e", "h"], [["0", "2", "1"]]⟩, ⟨["h", "e"], [["7", "5,"], ["8", "9"]]⟩] := by
    refine .intro parsed' rfl rfl (by decide +kernel) ?_
    refine .cons ⟨by decide +kernel, ["x.csv"], _, rfl, by decide +kernel⟩ ?_
    exact .cons ⟨by decide +kernel, ["y.csv"], _, rfl, by decide +kernel⟩ .nil
  obtain ⟨plan, tables, merges, leaves⟩ := merge_end_to_end tree parsed rfl ended
  obtain ⟨rfl, rfl⟩ := merges.unique plain
  obtain ⟨texts, all, left, read, others⟩ := leaves (by decide)
  have read_back := read (Delimited.separates_iff.mpr (by decide)) (by decide)
  refine ⟨tree, ended, _, texts, by decide +kernel, ?_, read_back, left, ?_⟩
  · have level : Comparison.allTexts ⟨"h", ["e"]⟩
        [⟨["h", "e"], [["1", "2"], ["3", "4"]]⟩, ⟨["e", "h"], [["5,", "1"]]⟩] =
        [["1", "2", "5,"]].map (·.map some) := by decide
    exact eq_of_map_map_some (all.trans level)
  · exact others paddedTables arguments' _ (isTree_of_nodes (by decide) (by decide)) padded
      (by decide +kernel) (by decide) (by decide +kernel)

end RefinementTables
