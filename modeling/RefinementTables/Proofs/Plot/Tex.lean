import RefinementTables.Plot.Format
import RefinementTables.Proofs.Plot.Escape
import RefinementTables.Proofs.Text

/-!
The references of a figure in TeX.

A rendered figure is a sequence of lines. For each curve one of them begins with
`table[x=` and names the columns and the table that the curve is drawn from.

* `references_inOrder` — these lines occur in the text in the order of the panels
  and of their curves.
* `references_exact` — they are all lines that begin so, if no text of the figure
  has a line break in it.
-/

namespace RefinementTables

/-! ### Lines -/

namespace Text

/-- Some lines, each with a break behind it. -/
def unlines (lines : List String) : String := String.join (lines.map (· ++ "\n"))

/-- Texts that occur in another one after the other. -/
inductive InOrder : List String → String → Prop where
  | nil (text : String) : InOrder [] text
  | cons {first before after : String} {rest : List String} :
      InOrder rest after → InOrder (first :: rest) (before ++ first ++ after)

theorem InOrder.prepend {texts : List String} {text : String} (inOrder : InOrder texts text)
    (before : String) : InOrder texts (before ++ text) := by
  cases inOrder with
  | nil => exact .nil _
  | @cons first between after rest later =>
    rw [← String.append_assoc, ← String.append_assoc]
    exact .cons later

theorem unlines_cons (line : String) (lines : List String) :
    unlines (line :: lines) = line ++ "\n" ++ unlines lines := by
  rw [unlines, List.map_cons, String.join_cons]
  rfl

theorem unlines_append (lines later : List String) :
    unlines (lines ++ later) = unlines lines ++ unlines later := by
  rw [unlines, List.map_append, String.join_append]
  rfl

/-- Some of the lines of a text occur in it, in their order. -/
theorem inOrder_unlines {texts lines : List String} (some_of : texts.Sublist lines) :
    InOrder texts (unlines lines) := by
  induction some_of with
  | slnil => exact .nil _
  | @cons texts lines line _ ih =>
    rw [unlines_cons]
    exact ih.prepend _
  | @cons_cons texts lines line _ ih =>
    rw [unlines_cons, ← String.empty_append (s := line), String.append_assoc]
    exact .cons (ih.prepend _)

/-- Lines without breaks in them are what is between the breaks. -/
theorem splitText_unlines {lines : List String} (whole : ∀ line ∈ lines, '\n' ∉ line.toList) :
    splitText '\n' (unlines lines) = lines ++ [""] := by
  induction lines with
  | nil => rfl
  | cons line lines ih =>
    obtain ⟨first, later⟩ := List.forall_mem_cons.mp whole
    have text : (unlines (line :: lines)).toList = line.toList ++ '\n' :: (unlines lines).toList := by
      rw [unlines_cons]
      simp
    rw [splitText, text, split_eq_splitOn, List.splitOn_append_cons_self_of_not_mem first,
      ← split_eq_splitOn, List.map_cons, String.ofList_toList]
    exact congrArg (line :: ·) (ih later)

end Text

/-! ### References -/

/-- The curves of a figure, panel after panel. -/
def Figure.curves (f : Figure) : List Curve := f.panels.flatMap Panel.curves

/-- A figure without line breaks in its texts. -/
structure Figure.Unbroken (f : Figure) : Prop where
  table : '\n' ∉ f.table.toList
  separator : '\n' ∉ f.separator.toList
  caption : '\n' ∉ f.caption.toList
  panels : ∀ p ∈ f.panels, '\n' ∉ p.quantity.toList ∧ '\n' ∉ p.xLabel.toList
  curves : ∀ c ∈ f.curves, '\n' ∉ c.legend.toList ∧ '\n' ∉ c.x.toList ∧ '\n' ∉ c.y.toList ∧
    '\n' ∉ c.color.toList ∧ '\n' ∉ c.mark.toList

namespace Tex

/-- The line that refers a curve to columns of a table. -/
def reference (figure : Figure) (c : Curve) : String :=
  "table[x=" ++ c.x ++ ",y=" ++ c.y ++ ",col sep=" ++ figure.separator ++ "] " ++
    Style.group figure.table ++ ";\\addlegendentry" ++ Style.group (escape c.legend)

/-- Whether a line begins as a reference. -/
def isReference (line : String) : Bool := "table[x=".toList.isPrefixOf line.toList

theorem isReference_reference (figure : Figure) (c : Curve) :
    isReference (reference figure c) = true := by
  unfold isReference reference
  simp [List.isPrefixOf]

namespace Style

variable (s : Style) (figure : Figure)

/-- The lines of a panel. -/
def panelLines (p : Panel) (index : Nat) : List String :=
  ["\\subfloat\x7b", "\\begin" ++ group "tikzpicture" ++ "[scale=\\plotscale]",
      "\\begin" ++ group s.environment ++ "[",
      "legend style=" ++ group " at=\x7b(1.02,1)\x7d,anchor=north west" ++ ",",
      "xlabel=" ++ escape p.xLabel ++ ",", "ylabel=$ERR_" ++ group (escape p.quantity) ++ "$]"] ++
    (p.curves.flatMap fun c =>
      ["\\addplot[color=" ++ c.color ++ ",mark=" ++ c.mark ++ "]", reference figure c]) ++
    ["\\end" ++ group s.environment, "\\end" ++ group "tikzpicture" ++ "\x7d" ++
      if (index + 1) % max s.panelsPerLine 1 = 0 then "\\\\" else ""]

/-- The lines of a figure. -/
def lines : List String :=
  ["\\begin" ++ group "figure"] ++
    (figure.panels.zipIdx.flatMap fun (p, index) => s.panelLines figure p index) ++
    ["\\caption" ++ group (escape figure.caption) ++ "\\end" ++ group "figure"]

theorem unlines_curveLines (c : Curve) :
    Text.unlines ["\\addplot[color=" ++ c.color ++ ",mark=" ++ c.mark ++ "]",
      reference figure c] = curve figure c := by
  unfold Text.unlines reference curve
  rw [← String.toList_inj]
  simp

theorem unlines_panelLines (p : Panel) (index : Nat) :
    Text.unlines (s.panelLines figure p index) = s.panel figure p ++ s.lineBreak index := by
  have curves : Text.unlines (p.curves.flatMap fun c =>
      ["\\addplot[color=" ++ c.color ++ ",mark=" ++ c.mark ++ "]", reference figure c]) =
      String.join (p.curves.map (curve figure)) := by
    induction p.curves with
    | nil => rfl
    | cons c rest ih =>
      rw [List.flatMap_cons, Text.unlines_append, ih, List.map_cons, String.join_cons,
        unlines_curveLines]
  unfold panelLines panel lineBreak
  rw [Text.unlines_append, Text.unlines_append, curves]
  unfold Text.unlines
  rw [← String.toList_inj]
  split <;> simp

theorem render_eq : s.render figure = Text.unlines (s.lines figure) := by
  have panels : ∀ panels : List (Panel × Nat),
      String.join (panels.map fun (p, index) => s.panel figure p ++ s.lineBreak index) =
        Text.unlines (panels.flatMap fun (p, index) => s.panelLines figure p index) := by
    intro panels
    induction panels with
    | nil => rfl
    | cons q rest ih =>
      rw [List.map_cons, String.join_cons, List.flatMap_cons, Text.unlines_append, ih,
        unlines_panelLines]
  unfold render lines
  rw [Text.unlines_append, Text.unlines_append, panels]
  unfold Text.unlines
  rw [← String.toList_inj]
  simp

theorem filter_panelLines (p : Panel) (index : Nat) :
    (s.panelLines figure p index).filter isReference = p.curves.map (reference figure) := by
  have curves : (p.curves.flatMap fun c =>
      ["\\addplot[color=" ++ c.color ++ ",mark=" ++ c.mark ++ "]", reference figure c]).filter
        isReference = p.curves.map (reference figure) := by
    induction p.curves with
    | nil => rfl
    | cons c rest ih =>
      have other : isReference ("\\addplot[color=" ++ c.color ++ ",mark=" ++ c.mark ++ "]") = false := by
        simp [isReference, List.isPrefixOf]
      rw [List.flatMap_cons, List.filter_append, ih]
      simp [isReference_reference, other]
  rw [panelLines, List.filter_append, List.filter_append, curves]
  simp [isReference, List.isPrefixOf]

theorem filter_lines : (s.lines figure).filter isReference = figure.curves.map (reference figure) := by
  have panels : (figure.panels.zipIdx.flatMap fun (p, index) => s.panelLines figure p index).filter
      isReference = figure.curves.map (reference figure) := by
    rw [List.filter_flatMap, Figure.curves, List.map_flatMap]
    simp only [filter_panelLines]
    exact (List.flatMap_map Prod.fst (fun p : Panel => p.curves.map (reference figure)) _).symm.trans
      (congrArg _ (List.zipIdx_map_fst 0 figure.panels))
  rw [lines, List.filter_append, List.filter_append, panels]
  simp [isReference, List.isPrefixOf]

end Style

/-! ### Breaks -/

/-- Escaping makes no line breaks. -/
theorem newline_not_mem_escape {text : String} (whole : '\n' ∉ text.toList) :
    '\n' ∉ (escape text).toList := by
  rw [toList_escape]
  intro mem
  obtain ⟨c, of_text, mem⟩ := List.mem_flatMap.mp mem
  rcases escapeChar_cases c with ⟨-, same⟩ | of_sequences
  · rw [same, List.mem_singleton] at mem
    exact whole (mem ▸ of_text)
  · have each : ∀ entry ∈ sequences, '\n' ∉ entry.2 := by decide +kernel
    exact each _ of_sequences mem

namespace Style

variable {s : Style} {figure : Figure}

theorem newline_not_mem_reference (unbroken : figure.Unbroken) {c : Curve}
    (mem : c ∈ figure.curves) : '\n' ∉ (reference figure c).toList := by
  obtain ⟨legend, x, y, -, -⟩ := unbroken.curves c mem
  unfold reference group
  simp [x, y, newline_not_mem_escape legend, unbroken.separator, unbroken.table]

theorem newline_not_mem_environment (s : Style) : '\n' ∉ s.environment.toList := by
  unfold environment
  split <;> simp

theorem newline_not_mem_panelLines (unbroken : figure.Unbroken) {p : Panel}
    (mem : p ∈ figure.panels) (index : Nat) :
    ∀ line ∈ s.panelLines figure p index, '\n' ∉ line.toList := by
  obtain ⟨quantity, xLabel⟩ := unbroken.panels p mem
  have environment := newline_not_mem_environment s
  unfold panelLines group
  refine List.forall_mem_append.mpr ⟨List.forall_mem_append.mpr ⟨?_, ?_⟩, ?_⟩
  · simp [environment, newline_not_mem_escape quantity, newline_not_mem_escape xLabel]
  · intro line of_curve
    obtain ⟨c, hc, of_curve⟩ := List.mem_flatMap.mp of_curve
    have in_figure : c ∈ figure.curves := List.mem_flatMap.mpr ⟨p, mem, hc⟩
    obtain ⟨-, -, -, color, mark⟩ := unbroken.curves c in_figure
    rcases List.mem_cons.mp of_curve with rfl | of_curve
    · simp [color, mark]
    · rw [List.mem_singleton.mp of_curve]
      exact newline_not_mem_reference unbroken in_figure
  · split <;> simp [environment]

theorem newline_not_mem_lines (unbroken : figure.Unbroken) :
    ∀ line ∈ s.lines figure, '\n' ∉ line.toList := by
  have caption := newline_not_mem_escape unbroken.caption
  unfold lines group
  refine List.forall_mem_append.mpr ⟨List.forall_mem_append.mpr ⟨?_, ?_⟩, ?_⟩
  · simp
  · intro line of_panel
    obtain ⟨⟨p, index⟩, hp, of_panel⟩ := List.mem_flatMap.mp of_panel
    exact newline_not_mem_panelLines unbroken (List.fst_mem_of_mem_zipIdx hp) index line of_panel
  · simp [caption]

end Style

variable (s : Style) (figure : Figure)

/-- The references of a figure occur in its text in the order of the panels and of
their curves. -/
theorem references_inOrder :
    Text.InOrder (figure.curves.map (reference figure)) (s.render figure) := by
  rw [s.render_eq, ← s.filter_lines]
  exact Text.inOrder_unlines List.filter_sublist

variable {figure}

/-- They are all lines of the text that begin as references, if no text of the figure
has a line break in it. -/
theorem references_exact (unbroken : figure.Unbroken) :
    (Text.splitText '\n' (s.render figure)).filter isReference =
      figure.curves.map (reference figure) := by
  rw [s.render_eq, Text.splitText_unlines (Style.newline_not_mem_lines unbroken),
    List.filter_append, s.filter_lines]
  simp [isReference]

end Tex

end RefinementTables
