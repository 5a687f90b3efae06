import RefinementTables.Proofs.Plot.Escape
import RefinementTables.Proofs.Plot.Tex

/-!
The braces of a figure in TeX.

A reader of braces goes over a text from left to right, past any character behind a
backslash, and counts how many braces are open.

* `Balanced` — texts whose braces close one another, as a grammar. A reader goes over
  such a text without falling below the depth at which it began, and ends there
  (`Balanced.nesting_eq`, `Balanced.le_depth`).
* `closed_escape` — an escaped text is balanced whatever it says.
* `closed_panel` — so a panel is balanced whatever its labels are, if the options of the
  plotting package that stand in it as they are have no brace and no backslash in them.
* `braces_balance` — and with it a figure, before and behind each of its panels.
-/

namespace RefinementTables.Tex

/-! ### Reading braces -/

/-- A character that a reader of braces passes over. -/
def Plain (c : Char) : Prop := c ≠ '\\' ∧ c ≠ '{' ∧ c ≠ '}'

instance (c : Char) : Decidable (Plain c) := inferInstanceAs (Decidable (_ ∧ _))

/-- Where a reader of braces is: how many more of them it has seen open than close, and
whether a backslash takes the next character. -/
structure Nesting where
  depth : Int
  taken : Bool
deriving DecidableEq, Repr

namespace Nesting

def step (n : Nesting) (c : Char) : Nesting :=
  if n.taken then { n with taken := false }
  else if c = '\\' then { n with taken := true }
  else if c = '{' then { n with depth := n.depth + 1 }
  else if c = '}' then { n with depth := n.depth - 1 }
  else n

/-- Behind some characters. -/
def through (n : Nesting) (cs : List Char) : Nesting := cs.foldl step n

/-- Behind a text. -/
def after (text : String) : Nesting := through ⟨0, false⟩ text.toList

theorem through_append (n : Nesting) (cs ds : List Char) :
    n.through (cs ++ ds) = (n.through cs).through ds :=
  List.foldl_append

variable (depth : Int)

theorem through_plain {c : Char} (plain : Plain c) (cs : List Char) :
    through ⟨depth, false⟩ (c :: cs) = through ⟨depth, false⟩ cs := by
  obtain ⟨backslash, opening, closing⟩ := plain
  simp [through, step, backslash, opening, closing]

theorem through_backslash (c : Char) (cs : List Char) :
    through ⟨depth, false⟩ ('\\' :: c :: cs) = through ⟨depth, false⟩ cs := by
  simp [through, step]

theorem through_opening (cs : List Char) :
    through ⟨depth, false⟩ ('{' :: cs) = through ⟨depth + 1, false⟩ cs := by
  simp [through, step]

theorem through_closing (cs : List Char) :
    through ⟨depth + 1, false⟩ ('}' :: cs) = through ⟨depth, false⟩ cs := by
  simp [through, step]

end Nesting

/-- Texts in which every brace is closed by its own, but for those behind a backslash. -/
inductive Balanced : List Char → Prop where
  | nil : Balanced []
  | plain {c : Char} {cs : List Char} (plain : Plain c) : Balanced cs → Balanced (c :: cs)
  | taken {c : Char} {cs : List Char} : Balanced cs → Balanced ('\\' :: c :: cs)
  | group {inner cs : List Char} : Balanced inner → Balanced cs →
      Balanced ('{' :: (inner ++ '}' :: cs))

namespace Balanced

open Nesting

variable {cs ds : List Char}

theorem append (front : Balanced cs) (back : Balanced ds) : Balanced (cs ++ ds) := by
  induction front with
  | nil => exact back
  | plain plain _ ih => exact .plain plain ih
  | taken _ ih => exact .taken ih
  | group inner _ _ ih =>
    rw [List.cons_append, List.append_assoc, List.cons_append]
    exact .group inner ih

/-- A reader ends at the depth at which it began. -/
theorem nesting_eq (balanced : Balanced cs) (depth : Int) :
    through ⟨depth, false⟩ cs = ⟨depth, false⟩ := by
  induction balanced generalizing depth with
  | nil => rfl
  | plain plain _ ih => rw [through_plain depth plain, ih]
  | taken _ ih => rw [through_backslash, ih]
  | group _ _ ih_inner ih => rw [through_opening, through_append, ih_inner, through_closing, ih]

/-- And it does not fall below it on its way. -/
theorem le_depth (balanced : Balanced cs) (depth : Int) {front : List Char}
    (begins : front <+: cs) : depth ≤ (through ⟨depth, false⟩ front).depth := by
  induction balanced generalizing depth front with
  | nil =>
    cases List.prefix_nil.mp begins
    exact Int.le_refl depth
  | plain plain _ ih =>
    rcases List.prefix_cons_iff.mp begins with rfl | ⟨tail, rfl, within⟩
    · exact Int.le_refl depth
    · rw [through_plain depth plain]
      exact ih depth within
  | taken _ ih =>
    rcases List.prefix_cons_iff.mp begins with rfl | ⟨tail, rfl, within⟩
    · exact Int.le_refl depth
    rcases List.prefix_cons_iff.mp within with rfl | ⟨tail, rfl, behind⟩
    · exact Int.le_refl depth
    · rw [through_backslash]
      exact ih depth behind
  | @group inner cs balanced _ ih_inner ih =>
    rcases List.prefix_cons_iff.mp begins with rfl | ⟨tail, rfl, within⟩
    · exact Int.le_refl depth
    have deeper : depth ≤ depth + 1 := Int.le_add_one (Int.le_refl depth)
    rw [through_opening]
    rcases List.prefix_or_prefix_of_prefix within (List.prefix_append inner _) with inside | past
    · exact Int.le_trans deeper (ih_inner (depth + 1) inside)
    -- The reader is past what is inside the braces, at the closing one or behind it.
    · obtain ⟨tail, rfl⟩ := past
      rw [through_append, balanced.nesting_eq]
      rw [List.prefix_append_right_inj] at within
      rcases List.prefix_cons_iff.mp within with rfl | ⟨tail, rfl, behind⟩
      · exact deeper
      · rw [through_closing]
        exact ih depth behind

end Balanced

/-- A text with no braces in it but those behind a backslash. -/
def groupless : List Char → Bool
  | [] => true
  | '\\' :: _ :: cs => groupless cs
  | c :: cs => decide (Plain c) && groupless cs

theorem balanced_of_groupless {cs : List Char} (flat : groupless cs = true) : Balanced cs := by
  fun_induction groupless cs with
  | case1 => exact .nil
  | case2 c cs ih => exact .taken (ih flat)
  | case3 c cs other ih =>
    rw [Bool.and_eq_true, decide_eq_true_eq] at flat
    exact .plain flat.1 (ih flat.2)

theorem balanced_of_plain {cs : List Char} (plain : ∀ c ∈ cs, Plain c) : Balanced cs := by
  induction cs with
  | nil => exact .nil
  | cons c cs ih =>
    obtain ⟨first, rest⟩ := List.forall_mem_cons.mp plain
    exact .plain first (ih rest)

/-! ### Texts -/

/-- A text whose braces close one another. -/
def Closed (text : String) : Prop := Balanced text.toList

theorem Closed.append {s t : String} (front : Closed s) (back : Closed t) : Closed (s ++ t) := by
  rw [Closed, String.toList_append]
  exact Balanced.append front back

/-- The texts that stand in every figure are read by evaluation. -/
theorem closed_literal {text : String} (flat : groupless text.toList = true := by decide +kernel) :
    Closed text :=
  balanced_of_groupless flat

theorem Closed.group {text : String} (inner : Closed text) : Closed (Style.group text) := by
  have braces : (Style.group text).toList = '{' :: (text.toList ++ ['}']) := by
    simp [Style.group]
  rw [Closed, braces]
  exact .group inner .nil

theorem closed_join {texts : List String} (each : ∀ text ∈ texts, Closed text) :
    Closed (String.join texts) := by
  induction texts with
  | nil => exact closed_literal
  | cons text texts ih =>
    obtain ⟨first, rest⟩ := List.forall_mem_cons.mp each
    rw [String.join_cons]
    exact first.append (ih rest)

theorem balanced_command {name : String} (flat : groupless ('\\' :: name.toList) = true) :
    Balanced (command name) :=
  (balanced_of_groupless flat).append (.group .nil .nil)

theorem balanced_escapeChar (c : Char) : Balanced (escapeChar c) := by
  fun_cases escapeChar c with
  | case1 => exact .taken .nil
  | case2 | case3 | case4 => exact balanced_command (by decide +kernel)
  | case5 braces backslash =>
    simp only [List.mem_cons, List.not_mem_nil, or_false, not_or] at braces
    obtain ⟨-, -, -, -, -, opening, closing⟩ := braces
    exact .plain ⟨backslash, opening, closing⟩ .nil

/-- An escaped text is balanced whatever it says. -/
theorem closed_escape (text : String) : Closed (escape text) := by
  rw [Closed, toList_escape]
  induction text.toList with
  | nil => exact .nil
  | cons c cs ih => exact (balanced_escapeChar c).append ih

/-! ### Figures -/

/-- A text that a reader of braces passes over. -/
def Braceless (text : String) : Prop := ∀ c ∈ text.toList, Plain c

instance (text : String) : Decidable (Braceless text) :=
  List.decidableBAll Plain text.toList

theorem Braceless.closed {text : String} (braceless : Braceless text) : Closed text :=
  balanced_of_plain braceless

end Tex

/-- A figure whose options of the plotting package have neither a brace nor a backslash
in them; its labels may have any. -/
structure Figure.Braceless (f : Figure) : Prop where
  table : Tex.Braceless f.table
  separator : Tex.Braceless f.separator
  curves : ∀ c ∈ f.curves, Tex.Braceless c.x ∧ Tex.Braceless c.y ∧ Tex.Braceless c.color ∧
    Tex.Braceless c.mark

namespace Tex

namespace Style

variable (s : Style) {figure : Figure}

theorem closed_environment : Closed s.environment := by
  unfold environment
  split <;> exact closed_literal

theorem closed_lineBreak (index : Nat) : Closed (s.lineBreak index) := by
  unfold lineBreak
  split <;> exact closed_literal

theorem closed_curve (braceless : figure.Braceless) {c : Curve} (mem : c ∈ figure.curves) :
    Closed (curve figure c) := by
  obtain ⟨x, y, color, mark⟩ := braceless.curves c mem
  unfold curve
  exact (closed_literal).append color.closed
    |>.append closed_literal |>.append mark.closed
    |>.append closed_literal |>.append x.closed
    |>.append closed_literal |>.append y.closed
    |>.append closed_literal |>.append braceless.separator.closed
    |>.append closed_literal |>.append braceless.table.closed.group
    |>.append closed_literal |>.append (closed_escape c.legend).group
    |>.append closed_literal

/-- A panel, with each brace behind what it closes. -/
theorem panel_eq (figure : Figure) (p : Panel) :
    s.panel figure p = "\\subfloat" ++ group ("\n\\begin" ++ group "tikzpicture" ++
      "[scale=\\plotscale]\n\\begin" ++ group s.environment ++
      "[\nlegend style=" ++ group (" at=" ++ group "(1.02,1)" ++ ",anchor=north west") ++
      ",\nxlabel=" ++ escape p.xLabel ++ ",\nylabel=$ERR_" ++ group (escape p.quantity) ++ "$]\n" ++
      String.join (p.curves.map (curve figure)) ++
      "\\end" ++ group s.environment ++ "\n\\end" ++ group "tikzpicture") := by
  unfold panel group
  rw [← String.toList_inj]
  simp

theorem closed_panel (braceless : figure.Braceless) {p : Panel} (mem : p ∈ figure.panels) :
    Closed (s.panel figure p) := by
  have curves : Closed (String.join (p.curves.map (curve figure))) := by
    refine closed_join (List.forall_mem_map.mpr fun c of_panel => ?_)
    exact closed_curve braceless (List.mem_flatMap.mpr ⟨p, mem, of_panel⟩)
  have environment := (closed_environment s).group
  have picture : Closed (group "tikzpicture") := (closed_literal).group
  have legend : Closed (group (" at=" ++ group "(1.02,1)" ++ ",anchor=north west")) :=
    (closed_literal).append (closed_literal).group |>.append closed_literal |>.group
  rw [panel_eq]
  refine (closed_literal).append (Closed.group ?_)
  exact (closed_literal).append picture
    |>.append closed_literal |>.append environment
    |>.append closed_literal |>.append legend
    |>.append closed_literal |>.append (closed_escape p.xLabel)
    |>.append closed_literal |>.append (closed_escape p.quantity).group
    |>.append closed_literal |>.append curves
    |>.append closed_literal |>.append environment
    |>.append closed_literal |>.append picture

/-- A figure in stretches: what is before the panels, each panel with the break behind
it, and what is behind the panels. -/
def stretches (figure : Figure) : List String :=
  ("\\begin" ++ group "figure" ++ "\n") ::
    (figure.panels.zipIdx.map fun (p, index) => s.panel figure p ++ s.lineBreak index) ++
    ["\\caption" ++ group (escape figure.caption) ++ "\\end" ++ group "figure" ++ "\n"]

theorem join_stretches (figure : Figure) : String.join (s.stretches figure) = s.render figure := by
  unfold stretches render
  rw [List.cons_append, String.join_cons, String.join_append, String.join_cons, ← String.toList_inj]
  simp

theorem closed_stretches (braceless : figure.Braceless) :
    ∀ stretch ∈ s.stretches figure, Closed stretch := by
  refine List.forall_mem_append.mpr ⟨List.forall_mem_cons.mpr ⟨?_, ?_⟩, ?_⟩
  · exact (closed_literal).append (closed_literal).group |>.append closed_literal
  · refine List.forall_mem_map.mpr fun ⟨p, index⟩ mem => ?_
    exact (s.closed_panel braceless (List.fst_mem_of_mem_zipIdx mem)).append (s.closed_lineBreak index)
  · rw [List.forall_mem_singleton]
    exact (closed_literal).append (closed_escape figure.caption).group
      |>.append closed_literal |>.append (closed_literal).group |>.append closed_literal

end Style

/-- The braces of a figure close one another, whatever its labels are. A reader of braces
is never behind more closing than opening ones; and where a panel begins or ends, and at
the end of the figure, all of them are closed. -/
theorem braces_balance (s : Style) (figure : Figure) (braceless : figure.Braceless) :
    (∀ before after, s.render figure = before ++ after → 0 ≤ (Nesting.after before).depth) ∧
    String.join (s.stretches figure) = s.render figure ∧
    (∀ count, Nesting.after (String.join ((s.stretches figure).take count)) = ⟨0, false⟩) ∧
    Nesting.after (s.render figure) = ⟨0, false⟩ := by
  have stretches := s.closed_stretches braceless
  have whole : Closed (s.render figure) := by
    rw [← s.join_stretches]
    exact closed_join stretches
  refine ⟨fun before after text => ?_, s.join_stretches figure, fun count => ?_, ?_⟩
  · refine Balanced.le_depth whole 0 ⟨after.toList, ?_⟩
    rw [text, String.toList_append]
  · refine Balanced.nesting_eq (closed_join fun stretch mem => ?_) 0
    exact stretches stretch (List.mem_of_mem_take mem)
  · exact whole.nesting_eq 0

/-- Labels with braces that close nothing, that nothing closes, and backslashes before
whatever follows them. -/
def unevenLabels : Figure where
  table := "merged.csv"
  separator := "comma"
  caption := "\x7d open \\\x7b\\"
  panels := [
    ⟨"p^2\x7b", "h\\", [⟨"\x7d\x7d", "refine", "p_A", "red", "|"⟩, ⟨"\\", "refine", "p_B", "blue", "x"⟩]⟩,
    ⟨"\x7du", "~\x7b", []⟩]

theorem unevenLabels_balance :
    unevenLabels.Braceless ∧
    Nesting.after (String.join ((Style.stretches ⟨true, 0⟩ unevenLabels).take 2)) = ⟨0, false⟩ ∧
    Nesting.after (Style.render ⟨true, 0⟩ unevenLabels) = ⟨0, false⟩ := by
  have braceless : unevenLabels.Braceless := by
    refine ⟨?_, ?_, ?_⟩ <;> decide +kernel
  obtain ⟨-, -, between, whole⟩ := braces_balance ⟨true, 0⟩ unevenLabels braceless
  exact ⟨braceless, between 2, whole⟩

end Tex

end RefinementTables
