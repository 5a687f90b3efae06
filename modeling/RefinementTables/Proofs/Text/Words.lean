import RefinementTables.Proofs.Text

/-!
The words of a text, and folding a text onto one line.

* `words_join` — where white space stands between texts, the words of the whole are
  those of its parts.
* `words_trimWhile` — trimming takes no word away and joins none.
* `words_oneLine` — so a text that is folded onto one line keeps its words, and
  there is no line break left in it (`lineFeed_not_mem_oneLine`).
* `flatten_words` — the words of a text are all of it but its white space.
-/

namespace RefinementTables.Text

/-- The longest runs of a text without white space in them. -/
def words (cs : List Char) : List (List Char) :=
  (cs.splitOnP isBlank).filter fun run => !run.isEmpty

/-- What stays of a text when all white space is deleted. -/
def ink (cs : List Char) : List Char :=
  cs.filter fun c => !isBlank c

/-! ### Words and white space -/

theorem words_nil : words [] = [] := by
  rw [words, List.splitOnP_nil]
  rfl

/-- White space ends one word and begins another. -/
theorem words_append_blank {c : Char} (blank : isBlank c = true) (front back : List Char) :
    words (front ++ c :: back) = words front ++ words back := by
  rw [words, List.splitOnP_append_cons front back blank, List.filter_append]
  rfl

theorem words_cons_blank {c : Char} (blank : isBlank c = true) (cs : List Char) :
    words (c :: cs) = words cs := by
  have apart := words_append_blank blank [] cs
  rwa [words_nil] at apart

theorem words_concat_blank {c : Char} (blank : isBlank c = true) (cs : List Char) :
    words (cs ++ [c]) = words cs := by
  rw [words_append_blank blank, words_nil, List.append_nil]

theorem words_dropWhile (cs : List Char) : words (cs.dropWhile isBlank) = words cs := by
  induction cs with
  | nil => rfl
  | cons c cs ih =>
    by_cases blank : isBlank c = true
    · rw [List.dropWhile_cons_of_pos blank, ih, words_cons_blank blank]
    · rw [List.dropWhile_cons_of_neg blank]

theorem words_dropEndWhile (cs : List Char) : words (dropEndWhile isBlank cs) = words cs := by
  rw [dropEndWhile_eq_rdropWhile]
  -- The run that is dropped ends the text, so the text is taken apart from its end.
  induction cs using List.reverseRecOn with
  | nil => rw [List.rdropWhile_nil]
  | append_singleton cs c ih =>
    by_cases blank : isBlank c = true
    · rw [List.rdropWhile_concat_pos isBlank cs c blank, ih, words_concat_blank blank]
    · rw [List.rdropWhile_concat_neg isBlank cs c blank]

/-- Trimming keeps the words. -/
theorem words_trimWhile (cs : List Char) : words (trimWhile isBlank cs) = words cs :=
  (words_dropEndWhile _).trans (words_dropWhile cs)

/-- Texts with white space between neighbours have the words of each. -/
theorem words_join {separator : Char} (blank : isBlank separator = true)
    (parts : List (List Char)) : words (join separator parts) = parts.flatMap words := by
  fun_induction join separator parts with
  | case1 => exact words_nil
  | case2 part => rw [List.flatMap_singleton]
  | case3 part parts _ ih => rw [words_append_blank blank, ih, List.flatMap_cons]

/-- Empty texts have no words. -/
theorem flatMap_words_filter (parts : List (List Char)) :
    (parts.filter fun part => !part.isEmpty).flatMap words = parts.flatMap words := by
  induction parts with
  | nil => rfl
  | cons part parts ih =>
    cases part with
    | nil => rw [List.filter_cons_of_neg (by simp), ih, List.flatMap_cons, words_nil, List.nil_append]
    | cons c cs => rw [List.filter_cons_of_pos rfl, List.flatMap_cons, List.flatMap_cons, ih]

/-- Words are made of all characters that are no white space. -/
theorem flatten_words (cs : List Char) : (words cs).flatten = ink cs := by
  rw [words, List.flatten_filter_not_isEmpty]
  induction cs with
  | nil => rfl
  | cons c cs ih =>
    rw [List.splitOnP_cons_eq_if_modifyHead]
    cases runs : cs.splitOnP isBlank with
    | nil => exact absurd runs (List.splitOnP_ne_nil isBlank cs)
    | cons run runs' =>
      rw [runs] at ih
      cases blank : isBlank c <;> simpa [ink, blank] using ih

/-! ### One line -/

/-- Folding a text onto one line keeps its words. -/
theorem words_oneLine (s : String) : words (oneLine s).toList = words s.toList := by
  let lines := split '\n' s.toList
  calc words (oneLine s).toList
      = ((lines.map (trimWhile isBlank)).filter fun line => !line.isEmpty).flatMap words := by
        rw [oneLine, String.toList_ofList, words_join (by decide)]
    _ = (lines.map (trimWhile isBlank)).flatMap words := flatMap_words_filter _
    _ = lines.flatMap words := by
        simp only [List.flatMap_map, words_trimWhile]
    _ = words s.toList := by
        rw [← words_join (show isBlank '\n' = true by decide), join_split]

theorem separator_not_mem_split {separator : Char} {cs part : List Char}
    (mem : part ∈ split separator cs) : separator ∉ part := by
  fun_induction split separator cs generalizing part with
  | case1 =>
    rw [List.mem_singleton.mp mem]
    exact List.not_mem_nil
  | case2 cs ih =>
    rcases List.mem_cons.mp mem with rfl | later
    · exact List.not_mem_nil
    · exact ih later
  | case3 c cs _ none => exact absurd none (split_ne_nil separator cs)
  | case4 c cs other first rest parts ih =>
    rw [parts] at ih
    rcases List.mem_cons.mp mem with rfl | later
    · rw [List.mem_cons, not_or]
      exact ⟨Ne.symm other, ih List.mem_cons_self⟩
    · exact ih (List.mem_cons_of_mem _ later)

/-- A character of joined texts is the separator or one of theirs. -/
theorem mem_join {separator c : Char} {parts : List (List Char)}
    (mem : c ∈ join separator parts) : c = separator ∨ ∃ part ∈ parts, c ∈ part := by
  fun_induction join separator parts with
  | case1 => cases mem
  | case2 part => exact .inr ⟨part, List.mem_cons_self, mem⟩
  | case3 part parts _ ih =>
    rcases List.mem_append.mp mem with first | later
    · exact .inr ⟨part, List.mem_cons_self, first⟩
    rcases List.mem_cons.mp later with between | later
    · exact .inl between
    rcases ih later with between | ⟨part, of_parts, within⟩
    · exact .inl between
    · exact .inr ⟨part, List.mem_cons_of_mem _ of_parts, within⟩

theorem mem_of_mem_trimWhile {α : Type} {p : α → Bool} {x : α} {xs : List α}
    (mem : x ∈ trimWhile p xs) : x ∈ xs := by
  rw [trimWhile, dropEndWhile_eq_rdropWhile] at mem
  have within := (List.rdropWhile_prefix p _).subset mem
  exact (List.dropWhile_sublist p).subset within

/-- There is no line break in a text that is folded onto one line. -/
theorem lineFeed_not_mem_oneLine (s : String) : '\n' ∉ (oneLine s).toList := by
  intro mem
  rw [oneLine, String.toList_ofList] at mem
  rcases mem_join mem with same | ⟨part, of_lines, within⟩
  · exact absurd same (by decide)
  · obtain ⟨line, of_text, rfl⟩ := List.mem_map.mp (List.mem_filter.mp of_lines).1
    exact separator_not_mem_split of_text (mem_of_mem_trimWhile within)

end RefinementTables.Text
