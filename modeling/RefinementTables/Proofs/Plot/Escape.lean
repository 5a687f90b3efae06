import Mathlib.Logic.ExistsUnique
import Mathlib.Logic.Function.Basic
import RefinementTables.Plot.Tex
import RefinementTables.Proofs.Checked

/-!
Running text and its escaped form.

An escaped text is put together from pieces, one for each character of the text: an
ordinary character itself, or the escape sequence of a special one. No escape sequence
begins another, so that the pieces can be told from one another although sequences
hold special characters of their own.

* `standsFor_iff` — a piece stands for exactly the characters that are escaped as it.
* `unescape?_eq_some_iff` — reading the pieces gives the text back, and reads nothing
  but escaped texts.
* `escape_faithful` — so escaping loses nothing, and a special character occurs in an
  escaped text within an escape sequence only.
-/

namespace RefinementTables.Tex

/-! ### Pieces -/

/-- The characters that are special in running text. -/
def specials : List Char := ['\\', '_', '%', '&', '#', '$', '{', '}', '~', '^']

/-- The escape sequences, each behind the character that it stands for. -/
def sequences : List (Char × List Char) :=
  ['_', '%', '&', '#', '$', '{', '}'].map (fun c => (c, ['\\', c])) ++
    [('\\', command "textbackslash"), ('~', command "textasciitilde"),
      ('^', command "textasciicircum")]

/-- A piece of an escaped text, and the character that it stands for. -/
inductive StandsFor : List Char → Char → Prop where
  | ordinary {c : Char} (ordinary : c ∉ specials) : StandsFor [c] c
  | sequence {c : Char} {piece : List Char} (mem : (c, piece) ∈ sequences) : StandsFor piece c

theorem escapeChar_of_ordinary {c : Char} (ordinary : c ∉ specials) : escapeChar c = [c] := by
  simp only [specials, List.mem_cons, List.not_mem_nil, or_false, not_or] at ordinary
  simp [escapeChar, ordinary]

/-- A character that is not special stays, and any other has an escape sequence. -/
theorem escapeChar_cases (c : Char) :
    (c ∉ specials ∧ escapeChar c = [c]) ∨ (c, escapeChar c) ∈ sequences := by
  by_cases special : c ∈ specials
  · have each : ∀ entry ∈ specials.map (fun c => (c, escapeChar c)), entry ∈ sequences := by
      decide +kernel
    exact .inr (each _ (List.mem_map_of_mem special))
  · exact .inl ⟨special, escapeChar_of_ordinary special⟩

theorem standsFor_iff {piece : List Char} {c : Char} :
    StandsFor piece c ↔ piece = escapeChar c := by
  constructor
  · intro stands
    cases stands with
    | ordinary ordinary => exact (escapeChar_of_ordinary ordinary).symm
    | sequence mem =>
      have each : ∀ entry ∈ sequences, entry.2 = escapeChar entry.1 := by decide +kernel
      exact each _ mem
  · rintro rfl
    rcases escapeChar_cases c with ⟨ordinary, same⟩ | mem
    · rw [same]
      exact .ordinary ordinary
    · exact .sequence mem

/-! ### Reading -/

/-- The escape sequence at the front of a text, behind the character that it stands for. -/
def sequenceAt (text : List Char) : Option (Char × List Char) :=
  sequences.find? fun entry => entry.2.isPrefixOf text

/-- The characters for which the pieces of a text stand, if it is made of pieces. -/
def readPieces : List Char → Option (List Char)
  | [] => some []
  | c :: rest =>
    match sequenceAt (c :: rest) with
    | some (stood, piece) => (readPieces (rest.drop (piece.length - 1))).map (stood :: ·)
    | none => if c ∈ specials then none else (readPieces rest).map (c :: ·)
termination_by text => text.length

/-- The text that an escaped one stands for; a text that is not escaped is refused. -/
def unescape? (s : String) : Option String :=
  (readPieces s.toList).map String.ofList

theorem head?_sequence : ∀ entry ∈ sequences, entry.2.head? = some '\\' := by
  decide +kernel

/-- No escape sequence begins another. -/
theorem eq_of_isPrefix_sequence : ∀ entry ∈ sequences, ∀ other ∈ sequences,
    entry.2 <+: other.2 → entry = other := by
  decide +kernel

/-- So there is one at the front of a text at most. -/
theorem sequenceAt_eq_some_iff {text : List Char} {entry : Char × List Char} :
    sequenceAt text = some entry ↔ entry ∈ sequences ∧ entry.2 <+: text := by
  have sound : ∀ {entry}, sequenceAt text = some entry → entry ∈ sequences ∧ entry.2 <+: text := by
    intro entry found
    have begins := (List.find?_eq_some_iff_append.mp found).1
    exact ⟨List.mem_of_find?_eq_some found, List.isPrefixOf_iff_prefix.mp begins⟩
  refine ⟨sound, ?_⟩
  rintro ⟨mem, begins⟩
  cases found : sequenceAt text with
  | none => exact absurd (List.isPrefixOf_iff_prefix.mpr begins) (List.find?_eq_none.mp found _ mem)
  | some other =>
    obtain ⟨mem', begins'⟩ := sound found
    rcases List.prefix_or_prefix_of_prefix begins begins' with first | first
    · rw [eq_of_isPrefix_sequence _ mem _ mem' first]
    · rw [eq_of_isPrefix_sequence _ mem' _ mem first]

theorem sequenceAt_ordinary {c : Char} (ordinary : c ∉ specials) (rest : List Char) :
    sequenceAt (c :: rest) = none := by
  refine Option.eq_none_iff_forall_ne_some.mpr fun entry found => ?_
  obtain ⟨mem, back, text⟩ := sequenceAt_eq_some_iff.mp found
  obtain ⟨tail, piece⟩ := List.head?_eq_some_iff.mp (head?_sequence entry mem)
  rw [piece, List.cons_append, List.cons.injEq] at text
  exact ordinary (text.1 ▸ List.mem_cons_self)

/-- Reading takes off one piece after the other. -/
theorem readPieces_append {piece : List Char} {c : Char} (stands : StandsFor piece c)
    (rest : List Char) : readPieces (piece ++ rest) = (readPieces rest).map (c :: ·) := by
  cases stands with
  | ordinary ordinary =>
    rw [List.singleton_append, readPieces, sequenceAt_ordinary ordinary]
    exact if_neg ordinary
  | sequence mem =>
    have front : sequenceAt (piece ++ rest) = some (c, piece) :=
      sequenceAt_eq_some_iff.mpr ⟨mem, List.prefix_append piece rest⟩
    obtain ⟨tail, rfl⟩ := List.head?_eq_some_iff.mp (head?_sequence _ mem)
    rw [List.cons_append] at front ⊢
    rw [readPieces, front]
    simp only [List.length_cons, Nat.add_sub_cancel, List.drop_left]

theorem readPieces_flatMap (cs : List Char) : readPieces (cs.flatMap escapeChar) = some cs := by
  induction cs with
  | nil => rw [List.flatMap_nil, readPieces]
  | cons c cs ih =>
    rw [List.flatMap_cons, readPieces_append (standsFor_iff.mpr rfl), ih, Option.map_some]

/-- What can be read is made of the pieces of what it is read as. -/
theorem eq_flatMap_of_readPieces {text cs : List Char} (read : readPieces text = some cs) :
    text = cs.flatMap escapeChar := by
  fun_induction readPieces text generalizing cs with
  | case1 =>
    cases read
    rfl
  | case2 c rest stood piece found ih =>
    obtain ⟨later, read_later, rfl⟩ := Option.map_eq_some_iff.mp read
    obtain ⟨mem, back, text⟩ := sequenceAt_eq_some_iff.mp found
    obtain ⟨tail, rfl⟩ := List.head?_eq_some_iff.mp (head?_sequence _ mem)
    obtain ⟨rfl, rfl⟩ : '\\' = c ∧ tail ++ back = rest := List.cons.inj text
    rw [List.length_cons, Nat.add_sub_cancel, List.drop_left] at ih read_later
    rw [List.flatMap_cons, ← standsFor_iff.mp (.sequence mem), ← ih read_later]
    rfl
  | case3 c rest _ special => cases read
  | case4 c rest _ ordinary ih =>
    obtain ⟨later, read_later, rfl⟩ := Option.map_eq_some_iff.mp read
    rw [List.flatMap_cons, escapeChar_of_ordinary ordinary, ← ih read_later, List.singleton_append]

/-! ### Escaping -/

theorem toList_escape (s : String) : (escape s).toList = s.toList.flatMap escapeChar := by
  rw [escape, String.toList_ofList]

theorem escape_append (s t : String) : escape (s ++ t) = escape s ++ escape t := by
  rw [← String.toList_inj, String.toList_append, toList_escape, toList_escape, toList_escape,
    String.toList_append, List.flatMap_append]

/-- Reading gives the text back, and reads nothing but escaped texts. -/
theorem unescape?_eq_some_iff {t s : String} : unescape? t = some s ↔ t = escape s := by
  rw [unescape?, Option.map_eq_some_iff, ← String.toList_inj, toList_escape]
  constructor
  · rintro ⟨cs, read, rfl⟩
    rw [String.toList_ofList]
    exact eq_flatMap_of_readPieces read
  · intro text
    exact ⟨s.toList, by rw [text, readPieces_flatMap], String.ofList_toList⟩

theorem escape_injective : Function.Injective escape := by
  intro s t same
  have read : unescape? (escape s) = some s := unescape?_eq_some_iff.mpr rfl
  exact Option.some.inj (read.symm.trans (unescape?_eq_some_iff.mpr same))

/-- Pieces are the escaped forms of the characters for which they stand. -/
theorem exists_eq_map {pieces : List (List Char)}
    (stand : ∀ piece ∈ pieces, ∃ c, StandsFor piece c) :
    ∃ cs : List Char, pieces = cs.map escapeChar := by
  obtain ⟨cs, all⟩ := exists_forall₂ stand
  refine ⟨cs, ?_⟩
  have same := map_eq_map_of_forall₂ (f := id) (all.imp fun _ _ => standsFor_iff.mp)
  rwa [List.map_id] at same

/-- Escaping loses nothing. Every text is read back from its escaped form, and nothing
else is read, so that texts with one escaped form are the same; and texts in a row have
their escaped forms in a row. An escaped text can be taken apart in exactly one way
into characters that are not special and escape sequences: every special character in
it is in one of these sequences. -/
theorem escape_faithful :
    (∀ s, unescape? (escape s) = some s) ∧ (∀ t s, unescape? t = some s → t = escape s) ∧
    Function.Injective escape ∧ (∀ s t, escape (s ++ t) = escape s ++ escape t) ∧
    ∀ s, ∃! pieces : List (List Char), pieces.flatten = (escape s).toList ∧
      ∀ piece ∈ pieces, (∃ c, c ∉ specials ∧ piece = [c]) ∨ ∃ c, (c, piece) ∈ sequences := by
  refine ⟨fun s => unescape?_eq_some_iff.mpr rfl, fun t s => unescape?_eq_some_iff.mp,
    escape_injective, escape_append, fun s => ?_⟩
  refine ⟨s.toList.map escapeChar, ⟨?_, ?_⟩, ?_⟩
  · rw [toList_escape, List.flatMap_def]
  · intro piece mem
    obtain ⟨c, -, rfl⟩ := List.mem_map.mp mem
    exact (escapeChar_cases c).imp (fun ordinary => ⟨c, ordinary⟩) fun mem => ⟨c, mem⟩
  · rintro pieces ⟨text, each⟩
    obtain ⟨cs, rfl⟩ := exists_eq_map fun piece mem => by
      rcases each piece mem with ⟨c, ordinary, rfl⟩ | ⟨c, mem⟩
      · exact ⟨c, .ordinary ordinary⟩
      · exact ⟨c, .sequence mem⟩
    rw [toList_escape, ← List.flatMap_def] at text
    have read := readPieces_flatMap cs
    rw [text, readPieces_flatMap, Option.some.injEq] at read
    rw [read]

end RefinementTables.Tex
