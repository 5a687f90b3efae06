import Mathlib.Data.List.DropRight
import RefinementTables.Text.Blank
import RefinementTables.Text.Bytes

/-!
Texts: their pieces, their ends, and their bytes.

* `split_eq_splitOn`, `join_eq_intercalate`, `dropEndWhile_eq_rdropWhile` — splitting,
  joining and cutting off an end are the library's functions on lists.
* `trim_eq_self`, `Solid.trim_eq` — trimming keeps a text without white space at its
  ends, as is any text with none at all.
* `eq_of_utf8EncodeChar_append` — the first character of a text can be told from
  any bytes that begin with it.
-/

namespace RefinementTables.Text

/-! ### Pieces -/

theorem split_eq_splitOn (separator : Char) (cs : List Char) :
    split separator cs = cs.splitOn separator := by
  induction cs with
  | nil => rw [split, List.splitOn_nil]
  | cons c cs ih =>
    rw [split, ih, List.splitOn_cons_eq_if_modifyHead]
    by_cases same : c = separator
    · rw [if_pos same, if_pos (beq_iff_eq.mpr same)]
    · rw [if_neg same, if_neg (mt beq_iff_eq.mp same)]
      cases parts : cs.splitOn separator with
      | nil => exact absurd parts (List.splitOn_ne_nil separator cs)
      | cons part rest => rfl

theorem join_eq_intercalate (separator : Char) (parts : List (List Char)) :
    join separator parts = [separator].intercalate parts := by
  fun_induction join separator parts with
  | case1 => rw [List.intercalate_nil]
  | case2 part => rw [List.intercalate_singleton]
  | case3 part parts several ih =>
    rw [ih, List.intercalate_cons_of_ne_nil several, List.append_assoc, List.singleton_append]

theorem split_ne_nil (separator : Char) (cs : List Char) : split separator cs ≠ [] := by
  rw [split_eq_splitOn]
  exact List.splitOn_ne_nil separator cs

/-- Joining the parts of a split text gives the text back. -/
theorem join_split (separator : Char) (cs : List Char) :
    join separator (split separator cs) = cs := by
  rw [join_eq_intercalate, split_eq_splitOn, List.intercalate_splitOn]

/-! ### Ends -/

theorem dropEndWhile_eq_rdropWhile {α : Type} (p : α → Bool) (xs : List α) :
    dropEndWhile p xs = xs.rdropWhile p :=
  rfl

/-- A text without white space at its ends. -/
structure Trimmed (s : String) : Prop where
  first : ∀ c ∈ s.toList.head?, isBlank c = false
  last : ∀ c ∈ s.toList.getLast?, isBlank c = false

instance (s : String) : Decidable (Trimmed s) :=
  decidable_of_iff
    (s.toList.head?.any isBlank = false ∧ s.toList.getLast?.any isBlank = false) <| by
    rw [Option.any_eq_false, Option.any_eq_false]
    exact ⟨fun ⟨first, last⟩ => ⟨first, last⟩, fun trimmed => ⟨trimmed.first, trimmed.last⟩⟩

theorem trim_eq_self {s : String} (trimmed : Trimmed s) : trim s = s := by
  have front : s.toList.dropWhile isBlank = s.toList := by
    rw [List.dropWhile_eq_self_iff]
    intro nonempty
    exact Bool.eq_false_iff.mp (trimmed.first _ (by simp [List.head?_eq_getElem?]))
  have back : dropEndWhile isBlank s.toList = s.toList := by
    rw [dropEndWhile_eq_rdropWhile, List.rdropWhile_eq_self_iff]
    intro nonempty
    exact Bool.eq_false_iff.mp (trimmed.last _ (List.getLast?_eq_some_getLast nonempty))
  rw [trim, trimWhile, front, back, String.ofList_toList]

/-- Characters among which there is no white space. -/
def Solid (cs : List Char) : Prop :=
  ∀ c ∈ cs, isBlank c = false

theorem solid_nil : Solid [] := nofun

theorem Solid.cons {c : Char} {cs : List Char} (first : isBlank c = false) (rest : Solid cs) :
    Solid (c :: cs) :=
  List.forall_mem_cons.mpr ⟨first, rest⟩

theorem Solid.append {cs ds : List Char} (front : Solid cs) (back : Solid ds) :
    Solid (cs ++ ds) :=
  List.forall_mem_append.mpr ⟨front, back⟩

theorem Solid.trim_eq {cs : List Char} (solid : Solid cs) :
    trim (String.ofList cs) = String.ofList cs := by
  refine trim_eq_self ⟨?_, ?_⟩
  · intro c mem
    rw [String.toList_ofList] at mem
    exact solid c (List.mem_of_head? mem)
  · intro c mem
    rw [String.toList_ofList] at mem
    exact solid c (List.mem_of_getLast? mem)

/-! ### Bytes -/

theorem toBytes_eq_flatMap (s : String) :
    toBytes s = s.toList.flatMap String.utf8EncodeChar := by
  have encoded := String.utf8Encode_toList (b := s)
  rw [toBytes, String.toUTF8_eq_toByteArray, ← encoded, List.utf8Encode]
  simp

/-- Characters at the front of the same bytes are the same. -/
theorem eq_of_utf8EncodeChar_append {c d : Char} {xs ys : Bytes}
    (same : String.utf8EncodeChar c ++ xs = String.utf8EncodeChar d ++ ys) : c = d := by
  have decoded : ∀ (c : Char) (rest : Bytes),
      ByteArray.utf8DecodeChar? (String.utf8EncodeChar c ++ rest).toByteArray 0 = some c := by
    intro c rest
    rw [List.toByteArray_append]
    exact ByteArray.utf8DecodeChar?_utf8EncodeChar_append
  have first := decoded c xs
  rw [same, decoded d ys] at first
  exact (Option.some.inj first).symm

end RefinementTables.Text
