import Mathlib.Data.List.Nodup
import Mathlib.Data.Nat.ModEq
import RefinementTables.Plot.Palette
import RefinementTables.Proofs.Checked

/-!
How the styles of a palette repeat.

Colours and marks are handed out from two lists that start again by themselves.

* `wrap_eq_iff` — a list without repetitions has the same entry at two indices exactly
  if these differ by a multiple of its length.
* `Varied.alike_iff` — so two schemes look alike exactly if their positions differ by a
  common multiple of the two lengths.
* `styles_repeat` — hence the styles repeat with the least common multiple, and not
  before.
-/

namespace RefinementTables

/-- Congruent modulo two numbers is congruent modulo their least common multiple. -/
theorem modEq_lcm_iff {m n i j : Nat} :
    i ≡ j [MOD Nat.lcm m n] ↔ i ≡ j [MOD m] ∧ i ≡ j [MOD n] := by
  constructor
  · intro same
    exact ⟨same.of_dvd (Nat.dvd_lcm_left m n), same.of_dvd (Nat.dvd_lcm_right m n)⟩
  · rintro ⟨first, second⟩
    exact Nat.mod_lcm first second

namespace Palette

/-! ### Lists that start again -/

section Wrap

variable {xs : List String} {i j : Nat}

theorem getElem?_wrap (nonempty : xs ≠ []) (i : Nat) :
    xs[i % xs.length]? = some (wrap xs i) := by
  have within : i % xs.length < xs.length := Nat.mod_lt i (List.length_pos_iff.mpr nonempty)
  rw [wrap, List.getElem?_eq_getElem within, Option.getD_some]

/-- Among distinct entries the same one comes again after a whole round, and not before. -/
theorem wrap_eq_iff (nonempty : xs ≠ []) (distinct : xs.Nodup) :
    wrap xs i = wrap xs j ↔ i ≡ j [MOD xs.length] := by
  have within : i % xs.length < xs.length := Nat.mod_lt i (List.length_pos_iff.mpr nonempty)
  rw [← Option.some_inj, ← getElem?_wrap nonempty, ← getElem?_wrap nonempty]
  exact List.getElem?_inj within distinct

end Wrap

/-! ### Styles -/

/-- A palette with something to hand out, and nothing twice. -/
structure Varied (p : Palette) : Prop where
  some_color : p.colors ≠ []
  some_mark : p.marks ≠ []
  colors : p.colors.Nodup
  marks : p.marks.Nodup

instance (p : Palette) : Decidable p.Varied :=
  decidable_of_iff (p.colors ≠ [] ∧ p.marks ≠ [] ∧ p.colors.Nodup ∧ p.marks.Nodup)
    ⟨fun ⟨some_color, some_mark, colors, marks⟩ => ⟨some_color, some_mark, colors, marks⟩,
      fun varied => ⟨varied.some_color, varied.some_mark, varied.colors, varied.marks⟩⟩

/-- The styles for some titles, in their order. -/
def handedOut (p : Palette) (titles : List String) : List Style :=
  titles.zipIdx.map fun (title, index) => p.style title index

variable {p : Palette} {titles : List String} {i j : Nat}

theorem check_eq_ok_iff : p.check = .ok () ↔ p.colors ≠ [] ∧ p.marks ≠ [] := by
  simp [check]

/-- Styles are handed out unless there is nothing to hand out. -/
theorem styles_eq_ok_iff {handed : List Style} :
    p.styles titles = .ok handed ↔
      p.colors ≠ [] ∧ p.marks ≠ [] ∧ handed = p.handedOut titles := by
  rw [styles, bind_eq_ok_iff]
  constructor
  · rintro ⟨_, checked, h⟩
    cases h
    obtain ⟨some_color, some_mark⟩ := check_eq_ok_iff.mp checked
    exact ⟨some_color, some_mark, rfl⟩
  · rintro ⟨some_color, some_mark, rfl⟩
    exact ⟨(), check_eq_ok_iff.mpr ⟨some_color, some_mark⟩, rfl⟩

/-- The titles of styles are those that they are handed out to. -/
theorem map_title_handedOut (p : Palette) (titles : List String) :
    (p.handedOut titles).map Style.title = titles := by
  rw [handedOut, List.map_map]
  exact List.zipIdx_map_fst 0 titles

/-- Further titles change no style before theirs. -/
theorem handedOut_append (p : Palette) (titles more : List String) :
    p.handedOut (titles ++ more) = p.handedOut titles ++
      (more.zipIdx titles.length).map fun (title, index) => p.style title index := by
  rw [handedOut, List.zipIdx_append, List.map_append, Nat.zero_add, handedOut]

/-- A style is settled by its title and its position. -/
theorem eq_style_of_getElem? {s : Style} (there : (p.handedOut titles)[i]? = some s) :
    s = p.style s.title i := by
  rw [handedOut, List.getElem?_map, List.getElem?_zipIdx, Option.map_map, Nat.zero_add] at there
  obtain ⟨title, -, rfl⟩ := Option.map_eq_some_iff.mp there
  rfl

/-- Two schemes look alike exactly if their positions are congruent modulo both lengths. -/
theorem Varied.alike_iff (varied : p.Varied) {s s' : Style}
    (first : (p.handedOut titles)[i]? = some s) (second : (p.handedOut titles)[j]? = some s') :
    s.color = s'.color ∧ s.mark = s'.mark ↔
      i ≡ j [MOD Nat.lcm p.colors.length p.marks.length] := by
  rw [eq_style_of_getElem? first, eq_style_of_getElem? second, modEq_lcm_iff]
  exact and_congr (wrap_eq_iff varied.some_color varied.colors)
    (wrap_eq_iff varied.some_mark varied.marks)

/-- So the first schemes, until the styles repeat, can be told apart. -/
theorem Varied.nodup_take (varied : p.Varied) (titles : List String) :
    (((p.handedOut titles).take (Nat.lcm p.colors.length p.marks.length)).map
      fun s => (s.color, s.mark)).Nodup := by
  rw [List.nodup_iff_getElem?_ne_getElem?]
  intro i j before within same
  rw [List.length_map, List.length_take, lt_min_iff] at within
  obtain ⟨below, there⟩ := within
  have first := List.getElem?_eq_getElem (before.trans there)
  have second := List.getElem?_eq_getElem there
  rw [List.getElem?_map, List.getElem?_map, List.getElem?_take_of_lt below,
    List.getElem?_take_of_lt (before.trans below), first, second, Option.map_some,
    Option.map_some, Option.some_inj, Prod.mk.injEq] at same
  -- Positions below the modulus are congruent only if they are the same.
  have congruent := (varied.alike_iff first second).mp same
  exact before.ne (congruent.eq_of_lt_of_lt (before.trans below) below)

/-- Every scheme has a style, in order. Two of them have the same colour and the same
mark exactly if their positions are congruent modulo the least common multiple of the
numbers of colours and of marks, so that as many schemes can be told apart; and further
schemes change no style before theirs. -/
theorem styles_repeat (varied : p.Varied) (titles : List String) :
    let period := Nat.lcm p.colors.length p.marks.length
    ∃ handed, p.styles titles = .ok handed ∧ handed.map Style.title = titles ∧
      (∀ (i : Nat) (s : Style), handed[i]? = some s →
        p.colors[i % p.colors.length]? = some s.color ∧
        p.marks[i % p.marks.length]? = some s.mark) ∧
      (∀ (i j : Nat) (s s' : Style), handed[i]? = some s → handed[j]? = some s' →
        (s.color = s'.color ∧ s.mark = s'.mark ↔ i ≡ j [MOD period])) ∧
      ((handed.take period).map fun s => (s.color, s.mark)).Nodup ∧
      ∀ more, ∃ later, p.styles (titles ++ more) = .ok (handed ++ later) := by
  intro period
  have handed : ∀ titles, p.styles titles = .ok (p.handedOut titles) := fun titles =>
    styles_eq_ok_iff.mpr ⟨varied.some_color, varied.some_mark, rfl⟩
  refine ⟨p.handedOut titles, handed titles, map_title_handedOut p titles, ?_,
    fun i j s s' first second => varied.alike_iff first second, varied.nodup_take titles, ?_⟩
  · intro i s there
    rw [eq_style_of_getElem? there]
    exact ⟨getElem?_wrap varied.some_color i, getElem?_wrap varied.some_mark i⟩
  · intro more
    rw [handed, handedOut_append]
    exact ⟨_, rfl⟩

/-- Two colours and four marks: the styles repeat after four schemes, although there are
eight pairs of a colour and a mark. -/
theorem styles_twoByFour :
    let p : Palette := ⟨["red", "blue"], ["|", "x", "o", "*"]⟩
    p.Varied ∧ ∃ handed, p.styles ["a", "b", "c", "d", "e", "f"] = .ok handed ∧
      ((handed.take 4).map fun s => (s.color, s.mark)).Nodup ∧
      handed[5]? = some ⟨"f", "blue", "x"⟩ ∧ handed[1]? = some ⟨"b", "blue", "x"⟩ := by
  intro p
  have varied : p.Varied := by decide
  obtain ⟨handed, ok, -, -, -, apart, -⟩ :=
    styles_repeat varied ["a", "b", "c", "d", "e", "f"]
  have period : Nat.lcm p.colors.length p.marks.length = 4 := by decide
  rw [period] at apart
  refine ⟨varied, handed, ok, apart, ?_, ?_⟩ <;> rw [(styles_eq_ok_iff.mp ok).2.2] <;> decide

end Palette

end RefinementTables
