import Mathlib.Data.List.Forall2
import RefinementTables.Fault

/-!
Computations that may fail: what it takes for a chain of them to succeed, and
for one computation at each element of a list. `StopsAtFirst` says which of
several faults ends a chain.
-/

namespace RefinementTables

/-- A chain succeeds exactly when its first step does and the rest succeeds on
what that step gives. -/
theorem bind_eq_ok_iff {ε α β : Type} {x : Except ε α} {f : α → Except ε β} {b : β} :
    (x >>= f) = .ok b ↔ ∃ a, x = .ok a ∧ f a = .ok b := by
  cases x with
  | error e =>
    constructor
    · intro h
      cases h
    · rintro ⟨a, h, _⟩
      cases h
  | ok a =>
    constructor
    · intro h
      exact ⟨a, rfl, h⟩
    · rintro ⟨b, h, hb⟩
      cases h
      exact hb

/-- One computation for each element of a list succeeds exactly when all do. -/
theorem mapM_eq_ok_iff {ε α β : Type} {f : α → Except ε β} {xs : List α} {ys : List β} :
    xs.mapM f = .ok ys ↔ List.Forall₂ (fun x y => f x = .ok y) xs ys := by
  induction xs generalizing ys with
  | nil =>
    rw [List.mapM_nil, List.forall₂_nil_left_iff]
    constructor
    · intro h
      cases h
      rfl
    · rintro rfl
      rfl
  | cons x xs ih =>
    rw [List.mapM_cons, bind_eq_ok_iff, List.forall₂_cons_left_iff]
    constructor
    · rintro ⟨y, first, h⟩
      obtain ⟨later, rest, h⟩ := bind_eq_ok_iff.mp h
      cases h
      exact ⟨y, later, first, ih.mp rest, rfl⟩
    · rintro ⟨y, later, first, rest, rfl⟩
      exact ⟨y, first, bind_eq_ok_iff.mpr ⟨later, ih.mpr rest, rfl⟩⟩

/-- Where every element of a list has a partner, there is a list of partners. -/
theorem exists_forall₂ {α β : Type} {R : α → β → Prop} {xs : List α}
    (partner : ∀ x ∈ xs, ∃ y, R x y) : ∃ ys, List.Forall₂ R xs ys := by
  induction xs with
  | nil => exact ⟨[], .nil⟩
  | cons x xs ih =>
    obtain ⟨⟨y, first⟩, later⟩ := List.forall_mem_cons.mp partner
    obtain ⟨ys, all⟩ := ih later
    exact ⟨y :: ys, .cons first all⟩

/-- Every element on the right of a relation between lists has a partner. -/
theorem exists_of_mem_right {α β : Type} {R : α → β → Prop} {xs : List α} {ys : List β}
    (related : List.Forall₂ R xs ys) {y : β} (mem : y ∈ ys) : ∃ x ∈ xs, R x y := by
  induction related with
  | nil => cases mem
  | cons first _ ih =>
    rcases List.mem_cons.mp mem with rfl | later
    · exact ⟨_, List.mem_cons_self, first⟩
    · obtain ⟨x, hx, related⟩ := ih later
      exact ⟨x, List.mem_cons_of_mem _ hx, related⟩

/-- So has every element on the left. -/
theorem exists_of_mem_left {α β : Type} {R : α → β → Prop} {xs : List α} {ys : List β}
    (related : List.Forall₂ R xs ys) {x : α} (mem : x ∈ xs) : ∃ y ∈ ys, R x y :=
  exists_of_mem_right (List.Forall₂.flip (R := fun y x => R x y) related) mem

/-- So has the element at a position: the one at the same position. -/
theorem exists_getElem?_right {α β : Type} {R : α → β → Prop} {xs : List α} {ys : List β}
    (related : List.Forall₂ R xs ys) {i : Nat} {x : α} (there : xs[i]? = some x) :
    ∃ y, ys[i]? = some y ∧ R x y := by
  obtain ⟨below, rfl⟩ := List.getElem?_eq_some_iff.mp there
  have below' : i < ys.length := related.length_eq ▸ below
  exact ⟨ys[i], List.getElem?_eq_getElem below', related.get below below'⟩

/-- What agrees on the two sides of a relation gives equal lists. -/
theorem map_eq_map_of_forall₂ {α β γ : Type} {f : α → γ} {g : β → γ} {xs : List α} {ys : List β}
    (related : List.Forall₂ (fun x y => f x = g y) xs ys) : xs.map f = ys.map g := by
  rw [← List.forall₂_eq_eq_eq, List.forall₂_map_left_iff, List.forall₂_map_right_iff]
  exact related

/-- A relation between lists may use that its elements are theirs. -/
theorem forall₂_of_mem {α β : Type} {R S : α → β → Prop} {xs : List α} {ys : List β}
    (related : List.Forall₂ R xs ys) (imp : ∀ x ∈ xs, ∀ y ∈ ys, R x y → S x y) :
    List.Forall₂ S xs ys := by
  obtain ⟨sized, pairs⟩ := List.forall₂_iff_zip.mp related
  refine List.forall₂_iff_zip.mpr ⟨sized, ?_⟩
  intro x y mem
  obtain ⟨hx, hy⟩ := List.of_mem_zip mem
  exact imp x hx y hy (pairs mem)

/-- Where a relation between partners comes down to a property of the left one, it
holds between all of them exactly if all elements on the left have the property. -/
theorem forall₂_iff_forall_mem {α β : Type} {R : α → β → Prop} {P : α → Prop} {xs : List α}
    {ys : List β} (each : List.Forall₂ (fun x y => R x y ↔ P x) xs ys) :
    List.Forall₂ R xs ys ↔ ∀ x ∈ xs, P x := by
  induction each with
  | nil => simp
  | cons first _ ih => rw [List.forall₂_cons, List.forall_mem_cons, first, ih]

/-- Lists of lists are equal when they are equal as lists of values that may be
missing. -/
theorem eq_of_map_map_some {α : Type} {xs ys : List (List α)}
    (same : xs.map (·.map some) = ys.map (·.map some)) : xs = ys := by
  have injective : Function.Injective (List.map (some : α → Option α)) :=
    List.map_injective_iff.mpr fun _ _ => Option.some.inj
  exact List.map_injective_iff.mpr injective same

/-- Two relations of one list, side by side. -/
theorem forall₂_join {α β γ : Type} {R : α → β → Prop} {S : α → γ → Prop} {xs : List α}
    {ys : List β} {zs : List γ} (first : List.Forall₂ R xs ys) (second : List.Forall₂ S xs zs) :
    List.Forall₂ (fun y z => ∃ x, R x y ∧ S x z) ys zs := by
  induction first generalizing zs with
  | nil =>
    cases second
    exact .nil
  | cons related _ ih =>
    cases second with
    | cons related' rest => exact .cons ⟨_, related, related'⟩ (ih rest)

/-! ### The first of some faults -/

/-- A computation stops at the first of some faults. Where there is none it has a
result, of which something is known. -/
def StopsAtFirst {ε α : Type} (faults : List ε) (P : α → Prop) (x : Except ε α) : Prop :=
  match faults with
  | [] => ∃ a, x = .ok a ∧ P a
  | fault :: _ => x = .error fault

namespace StopsAtFirst

variable {ε α β : Type} {faults later : List ε} {P : α → Prop} {Q : β → Prop} {x : Except ε α}

/-- A chain stops at the first fault of its first step, or else at the first of the
rest. -/
theorem bind {f : α → Except ε β} (first : StopsAtFirst faults P x)
    (rest : faults = [] → ∀ a, P a → StopsAtFirst later Q (f a)) :
    StopsAtFirst (faults ++ later) Q (x >>= f) := by
  cases faults with
  | nil =>
    obtain ⟨a, rfl, known⟩ := first
    exact rest rfl a known
  | cons fault faults =>
    cases (show x = .error fault from first)
    rfl

theorem mono {R : α → Prop} (stops : StopsAtFirst faults P x) (known : ∀ a, P a → R a) :
    StopsAtFirst faults R x := by
  cases faults with
  | nil =>
    obtain ⟨a, ok, h⟩ := stops
    exact ⟨a, ok, known a h⟩
  | cons fault faults => exact stops

/-- A chain whose rest cannot fail stops where its first step does. -/
theorem bind_ok {f : α → Except ε β} (first : StopsAtFirst faults P x)
    (rest : faults = [] → ∀ a, P a → ∃ b, f a = .ok b ∧ Q b) : StopsAtFirst faults Q (x >>= f) := by
  rw [← List.append_nil faults]
  exact first.bind rest

/-- What is computed from a result cannot fail. -/
theorem map {f : α → β} (stops : StopsAtFirst faults P x) (known : ∀ a, P a → Q (f a)) :
    StopsAtFirst faults Q (x.map f) := by
  cases faults with
  | nil =>
    obtain ⟨a, rfl, h⟩ := stops
    exact ⟨f a, rfl, known a h⟩
  | cons fault faults =>
    cases (show x = .error fault from stops)
    rfl

/-- There is a result only where there is no fault, and it has the property. -/
theorem of_ok (stops : StopsAtFirst faults P x) {a : α} (ok : x = .ok a) :
    faults = [] ∧ P a := by
  subst ok
  cases faults with
  | nil =>
    obtain ⟨a, same, h⟩ := stops
    cases same
    exact ⟨rfl, h⟩
  | cons fault faults => cases (show Except.ok _ = Except.error fault from stops)

theorem error_iff (stops : StopsAtFirst faults P x) {fault : ε} :
    x = .error fault ↔ faults.head? = some fault := by
  cases faults with
  | nil =>
    obtain ⟨a, rfl, -⟩ := stops
    exact ⟨nofun, nofun⟩
  | cons first faults =>
    cases (show x = .error first from stops)
    rw [Except.error.injEq, List.head?_cons, Option.some.injEq]

theorem fails_iff (stops : StopsAtFirst faults P x) :
    (∃ fault, x = .error fault) ↔ ∃ fault, fault ∈ faults := by
  cases faults with
  | nil =>
    obtain ⟨a, rfl, -⟩ := stops
    exact ⟨nofun, nofun⟩
  | cons first faults => exact ⟨fun _ => ⟨first, List.mem_cons_self⟩, fun _ => ⟨first, stops⟩⟩

end StopsAtFirst

end RefinementTables
