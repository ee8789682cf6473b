import Mathlib.Data.List.Induction
import Mathlib.Data.List.Basic

set_option autoImplicit false

/-! # The nearest key below a bound

A walk over a list that keeps the position with the largest key it has met, among the keys
between two bounds, and that key. Of several equal keys the first is kept.
-/

namespace Lib

theorem getElem?_append_singleton {α : Type} {xs : List α} {x y : α} {i : Nat}
    (h : (xs ++ [x])[i]? = some y) : xs[i]? = some y ∨ i = xs.length ∧ y = x := by
  rcases Nat.lt_trichotomy i xs.length with hlt | heq | hgt
  · rw [List.getElem?_append_left hlt] at h
    exact .inl h
  · subst heq
    rw [List.getElem?_concat_length] at h
    exact .inr ⟨rfl, (Option.some.inj h).symm⟩
  · rw [List.getElem?_eq_none (by simp; omega)] at h
    cases h

variable {α κ : Type} [LT κ]

/-- `x` is the first element with the largest key between the bounds, and `j` its position. -/
structure IsNearest [LE κ] (key : α → κ) (low bound : κ) (xs : List α) (j : Nat) (x : α) :
    Prop where
  get : xs[j]? = some x
  above : low < key x
  below : key x < bound
  max : ∀ (i : Nat) y, xs[i]? = some y → key y < bound → key y ≤ key x
  first : ∀ (i : Nat) y, xs[i]? = some y → key y = key x → j ≤ i

variable {key : α → κ} {low bound : κ} {xs : List α} [LE κ] [Std.IsLinearOrder κ]

/-- Two elements that are both nearest are the same one. -/
theorem IsNearest.unique {i j : Nat} {x y : α} (hx : IsNearest key low bound xs i x)
    (hy : IsNearest key low bound xs j y) : i = j ∧ x = y := by
  have hkey : key x = key y :=
    Std.le_antisymm (hy.max i x hx.get hx.below) (hx.max j y hy.get hy.below)
  have hij : i = j :=
    Nat.le_antisymm (hx.first j y hy.get hkey.symm) (hy.first i x hx.get hkey)
  subst hij
  exact ⟨rfl, Option.some.inj (hx.get.symm.trans hy.get)⟩

variable [Std.LawfulOrderLT κ]

/-- An element that is out of the bounds, or not above the nearest one, changes nothing. -/
theorem IsNearest.append_of_not {j : Nat} {x y : α} (h : IsNearest key low bound xs j x)
    (hy : ¬ (key y < bound ∧ key x < key y)) : IsNearest key low bound (xs ++ [y]) j x where
  get := by
    have hlt := (List.getElem?_eq_some_iff.mp h.get).1
    rw [List.getElem?_append_left hlt, h.get]
  above := h.above
  below := h.below
  max i z hz hbound := by
    rcases getElem?_append_singleton hz with hz | ⟨-, rfl⟩
    · exact h.max i z hz hbound
    · exact Std.not_lt.mp fun hlt => hy ⟨hbound, hlt⟩
  first i z hz heq := by
    rcases getElem?_append_singleton hz with hz | ⟨rfl, -⟩
    · exact h.first i z hz heq
    · exact Nat.le_of_lt (List.getElem?_eq_some_iff.mp h.get).1

/-- A larger key between the bounds takes its place. -/
theorem IsNearest.append_new {y : α} {k : κ} (hlow : low < key y) (hbound : key y < bound)
    (hmax : ∀ (i : Nat) z, xs[i]? = some z → key z < bound → key z ≤ k) (hy : k < key y) :
    IsNearest key low bound (xs ++ [y]) xs.length y where
  get := List.getElem?_concat_length
  above := hlow
  below := hbound
  max i z hz hz' := by
    rcases getElem?_append_singleton hz with hz | ⟨-, rfl⟩
    · exact Std.le_of_lt (Std.lt_of_le_of_lt (hmax i z hz hz') hy)
    · exact Std.le_refl _
  first i z hz heq := by
    rcases getElem?_append_singleton hz with hz | ⟨rfl, -⟩
    · have hle := hmax i z hz (heq ▸ hbound)
      exact absurd (Std.lt_of_le_of_lt (heq ▸ hle) hy) Std.lt_irrefl
    · exact Nat.le_refl _

variable [DecidableLT κ]

/-- The round of the walk for the element at a position. -/
def nearestStep (key : α → κ) (bound : κ) (best : Option Nat × κ) (x : α × Nat) :
    Option Nat × κ :=
  if key x.1 < bound ∧ best.2 < key x.1 then (some x.2, key x.1) else best

def nearest (key : α → κ) (low bound : κ) (xs : List α) : Option Nat × κ :=
  xs.zipIdx.foldl (nearestStep key bound) (none, low)

omit [LE κ] [Std.IsLinearOrder κ] [Std.LawfulOrderLT κ] in
theorem nearest_append_singleton (x : α) :
    nearest key low bound (xs ++ [x]) =
      nearestStep key bound (nearest key low bound xs) (x, xs.length) := by
  unfold nearest
  rw [List.zipIdx_append, List.foldl_append]
  simp

theorem nearest_spec (key : α → κ) (low bound : κ) (xs : List α) :
    (nearest key low bound xs = (none, low) ∧
      ∀ (i : Nat) x, xs[i]? = some x → key x < bound → key x ≤ low) ∨
    ∃ j x, nearest key low bound xs = (some j, key x) ∧ IsNearest key low bound xs j x := by
  induction xs using List.reverseRecOn with
  | nil => exact .inl ⟨rfl, fun i x h => by simp at h⟩
  | append_singleton xs y ih =>
      rw [nearest_append_singleton]
      rcases ih with ⟨heq, hnone⟩ | ⟨j, x, heq, hx⟩
      · rw [heq]
        by_cases hy : key y < bound ∧ low < key y
        · exact .inr ⟨xs.length, y, if_pos hy, .append_new hy.2 hy.1 hnone hy.2⟩
        · refine .inl ⟨if_neg hy, fun i z hz hbound => ?_⟩
          rcases getElem?_append_singleton hz with hz | ⟨-, rfl⟩
          · exact hnone i z hz hbound
          · exact Std.not_lt.mp fun hlt => hy ⟨hbound, hlt⟩
      · rw [heq]
        by_cases hy : key y < bound ∧ key x < key y
        · have hlow := Std.lt_trans hx.above hy.2
          exact .inr ⟨xs.length, y, if_pos hy, .append_new hlow hy.1 hx.max hy.2⟩
        · exact .inr ⟨j, x, if_neg hy, hx.append_of_not hy⟩

/-- The walk finds the nearest element, if there is one. -/
theorem nearest_eq_some_iff {j : Nat} :
    (nearest key low bound xs).1 = some j ↔ ∃ x, IsNearest key low bound xs j x := by
  constructor
  · intro h
    rcases nearest_spec key low bound xs with
      ⟨heq, -⟩ | ⟨i, x, heq, hx⟩
    · rw [heq] at h
      cases h
    · rw [heq] at h
      cases h
      exact ⟨x, hx⟩
  · rintro ⟨x, hx⟩
    rcases nearest_spec key low bound xs with
      ⟨-, hnone⟩ | ⟨i, y, heq, hy⟩
    · have hle := hnone j x hx.get hx.below
      exact absurd (Std.lt_of_lt_of_le hx.above hle) Std.lt_irrefl
    · rw [heq, (hx.unique hy).1]

/-- There is one exactly if a key lies between the bounds. -/
theorem exists_nearest_iff :
    (∃ j, (nearest key low bound xs).1 = some j) ↔ ∃ x ∈ xs, low < key x ∧ key x < bound := by
  rcases nearest_spec key low bound xs with ⟨heq, hnone⟩ | ⟨j, x, heq, hx⟩
  · rw [heq]
    constructor
    · rintro ⟨j, hj⟩
      cases hj
    · rintro ⟨x, hmem, hlow, hbound⟩
      obtain ⟨i, hi, rfl⟩ := List.mem_iff_getElem.mp hmem
      have hle := hnone i _ (List.getElem?_eq_getElem hi) hbound
      exact absurd (Std.lt_of_lt_of_le hlow hle) Std.lt_irrefl
  · rw [heq]
    constructor
    · intro _
      exact ⟨x, List.mem_of_getElem? hx.get, hx.above, hx.below⟩
    · intro _
      exact ⟨j, rfl⟩

end Lib
