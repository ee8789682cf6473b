import Mathlib.Data.List.Basic
import Mathlib.Data.List.Perm.Basic

set_option autoImplicit false

/-! # Partial maps laid over each other

Of several sources of values for the same keys, the first one that has a value for a key decides
(`firstOf`). The order of the sources does not matter exactly if no two of them disagree about
a key (`firstOf_perm_iff`).
-/

namespace Lib

universe u v w

variable {ι : Type u} {κ : Type v} {ν : Type w} (f : ι → κ → Option ν)

/-- The value of the first source that has one. -/
def firstOf (l : List ι) (k : κ) : Option ν := l.findSome? fun i => f i k

/-- Two partial maps have the same value where both have one. -/
def Agree (g g' : κ → Option ν) : Prop := ∀ k a a', g k = some a → g' k = some a' → a = a'

variable {f}

theorem firstOf_cons_of_some {i : ι} {l : List ι} {k : κ} {a : ν} (h : f i k = some a) :
    firstOf f (i :: l) k = some a := by
  rw [firstOf, List.findSome?_cons, h]

theorem firstOf_append (l l' : List ι) (k : κ) :
    firstOf f (l ++ l') k = (firstOf f l k).or (firstOf f l' k) :=
  List.findSome?_append

/-- Sources that agree can be asked in any order. -/
theorem firstOf_perm {l l' : List ι} (h : ∀ i ∈ l, ∀ j ∈ l, Agree (f i) (f j)) (hp : l'.Perm l) :
    firstOf f l' = firstOf f l := by
  funext k
  cases hv : firstOf f l k with
  | none =>
      have hnone := List.findSome?_eq_none_iff.mp hv
      exact List.findSome?_eq_none_iff.mpr fun i hi => hnone i (hp.mem_iff.mp hi)
  | some a =>
      obtain ⟨i, hi, ha⟩ := List.exists_of_findSome?_eq_some hv
      cases hv' : firstOf f l' k with
      | none =>
          have hnone := List.findSome?_eq_none_iff.mp hv' i (hp.mem_iff.mpr hi)
          rw [ha] at hnone
          cases hnone
      | some a' =>
          obtain ⟨j, hj, ha'⟩ := List.exists_of_findSome?_eq_some hv'
          rw [h j (hp.mem_iff.mp hj) i hi k a' a ha' ha]

/-- **The order does not matter** exactly if no two sources disagree. -/
theorem firstOf_perm_iff {l : List ι} :
    (∀ l', l'.Perm l → firstOf f l' = firstOf f l) ↔ ∀ i ∈ l, ∀ j ∈ l, Agree (f i) (f j) := by
  constructor
  · intro h i hi j hj k a a' ha ha'
    obtain ⟨s, t, rfl⟩ := List.append_of_mem hi
    obtain ⟨s', t', hl⟩ := List.append_of_mem hj
    -- once with `i` in front, once with `j`
    have hfirst := h (i :: (s ++ t)) List.perm_middle.symm
    have hsecond := h (j :: (s' ++ t')) (hl ▸ List.perm_middle.symm)
    have hboth : firstOf f (i :: (s ++ t)) k = firstOf f (j :: (s' ++ t')) k :=
      congrFun (hfirst.trans hsecond.symm) k
    rw [firstOf_cons_of_some ha, firstOf_cons_of_some ha'] at hboth
    exact Option.some.inj hboth
  · intro h l' hp
    exact firstOf_perm h hp

/-- A search with at most one hit finds the same in any order. -/
theorem find?_perm {p : ι → Bool} {l l' : List ι} (hp : l'.Perm l)
    (h : ∀ i ∈ l, ∀ j ∈ l, p i = true → p j = true → i = j) : l'.find? p = l.find? p := by
  cases hv : l.find? p with
  | none =>
      have hnone := List.find?_eq_none.mp hv
      exact List.find?_eq_none.mpr fun i hi => hnone i (hp.mem_iff.mp hi)
  | some a =>
      have ha := List.mem_of_find?_eq_some hv
      cases hv' : l'.find? p with
      | none => exact absurd (List.find?_some hv) (List.find?_eq_none.mp hv' a (hp.mem_iff.mpr ha))
      | some b =>
          have hb := hp.mem_iff.mp (List.mem_of_find?_eq_some hv')
          rw [h b hb a ha (List.find?_some hv') (List.find?_some hv)]

end Lib
