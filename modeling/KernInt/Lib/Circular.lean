import Mathlib.Data.List.Cycle

set_option autoImplicit false

/-! # Circular lists

A linked list without an end: `next` leads from each element to the one behind it, and from the
last one back to the first. Where the list starts does not matter (`Circular.of_isRotated`). A
walk that starts behind an element and stops when it is back there meets all the others, each
one once and in their order (`Circular.path`).
-/

namespace Lib

universe u

variable {α : Type u} {next : α → α}

section

variable [DecidableEq α]

/-- `next` goes round the elements of `l`. -/
structure Circular (next : α → α) (l : List α) : Prop where
  nodup : l.Nodup
  next_eq : ∀ x (h : x ∈ l), next x = l.next x h

theorem Circular.of_isRotated {l l' : List α} (h : Circular next l) (hr : l.IsRotated l') :
    Circular next l' where
  nodup := hr.nodup_iff.mp h.nodup
  next_eq x hx := by
    rw [h.next_eq x (hr.mem_iff.mpr hx)]
    exact List.isRotated_next_eq hr h.nodup (hr.mem_iff.mpr hx)

/-- Each element can be taken for the first one. -/
theorem Circular.exists_isRotated {l : List α} (h : Circular next l) {a : α} (ha : a ∈ l) :
    ∃ t, l.IsRotated (a :: t) ∧ Circular next (a :: t) := by
  obtain ⟨s, t, rfl⟩ := List.append_of_mem ha
  have hr : (s ++ a :: t).IsRotated (a :: (t ++ s)) := List.isRotated_append
  exact ⟨t ++ s, hr, h.of_isRotated hr⟩

/-- Inside the list, `next` leads to the neighbour. -/
theorem Circular.next_inner {pre suf : List α} {x y : α}
    (h : Circular next (pre ++ x :: y :: suf)) : next x = y := by
  have hr : (pre ++ x :: y :: suf).IsRotated (x :: y :: suf ++ pre) := List.isRotated_append
  have hx : x ∈ x :: y :: suf ++ pre := by simp
  rw [(h.of_isRotated hr).next_eq x hx]
  exact List.next_cons_cons_eq (suf ++ pre) x y hx

/-- From the last element, `next` leads back to the first. -/
theorem Circular.next_last {pre : List α} {x : α} (h : Circular next (pre ++ [x])) :
    next x = (pre ++ [x]).head (by simp) := by
  have hr : (pre ++ [x]).IsRotated (x :: pre) := List.isRotated_append
  have h' := h.of_isRotated hr
  cases pre with
  | nil => exact (h'.next_eq x (by simp)).trans (List.next_singleton x x _)
  | cons y pre =>
      have h0 : Circular next ([] ++ x :: y :: pre) := h'
      exact h0.next_inner

end

/-! ## Walks -/

/-- Following `next` from `x`, one meets the elements of the list and then, for the first time,
`stop`. -/
inductive Path (next : α → α) (stop : α) : α → List α → Prop
  | arrived : Path next stop stop []
  | step {x : α} {l : List α} : x ≠ stop → Path next stop (next x) l → Path next stop x (x :: l)

theorem Path.eq_stop {stop x : α} (h : Path next stop x []) : x = stop := by
  cases h
  rfl

theorem Path.of_cons {stop x y : α} {l : List α} (h : Path next stop x (y :: l)) :
    x = y ∧ y ≠ stop ∧ Path next stop (next y) l := by
  cases h with
  | step hne hrest => exact ⟨rfl, hne, hrest⟩

/-- **Once round**: a walk that starts behind the first element meets all the others before it
is back. -/
theorem Circular.path [DecidableEq α] {a : α} {t : List α} (h : Circular next (a :: t)) :
    Path next a (next a) t := by
  -- from any point of the list on
  suffices ∀ suf pre x, a :: t = pre ++ x :: suf → Path next a (next x) suf from
    this t [] a rfl
  intro suf
  induction suf with
  | nil =>
      intro pre x hl
      have hlast : next x = a := by
        rw [hl] at h
        rw [h.next_last]
        simp only [← hl, List.head_cons]
      rw [hlast]
      exact .arrived
  | cons y suf ih =>
      intro pre x hl
      have hy : next x = y := by
        rw [hl] at h
        exact h.next_inner
      have hya : y ≠ a := by
        rintro rfl
        have hnd := h.nodup
        cases pre with
        | nil => simp_all
        | cons b pre =>
            rw [List.cons_append] at hl
            obtain ⟨rfl, hl⟩ := List.cons.inj hl
            simp_all
      rw [hy]
      refine .step hya ?_
      exact ih (pre ++ [x]) y (by rw [hl, List.append_assoc]; rfl)

end Lib
