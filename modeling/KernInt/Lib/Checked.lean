import KernInt.Lib.Outcome

set_option autoImplicit false

/-! # Computations with checks

Some of the errors of a computation are violations; it is tame if it does not end in one of them.
A computation made of checks has a condition, under which it gives its value, and without which it
ends in a violation (`Checked`). Conditions are put together as the computations are: in a
sequence, and over a list.
-/

namespace Lib

universe u v

variable {ε : Type u} {α β : Type v} {Bad : ε → Prop}

/-- The computation does not end in a violation. -/
def Tame (Bad : ε → Prop) (x : Except ε α) : Prop :=
  Ensures x (fun e => ¬ Bad e) fun _ => True

/-- The value under a condition, and a violation without it. -/
structure Checked (Bad : ε → Prop) (x : Except ε α) (P : Prop) (v : α) : Prop where
  ok : P → x = .ok v
  bad : ¬ P → ∃ e, x = .error e ∧ Bad e

theorem tame_ok (a : α) : Tame Bad (.ok a : Except ε α) := trivial

theorem tame_error_iff {e : ε} : Tame Bad (.error e : Except ε α) ↔ ¬ Bad e := Iff.rfl

namespace Checked

variable {x : Except ε α} {P Q : Prop} {v : α}

theorem pure (v : α) : Checked Bad (.ok v : Except ε α) True v :=
  ⟨fun _ => rfl, fun h => absurd trivial h⟩

theorem congr (h : Checked Bad x P v) (hPQ : P ↔ Q) : Checked Bad x Q v :=
  ⟨fun hQ => h.ok (hPQ.mpr hQ), fun hQ => h.bad fun hP => hQ (hPQ.mp hP)⟩

/-- A value that is given is the one under the condition. -/
theorem eq_of_ok {w : α} (h : Checked Bad x P v) (hx : x = .ok w) : P ∧ w = v := by
  by_cases hP : P
  · rw [h.ok hP] at hx
    exact ⟨hP, (Except.ok.inj hx).symm⟩
  · obtain ⟨e, he, -⟩ := h.bad hP
    rw [he] at hx
    cases hx

theorem tame_bind_iff (h : Checked Bad x P v) (f : α → Except ε β) :
    Tame Bad (x >>= f) ↔ P ∧ Tame Bad (f v) := by
  by_cases hP : P
  · rw [h.ok hP]
    exact (and_iff_right hP).symm
  · obtain ⟨e, he, hbad⟩ := h.bad hP
    rw [he]
    constructor
    · intro htame
      exact absurd hbad htame
    · intro hboth
      exact absurd hboth.1 hP

theorem tame_iff (h : Checked Bad x P v) : Tame Bad x ↔ P := by
  by_cases hP : P
  · rw [h.ok hP]
    exact iff_of_true (tame_ok v) hP
  · obtain ⟨e, he, hbad⟩ := h.bad hP
    rw [he, tame_error_iff]
    exact iff_of_false (not_not.mpr hbad) hP

theorem bind {f : α → Except ε β} {w : β} (h : Checked Bad x P v)
    (hf : Checked Bad (f v) Q w) : Checked Bad (x >>= f) (P ∧ Q) w := by
  constructor
  · rintro ⟨hP, hQ⟩
    rw [h.ok hP]
    exact hf.ok hQ
  · intro hnot
    by_cases hP : P
    · rw [h.ok hP]
      exact hf.bad fun hQ => hnot ⟨hP, hQ⟩
    · obtain ⟨e, he, hbad⟩ := h.bad hP
      exact ⟨e, by rw [he]; rfl, hbad⟩

theorem mapM {γ : Type v} {f : γ → Except ε β} {l : List γ} {P : γ → Prop} {w : γ → β}
    (h : ∀ c ∈ l, Checked Bad (f c) (P c) (w c)) :
    Checked Bad (l.mapM f) (∀ c ∈ l, P c) (l.map w) := by
  induction l with
  | nil => exact (Checked.pure []).congr (by simp)
  | cons c l ih =>
      rw [List.forall_mem_cons] at h
      rw [List.mapM_cons]
      have hrest : Checked Bad (do let bs ← l.mapM f; Pure.pure (w c :: bs))
          ((∀ c ∈ l, P c) ∧ True) (w c :: l.map w) := (ih h.2).bind (Checked.pure _)
      exact (h.1.bind hrest).congr (by simp)

/-- A computation whose value decides what is done next. -/
theorem ite {c : Prop} [Decidable c] {y : Except ε α} {w : α} (hx : Checked Bad x P v)
    (hy : Checked Bad y Q w) :
    Checked Bad (if c then x else y) (if c then P else Q) (if c then v else w) := by
  by_cases hc : c
  · simpa only [if_pos hc] using hx
  · simpa only [if_neg hc] using hy

end Checked

end Lib
