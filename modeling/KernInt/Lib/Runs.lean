import Mathlib.Data.List.Basic
import Mathlib.Tactic.Common

set_option autoImplicit false

/-! # Runs of a machine

A machine takes actions, one after the other: `step s a` is the state behind the action `a` with
what the machine puts out, and `none` if it cannot take the action. A run lists the actions and
what is put out. What an action keeps and puts out, a run keeps and puts out (`Run.invariant`).
-/

namespace Lib

universe u v w

variable {σ : Type u} {α : Type v} {ε : Type w}

/-- The machine goes from one state to another, taking the actions and putting out `es`. -/
inductive Run (step : σ → α → Option (σ × List ε)) : σ → List α → List ε → σ → Prop
  | nil (s : σ) : Run step s [] [] s
  | cons {s s' s'' : σ} {a : α} {as : List α} {es es' : List ε} : step s a = some (s', es) →
      Run step s' as es' s'' → Run step s (a :: as) (es ++ es') s''

namespace Run

variable {step : σ → α → Option (σ × List ε)} {s s' s'' : σ} {a : α} {as as' : List α}
  {es es' : List ε}

theorem single (h : step s a = some (s', es)) : Run step s [a] es s' := by
  have hrun := cons h (nil s')
  rwa [List.append_nil] at hrun

theorem append (h : Run step s as es s') (h' : Run step s' as' es' s'') :
    Run step s (as ++ as') (es ++ es') s'' := by
  induction h with
  | nil => exact h'
  | cons hstep _ ih =>
      rw [List.cons_append, List.append_assoc]
      exact cons hstep (ih h')

/-- A run behind an action. -/
theorem of_cons (h : Run step s (a :: as) es s'') :
    ∃ s' es₁ es₂, step s a = some (s', es₁) ∧ Run step s' as es₂ s'' ∧ es = es₁ ++ es₂ := by
  cases h with
  | cons hstep hrest => exact ⟨_, _, _, hstep, hrest, rfl⟩

/-- **The invariant rule**: what every action keeps holds behind the run, and all that is put out
is what the actions may put out. -/
theorem invariant (Inv : σ → Prop) (Out : ε → Prop)
    (hstep : ∀ s a s' es, Inv s → step s a = some (s', es) → Inv s' ∧ ∀ e ∈ es, Out e)
    (h0 : Inv s) (h : Run step s as es s') : Inv s' ∧ ∀ e ∈ es, Out e := by
  induction h with
  | nil => exact ⟨h0, by simp⟩
  | cons hs _ ih =>
      obtain ⟨hinv, hout⟩ := hstep _ _ _ _ h0 hs
      obtain ⟨hinv', hout'⟩ := ih hinv
      exact ⟨hinv', fun e he => (List.mem_append.mp he).elim (hout e) (hout' e)⟩

end Run

/-- The elements of a list up to the first one with a property, and with this one. -/
def upTo {β : Type u} (p : β → Bool) : List β → List β
  | [] => []
  | x :: l => if p x then [x] else x :: upTo p l

end Lib
