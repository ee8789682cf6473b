import KernInt.Lib.Outcome

set_option autoImplicit false

/-! # Runs side by side

Two computations that may fail carry out the same steps on different states, and an error carries
the state in which a computation has stopped. `Follows p K R Q x y`: if `x` ends in a state with
`K`, then `y` ends in the same way, with `Q` for results and `R` for stopped states. What a step
loses of `K` does not come back, so that the end of a run speaks for all of its states, and the
rules for sequences and loops need `K` at the end only.
-/

namespace Lib

universe u v

variable {σ τ ε α α' β β' : Type u} {γ : Type v}

/-- The state in which a computation ends. -/
def stoppedAt (p : α → σ) : Except (σ × ε) α → σ
  | .ok a => p a
  | .error (s, _) => s

/-- The second computation ends as the first one does. -/
def EndsAlike (R : σ → τ → Prop) (Q : α → β → Prop) :
    Except (σ × ε) α → Except (τ × ε) β → Prop
  | .ok a, .ok b => Q a b
  | .error (s, e), .error (t, e') => e = e' ∧ R s t
  | .ok _, .error _ => False
  | .error _, .ok _ => False

def Follows (p : α → σ) (K : σ → Prop) (R : σ → τ → Prop) (Q : α → β → Prop)
    (x : Except (σ × ε) α) (y : Except (τ × ε) β) : Prop :=
  K (stoppedAt p x) → EndsAlike R Q x y

namespace Follows

variable {p : α → σ} {p' : α' → σ} {K : σ → Prop} {R : σ → τ → Prop}
  {Q : α → β → Prop} {Q' : α' → β' → Prop} {x : Except (σ × ε) α} {y : Except (τ × ε) β}

theorem ok {a : α} {b : β} (h : K (p a) → Q a b) :
    Follows p K R Q (.ok a : Except (σ × ε) α) (.ok b) := h

theorem error {s : σ} {t : τ} {e : ε} (h : K s → R s t) :
    Follows p K R Q (.error (s, e)) (.error (t, e)) := fun hK => ⟨rfl, h hK⟩

/-- One behind the other. -/
theorem bind {f : α → Except (σ × ε) α'} {g : β → Except (τ × ε) β'}
    (h : Follows p K R Q x y) (hf : ∀ a b, Q a b → Follows p' K R Q' (f a) (g b))
    (hback : ∀ a, K (stoppedAt p' (f a)) → K (p a)) :
    Follows p' K R Q' (x >>= f) (y >>= g) := by
  intro hK
  cases x with
  | ok a =>
      have halike := h (hback a hK)
      cases y with
      | ok b => exact hf a b halike hK
      | error stop => exact halike.elim
  | error stop =>
      have halike := h hK
      cases y with
      | ok b => exact halike.elim
      | error stop' => exact halike

/-- What holds at the end of a loop has held at its beginning. -/
theorem back_of_foldlM {f : α → γ → Except (σ × ε) α} {l : List γ}
    (hback : ∀ c ∈ l, ∀ a, K (stoppedAt p (f a c)) → K (p a)) (a : α)
    (h : K (stoppedAt p (l.foldlM f a))) : K (p a) := by
  induction l generalizing a with
  | nil => exact h
  | cons c l ih =>
      rw [List.forall_mem_cons] at hback
      rw [List.foldlM_cons] at h
      apply hback.1 a
      cases hround : f a c with
      | ok b =>
          rw [bind_of_ok hround] at h
          exact ih hback.2 b h
      | error stop =>
          rw [hround] at h
          exact h

/-- Round by round. -/
theorem foldlM {f : α → γ → Except (σ × ε) α} {g : β → γ → Except (τ × ε) β} {l : List γ} {a : α}
    {b : β} (h : Q a b)
    (hstep : ∀ c ∈ l, ∀ a b, Q a b → Follows p K R Q (f a c) (g b c))
    (hback : ∀ c ∈ l, ∀ a, K (stoppedAt p (f a c)) → K (p a)) :
    Follows p K R Q (l.foldlM f a) (l.foldlM g b) := by
  induction l generalizing a b with
  | nil => exact ok fun _ => h
  | cons c l ih =>
      rw [List.forall_mem_cons] at hstep hback
      rw [List.foldlM_cons, List.foldlM_cons]
      refine (hstep.1 a b h).bind (fun a' b' h' => ih h' hstep.2 hback.2) fun a' h' => ?_
      exact back_of_foldlM hback.2 a' h'

end Follows

end Lib
