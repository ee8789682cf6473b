import Mathlib.Order.WellFoundedSet

set_option autoImplicit false

/-! # Interleavings

Threads take turns on a common state: `step t s` is what the next atomic section of thread `t`
makes of `s`, and `none` when `t` has no section left. The states that some interleaving
reaches are `Reachable`. Invariants may be established one after the other: the step case of a
later one can use the earlier ones (`Reachable.invariant_of`).
-/

namespace Lib

universe u v

variable {T : Type u} {σ : Type v}

/-- The states that the threads reach from `s₀`, whatever the order of their steps. -/
inductive Reachable (step : T → σ → Option σ) (s₀ : σ) : σ → Prop
  | start : Reachable step s₀ s₀
  | next {s s' : σ} (t : T) : Reachable step s₀ s → step t s = some s' → Reachable step s₀ s'

namespace Reachable

variable {step : T → σ → Option σ} {s₀ s s' : σ}

/-- **The invariant rule**, relative to facts that are known of every reachable state. -/
theorem invariant_of (Known Inv : σ → Prop) (hknown : ∀ s, Reachable step s₀ s → Known s)
    (h0 : Inv s₀) (hstep : ∀ t s s', Known s → Inv s → step t s = some s' → Inv s')
    (h : Reachable step s₀ s) : Inv s := by
  induction h with
  | start => exact h0
  | next t hr hs ih => exact hstep t _ _ (hknown _ hr) ih hs

theorem invariant (Inv : σ → Prop) (h0 : Inv s₀)
    (hstep : ∀ t s s', Inv s → step t s = some s' → Inv s') (h : Reachable step s₀ s) : Inv s :=
  h.invariant_of (fun _ => True) Inv (fun _ _ => trivial) h0
    (fun t s s' _ hi hs => hstep t s s' hi hs)

theorem trans (h : Reachable step s₀ s) (h' : Reachable step s s') : Reachable step s₀ s' := by
  induction h' with
  | start => exact h
  | next t _ hs ih => exact .next t ih hs

/-- The states reached by a schedule, the list of the threads that step. -/
theorem of_schedule (schedule : List T)
    (h : schedule.foldlM (fun s t => step t s) s₀ = some s) : Reachable step s₀ s := by
  suffices ∀ a, Reachable step s₀ a → schedule.foldlM (fun s t => step t s) a = some s →
      Reachable step s₀ s from this s₀ .start h
  clear h
  induction schedule with
  | nil =>
      intro a ha h
      rw [List.foldlM_nil] at h
      cases h
      exact ha
  | cons t schedule ih =>
      intro a ha h
      rw [List.foldlM_cons] at h
      obtain ⟨b, hb, h⟩ := Option.bind_eq_some_iff.mp h
      exact ih b (.next t ha hb) h

end Reachable

/-! ## Acyclic relations -/

/-- Along a finite relation without cycles every walk ends. -/
theorem wellFounded_of_acyclic {α : Type u} {r : α → α → Prop}
    (hfin : {p : α × α | r p.1 p.2}.Finite) (hacyc : ∀ a, ¬ Relation.TransGen r a a) :
    WellFounded fun b a => Relation.TransGen r a b := by
  -- the elements that the relation relates at all
  let S : Set α := Prod.fst '' {p : α × α | r p.1 p.2} ∪ Prod.snd '' {p : α × α | r p.1 p.2}
  have hS : S.Finite := (hfin.image _).union (hfin.image _)
  have : IsStrictOrder α fun b a => Relation.TransGen r a b :=
    { irrefl := hacyc, trans := fun _ _ _ hab hbc => hbc.trans hab }
  have hwf : S.WellFoundedOn fun b a => Relation.TransGen r a b := hS.wellFoundedOn
  refine Subrelation.wf ?_ (Set.wellFoundedOn_iff.mp hwf)
  intro b a hab
  obtain ⟨c, hac, _⟩ := Relation.TransGen.head'_iff.mp hab
  obtain ⟨d, _, hdb⟩ := Relation.TransGen.tail'_iff.mp hab
  exact ⟨hab, .inr ⟨(d, b), hdb, rfl⟩, .inl ⟨(a, c), hac, rfl⟩⟩

end Lib
