import Mathlib.Order.Basic
import Mathlib.Tactic.Common

set_option autoImplicit false

/-! # Loops as rounds

A loop with early exits is one function, `round`: from the state at the head of the loop it
either goes round again from a new state or leaves the loop with a result. A loop whose
rounds decrease a measure is a total function (`loop`), and its result is fixed by the head
states it visits (`Visits`): an invariant is proved along the visits (`Visits.invariant`) and
read off at the one visited state that leaves (`exists_visits_leave`). Where no measure is at
hand, a loop is run for a number of rounds (`within`), and it returns if some number is enough.
-/

namespace Lib

universe u v

/-- What one round of a loop does. -/
inductive Round (σ : Type u) (ρ : Type v) where
  /-- Go back to the head of the loop, with a new state. -/
  | again (s : σ)
  /-- Leave the loop. -/
  | leave (r : ρ)
  deriving DecidableEq

variable {σ : Type u} {ρ : Type v}

/-- The states in which the head of the loop is reached, when the loop is entered in `s₀`. -/
inductive Visits (round : σ → Round σ ρ) (s₀ : σ) : σ → Prop
  | enter : Visits round s₀ s₀
  | next {s s' : σ} : Visits round s₀ s → round s = .again s' → Visits round s₀ s'

/-- **The invariant rule**: what holds on entry and is kept by every round that goes on
holds at every visited head. -/
theorem Visits.invariant {round : σ → Round σ ρ} {s₀ : σ} (Inv : σ → Prop) (h0 : Inv s₀)
    (hstep : ∀ s s', Inv s → round s = .again s' → Inv s') {s : σ} (h : Visits round s₀ s) :
    Inv s := by
  induction h with
  | enter => exact h0
  | next _ hr ih => exact hstep _ _ ih hr

/-- The first round of a visit. -/
theorem Visits.first {round : σ → Round σ ρ} {a b : σ} (h : Visits round a b) :
    a = b ∨ ∃ a', round a = .again a' ∧ Visits round a' b := by
  induction h with
  | enter => exact .inl rfl
  | next hv hr ih =>
      rcases ih with rfl | ⟨a', ha, hv'⟩
      · exact .inr ⟨_, hr, .enter⟩
      · exact .inr ⟨a', ha, .next hv' hr⟩

/-- A loop visits its heads one after the other: of two of them, one comes from the other. -/
theorem Visits.connected {round : σ → Round σ ρ} {s₀ a b : σ} (ha : Visits round s₀ a)
    (hb : Visits round s₀ b) : Visits round a b ∨ Visits round b a := by
  induction ha with
  | enter => exact .inl hb
  | @next a a' _ hr ih =>
      rcases ih with h | h
      · rcases h.first with rfl | ⟨a'', hr', hv⟩
        · exact .inr (.next .enter hr)
        · rw [hr] at hr'
          cases hr'
          exact .inl hv
      · exact .inr (.next h hr)

/-- Every round that goes on makes the measure smaller. -/
def Decreases (round : σ → Round σ ρ) (μ : σ → Nat) : Prop :=
  ∀ s s', round s = .again s' → μ s' < μ s

/-- The result of a loop whose rounds decrease `μ`. -/
def loop (round : σ → Round σ ρ) (μ : σ → Nat) (hμ : Decreases round μ) (s : σ) : ρ :=
  match _h : round s with
  | .leave r => r
  | .again s' => loop round μ hμ s'
termination_by μ s
decreasing_by exact hμ s s' _h

section

variable {round : σ → Round σ ρ} {μ : σ → Nat} (hμ : Decreases round μ)

theorem loop_of_leave {s : σ} {r : ρ} (h : round s = .leave r) : loop round μ hμ s = r := by
  rw [loop]
  split
  · rename_i r' h'
    rw [h] at h'
    exact (Round.leave.inj h').symm
  · rename_i s' h'
    rw [h] at h'
    cases h'

theorem loop_of_again {s s' : σ} (h : round s = .again s') :
    loop round μ hμ s = loop round μ hμ s' := by
  rw [loop]
  split
  · rename_i r' h'
    rw [h] at h'
    cases h'
  · rename_i s'' h'
    rw [h] at h'
    rw [Round.again.inj h']

/-- From a visited head the loop returns what it returns from the entry. -/
theorem loop_eq_of_visits {s₀ s : σ} (h : Visits round s₀ s) :
    loop round μ hμ s₀ = loop round μ hμ s := by
  induction h with
  | enter => rfl
  | next _ hr ih => rw [ih, loop_of_again hμ hr]

/-- A visited head that leaves decides the result. -/
theorem loop_eq_of_visits_leave {s₀ s : σ} {r : ρ} (h : Visits round s₀ s)
    (hr : round s = .leave r) : loop round μ hμ s₀ = r := by
  rw [loop_eq_of_visits hμ h, loop_of_leave hμ hr]

/-- **A decreasing loop leaves**, at a visited head and with its result. -/
theorem exists_visits_leave (s₀ : σ) :
    ∃ s, Visits round s₀ s ∧ round s = .leave (loop round μ hμ s₀) := by
  have hkey : ∀ s, Visits round s₀ s →
      ∃ s', Visits round s₀ s' ∧ round s' = .leave (loop round μ hμ s₀) := by
    intro s hv
    induction hn : μ s using Nat.strongRecOn generalizing s with
    | _ n ih =>
        cases h : round s with
        | leave r => exact ⟨s, hv, by rw [h, loop_eq_of_visits_leave hμ hv h]⟩
        | again s' =>
            have hlt : μ s' < n := hn ▸ hμ s s' h
            exact ih (μ s') hlt s' (.next hv h) rfl
  exact hkey s₀ .enter

/-- Loops whose rounds agree at the heads that one of them visits have the same result. -/
theorem loop_congr {round' : σ → Round σ ρ} {μ' : σ → Nat} (hμ' : Decreases round' μ') {s₀ : σ}
    (h : ∀ s, Visits round s₀ s → round' s = round s) :
    loop round' μ' hμ' s₀ = loop round μ hμ s₀ := by
  have hvisits : ∀ s, Visits round s₀ s → Visits round' s₀ s := by
    intro s hv
    induction hv with
    | enter => exact .enter
    | next hv hr ih => exact .next ih ((h _ hv).trans hr)
  obtain ⟨s, hv, hr⟩ := exists_visits_leave hμ s₀
  exact loop_eq_of_visits_leave hμ' (hvisits s hv) ((h s hv).trans hr)

/-- **The result rule**: an invariant that every leaving round turns into `Post` gives `Post`
of the result. -/
theorem loop_post {s₀ : σ} (Inv : σ → Prop) (Post : ρ → Prop) (h0 : Inv s₀)
    (hstep : ∀ s s', Inv s → round s = .again s' → Inv s')
    (hleave : ∀ s r, Inv s → round s = .leave r → Post r) : Post (loop round μ hμ s₀) := by
  obtain ⟨s, hv, hr⟩ := exists_visits_leave hμ s₀
  exact hleave s _ (hv.invariant Inv h0 hstep) hr

end

/-! ## Loops that may go on for ever -/

/-- The result of a loop that leaves within `n` rounds. -/
def within (round : σ → Round σ ρ) : Nat → σ → Option ρ
  | 0, _ => none
  | n + 1, s =>
      match round s with
      | .leave r => some r
      | .again s' => within round n s'

/-- The loop leaves, with this result. -/
def Returns (round : σ → Round σ ρ) (s : σ) (r : ρ) : Prop :=
  ∃ n, within round n s = some r

section

variable {round : σ → Round σ ρ}

theorem within_of_le {n m : Nat} (hnm : n ≤ m) {s : σ} {r : ρ} (h : within round n s = some r) :
    within round m s = some r := by
  induction n generalizing m s with
  | zero => cases h
  | succ n ih =>
      obtain ⟨m, rfl⟩ : ∃ k, m = k + 1 := ⟨m - 1, by omega⟩
      rw [within] at h ⊢
      cases hr : round s with
      | leave r' => rw [hr] at h; exact h
      | again s' =>
          rw [hr] at h
          exact ih (by omega) h

/-- A loop has at most one result. -/
theorem Returns.unique {s : σ} {r r' : ρ} (h : Returns round s r) (h' : Returns round s r') :
    r = r' := by
  obtain ⟨n, hn⟩ := h
  obtain ⟨m, hm⟩ := h'
  have h1 := within_of_le (Nat.le_max_left n m) hn
  have h2 := within_of_le (Nat.le_max_right n m) hm
  rw [h1] at h2
  exact Option.some.inj h2

/-- A loop that goes round again from every state with an invariant does not end. -/
theorem not_returns (Inv : σ → Prop) (h : ∀ s, Inv s → ∃ s', round s = .again s' ∧ Inv s') {s : σ}
    (hs : Inv s) (r : ρ) : ¬ Returns round s r := by
  rintro ⟨n, hn⟩
  induction n generalizing s with
  | zero => cases hn
  | succ n ih =>
      obtain ⟨s', hround, hs'⟩ := h s hs
      rw [within, hround] at hn
      exact ih hs' hn

theorem returns_of_leave {s : σ} {r : ρ} (h : round s = .leave r) : Returns round s r :=
  ⟨1, by simp only [within, h]⟩

theorem Returns.of_again {s s' : σ} {r : ρ} (h : round s = .again s') (hr : Returns round s' r) :
    Returns round s r := by
  obtain ⟨n, hn⟩ := hr
  exact ⟨n + 1, by simp only [within, h, hn]⟩

end

end Lib
