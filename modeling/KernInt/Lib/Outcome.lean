import Mathlib.Tactic.Common

set_option autoImplicit false

/-! # Computations that may fail

`Ensures x E Q`: if the computation `x` fails, its error satisfies `E`, and otherwise its result
satisfies `Q`. The rules follow the ways in which such computations are put together: one after
the other, and in a loop over a list, whose invariant is about the part of the list that has
been gone through.
-/

namespace Lib

universe u v w

variable {ε : Type u} {α : Type v} {β : Type v} {γ : Type w}

/-- A sequence that succeeds, taken apart. -/
theorem exists_of_bind_ok {x : Except ε α} {f : α → Except ε β} {b : β}
    (h : x >>= f = .ok b) : ∃ a, x = .ok a ∧ f a = .ok b := by
  cases x with
  | ok a => exact ⟨a, rfl, h⟩
  | error e => cases h

/-- The first part of a sequence succeeds. -/
theorem bind_of_ok {x : Except ε α} {a : α} (h : x = .ok a) (f : α → Except ε β) :
    x >>= f = f a := by
  rw [h]
  rfl

/-- An error does not come from a branch that succeeds. -/
theorem error_of_ite_ok {p : Prop} [Decidable p] {a : α} {x : Except ε α} {e : ε}
    (h : (if p then .ok a else x) = .error e) : x = .error e := by
  split at h
  · cases h
  · exact h

section

variable {f : α → γ → Except ε α} {l pre post : List γ} {c : γ} {a a' : α}

/-- A loop that succeeds, taken apart behind its first round. -/
theorem foldlM_cons_eq_ok_iff :
    (c :: l).foldlM f a = .ok a' ↔ ∃ b, f a c = .ok b ∧ l.foldlM f b = .ok a' := by
  rw [List.foldlM_cons]
  constructor
  · exact exists_of_bind_ok
  · rintro ⟨b, hround, hloop⟩
    rw [hround]
    exact hloop

/-- The same for a round in the middle. -/
theorem foldlM_split_eq_ok_iff : (pre ++ c :: post).foldlM f a = .ok a' ↔
    ∃ b b', pre.foldlM f a = .ok b ∧ f b c = .ok b' ∧ post.foldlM f b' = .ok a' := by
  rw [List.foldlM_append]
  constructor
  · intro h
    obtain ⟨b, hpre, h⟩ := exists_of_bind_ok h
    obtain ⟨b', hround, hpost⟩ := foldlM_cons_eq_ok_iff.mp h
    exact ⟨b, b', hpre, hround, hpost⟩
  · rintro ⟨b, b', hpre, hround, hpost⟩
    rw [hpre]
    exact foldlM_cons_eq_ok_iff.mpr ⟨b', hround, hpost⟩

end

/-- A loop fails at the first round that does, and what is behind it is not reached. -/
theorem foldlM_eq_error_iff {f : α → γ → Except ε α} {l : List γ} {a : α} {e : ε} :
    l.foldlM f a = .error e ↔ ∃ pre c post b, l = pre ++ c :: post ∧ pre.foldlM f a = .ok b ∧
      f b c = .error e := by
  constructor
  · intro h
    induction l generalizing a with
    | nil => cases h
    | cons c l ih =>
        cases hround : f a c with
        | error e' =>
            rw [List.foldlM_cons, hround] at h
            cases h
            exact ⟨[], c, l, a, rfl, rfl, hround⟩
        | ok b =>
            rw [List.foldlM_cons, bind_of_ok hround] at h
            obtain ⟨pre, c', post, b', rfl, hpre, herror⟩ := ih h
            exact ⟨c :: pre, c', post, b', rfl, foldlM_cons_eq_ok_iff.mpr ⟨b, hround, hpre⟩, herror⟩
  · rintro ⟨pre, c, post, b, rfl, hpre, herror⟩
    rw [List.foldlM_append, bind_of_ok hpre, List.foldlM_cons, herror]
    rfl

/-- Rounds that do the same for every element. -/
theorem foldlM_congr {f g : α → γ → Except ε α} {l : List γ} (h : ∀ c ∈ l, ∀ a, f a c = g a c)
    (a : α) : l.foldlM f a = l.foldlM g a := by
  induction l generalizing a with
  | nil => rfl
  | cons c l ih =>
      rw [List.forall_mem_cons] at h
      rw [List.foldlM_cons, List.foldlM_cons, h.1]
      congr 1
      funext b
      exact ih h.2 b

section

variable {κ : Type v} [DecidableEq κ] {f : α → γ → Except ε α} {key : γ → κ} {l : List γ} {k : κ}

/-- A loop that looks for a key that no element has. -/
theorem foldlM_ite_of_none (h : ∀ c ∈ l, k ≠ key c) (a : α) :
    l.foldlM (fun a c => if k = key c then f a c else .ok a) a = .ok a := by
  induction l with
  | nil => rfl
  | cons c l ih =>
      rw [List.forall_mem_cons] at h
      rw [List.foldlM_cons, if_neg h.1]
      exact ih h.2

/-- A loop that looks for a key does something for one element, if the keys are distinct. -/
theorem foldlM_ite_of_mem (hkeys : (l.map key).Nodup) {c : γ} (hc : c ∈ l) (a : α) :
    l.foldlM (fun a c' => if key c = key c' then f a c' else .ok a) a = f a c := by
  induction l with
  | nil => cases hc
  | cons d l ih =>
      rw [List.map_cons, List.nodup_cons] at hkeys
      rw [List.foldlM_cons]
      rcases List.mem_cons.mp hc with rfl | hc
      · have hrest : ∀ b, l.foldlM (fun a c' => if key c = key c' then f a c' else .ok a) b =
            .ok b :=
          foldlM_ite_of_none fun c' hc' heq => hkeys.1 (heq ▸ List.mem_map_of_mem hc')
        rw [if_pos rfl]
        cases f a c with
        | ok b => exact hrest b
        | error e => rfl
      · have hne : key c ≠ key d := fun heq => hkeys.1 (heq ▸ List.mem_map_of_mem hc)
        rw [if_neg hne]
        exact ih hkeys.2 hc

end

/-- A loop all of whose rounds succeed. -/
theorem foldlM_ok {f : α → γ → Except ε α} {l : List γ} (h : ∀ c ∈ l, ∀ a, ∃ a', f a c = .ok a')
    (a : α) : ∃ a', l.foldlM f a = .ok a' := by
  induction l generalizing a with
  | nil => exact ⟨a, rfl⟩
  | cons c l ih =>
      obtain ⟨b, hround⟩ := h c List.mem_cons_self a
      obtain ⟨a', hloop⟩ := ih (fun c' hc' => h c' (List.mem_cons_of_mem c hc')) b
      exact ⟨a', foldlM_cons_eq_ok_iff.mpr ⟨b, hround, hloop⟩⟩

/-- Where it is the element alone that decides whether a round succeeds, a loop succeeds exactly if
every round would. `Inv` is what the rounds keep. -/
theorem exists_foldlM_ok_iff {f : α → γ → Except ε α} {l : List γ} {a : α} (Inv : α → Prop)
    {P : γ → Prop} (h0 : Inv a)
    (hround : ∀ c ∈ l, ∀ b, Inv b → ((∃ b', f b c = .ok b') ↔ P c))
    (hstep : ∀ c ∈ l, ∀ b b', Inv b → f b c = .ok b' → Inv b') :
    (∃ a', l.foldlM f a = .ok a') ↔ ∀ c ∈ l, P c := by
  induction l generalizing a with
  | nil =>
      constructor
      · intro _ c hc
        cases hc
      · intro _
        exact ⟨a, rfl⟩
  | cons c l ih =>
      have hrest := fun b hb => ih (a := b) hb
        (fun c' hc' => hround c' (List.mem_cons_of_mem c hc'))
        (fun c' hc' => hstep c' (List.mem_cons_of_mem c hc'))
      have hfirst := hround c List.mem_cons_self
      have hkeeps := hstep c List.mem_cons_self
      rw [List.forall_mem_cons]
      constructor
      · rintro ⟨a', h⟩
        obtain ⟨b, hb, h⟩ := foldlM_cons_eq_ok_iff.mp h
        exact ⟨(hfirst a h0).mp ⟨b, hb⟩, (hrest b (hkeeps a b h0 hb)).mp ⟨a', h⟩⟩
      · rintro ⟨hc, hl⟩
        obtain ⟨b, hb⟩ := (hfirst a h0).mpr hc
        obtain ⟨a', h⟩ := (hrest b (hkeeps a b h0 hb)).mpr hl
        exact ⟨a', foldlM_cons_eq_ok_iff.mpr ⟨b, hb, h⟩⟩

/-- What every successful round of a loop keeps is kept by a loop that succeeds. -/
theorem invariant_of_foldlM_ok {f : α → γ → Except ε α} {l : List γ} {a a' : α}
    (Inv : α → Prop) (h0 : Inv a)
    (hstep : ∀ c ∈ l, ∀ b b', Inv b → f b c = .ok b' → Inv b')
    (h : l.foldlM f a = .ok a') : Inv a' := by
  induction l generalizing a with
  | nil =>
      cases h
      exact h0
  | cons c l ih =>
      obtain ⟨b, hb, h⟩ := foldlM_cons_eq_ok_iff.mp h
      exact ih (hstep c List.mem_cons_self a b h0 hb)
        (fun c' hc' => hstep c' (List.mem_cons_of_mem c hc')) h

def Ensures (x : Except ε α) (E : ε → Prop) (Q : α → Prop) : Prop :=
  match x with
  | .ok a => Q a
  | .error e => E e

namespace Ensures

variable {x : Except ε α} {E : ε → Prop} {Q : α → Prop}

theorem ok {a : α} (h : Q a) : Ensures (.ok a : Except ε α) E Q := h

theorem error {e : ε} (h : E e) : Ensures (.error e : Except ε α) E Q := h

theorem of_ok (h : Ensures x E Q) {a : α} (hx : x = .ok a) : Q a := by
  subst hx
  exact h

theorem of_error (h : Ensures x E Q) {e : ε} (hx : x = .error e) : E e := by
  subst hx
  exact h

theorem mono {Q' : α → Prop} (h : Ensures x E Q) (hle : ∀ a, Q a → Q' a) : Ensures x E Q' := by
  cases x with
  | ok a => exact hle a h
  | error e => exact h

/-- What else is known of a result. -/
theorem and_of_ok {R : α → Prop} (h : Ensures x E Q) (hR : ∀ a, x = .ok a → R a) :
    Ensures x E fun a => Q a ∧ R a := by
  cases x with
  | ok a => exact ⟨h, hR a rfl⟩
  | error e => exact h

theorem bind {f : α → Except ε β} {Q' : β → Prop} (h : Ensures x E Q)
    (hf : ∀ a, Q a → Ensures (f a) E Q') : Ensures (x >>= f) E Q' := by
  cases x with
  | ok a => exact hf a h
  | error e => exact h

/-- The rule for a loop over a list. -/
theorem foldlM {f : α → γ → Except ε α} {l : List γ} {a : α} (Inv : List γ → α → Prop)
    (h0 : Inv [] a)
    (hstep : ∀ done c todo, l = done ++ c :: todo → ∀ a, Inv done a →
      Ensures (f a c) E (Inv (done ++ [c]))) :
    Ensures (l.foldlM f a) E (Inv l) := by
  -- from any point of the list on
  suffices ∀ todo done a, l = done ++ todo → Inv done a → Ensures (todo.foldlM f a) E (Inv l) from
    this l [] a rfl h0
  intro todo
  induction todo with
  | nil =>
      intro done a hl ha
      rw [hl, List.append_nil]
      exact ha
  | cons c todo ih =>
      intro done a hl ha
      rw [List.foldlM_cons]
      refine (hstep done c todo hl a ha).bind fun a' ha' => ?_
      exact ih (done ++ [c]) a' (by rw [hl, List.append_assoc]; rfl) ha'

end Ensures

end Lib
