import KernInt.Lib.Outcome
import Mathlib.Data.List.Range

set_option autoImplicit false

/-! # Loops that collect

A loop goes through a list; an element gives a value, nothing, or ends the loop with an error.
Somebody who catches the error has the values up to it (`collect`), and everybody else has either
all of them or the error (`collectAll`). The two differ from the values that the elements give one
by one only behind an error (`collect_eq_filterMap_iff`).
-/

namespace Lib

universe u v w

variable {ε : Type u} {α : Type v} {γ : Type w}

/-- The value that an element gives. -/
def given (f : γ → Except ε (Option α)) (c : γ) : Option α :=
  match f c with
  | .ok a => a
  | .error _ => none

/-- What a loop has collected when it ends, and the error with which it may end. -/
def collect (f : γ → Except ε (Option α)) : List γ → List α × Option ε
  | [] => ([], none)
  | c :: l =>
      match f c with
      | .ok a => (a.toList ++ (collect f l).1, (collect f l).2)
      | .error e => ([], some e)

/-- The same, but an error is passed on. -/
def collectAll (f : γ → Except ε (Option α)) (l : List γ) : Except ε (List α) :=
  match collect f l with
  | (xs, none) => .ok xs
  | (_, some e) => .error e

variable {f : γ → Except ε (Option α)} {l : List γ} {c : γ}

theorem given_of_ok {a : Option α} (h : f c = .ok a) : given f c = a := by
  simp [given, h]

theorem given_of_error {e : ε} (h : f c = .error e) : given f c = none := by
  simp [given, h]

theorem collect_cons_of_ok {a : Option α} (h : f c = .ok a) :
    collect f (c :: l) = (a.toList ++ (collect f l).1, (collect f l).2) := by
  simp [collect, h]

theorem collect_cons_of_error {e : ε} (h : f c = .error e) :
    collect f (c :: l) = ([], some e) := by
  simp [collect, h]

theorem filterMap_given_cons_of_ok {a : Option α} (h : f c = .ok a) :
    (c :: l).filterMap (given f) = a.toList ++ l.filterMap (given f) := by
  rw [List.filterMap_cons, given_of_ok h]
  cases a with
  | none => rfl
  | some a => rfl

/-- What is collected where no element ends the loop. -/
theorem collect_of_ok {g : γ → Option α} (h : ∀ c ∈ l, f c = .ok (g c)) :
    (collect f l).1 = l.filterMap g := by
  induction l with
  | nil => rfl
  | cons c l ih =>
      rw [List.forall_mem_cons] at h
      rw [collect_cons_of_ok h.1, ih h.2, List.filterMap_cons]
      cases g c with
      | none => rfl
      | some a => rfl

/-- A loop comes to its end if no element ends it. -/
theorem collect_ended_iff : (collect f l).2 = none ↔ ∀ c ∈ l, ∃ a, f c = .ok a := by
  induction l with
  | nil => simp [collect]
  | cons c l ih =>
      rw [List.forall_mem_cons]
      cases h : f c with
      | error e => simp [collect_cons_of_error h]
      | ok a => simp [collect_cons_of_ok h, ih]

/-- The values up to an error are all of them if nothing is given behind it. -/
theorem collect_eq_filterMap_iff : (collect f l).1 = l.filterMap (given f) ↔
    l.Pairwise fun c c' => (∃ e, f c = .error e) → given f c' = none := by
  induction l with
  | nil => simp [collect]
  | cons c l ih =>
      rw [List.pairwise_cons]
      cases h : f c with
      | ok a =>
          rw [collect_cons_of_ok h, filterMap_given_cons_of_ok h]
          simp [ih]
      | error e =>
          rw [collect_cons_of_error h, List.filterMap_cons, given_of_error h]
          constructor
          · intro hnil
            have hnone := List.filterMap_eq_nil_iff.mp hnil.symm
            refine ⟨fun c' hc' _ => hnone c' hc', ?_⟩
            refine List.pairwise_iff_forall_sublist.mpr fun hsub _ => ?_
            exact hnone _ (hsub.subset (List.mem_cons_of_mem _ List.mem_cons_self))
          · rintro ⟨hnone, -⟩
            exact (List.filterMap_eq_nil_iff.mpr fun c' hc' => hnone c' hc' ⟨e, rfl⟩).symm

/-- A loop that comes to its end has collected what the elements give. -/
theorem collectAll_eq_ok_iff {xs : List α} : collectAll f l = .ok xs ↔
    (∀ c ∈ l, ∃ a, f c = .ok a) ∧ xs = l.filterMap (given f) := by
  rw [← collect_ended_iff]
  have hvalues : (collect f l).2 = none → (collect f l).1 = l.filterMap (given f) := by
    intro hended
    rw [collect_ended_iff] at hended
    refine collect_eq_filterMap_iff.mpr (List.pairwise_iff_forall_sublist.mpr ?_)
    rintro c c' hsub ⟨e, he⟩
    obtain ⟨a, ha⟩ := hended c (hsub.subset List.mem_cons_self)
    rw [he] at ha
    cases ha
  unfold collectAll
  cases hcollect : collect f l with
  | mk ys stop =>
      rw [hcollect] at hvalues
      cases stop with
      | none => simp [← hvalues rfl, eq_comm]
      | some e => simp

/-- Something is collected if a value comes before all errors. -/
theorem collect_ne_nil_iff : (collect f l).1 ≠ [] ↔
    ∃ pre c post, l = pre ++ c :: post ∧ (∃ a, f c = .ok (some a)) ∧
      ∀ c' ∈ pre, f c' = .ok none := by
  induction l with
  | nil => simp [collect]
  | cons c l ih =>
      cases h : f c with
      | error e =>
          rw [collect_cons_of_error h]
          constructor
          · intro hne
            exact absurd rfl hne
          · rintro ⟨pre, c', post, heq, ⟨a, ha⟩, hpre⟩
            cases pre with
            | nil =>
                obtain ⟨rfl, -⟩ := List.cons.inj heq
                rw [h] at ha
                cases ha
            | cons d pre =>
                obtain ⟨rfl, -⟩ := List.cons.inj heq
                have hd := hpre c List.mem_cons_self
                rw [h] at hd
                cases hd
      | ok a =>
          rw [collect_cons_of_ok h]
          cases a with
          | some a =>
              refine ⟨fun _ => ⟨[], c, l, rfl, ⟨a, h⟩, by simp⟩, fun _ => ?_⟩
              simp
          | none =>
              show (collect f l).1 ≠ [] ↔ _
              rw [ih]
              constructor
              · rintro ⟨pre, c', post, rfl, ha, hpre⟩
                exact ⟨c :: pre, c', post, rfl, ha, List.forall_mem_cons.mpr ⟨h, hpre⟩⟩
              · rintro ⟨pre, c', post, heq, ⟨a, ha⟩, hpre⟩
                cases pre with
                | nil =>
                    obtain ⟨rfl, -⟩ := List.cons.inj heq
                    rw [h] at ha
                    cases ha
                | cons d pre =>
                    obtain ⟨rfl, rfl⟩ := List.cons.inj heq
                    exact ⟨pre, c', post, rfl, ⟨a, ha⟩, (List.forall_mem_cons.mp hpre).2⟩

/-! ## Loops that end at the first value -/

/-- The first value that an element gives, or the error that comes before it. -/
def firstGiven (f : γ → Except ε (Option α)) : List γ → Except ε (Option α)
  | [] => .ok none
  | c :: l =>
      match f c with
      | .ok none => firstGiven f l
      | r => r

theorem firstGiven_cons_of_none (h : f c = .ok none) :
    firstGiven f (c :: l) = firstGiven f l := by
  simp [firstGiven, h]

theorem firstGiven_cons_of_ne (h : f c ≠ .ok none) : firstGiven f (c :: l) = f c := by
  unfold firstGiven
  split
  · next heq => exact absurd heq h
  · rfl

theorem firstGiven_eq_none_iff : firstGiven f l = .ok none ↔ ∀ c ∈ l, f c = .ok none := by
  induction l with
  | nil => simp [firstGiven]
  | cons c l ih =>
      rw [List.forall_mem_cons]
      by_cases h : f c = .ok none
      · rw [firstGiven_cons_of_none h, ih]
        simp [h]
      · rw [firstGiven_cons_of_ne h]
        simp [h]

/-- What ends the loop comes from an element, and those before it give nothing. -/
theorem firstGiven_eq_iff {r : Except ε (Option α)} (hr : r ≠ .ok none) : firstGiven f l = r ↔
    ∃ pre c post, l = pre ++ c :: post ∧ (∀ c' ∈ pre, f c' = .ok none) ∧ f c = r := by
  induction l with
  | nil =>
      constructor
      · intro h
        exact absurd h.symm hr
      · rintro ⟨pre, c, post, heq, -⟩
        exact absurd heq.symm (List.append_ne_nil_of_right_ne_nil _ (List.cons_ne_nil _ _))
  | cons c l ih =>
      by_cases h : f c = .ok none
      · rw [firstGiven_cons_of_none h, ih]
        constructor
        · rintro ⟨pre, c', post, rfl, hpre, hc'⟩
          exact ⟨c :: pre, c', post, rfl, List.forall_mem_cons.mpr ⟨h, hpre⟩, hc'⟩
        · rintro ⟨pre, c', post, heq, hpre, hc'⟩
          cases pre with
          | nil =>
              obtain ⟨rfl, -⟩ := List.cons.inj heq
              exact absurd (hc'.symm.trans h) hr
          | cons d pre =>
              obtain ⟨rfl, rfl⟩ := List.cons.inj heq
              exact ⟨pre, c', post, rfl, (List.forall_mem_cons.mp hpre).2, hc'⟩
      · rw [firstGiven_cons_of_ne h]
        constructor
        · intro hc
          exact ⟨[], c, l, rfl, by simp, hc⟩
        · rintro ⟨pre, c', post, heq, hpre, hc'⟩
          cases pre with
          | nil =>
              obtain ⟨rfl, -⟩ := List.cons.inj heq
              exact hc'
          | cons d pre =>
              obtain ⟨rfl, -⟩ := List.cons.inj heq
              exact absurd (hpre c List.mem_cons_self) h

/-! ## Loops over the first numbers -/

section

variable {f : Nat → Except ε (Option α)} {n : Nat}

theorem collect_range_eq_filterMap_iff :
    (collect f (List.range n)).1 = (List.range n).filterMap (given f) ↔
      ∀ i j, i < j → j < n → (∃ e, f i = .error e) → given f j = none := by
  rw [collect_eq_filterMap_iff, List.pairwise_iff_getElem]
  simp only [List.length_range, List.getElem_range]
  exact ⟨fun h i j hij hj => h i j (by omega) hj hij, fun h i j _ hj hij => h i j hij hj⟩

theorem collect_range_ne_nil_iff : (collect f (List.range n)).1 ≠ [] ↔
    ∃ i < n, (∃ a, f i = .ok (some a)) ∧ ∀ j < i, f j = .ok none := by
  rw [collect_ne_nil_iff]
  constructor
  · rintro ⟨pre, i, post, heq, ha, hpre⟩
    have hget : ∀ j : Nat, (List.range n)[j]? = (pre ++ i :: post)[j]? := fun j => by rw [heq]
    have hi := hget pre.length
    rw [List.getElem?_append_right (Nat.le_refl _), Nat.sub_self, List.getElem?_cons_zero,
      List.getElem?_eq_some_iff] at hi
    obtain ⟨hlt, hi⟩ := hi
    rw [List.getElem_range] at hi
    rw [List.length_range] at hlt
    refine ⟨i, by omega, ha, fun j hj => hpre j ?_⟩
    have hj' := hget j
    rw [List.getElem?_append_left (by omega), List.getElem?_range (by omega)] at hj'
    exact List.mem_of_getElem? hj'.symm
  · rintro ⟨i, hi, ha, hpre⟩
    obtain ⟨k, rfl⟩ : ∃ k, n = i + (k + 1) := ⟨n - i - 1, by omega⟩
    refine ⟨List.range i, i, (List.range k).map fun j => i + (j + 1), ?_, ha, fun j hj => ?_⟩
    · rw [List.range_add, List.range_succ_eq_map]
      simp
    · exact hpre j (List.mem_range.mp hj)

end

end Lib
