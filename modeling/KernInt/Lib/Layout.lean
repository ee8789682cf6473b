import Mathlib.Algebra.GroupWithZero.Nat
import Mathlib.Data.List.Basic
import Mathlib.Tactic.Common

set_option autoImplicit false

/-! # Blocks placed one behind the other

Each block is put at the next multiple of its alignment behind the block in front of it
(`placeEnd`). This takes as much room as the blocks themselves if and only if each one starts
where the block in front of it ends (`placeEnd_eq_iff`).
-/

namespace Lib

/-- The first multiple of `align` from `a` on. The alignment 0 asks for nothing. -/
def alignUp (align a : Nat) : Nat := a + (align - a % align) % align

theorem le_alignUp (align a : Nat) : a ≤ alignUp align a := Nat.le_add_right _ _

theorem alignUp_eq_self_iff {align a : Nat} : alignUp align a = a ↔ align = 0 ∨ align ∣ a := by
  unfold alignUp
  rcases Nat.eq_zero_or_pos align with rfl | hpos
  · simp
  · have hlt := Nat.mod_lt a hpos
    constructor
    · intro h
      have hzero : (align - a % align) % align = 0 := by omega
      refine .inr (Nat.dvd_of_mod_eq_zero ?_)
      by_contra hne
      rw [Nat.mod_eq_of_lt (by omega)] at hzero
      omega
    · intro h
      have hzero : a % align = 0 := by
        rcases h with h | h
        · omega
        · exact Nat.mod_eq_zero_of_dvd h
      rw [hzero, Nat.sub_zero, Nat.mod_self, Nat.add_zero]

section

variable {α : Type} (size align : α → Nat)

/-- The address behind the last block, if the first one may start at `a`. -/
def placeEnd (a : Nat) : List α → Nat
  | [] => a
  | b :: l => placeEnd (alignUp (align b) a + size b) l

/-- Each block may start where the one in front of it ends. -/
def Seamless (a : Nat) : List α → Prop
  | [] => True
  | b :: l => (align b = 0 ∨ align b ∣ a) ∧ Seamless (a + size b) l

theorem add_sum_le_placeEnd (a : Nat) (l : List α) :
    a + (l.map size).sum ≤ placeEnd size align a l := by
  induction l generalizing a with
  | nil => simp [placeEnd]
  | cons b l ih =>
      have hrest := ih (alignUp (align b) a + size b)
      have hstart := le_alignUp (align b) a
      rw [List.map_cons, List.sum_cons, placeEnd]
      omega

variable {size align}

theorem placeEnd_append (a : Nat) (l l' : List α) :
    placeEnd size align a (l ++ l') = placeEnd size align (placeEnd size align a l) l' := by
  induction l generalizing a with
  | nil => rfl
  | cons b l ih => exact ih _

/-- **No room is left between the blocks if each one may start at once**, and only then. -/
theorem placeEnd_eq_iff {a : Nat} {l : List α} :
    placeEnd size align a l = a + (l.map size).sum ↔ Seamless size align a l := by
  induction l generalizing a with
  | nil => simp [placeEnd, Seamless]
  | cons b l ih =>
      rw [List.map_cons, List.sum_cons, placeEnd, Seamless, ← ih, ← alignUp_eq_self_iff]
      constructor
      · intro h
        have hrest := add_sum_le_placeEnd size align (alignUp (align b) a + size b) l
        have hstart := le_alignUp (align b) a
        have heq : alignUp (align b) a = a := by omega
        rw [heq] at h
        exact ⟨heq, by omega⟩
      · rintro ⟨heq, hend⟩
        rw [heq, hend]
        omega

end

section

variable {α : Type} {size : α → Nat} {p q : α → Bool}

variable (size) in
theorem sum_filter_le (hqp : ∀ b, q b = true → p b = true) (l : List α) :
    ((l.filter q).map size).sum ≤ ((l.filter p).map size).sum := by
  induction l with
  | nil => simp
  | cons b l ih =>
      cases hq : q b with
      | true => simpa [hq, hqp b hq] using ih
      | false =>
          cases hp : p b with
          | true =>
              simp only [List.filter_cons, hq, hp, if_true, List.map_cons, List.sum_cons]
              exact Nat.le_trans ih (Nat.le_add_left _ _)
          | false => simpa [hq, hp] using ih

/-- The blocks that are left out take no room if they are all empty, and only then. -/
theorem sum_filter_eq_iff (hqp : ∀ b, q b = true → p b = true) {l : List α} :
    ((l.filter p).map size).sum = ((l.filter q).map size).sum ↔
      ∀ b ∈ l, p b = true → q b = true ∨ size b = 0 := by
  induction l with
  | nil => simp
  | cons b l ih =>
      have hle := sum_filter_le size hqp l
      rw [List.forall_mem_cons, ← ih]
      cases hq : q b with
      | true => simp [hq, hqp b hq]
      | false =>
          cases hp : p b with
          | true =>
              simp only [List.filter_cons, hq, hp, if_true, List.map_cons, List.sum_cons,
                forall_const, Bool.false_eq_true, if_false, false_or]
              omega
          | false => simp [hq, hp]

end

end Lib
