import Mathlib.Data.List.Basic
import Mathlib.Data.List.Perm.Basic
import Mathlib.Logic.Function.Iterate
import Mathlib.Tactic.Common

set_option autoImplicit false

/-! # Lists gone through in any order

The elements of a list are gone through in some order, and each of them updates the cell of its
key (`updates`). What a cell holds depends on how many elements of its key were met
(`updates_apply`), so in the end it does not depend on the order. What the elements find in
their cells does (`emits`): it depends on how often the cell was updated before. Which elements
can come last, and after how many of their key, is decided by counting
(`exists_arrangement_iff`).
-/

namespace Lib

universe u v w x

variable {ι : Type u} {κ : Type v} {υ : Type w} [DecidableEq κ] (key : ι → κ)

/-! ## Cells -/

/-- The number of elements with a key. -/
def uses (k : κ) (l : List ι) : Nat := l.countP fun e => key e = k

section

variable (f : κ → υ → υ)

/-- The cells after one element. -/
def update (cells : κ → υ) (e : ι) : κ → υ :=
  Function.update cells (key e) (f (key e) (cells (key e)))

/-- The cells after the elements of a list. -/
def updates (cells : κ → υ) (l : List ι) : κ → υ :=
  l.foldl (update key f) cells

variable {key f}

theorem uses_cons (k : κ) (e : ι) (l : List ι) :
    uses key k (e :: l) = uses key k l + if key e = k then 1 else 0 := by
  simp [uses, List.countP_cons]

theorem uses_append (k : κ) (l l' : List ι) :
    uses key k (l ++ l') = uses key k l + uses key k l' := List.countP_append

theorem uses_perm {l l' : List ι} (h : l.Perm l') (k : κ) : uses key k l = uses key k l' :=
  h.countP_eq _

/-- A cell is updated once for each element with its key. -/
theorem updates_apply (cells : κ → υ) (l : List ι) (k : κ) :
    updates key f cells l k = (f k)^[uses key k l] (cells k) := by
  induction l generalizing cells with
  | nil => rfl
  | cons e l ih =>
      show updates key f (update key f cells e) l k = _
      rw [ih, uses_cons, update]
      by_cases h : key e = k
      · subst h
        rw [if_pos rfl, Function.update_self, Function.iterate_succ_apply]
      · rw [if_neg h, Function.update_of_ne (Ne.symm h), Nat.add_zero]

/-- In which order the cells were updated does not matter. -/
theorem updates_perm (cells : κ → υ) {l l' : List ι} (h : l.Perm l') :
    updates key f cells l = updates key f cells l' := by
  funext k
  rw [updates_apply, updates_apply, uses_perm h]

end

/-! ### What the elements find

`g e v` is what the element `e` gives out when it has brought its cell to the value `v`. -/

section

variable (f : κ → υ → υ) {ω : Type x} (g : ι → υ → ω)

def emits : (κ → υ) → List ι → List ω
  | _, [] => []
  | cells, e :: l => g e (f (key e) (cells (key e))) :: emits (update key f cells e) l

variable {key f g}

theorem emits_append (cells : κ → υ) (l l' : List ι) :
    emits key f g cells (l ++ l') =
      emits key f g cells l ++ emits key f g (updates key f cells l) l' := by
  induction l generalizing cells with
  | nil => rfl
  | cons e l ih => simp only [List.cons_append, emits, ih, updates, List.foldl_cons]

theorem emits_split (cells : κ → υ) (pre post : List ι) (e : ι) :
    emits key f g cells (pre ++ e :: post) =
      emits key f g cells pre ++
        g e ((f (key e))^[uses key (key e) pre + 1] (cells (key e))) ::
          emits key f g (updates key f cells (pre ++ [e])) post := by
  have hcells : updates key f cells (pre ++ [e]) = update key f (updates key f cells pre) e :=
    List.foldl_append
  rw [emits_append, emits, updates_apply, hcells, Function.iterate_succ_apply']

theorem exists_of_mem_emits {cells : κ → υ} {l : List ι} {y : ω}
    (h : y ∈ emits key f g cells l) : ∃ e ∈ l, ∃ v, y = g e v := by
  induction l generalizing cells with
  | nil => cases h
  | cons e l ih =>
      rcases List.mem_cons.mp h with rfl | h
      · exact ⟨e, List.mem_cons_self, _, rfl⟩
      · obtain ⟨e', he', v, hv⟩ := ih h
        exact ⟨e', List.mem_cons_of_mem e he', v, hv⟩

end

/-! ## Arrangements -/

section

variable (p : ι → Prop) [DecidablePred p]

variable {key p} in
/-- The part that is met first: all elements with `p`, all elements with another key, and as
many of the rest as there are to be. -/
private theorem exists_split {l : List ι} {k : κ} {m : Nat} (h1 : uses key k (l.filter p) ≤ m)
    (h2 : m ≤ uses key k l) :
    ∃ pre post, (pre ++ post).Perm l ∧ uses key k pre = m ∧ ∀ e ∈ post, ¬ p e := by
  let rest := l.filter fun e => ¬ p e
  let same := rest.filter fun e => key e = k
  let others := rest.filter fun e => ¬ key e = k
  have hl : (l.filter p ++ rest).Perm l := by
    simpa [rest] using List.filter_append_perm (fun e => decide (p e)) l
  have hrest : (same ++ others).Perm rest := by
    simpa [same, others] using List.filter_append_perm (fun e => decide (key e = k)) rest
  have hsame : uses key k same = same.length := by
    rw [uses, List.countP_eq_length]
    intro e he
    exact (List.mem_filter.mp he).2
  have hothers : uses key k others = 0 := by
    rw [uses, List.countP_eq_zero]
    intro e he
    simpa using (List.mem_filter.mp he).2
  have hlength : uses key k l = uses key k (l.filter p) + same.length := by
    rw [← uses_perm hl, uses_append, ← uses_perm hrest, uses_append, hsame, hothers, Nat.add_zero]
  let n := m - uses key k (l.filter p)
  refine ⟨l.filter p ++ others ++ same.take n, same.drop n, ?_, ?_, ?_⟩
  · rw [List.append_assoc, List.take_append_drop, List.append_assoc]
    exact ((List.perm_append_comm.trans hrest).append_left _).trans hl
  · have htake : uses key k (same.take n) = n := by
      rw [uses, List.countP_eq_length.mpr, List.length_take]
      · omega
      · intro e he
        exact (List.mem_filter.mp (List.mem_of_mem_take he)).2
    rw [uses_append, uses_append, hothers, htake]
    omega
  · intro e he
    have := (List.mem_filter.mp (List.mem_filter.mp (List.mem_of_mem_drop he)).1).2
    simpa using this

variable [DecidableEq ι]

/-- The list can be gone through such that `e` is met when its key was met `m` times before,
and no element with the property `p` comes behind it. -/
def CanComeLast (l : List ι) (e : ι) (m : Nat) : Prop :=
  e ∈ l ∧ uses key (key e) ((l.erase e).filter p) ≤ m ∧ m ≤ uses key (key e) (l.erase e)

instance (l : List ι) (e : ι) (m : Nat) : Decidable (CanComeLast key p l e m) :=
  inferInstanceAs (Decidable (_ ∧ _ ∧ _))

variable {key p}

/-- **Which elements can come last, and when.** -/
theorem exists_arrangement_iff {l : List ι} {e : ι} {m : Nat} :
    (∃ pre post, (pre ++ e :: post).Perm l ∧ uses key (key e) pre = m ∧ ∀ x ∈ post, ¬ p x) ↔
      CanComeLast key p l e m := by
  constructor
  · rintro ⟨pre, post, hperm, hm, hpost⟩
    have he : e ∈ l := hperm.subset (List.mem_append_right pre List.mem_cons_self)
    have hothers : (pre ++ post).Perm (l.erase e) :=
      (List.cons_perm_iff_perm_erase.mp (List.perm_middle.symm.trans hperm)).2
    have hfilter : post.filter (fun x => decide (p x)) = [] := by
      rw [List.filter_eq_nil_iff]
      intro x hx
      simpa using hpost x hx
    refine ⟨he, ?_, ?_⟩
    · rw [← uses_perm (hothers.filter _), List.filter_append, hfilter, List.append_nil, ← hm]
      exact List.filter_sublist.countP_le
    · rw [← uses_perm hothers, uses_append, hm]
      exact Nat.le_add_right m _
  · rintro ⟨he, h1, h2⟩
    obtain ⟨pre, post, hperm, hm, hpost⟩ := exists_split h1 h2
    refine ⟨pre, post, ?_, hm, hpost⟩
    exact List.perm_middle.trans ((hperm.cons e).trans (List.perm_cons_erase he).symm)

end

/-- Of the elements with `p`, one comes last. -/
theorem exists_last {p : ι → Prop} {l : List ι} (h : ∃ e ∈ l, p e) :
    ∃ pre e post, l = pre ++ e :: post ∧ p e ∧ ∀ x ∈ post, ¬ p x := by
  induction l with
  | nil =>
      obtain ⟨e, he, _⟩ := h
      cases he
  | cons e l ih =>
      by_cases hl : ∃ e' ∈ l, p e'
      · obtain ⟨pre, e', post, rfl, he', hpost⟩ := ih hl
        exact ⟨e :: pre, e', post, rfl, he', hpost⟩
      · obtain ⟨e', he', hp⟩ := h
        rcases List.mem_cons.mp he' with rfl | he'
        · exact ⟨[], e', l, rfl, hp, fun x hx hpx => hl ⟨x, hx, hpx⟩⟩
        · exact absurd ⟨e', he', hp⟩ hl

end Lib
