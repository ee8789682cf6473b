import Mathlib.Data.List.Sort

set_option autoImplicit false

/-! # Multimaps

The entries of a multimap, as an iterator passes them: sorted by their keys, and those with one
key in the order in which they were inserted. An iterator is the number of entries in front of
it, so that the one at the end is the number of all entries.
-/

namespace Lib

universe u v

structure Multimap (α : Type u) (β : Type v) [LE α] where
  entries : List (α × β)
  sorted : entries.Pairwise fun e e' => e.1 ≤ e'.1

namespace Multimap

variable {α : Type u} {β : Type v} [LE α]

def empty : Multimap α β := ⟨[], List.Pairwise.nil⟩

/-- The values of a key. -/
def equalRange [DecidableEq α] (m : Multimap α β) (k : α) : List β :=
  (m.entries.filter fun e => e.1 = k).map Prod.snd

theorem mem_equalRange [DecidableEq α] {m : Multimap α β} {k : α} {v : β} :
    v ∈ m.equalRange k ↔ (k, v) ∈ m.entries := by
  simp [equalRange]

/-! ## Searching -/

section

variable [DecidableLE α]

/-- The iterator behind the entries with a key up to `k`. -/
def upperBound (m : Multimap α β) (k : α) : Nat :=
  (m.entries.takeWhile fun e => e.1 ≤ k).length

theorem upperBound_le (m : Multimap α β) (k : α) : m.upperBound k ≤ m.entries.length :=
  (List.takeWhile_sublist _).length_le

variable [Std.IsLinearOrder α]

theorem le_iff_lt_length_takeWhile {l : List (α × β)} {k : α} {i : Nat} {e : α × β}
    (h : l.Pairwise fun e e' => e.1 ≤ e'.1) (hi : l[i]? = some e) :
    e.1 ≤ k ↔ i < (l.takeWhile fun e => e.1 ≤ k).length := by
  induction l generalizing i with
  | nil => cases hi
  | cons b l ih =>
      rw [List.pairwise_cons] at h
      by_cases hb : b.1 ≤ k
      · rw [List.takeWhile_cons_of_pos (by simpa using hb), List.length_cons]
        cases i with
        | zero =>
            cases hi
            exact iff_of_true hb (Nat.succ_pos _)
        | succ i =>
            rw [List.getElem?_cons_succ] at hi
            rw [ih h.2 hi]
            exact Nat.succ_lt_succ_iff.symm
      · rw [List.takeWhile_cons_of_neg (by simpa using hb)]
        -- the entries behind `b` have keys that are at least as large
        refine iff_of_false (fun hle => hb ?_) (Nat.not_lt_zero i)
        rcases List.mem_cons.mp (List.mem_of_getElem? hi) with rfl | he
        · exact hle
        · exact Std.le_trans (h.1 e he) hle

/-- **In front of the upper bound** are the entries with a key up to `k`. -/
theorem le_iff_lt_upperBound {m : Multimap α β} {k : α} {i : Nat} {e : α × β}
    (hi : m.entries[i]? = some e) : e.1 ≤ k ↔ i < m.upperBound k :=
  le_iff_lt_length_takeWhile m.sorted hi

theorem upperBound_pos_iff {m : Multimap α β} {k : α} :
    0 < m.upperBound k ↔ ∃ e ∈ m.entries, e.1 ≤ k := by
  constructor
  · intro h
    have hlt := Nat.lt_of_lt_of_le h (m.upperBound_le k)
    have hget := List.getElem?_eq_getElem hlt
    exact ⟨_, List.mem_of_getElem? hget, (le_iff_lt_upperBound hget).mpr h⟩
  · rintro ⟨e, he, hle⟩
    obtain ⟨i, hi⟩ := List.mem_iff_getElem?.mp he
    have := (le_iff_lt_upperBound hi).mp hle
    omega

theorem upperBound_lt_iff {m : Multimap α β} {k : α} :
    m.upperBound k < m.entries.length ↔ ∃ e ∈ m.entries, ¬ e.1 ≤ k := by
  constructor
  · intro h
    have hget := List.getElem?_eq_getElem h
    refine ⟨_, List.mem_of_getElem? hget, fun hle => ?_⟩
    have := (le_iff_lt_upperBound hget).mp hle
    omega
  · rintro ⟨e, he, hnot⟩
    obtain ⟨i, hi⟩ := List.mem_iff_getElem?.mp he
    have hlen := (List.getElem?_eq_some_iff.mp hi).1
    rw [le_iff_lt_upperBound hi] at hnot
    omega

end

/-! ## Inserting -/

section

variable [LT α] [DecidableLT α] [Std.IsLinearOrder α] [Std.LawfulOrderLT α]

/-- A new entry goes behind the ones with the same key. -/
abbrev place (e : α × β) (l : List (α × β)) : List (α × β) :=
  l.orderedInsert (fun e e' => e.1 < e'.1) e

theorem sorted_place {e : α × β} {l : List (α × β)}
    (h : l.Pairwise fun e e' => e.1 ≤ e'.1) : (place e l).Pairwise fun e e' => e.1 ≤ e'.1 := by
  induction l with
  | nil => exact List.pairwise_singleton _ _
  | cons b l ih =>
      rw [List.pairwise_cons] at h
      rw [place, List.orderedInsert_cons]
      split
      · rename_i hlt
        have hle := Std.le_of_lt hlt
        refine List.pairwise_cons.mpr ⟨fun e' he' => ?_, List.pairwise_cons.mpr h⟩
        rcases List.mem_cons.mp he' with rfl | he'
        · exact hle
        · exact Std.le_trans hle (h.1 e' he')
      · rename_i hnot
        refine List.pairwise_cons.mpr ⟨fun e' he' => ?_, ih h.2⟩
        rcases (List.mem_orderedInsert _).mp he' with rfl | he'
        · exact Std.not_lt.mp hnot
        · exact h.1 e' he'

def insert (m : Multimap α β) (e : α × β) : Multimap α β :=
  ⟨place e m.entries, sorted_place m.sorted⟩

/-- The entries of a list, inserted one after the other. -/
def ofList (l : List (α × β)) : Multimap α β := l.foldl insert empty

theorem perm_insert (m : Multimap α β) (e : α × β) :
    (m.insert e).entries.Perm (e :: m.entries) := List.perm_orderedInsert _ e m.entries

/-- Other keys keep their values, and a new value comes last. -/
theorem filter_place [DecidableEq α] {e : α × β} {l : List (α × β)} {k : α}
    (h : l.Pairwise fun e e' => e.1 ≤ e'.1) :
    (place e l).filter (fun e => e.1 = k) =
      (l.filter fun e => e.1 = k) ++ if e.1 = k then [e] else [] := by
  induction l with
  | nil =>
      rw [place, List.orderedInsert_nil, List.filter_nil, List.nil_append, List.filter_singleton]
      simp
  | cons b l ih =>
      rw [List.pairwise_cons] at h
      rw [place, List.orderedInsert_cons]
      split
      · rename_i hlt
        by_cases he : e.1 = k
        · -- no entry from here on has the key
          have hnone : (b :: l).filter (fun e => decide (e.1 = k)) = [] := by
            apply List.filter_eq_nil_iff.mpr
            intro e' he' heq
            have hle : b.1 ≤ e'.1 := by
              rcases List.mem_cons.mp he' with rfl | he'
              · exact Std.le_refl _
              · exact h.1 e' he'
            have hk : e'.1 = e.1 := (of_decide_eq_true heq).trans he.symm
            rw [hk] at hle
            exact absurd hle (Std.not_le_of_gt hlt)
          rw [List.filter_cons_of_pos (by simpa using he), hnone, if_pos he, List.nil_append]
        · rw [List.filter_cons_of_neg (by simpa using he), if_neg he, List.append_nil]
      · rw [List.filter_cons, List.filter_cons, ih h.2]
        split
        · rw [List.cons_append]
        · rfl

theorem equalRange_insert [DecidableEq α] (m : Multimap α β) (e : α × β) (k : α) :
    (m.insert e).equalRange k = m.equalRange k ++ if e.1 = k then [e.2] else [] := by
  unfold equalRange insert
  rw [filter_place m.sorted, List.map_append]
  split
  · rfl
  · rfl

theorem perm_foldl_insert (l : List (α × β)) (m : Multimap α β) :
    (l.foldl insert m).entries.Perm (m.entries ++ l) := by
  induction l generalizing m with
  | nil => rw [List.append_nil]; exact List.Perm.refl _
  | cons e l ih =>
      refine (ih (m.insert e)).trans ?_
      exact ((m.perm_insert e).append_right l).trans List.perm_middle.symm

/-- A multimap has the entries that were inserted. -/
theorem perm_ofList (l : List (α × β)) : (ofList l).entries.Perm l := perm_foldl_insert l empty

theorem equalRange_foldl_insert [DecidableEq α] (l : List (α × β)) (m : Multimap α β) (k : α) :
    (l.foldl insert m).equalRange k =
      m.equalRange k ++ (l.filter fun e => e.1 = k).map Prod.snd := by
  induction l generalizing m with
  | nil => simp
  | cons e l ih =>
      rw [List.foldl_cons, ih, equalRange_insert, List.append_assoc, List.filter_cons]
      congr 1
      by_cases he : e.1 = k
      · simp [he]
      · simp [he]

/-- The values of a key are in the order in which they were inserted. -/
theorem equalRange_ofList [DecidableEq α] (l : List (α × β)) (k : α) :
    (ofList l).equalRange k = (l.filter fun e => e.1 = k).map Prod.snd :=
  equalRange_foldl_insert l empty k

end

end Multimap

end Lib
