import Mathlib.Data.List.Sort

set_option autoImplicit false

/-! # Ordered maps

The entries of a map in the order of their keys, each key once. `assign` writes the value of a key,
whether it has one or not; a sequence of assignments keeps the last value of each key
(`get_assignAll`). The entries determine their order (`eq_of_perm`), so that assignments of different
keys may be done in any order.
-/

namespace Lib

universe u v

/-- Entries with keys that grow. -/
structure OrderedMap (α : Type u) (β : Type v) [LT α] where
  entries : List (α × β)
  sorted : entries.Pairwise fun e e' => e.1 < e'.1

namespace OrderedMap

variable {α : Type u} {β : Type v} [LT α]

def empty : OrderedMap α β := ⟨[], List.Pairwise.nil⟩

/-- A key has one entry. -/
theorem eq_of_mem [LE α] [Std.IsLinearOrder α] [Std.LawfulOrderLT α] {m : OrderedMap α β}
    {e e' : α × β} (h : e ∈ m.entries) (h' : e' ∈ m.entries) (hk : e.1 = e'.1) : e = e' := by
  obtain ⟨i, hi, rfl⟩ := List.mem_iff_getElem.mp h
  obtain ⟨j, hj, rfl⟩ := List.mem_iff_getElem.mp h'
  have hsorted := List.pairwise_iff_getElem.mp m.sorted
  rcases Nat.lt_trichotomy i j with hlt | rfl | hgt
  · have hkeys := hsorted i j hi hj hlt
    rw [hk] at hkeys
    exact absurd hkeys Std.lt_irrefl
  · rfl
  · have hkeys := hsorted j i hj hi hgt
    rw [hk] at hkeys
    exact absurd hkeys Std.lt_irrefl

theorem nodup_entries [LE α] [Std.IsLinearOrder α] [Std.LawfulOrderLT α] (m : OrderedMap α β) :
    m.entries.Nodup :=
  m.sorted.imp fun hlt heq => by
    rw [heq] at hlt
    exact Std.lt_irrefl hlt

/-- The entries determine their order. -/
theorem eq_of_perm [LE α] [Std.IsLinearOrder α] [Std.LawfulOrderLT α] {m m' : OrderedMap α β}
    (h : m.entries.Perm m'.entries) : m = m' := by
  have hentries : m.entries = m'.entries := by
    refine h.eq_of_pairwise (fun a b _ _ hab hba => ?_) m.sorted m'.sorted
    exact absurd (Std.lt_trans hab hba) Std.lt_irrefl
  cases m
  cases m'
  cases hentries
  rfl

/-! ## Values -/

variable [DecidableEq α]

/-- The value of a key. -/
def get (m : OrderedMap α β) (k : α) : Option β :=
  (m.entries.find? fun e => e.1 = k).map Prod.snd

variable {m : OrderedMap α β} {k : α} {v : β}

section

variable [LE α] [Std.IsLinearOrder α] [Std.LawfulOrderLT α]

theorem get_eq_some_iff : m.get k = some v ↔ (k, v) ∈ m.entries := by
  unfold get
  constructor
  · intro h
    obtain ⟨e, hfind, rfl⟩ := Option.map_eq_some_iff.mp h
    have hkey : e.1 = k := by simpa using List.find?_some hfind
    rw [← hkey]
    exact List.mem_of_find?_eq_some hfind
  · intro h
    cases hfind : m.entries.find? fun e => e.1 = k with
    | none =>
        have hno := List.find?_eq_none.mp hfind (k, v) h
        simp at hno
    | some e =>
        have hkey : e.1 = k := by simpa using List.find?_some hfind
        rw [eq_of_mem (List.mem_of_find?_eq_some hfind) h hkey]
        rfl

end

/-! ## Assignments -/

variable [DecidableLT α]

/-- The new entry takes the place of the one with its key. -/
def assignList (k : α) (v : β) : List (α × β) → List (α × β)
  | [] => [(k, v)]
  | e :: l =>
      if k < e.1 then (k, v) :: e :: l
      else if k = e.1 then (k, v) :: l
      else e :: assignList k v l

variable [LE α] [Std.IsLinearOrder α] [Std.LawfulOrderLT α]

section

variable {l : List (α × β)} {e : α × β}

omit [DecidableEq α] in
theorem lt_or_gt (a b : α) : a < b ∨ a = b ∨ b < a := by
  by_cases hlt : a < b
  · exact .inl hlt
  · by_cases hgt : b < a
    · exact .inr (.inr hgt)
    · exact .inr (.inl (Std.le_antisymm (Std.not_lt.mp hgt) (Std.not_lt.mp hlt)))

theorem mem_assignList (h : l.Pairwise fun e e' => e.1 < e'.1) :
    e ∈ assignList k v l ↔ e = (k, v) ∨ e ∈ l ∧ e.1 ≠ k := by
  induction l with
  | nil => simp [assignList]
  | cons b l ih =>
      rw [List.pairwise_cons] at h
      -- the keys behind `b` are larger
      have hbehind : ∀ e ∈ l, ¬ e.1 < b.1 ∧ e.1 ≠ b.1 := by
        intro e he
        have hlt := h.1 e he
        exact ⟨Std.not_lt.mpr (Std.le_of_lt hlt), fun heq => by
          rw [heq] at hlt; exact Std.lt_irrefl hlt⟩
      unfold assignList
      split
      · rename_i hlt
        have hne : ∀ e ∈ b :: l, e.1 ≠ k := by
          rintro e he rfl
          rcases List.mem_cons.mp he with rfl | he
          · exact Std.lt_irrefl hlt
          · exact (hbehind e he).1 hlt
        rw [List.mem_cons]
        constructor
        · rintro (rfl | he)
          · exact .inl rfl
          · exact .inr ⟨he, hne e he⟩
        · rintro (rfl | ⟨he, -⟩)
          · exact .inl rfl
          · exact .inr he
      · split
        · rename_i heq
          subst heq
          rw [List.mem_cons, List.mem_cons]
          constructor
          · rintro (rfl | he)
            · exact .inl rfl
            · exact .inr ⟨.inr he, (hbehind e he).2⟩
          · rintro (rfl | ⟨rfl | he, hne⟩)
            · exact .inl rfl
            · exact absurd rfl hne
            · exact .inr he
        · rename_i hne
          rw [List.mem_cons, ih h.2, List.mem_cons]
          constructor
          · rintro (rfl | rfl | ⟨he, hek⟩)
            · exact .inr ⟨.inl rfl, fun h => hne h.symm⟩
            · exact .inl rfl
            · exact .inr ⟨.inr he, hek⟩
          · rintro (rfl | ⟨rfl | he, hek⟩)
            · exact .inr (.inl rfl)
            · exact .inl rfl
            · exact .inr (.inr ⟨he, hek⟩)

theorem sorted_assignList (h : l.Pairwise fun e e' => e.1 < e'.1) :
    (assignList k v l).Pairwise fun e e' => e.1 < e'.1 := by
  induction l with
  | nil => exact List.pairwise_singleton _ _
  | cons b l ih =>
      have hcons := h
      rw [List.pairwise_cons] at h
      unfold assignList
      split
      · rename_i hlt
        refine List.pairwise_cons.mpr ⟨fun e he => ?_, hcons⟩
        rcases List.mem_cons.mp he with rfl | he
        · exact hlt
        · exact Std.lt_trans hlt (h.1 e he)
      · rename_i hnot
        split
        · rename_i heq
          subst heq
          exact List.pairwise_cons.mpr ⟨h.1, h.2⟩
        · rename_i hne
          refine List.pairwise_cons.mpr ⟨fun e he => ?_, ih h.2⟩
          rcases (mem_assignList h.2).mp he with rfl | ⟨he, -⟩
          · rcases lt_or_gt k b.1 with hlt | heq | hgt
            · exact absurd hlt hnot
            · exact absurd heq hne
            · exact hgt
          · exact h.1 e he

end

/-- `m[k] = v` -/
def assign (m : OrderedMap α β) (k : α) (v : β) : OrderedMap α β :=
  ⟨assignList k v m.entries, sorted_assignList m.sorted⟩

def assignAll (m : OrderedMap α β) (l : List (α × β)) : OrderedMap α β :=
  l.foldl (fun m e => m.assign e.1 e.2) m

theorem mem_assign {e : α × β} :
    e ∈ (m.assign k v).entries ↔ e = (k, v) ∨ e ∈ m.entries ∧ e.1 ≠ k :=
  mem_assignList m.sorted

theorem get_assign_self : (m.assign k v).get k = some v :=
  get_eq_some_iff.mpr (mem_assign.mpr (.inl rfl))

theorem get_assign_of_ne {k' : α} (h : k' ≠ k) : (m.assign k v).get k' = m.get k' := by
  apply Option.ext
  intro v'
  rw [get_eq_some_iff, get_eq_some_iff, mem_assign]
  constructor
  · rintro (heq | ⟨hmem, -⟩)
    · exact absurd (congrArg Prod.fst heq) h
    · exact hmem
  · intro hmem
    exact .inr ⟨hmem, h⟩

/-- **The last assignment of a key counts.** -/
theorem get_assignAll (m : OrderedMap α β) (l : List (α × β)) (k : α) :
    (m.assignAll l).get k =
      match (l.reverse.find? fun e => e.1 = k) with
      | some e => some e.2
      | none => m.get k := by
  induction l generalizing m with
  | nil => rfl
  | cons e l ih =>
      show ((m.assign e.1 e.2).assignAll l).get k = _
      rw [ih, List.reverse_cons, List.find?_append]
      cases l.reverse.find? fun e => e.1 = k with
      | some e' => rfl
      | none =>
          by_cases hk : e.1 = k
          · subst hk
            simp [get_assign_self]
          · simp [hk, get_assign_of_ne (Ne.symm hk)]

/-- Assignments of different keys are the entries. -/
theorem perm_assignAll {l : List (α × β)} (hnodup : l.Nodup)
    (hkeys : ∀ e ∈ l, ∀ e' ∈ l, e.1 = e'.1 → e = e') : (empty.assignAll l).entries.Perm l := by
  refine (List.perm_ext_iff_of_nodup (nodup_entries _) hnodup).mpr fun e => ?_
  rw [← get_eq_some_iff (k := e.1) (v := e.2), get_assignAll]
  constructor
  · intro h
    cases hfind : l.reverse.find? fun e' => e'.1 = e.1 with
    | none =>
        rw [hfind] at h
        cases h
    | some e' =>
        rw [hfind] at h
        have hkey : e'.1 = e.1 := by simpa using List.find?_some hfind
        have hmem := List.mem_reverse.mp (List.mem_of_find?_eq_some hfind)
        have heq : e' = e := Prod.ext hkey (Option.some.inj h)
        rwa [heq] at hmem
  · intro he
    cases hfind : l.reverse.find? fun e' => e'.1 = e.1 with
    | none =>
        have hno := List.find?_eq_none.mp hfind e (List.mem_reverse.mpr he)
        simp at hno
    | some e' =>
        have hkey : e'.1 = e.1 := by simpa using List.find?_some hfind
        have hmem := List.mem_reverse.mp (List.mem_of_find?_eq_some hfind)
        rw [hkeys e' hmem e he hkey]

end OrderedMap

end Lib
