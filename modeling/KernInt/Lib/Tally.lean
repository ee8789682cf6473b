import Mathlib.Data.List.AList
import Mathlib.Algebra.BigOperators.Group.List.Basic
import Mathlib.Algebra.GroupWithZero.Nat
import Mathlib.Data.Finset.Card

set_option autoImplicit false

/-! # Tallies

A tally counts occurrences of keys and keeps a class for each key. Adding to a key that has
already been counted fails if the classes differ. If the class of a key is a function of the
key (`Classified` by a functional relation), then adding never fails, and what is added to a
tally is the sum of the entries, in whatever order they come (`merge_spec`).
-/

namespace Lib

universe u v

variable {α : Type u} {φ : Type v} [DecidableEq α]

/-! ## Sums over a map -/

section

variable {β : Type v}

theorem sum_of_notMem_keys {es : List (Sigma fun _ : α => β)} {k : α} (h : k ∉ es.keys)
    (f : β → Nat) :
    (es.map fun e => if e.1 = k then f e.2 else 0).sum = 0 := by
  induction es with
  | nil => rfl
  | cons e es ih =>
      rw [List.keys_cons, List.mem_cons, not_or] at h
      rw [List.map_cons, List.sum_cons, if_neg (Ne.symm h.1), ih h.2]

/-- A sum over the entries with key `k` has one summand at most. -/
theorem sum_of_key {es : List (Sigma fun _ : α => β)} (hnd : es.NodupKeys) (k : α)
    (f : β → Nat) :
    (es.map fun e => if e.1 = k then f e.2 else 0).sum = (List.dlookup k es).elim 0 f := by
  induction es with
  | nil => rfl
  | cons e es ih =>
      rw [List.map_cons, List.sum_cons]
      by_cases hk : e.1 = k
      · subst hk
        have hfresh := List.notMem_keys_of_nodupKeys_cons hnd
        have hsome : List.dlookup e.1 (e :: es) = some e.2 := List.dlookup_cons_eq es e.1 e.2
        rw [hsome, if_pos rfl, sum_of_notMem_keys hfresh f]
        rfl
      · rw [if_neg hk, ih (List.nodupKeys_of_nodupKeys_cons hnd),
          List.dlookup_cons_ne _ _ (Ne.symm hk), Nat.zero_add]

end

/-! ## Unions of disjoint sets -/

section

variable {ι : Type v} {f : ι → Finset α}

theorem exists_of_mem_foldr_union {l : List ι} {a : α}
    (h : a ∈ l.foldr (fun i s => f i ∪ s) ∅) : ∃ i ∈ l, a ∈ f i := by
  induction l with
  | nil => exact absurd h (Finset.notMem_empty a)
  | cons i l ih =>
      rw [List.foldr_cons, Finset.mem_union] at h
      rcases h with h | h
      · exact ⟨i, List.mem_cons_self, h⟩
      · obtain ⟨j, hj, ha⟩ := ih h
        exact ⟨j, List.mem_cons_of_mem i hj, ha⟩

theorem card_foldr_union {l : List ι} (h : l.Pairwise fun i j => Disjoint (f i) (f j)) :
    (l.foldr (fun i s => f i ∪ s) ∅).card = (l.map fun i => (f i).card).sum := by
  induction l with
  | nil => rfl
  | cons i l ih =>
      obtain ⟨hfirst, hrest⟩ := List.pairwise_cons.mp h
      have hdisj : Disjoint (f i) (l.foldr (fun i s => f i ∪ s) ∅) := by
        rw [Finset.disjoint_left]
        intro a ha hmem
        obtain ⟨j, hj, ha'⟩ := exists_of_mem_foldr_union hmem
        exact Finset.disjoint_left.mp (hfirst j hj) ha ha'
      calc (f i ∪ l.foldr (fun i s => f i ∪ s) ∅).card
          = (f i).card + (l.foldr (fun i s => f i ∪ s) ∅).card :=
            Finset.card_union_of_disjoint hdisj
        _ = (f i).card + (l.map fun i => (f i).card).sum := by rw [ih hrest]

end

/-! ## Tallies -/

/-- A map from keys to their count and class. -/
abbrev Tally (α : Type u) (φ : Type v) : Type (max u v) :=
  AList fun _ : α => Nat × φ

/-- An entry of a tally, or of several of them. -/
abbrev Tally.Entry (α : Type u) (φ : Type v) : Type (max u v) :=
  Sigma fun _ : α => Nat × φ

namespace Tally

/-- The count of a key, `0` if it is missing. -/
def count (t : Tally α φ) (k : α) : Nat :=
  match t.lookup k with
  | some e => e.1
  | none => 0

/-- Adds an entry; fails if its key has been counted in another class. -/
def add [DecidableEq φ] (t : Tally α φ) (e : Entry α φ) : Option (Tally α φ) :=
  match t.lookup e.1 with
  | some (n, c) => if n ≠ 0 ∧ c ≠ e.2.2 then none else some (t.insert e.1 (n + e.2.1, e.2.2))
  | none => some (t.insert e.1 e.2)

/-- Adds the entries one after the other. -/
def merge [DecidableEq φ] (t : Tally α φ) (es : List (Entry α φ)) : Option (Tally α φ) :=
  es.foldlM add t

/-- What a list of entries adds to a key. -/
def sum (es : List (Entry α φ)) (k : α) : Nat :=
  (es.map fun e => if e.1 = k then e.2.1 else 0).sum

/-- Every key has a class that the relation allows. -/
def Classified (R : α → φ → Prop) (es : List (Entry α φ)) : Prop :=
  ∀ e ∈ es, R e.1 e.2.2

/-! ## Counts -/

theorem count_insert (t : Tally α φ) (a k : α) (e : Nat × φ) :
    count (t.insert a e) k = if a = k then e.1 else count t k := by
  unfold count
  by_cases h : a = k
  · subst h
    rw [AList.lookup_insert, if_pos rfl]
  · rw [AList.lookup_insert_ne (Ne.symm h), if_neg h]

@[simp] theorem sum_nil (k : α) : sum ([] : List (Entry α φ)) k = 0 := rfl

theorem sum_cons (e : Entry α φ) (es : List (Entry α φ)) (k : α) :
    sum (e :: es) k = (if e.1 = k then e.2.1 else 0) + sum es k := rfl

theorem sum_append (es es' : List (Entry α φ)) (k : α) :
    sum (es ++ es') k = sum es k + sum es' k := by
  rw [sum, List.map_append, List.sum_append]
  rfl

theorem sum_perm {es es' : List (Entry α φ)} (h : es.Perm es') (k : α) : sum es k = sum es' k :=
  (h.map _).sum_eq

/-- The entries of a tally add up to its counts. -/
theorem sum_entries (t : Tally α φ) (k : α) : sum t.entries k = count t k := by
  rw [sum, sum_of_key t.nodupKeys k Prod.fst]
  unfold count AList.lookup
  cases List.dlookup k t.entries <;> rfl

/-! ## Classes -/

theorem Classified.lookup {R : α → φ → Prop} {t : Tally α φ} (h : Classified R t.entries)
    {k : α} {e : Nat × φ} (hk : t.lookup k = some e) : R k e.2 :=
  h ⟨k, e⟩ (AList.mem_lookup_iff.mp hk)

theorem Classified.insert {R : α → φ → Prop} {t : Tally α φ} (h : Classified R t.entries)
    {k : α} {e : Nat × φ} (he : R k e.2) : Classified R (t.insert k e).entries := by
  intro e' hmem
  rw [AList.entries_insert] at hmem
  rcases List.mem_cons.mp hmem with rfl | hmem
  · exact he
  · exact h e' ((List.kerase_sublist k t.entries).subset hmem)

omit [DecidableEq α] in
theorem Classified.perm {R : α → φ → Prop} {es es' : List (Entry α φ)} (h : Classified R es)
    (hperm : es'.Perm es) : Classified R es' :=
  fun e he => h e (hperm.mem_iff.mp he)

/-! ## Merging -/

variable [DecidableEq φ] {R : α → φ → Prop}

theorem add_spec (hR : ∀ k c c', R k c → R k c' → c = c') {t : Tally α φ} {e : Entry α φ}
    (ht : Classified R t.entries) (he : R e.1 e.2.2) :
    ∃ t', t.add e = some t' ∧ Classified R t'.entries ∧
      ∀ k, count t' k = count t k + if e.1 = k then e.2.1 else 0 := by
  unfold add
  cases hk : t.lookup e.1 with
  | none =>
      refine ⟨_, rfl, ht.insert he, fun k => ?_⟩
      rw [count_insert]
      split
      · subst k
        simp only [count, hk, Nat.zero_add]
      · rfl
  | some old =>
      obtain ⟨n, c⟩ := old
      have hc : c = e.2.2 := hR e.1 c e.2.2 (ht.lookup hk) he
      simp only [hc, ne_eq, not_true_eq_false, and_false, if_false]
      refine ⟨_, rfl, ht.insert he, fun k => ?_⟩
      rw [count_insert]
      split
      · subst k
        simp only [count, hk]
      · rfl

/-- **Merging**: if every key has one class only, all entries can be added, and the counts are
the sums. -/
theorem merge_spec (hR : ∀ k c c', R k c → R k c' → c = c') {t : Tally α φ}
    {es : List (Entry α φ)} (ht : Classified R t.entries) (hes : Classified R es) :
    ∃ t', t.merge es = some t' ∧ Classified R t'.entries ∧
      ∀ k, count t' k = count t k + sum es k := by
  induction es generalizing t with
  | nil => exact ⟨t, rfl, ht, fun _ => rfl⟩
  | cons e es ih =>
      obtain ⟨t₁, hadd, ht₁, hcount₁⟩ := add_spec hR ht (hes e (.head _))
      obtain ⟨t₂, hmerge, ht₂, hcount₂⟩ := ih ht₁ fun e' he' => hes e' (.tail _ he')
      refine ⟨t₂, ?_, ht₂, fun k => ?_⟩
      · rw [merge, List.foldlM_cons, hadd]
        exact hmerge
      · rw [hcount₂, hcount₁, sum_cons, Nat.add_assoc]

end Tally

end Lib
