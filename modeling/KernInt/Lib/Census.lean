import KernInt.Lib.Tally
import Mathlib.Data.Set.Card

set_option autoImplicit false

/-! # Counting what a tally has counted

A table about a tally is filled entry by entry. Its columns count the keys with a class of some
kind, or add up the counts of such keys. In whatever order the entries come, the first number is
the number of those keys (`countP_entries`), and the second is the number of occurrences behind
them, if the count of a key is the number of its occurrences (`sum_counts`).
-/

namespace Lib.Tally

universe u v

variable {α : Type u} {φ : Type v} {es : List (Entry α φ)}

/-- No key has been entered without an occurrence. -/
def Positive (es : List (Entry α φ)) : Prop :=
  ∀ e ∈ es, 0 < e.2.1

variable [DecidableEq α] {t : Tally α φ}

theorem Positive.insert (h : Positive t.entries) {k : α} {e : Nat × φ} (he : 0 < e.1) :
    Positive (t.insert k e).entries := by
  intro e' hmem
  rw [AList.entries_insert] at hmem
  rcases List.mem_cons.mp hmem with rfl | hmem
  · exact he
  · exact h e' ((List.kerase_sublist k t.entries).subset hmem)

theorem Positive.count_pos (h : Positive t.entries) {k : α} {e : Nat × φ}
    (hk : t.lookup k = some e) : 0 < t.count k := by
  have hpos : 0 < e.1 := h ⟨k, e⟩ (AList.mem_lookup_iff.mp hk)
  simpa only [count, hk] using hpos

section

variable [DecidableEq φ] {t' : Tally α φ}

theorem Positive.add (h : Positive t.entries) {e : Entry α φ} (he : 0 < e.2.1)
    (hadd : t.add e = some t') : Positive t'.entries := by
  unfold Tally.add at hadd
  split at hadd
  · split at hadd
    · cases hadd
    · -- the count of a key that is there grows
      cases hadd
      exact h.insert (by show 0 < _ + e.2.1; omega)
  · cases hadd
    exact h.insert he

theorem Positive.merge (h : Positive t.entries) (hes : Positive es)
    (hmerge : t.merge es = some t') : Positive t'.entries := by
  induction es generalizing t with
  | nil =>
      cases hmerge
      exact h
  | cons e es ih =>
      rw [Tally.merge, List.foldlM_cons] at hmerge
      obtain ⟨t₁, hadd, hrest⟩ := Option.bind_eq_some_iff.mp hmerge
      exact ih (h.add (hes e List.mem_cons_self) hadd)
        (fun e' he' => hes e' (List.mem_cons_of_mem e he')) hrest

end

/-! ## The columns -/

omit [DecidableEq α] in
theorem nodup_map_fst (hperm : es.Perm t.entries) : (es.map Sigma.fst).Nodup := by
  have hkeys : (t.entries.map Sigma.fst).Nodup := t.nodupKeys
  exact (hperm.map Sigma.fst).nodup_iff.mpr hkeys

theorem mem_iff_lookup (hperm : es.Perm t.entries) {e : Entry α φ} :
    e ∈ es ↔ t.lookup e.1 = some e.2 := by
  rw [hperm.mem_iff]
  exact AList.mem_lookup_iff.symm

/-- The keys of some kind. -/
def keysWith (t : Tally α φ) (P : α → φ → Bool) : Set α :=
  {k | ∃ e, t.lookup k = some e ∧ P k e.2 = true}

theorem coe_toFinset_keys (hperm : es.Perm t.entries) (P : α → φ → Bool) :
    (((es.filter fun e => P e.1 e.2.2).map Sigma.fst).toFinset : Set α) = t.keysWith P := by
  ext k
  simp only [List.coe_toFinset, List.mem_map, List.mem_filter, Set.mem_ofPred_eq, keysWith]
  constructor
  · rintro ⟨e, ⟨he, hP⟩, rfl⟩
    exact ⟨e.2, (mem_iff_lookup hperm).mp he, hP⟩
  · rintro ⟨e, he, hP⟩
    exact ⟨⟨k, e⟩, ⟨(mem_iff_lookup hperm).mpr he, hP⟩, rfl⟩

omit [DecidableEq α] in
theorem nodup_keys_filter (hperm : es.Perm t.entries) (P : α → φ → Bool) :
    ((es.filter fun e => P e.1 e.2.2).map Sigma.fst).Nodup :=
  (nodup_map_fst hperm).sublist (List.filter_sublist.map Sigma.fst)

/-- The entries of some kind are as many as their keys. -/
theorem countP_entries (hperm : es.Perm t.entries) (P : α → φ → Bool) :
    es.countP (fun e => P e.1 e.2.2) = (t.keysWith P).ncard := by
  rw [← coe_toFinset_keys hperm, Set.ncard_coe_finset,
    List.toFinset_card_of_nodup (nodup_keys_filter hperm P), List.length_map,
    List.countP_eq_length_filter]

/-- **The counts of the keys of some kind** add up to the number of their occurrences. -/
theorem sum_counts (hperm : es.Perm t.entries) (P : α → φ → Bool) {β : Type v}
    {s : α → Finset β} (hs : ∀ k, t.count k = (s k).card) :
    ((es.filter fun e => P e.1 e.2.2).map fun e => e.2.1).sum =
      {x : Sigma fun _ : α => β | x.1 ∈ t.keysWith P ∧ x.2 ∈ s x.1}.ncard := by
  classical
  have hset : {x : Sigma fun _ : α => β | x.1 ∈ t.keysWith P ∧ x.2 ∈ s x.1} =
      (((es.filter fun e => P e.1 e.2.2).map Sigma.fst).toFinset.sigma s : Set _) := by
    ext x
    rw [Finset.mem_coe, Finset.mem_sigma, ← Finset.mem_coe, coe_toFinset_keys hperm]
    rfl
  -- an entry has the count of its key
  have hcounts : (es.filter fun e => P e.1 e.2.2).map (fun e => e.2.1) =
      ((es.filter fun e => P e.1 e.2.2).map Sigma.fst).map fun k => (s k).card := by
    rw [List.map_map]
    apply List.map_congr_left
    intro e he
    have hlookup := (mem_iff_lookup hperm).mp (List.mem_of_mem_filter he)
    show e.2.1 = (s e.1).card
    rw [← hs, count, hlookup]
  rw [hset, Set.ncard_coe_finset, Finset.card_sigma, hcounts,
    List.sum_toFinset _ (nodup_keys_filter hperm P)]

end Lib.Tally
