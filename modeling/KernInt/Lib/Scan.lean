import KernInt.Lib.Loop
import Mathlib.Data.List.Nodup

set_option autoImplicit false

/-! # Scans that skip

A scan goes up through the positions of an area. At each of them it may note something, and it
goes on at the next position, skips some more, or stops for good. So it does not come to every
position: `positions` lists those to which it comes, and `mem_positions_iff` says that these are
all but the ones that an earlier one hides.
-/

namespace Lib

universe u

/-- What a scan does at a position. -/
inductive ScanStep (α : Type u) where
  /-- Go on `skip` positions behind the next one. -/
  | pass (skip : Nat) (note : Option α)
  | stop

def ScanStep.note {α : Type u} : ScanStep α → Option α
  | .pass _ note => note
  | .stop => none

variable {α : Type u} (step : Nat → ScanStep α) (finish : Nat)

/-- A round at a position, with what has been noted. -/
def scanRound (s : Nat × List α) : Round (Nat × List α) (Option (List α)) :=
  if s.1 < finish then
    match step s.1 with
    | .pass skip note => .again (s.1 + skip + 1, s.2 ++ note.toList)
    | .stop => .leave none
  else .leave (some s.2)

theorem scanRound_decreases : Decreases (scanRound step finish) fun s => finish - s.1 := by
  intro s s' h
  unfold scanRound at h
  split at h
  · split at h
    · cases h
      show finish - (s.1 + _ + 1) < finish - s.1
      omega
    · cases h
  · cases h

/-- What a scan from `start` on notes; `none` if it stops. -/
def scan (start : Nat) : Option (List α) :=
  loop (scanRound step finish) _ (scanRound_decreases step finish) (start, [])

/-- The positions to which a scan from `i` on comes. -/
def positions (i : Nat) : List Nat :=
  if i < finish then
    i :: match step i with
      | .pass skip _ => positions (i + skip + 1)
      | .stop => []
  else []
termination_by finish - i

/-- From the position `k` the scan does not come to `j`. -/
def Hides (k j : Nat) : Prop :=
  k < j ∧ match step k with
    | .pass skip _ => j ≤ k + skip
    | .stop => True

variable {step finish} {i j k skip : Nat} {note : Option α}

theorem positions_of_pass (hi : i < finish) (h : step i = .pass skip note) :
    positions step finish i = i :: positions step finish (i + skip + 1) := by
  rw [positions, if_pos hi, h]

theorem positions_of_stop (hi : i < finish) (h : step i = .stop) :
    positions step finish i = [i] := by
  rw [positions, if_pos hi, h]

theorem positions_of_le (hi : finish ≤ i) : positions step finish i = [] := by
  rw [positions, if_neg (Nat.not_lt.mpr hi)]

theorem scanRound_of_pass (hi : i < finish) (h : step i = .pass skip note) (found : List α) :
    scanRound step finish (i, found) = .again (i + skip + 1, found ++ note.toList) := by
  rw [scanRound, if_pos hi, h]

theorem scanRound_of_stop (hi : i < finish) (h : step i = .stop) (found : List α) :
    scanRound step finish (i, found) = .leave none := by
  rw [scanRound, if_pos hi, h]

theorem scanRound_of_le (hi : finish ≤ i) (found : List α) :
    scanRound step finish (i, found) = .leave (some found) := if_neg (Nat.not_lt.mpr hi)

theorem hides_of_pass (h : step k = .pass skip note) :
    Hides step k j ↔ k < j ∧ j ≤ k + skip := by
  rw [Hides, h]

theorem hides_of_stop (h : step k = .stop) : Hides step k j ↔ k < j := by
  rw [Hides, h, and_true]

/-- The rule for a property of the positions: it follows the rounds of the scan. -/
theorem positions_induction {P : Nat → Prop} (hleave : ∀ i, finish ≤ i → P i)
    (hstop : ∀ i, i < finish → step i = .stop → P i)
    (hpass : ∀ i skip note, i < finish → step i = .pass skip note → P (i + skip + 1) → P i)
    (i : Nat) : P i := by
  by_cases hi : i < finish
  · cases h : step i with
    | pass skip note => exact hpass i skip note hi h (positions_induction hleave hstop hpass _)
    | stop => exact hstop i hi h
  · exact hleave i (Nat.not_lt.mp hi)
termination_by finish - i

theorem le_of_mem_positions (h : j ∈ positions step finish i) : i ≤ j ∧ j < finish := by
  induction i using @positions_induction α step finish with
  | hleave i hi =>
      rw [positions_of_le hi] at h
      cases h
  | hstop i hi hs =>
      rw [positions_of_stop hi hs, List.mem_singleton] at h
      omega
  | hpass i skip note hi hs ih =>
      rw [positions_of_pass hi hs, List.mem_cons] at h
      rcases h with rfl | h
      · exact ⟨Nat.le_refl _, hi⟩
      · have := ih h
        omega

/-- **To which positions a scan comes**: to those that none of them hides. -/
theorem mem_positions_iff : j ∈ positions step finish i ↔
    i ≤ j ∧ j < finish ∧ ∀ k ∈ positions step finish i, ¬ Hides step k j := by
  induction i using @positions_induction α step finish with
  | hleave i hi =>
      rw [positions_of_le hi]
      constructor
      · intro h
        cases h
      · rintro ⟨hle, hlt, -⟩
        omega
  | hstop i hi hs =>
      rw [positions_of_stop hi hs, List.forall_mem_singleton, hides_of_stop hs, List.mem_singleton]
      omega
  | hpass i skip note hi hs ih =>
      rw [positions_of_pass hi hs, List.mem_cons, List.forall_mem_cons, hides_of_pass hs, ih]
      constructor
      · rintro (rfl | ⟨hle, hlt, hrest⟩)
        · refine ⟨Nat.le_refl _, hi, by omega, fun k hk hides => ?_⟩
          have := (le_of_mem_positions hk).1
          have := hides.1
          omega
        · exact ⟨by omega, hlt, by omega, hrest⟩
      · rintro ⟨hle, hlt, hhead, hrest⟩
        by_cases hij : j = i
        · exact .inl hij
        · exact .inr ⟨by omega, hlt, hrest⟩

theorem positions_pairwise (i : Nat) : (positions step finish i).Pairwise (· < ·) := by
  induction i using @positions_induction α step finish with
  | hleave i hi =>
      rw [positions_of_le hi]
      exact List.Pairwise.nil
  | hstop i hi hs =>
      rw [positions_of_stop hi hs]
      exact List.pairwise_singleton _ _
  | hpass i skip note hi hs ih =>
      rw [positions_of_pass hi hs, List.pairwise_cons]
      refine ⟨fun j hj => ?_, ih⟩
      have := (le_of_mem_positions hj).1
      omega

theorem positions_nodup (i : Nat) : (positions step finish i).Nodup :=
  (positions_pairwise i).imp Nat.ne_of_lt

/-- A scan passes all positions one by one exactly if it passes so those to which it comes. -/
theorem forall_positions_iff :
    (∀ j ∈ positions step finish i, ∃ note, step j = .pass 0 note) ↔
      ∀ j, i ≤ j → j < finish → ∃ note, step j = .pass 0 note := by
  constructor
  · intro h j hle hlt
    refine h j (mem_positions_iff.mpr ⟨hle, hlt, fun k hk hides => ?_⟩)
    obtain ⟨note, hstep⟩ := h k hk
    have := (hides_of_pass hstep).mp hides
    omega
  · intro h j hj
    have hrange := le_of_mem_positions hj
    exact h j hrange.1 hrange.2

/-! ## What is noted -/

theorem loop_scanRound (found : List α) (h : ∀ j ∈ positions step finish i, step j ≠ .stop) :
    loop (scanRound step finish) _ (scanRound_decreases step finish) (i, found) =
      some (found ++ (positions step finish i).filterMap fun j => (step j).note) := by
  induction i using @positions_induction α step finish generalizing found with
  | hleave i hi =>
      rw [loop_of_leave _ (scanRound_of_le hi found), positions_of_le hi, List.filterMap_nil,
        List.append_nil]
  | hstop i hi hs =>
      rw [positions_of_stop hi hs] at h
      exact absurd hs (h i (List.mem_singleton_self i))
  | hpass i skip note hi hs ih =>
      rw [positions_of_pass hi hs] at h ⊢
      rw [loop_of_again _ (scanRound_of_pass hi hs found),
        ih _ fun j hj => h j (List.mem_cons_of_mem i hj), List.filterMap_cons, hs]
      cases note with
      | none => simp [ScanStep.note]
      | some a => simp [ScanStep.note]

theorem loop_scanRound_of_stop (found : List α)
    (h : ∃ j ∈ positions step finish i, step j = .stop) :
    loop (scanRound step finish) _ (scanRound_decreases step finish) (i, found) = none := by
  induction i using @positions_induction α step finish generalizing found with
  | hleave i hi =>
      obtain ⟨j, hj, -⟩ := h
      rw [positions_of_le hi] at hj
      cases hj
  | hstop i hi hs => exact loop_of_leave _ (scanRound_of_stop hi hs found)
  | hpass i skip note hi hs ih =>
      rw [loop_of_again _ (scanRound_of_pass hi hs found)]
      apply ih
      obtain ⟨j, hj, hstop⟩ := h
      rw [positions_of_pass hi hs, List.mem_cons] at hj
      rcases hj with rfl | hj
      · rw [hs] at hstop
        cases hstop
      · exact ⟨j, hj, hstop⟩

/-- **What a scan notes**: the notes of the positions to which it comes, in their order. -/
theorem scan_eq (h : ∀ j ∈ positions step finish i, step j ≠ .stop) :
    scan step finish i = some ((positions step finish i).filterMap fun j => (step j).note) :=
  loop_scanRound [] h

theorem scan_of_stop (h : ∃ j ∈ positions step finish i, step j = .stop) :
    scan step finish i = none :=
  loop_scanRound_of_stop [] h

/-- Scans that do the same where one of them comes note the same. -/
theorem scan_congr {step' : Nat → ScanStep α}
    (h : ∀ j ∈ positions step finish i, step' j = step j) :
    scan step' finish i = scan step finish i := by
  have key : ∀ found,
      loop (scanRound step' finish) _ (scanRound_decreases step' finish) (i, found) =
        loop (scanRound step finish) _ (scanRound_decreases step finish) (i, found) := by
    induction i using @positions_induction α step finish with
    | hleave i hi =>
        intro found
        rw [loop_of_leave _ (scanRound_of_le hi found), loop_of_leave _ (scanRound_of_le hi found)]
    | hstop i hi hs =>
        intro found
        rw [positions_of_stop hi hs] at h
        have hs' := (h i (List.mem_singleton_self i)).trans hs
        rw [loop_of_leave _ (scanRound_of_stop hi hs' found),
          loop_of_leave _ (scanRound_of_stop hi hs found)]
    | hpass i skip note hi hs ih =>
        intro found
        rw [positions_of_pass hi hs] at h
        have hs' := (h i List.mem_cons_self).trans hs
        rw [loop_of_again _ (scanRound_of_pass hi hs' found),
          loop_of_again _ (scanRound_of_pass hi hs found)]
        exact ih (fun j hj => h j (List.mem_cons_of_mem i hj)) _
  exact key []

/-- A scan with a stride comes to the multiples of it. -/
theorem positions_of_stride {n : Nat} (h : ∀ i, ∃ note, step i = .pass n note) (m : Nat) :
    ∀ k, positions step ((n + 1) * m) ((n + 1) * k) =
      (List.range' k (m - k)).map fun j => (n + 1) * j := by
  intro k
  induction hd : m - k generalizing k with
  | zero =>
      have hle : (n + 1) * m ≤ (n + 1) * k := Nat.mul_le_mul_left _ (by omega)
      rw [positions_of_le hle]
      rfl
  | succ d ih =>
      have hlt : (n + 1) * k < (n + 1) * m := Nat.mul_lt_mul_of_pos_left (by omega) (Nat.succ_pos n)
      obtain ⟨note, hstep⟩ := h ((n + 1) * k)
      have hnext : (n + 1) * k + n + 1 = (n + 1) * (k + 1) := by
        rw [Nat.mul_succ]
        omega
      rw [positions_of_pass hlt hstep, hnext, ih (k + 1) (by omega), List.range'_succ,
        List.map_cons]

theorem scan_of_stride {n : Nat} (h : ∀ i, ∃ note, step i = .pass n note) (m : Nat) :
    scan step ((n + 1) * m) 0 =
      some ((List.range m).filterMap fun k => (step ((n + 1) * k)).note) := by
  have hpositions := positions_of_stride h m 0
  rw [Nat.mul_zero, Nat.sub_zero, ← List.range_eq_range'] at hpositions
  rw [scan_eq, hpositions, List.filterMap_map]
  · rfl
  · intro j _ hstop
    obtain ⟨note, hstep⟩ := h j
    rw [hstep] at hstop
    cases hstop
/-- What is noted at one position only is noted at most once. -/
theorem count_notes [DecidableEq α] {a : α}
    (h : ∀ k ∈ positions step finish i, (step k).note = some a ↔ k = j) :
    ((positions step finish i).filterMap fun k => (step k).note).count a =
      if j ∈ positions step finish i then 1 else 0 := by
  have hcount : (positions step finish i).countP (fun k => (step k).note == some a) =
      (positions step finish i).countP (fun k => k == j) := by
    apply List.countP_congr
    intro k hk
    rw [beq_iff_eq, beq_iff_eq]
    exact h k hk
  rw [List.count_filterMap, hcount]
  exact List.Nodup.count (positions_nodup i)

end Lib
