import KernInt.Kernel.CodePage
import Mathlib.Data.Set.Basic

set_option autoImplicit false

/-! # The runs of differing bytes of a code page

The comparison of a code page looks at the first byte of a run of differing bytes, and behind a
difference that a rule accepts it passes over up to five more bytes. Which runs it looks at is told
by the bytes of the two pages and the recorded sites alone: the comparison is silent exactly if
the beginnings of the runs can be tiled (`changes_eq_nil_iff_tiling`), that is, if there is a set of
accepted beginnings, none of them among the bytes that are passed over behind another one, such that
every other run begins among such bytes.
-/

namespace KernInt

open Lib

namespace CodeCheck

variable (c : CodeCheck)

/-! ## Tilings -/

/-- One of the rules accepts a difference at `i`. -/
def Accepts (i : Nat) : Prop :=
  c.hypercallPage i = true ∨ c.atomicNop i = true ∨ c.cutNop i = true ∨ c.fixedNop i = true ∨
    c.isValidJmpLabel i = true ∨ c.unrolledCall i = true ∨ c.smpLock i = true ∨
    c.zeroJump i = true

/-- The number of bytes that are passed over behind an accepted difference at `i`: five behind a
NOP, a jump label and a jump to the next instruction, four behind a call. -/
def passed (i : Nat) : Nat :=
  if c.hypercallPage i then 0
  else if c.atomicNop i then 5
  else if c.cutNop i then 0
  else if c.fixedNop i || c.isValidJmpLabel i then 5
  else if c.unrolledCall i then 4
  else if c.smpLock i then 0
  else 5

/-- A run of differing bytes begins at `i`. -/
def Begins (i : Nat) : Prop := i < c.size ∧ c.Differs i ∧ ¬ c.RunsOn i

/-- The byte at `i` is passed over behind one of the differences in `F`. -/
def PassedOver (F : Set Nat) (i : Nat) : Prop := ∃ j ∈ F, j < i ∧ i ≤ j + c.passed j

/-- Accepted differences whose tiles, of the bytes passed over, do not reach each other, and contain
all other beginnings of runs. -/
structure Tiling (F : Set Nat) : Prop where
  begins : ∀ i ∈ F, c.Begins i
  accepts : ∀ i ∈ F, c.Accepts i
  apart : ∀ i ∈ F, ¬ c.PassedOver F i
  covers : ∀ i, c.Begins i → i ∉ F → c.PassedOver F i

variable {c} in
theorem exemption_eq_some_iff {i skip : Nat} :
    c.exemption i = some skip ↔ c.Accepts i ∧ c.passed i = skip := by
  unfold exemption Accepts passed
  cases c.hypercallPage i <;> cases c.atomicNop i <;> cases c.cutNop i <;> cases c.fixedNop i <;>
    cases c.isValidJmpLabel i <;> cases c.unrolledCall i <;> cases c.smpLock i <;>
    cases c.zeroJump i <;> simp

theorem exemption_ne_none_iff {i : Nat} : c.exemption i ≠ none ↔ c.Accepts i := by
  rw [Option.ne_none_iff_exists']
  constructor
  · rintro ⟨skip, h⟩
    exact (exemption_eq_some_iff.mp h).1
  · intro h
    exact ⟨_, exemption_eq_some_iff.mpr ⟨h, rfl⟩⟩

/-! ## Where the index goes -/

/-- The index only grows. -/
theorem le_of_visits {i j : Nat} (h : Visits c.round i j) : i ≤ j := by
  refine h.invariant (fun k => i ≤ k) (Nat.le_refl i) fun k k' hk hr => ?_
  have := c.round_decreases k k' hr
  simp only [bytesLeft] at this
  omega

/-- The beginnings that the comparison looks at. -/
def met : Set Nat := {i | c.Begins i ∧ c.Examined i}

variable {c}

/-- The round at the beginning of a run that a rule accepts. -/
theorem round_of_accepts {i : Nat} (h : c.Begins i) (ha : c.Accepts i) :
    c.round i = .again (i + c.passed i + 1) := by
  obtain ⟨hi, hd, hr⟩ := h
  have hsome : c.exemption i = some (c.passed i) := exemption_eq_some_iff.mpr ⟨ha, rfl⟩
  rcases c.round_cases i with ⟨hle, -⟩ | ⟨-, hno, -⟩ | ⟨-, -, -, skip, he, hround⟩ |
    ⟨-, -, -, he, -⟩
  · omega
  · exact absurd hno (by simp [hd, hr])
  · cases he.symm.trans hsome
    exact hround
  · rw [hsome] at he
    cases he

/-- The round at any other byte. -/
theorem round_of_not_begins {i : Nat} (hi : i < c.size) (h : ¬ c.Begins i) :
    c.round i = .again (i + 1) := by
  rcases c.round_cases i with ⟨hle, -⟩ | ⟨-, -, hround⟩ | ⟨-, hd, hr, -⟩ | ⟨-, hd, hr, -⟩
  · omega
  · exact hround
  · exact absurd ⟨hi, hd, hr⟩ h
  · exact absurd ⟨hi, hd, hr⟩ h

/-- Every beginning that a silent comparison looks at is accepted. -/
theorem accepts_of_met (h : c.changes = []) {i : Nat} (hi : i ∈ c.met) : c.Accepts i := by
  obtain ⟨⟨hlt, hd, hr⟩, hv⟩ := hi
  exact c.exemption_ne_none_iff.mp (c.changes_eq_nil_iff.mp h i hlt hv hd hr)

/-- Every index is examined or passed over. -/
theorem examined_or_passedOver (h : c.changes = []) {i : Nat} (hi : i < c.size) :
    c.Examined i ∨ c.PassedOver c.met i := by
  induction i with
  | zero => exact .inl .enter
  | succ i ih =>
      rcases ih (by omega) with hv | ⟨j, hj, hlt, hle⟩
      · by_cases hb : c.Begins i
        · have hround := round_of_accepts hb (accepts_of_met h ⟨hb, hv⟩)
          by_cases hzero : c.passed i = 0
          · rw [hzero] at hround
            exact .inl (.next hv hround)
          · exact .inr ⟨i, ⟨hb, hv⟩, by omega, by omega⟩
        · exact .inl (.next hv (round_of_not_begins (by omega) hb))
      · by_cases hin : i + 1 ≤ j + c.passed j
        · exact .inr ⟨j, hj, by omega, hin⟩
        · -- the index comes to the byte behind the tile
          have hround := round_of_accepts hj.1 (accepts_of_met h hj)
          have hend : j + c.passed j + 1 = i + 1 := by omega
          rw [hend] at hround
          exact .inl (.next hj.2 hround)

/-- An examined index is not passed over. -/
theorem not_passedOver_of_examined (h : c.changes = []) {i : Nat} (hi : c.Examined i) :
    ¬ c.PassedOver c.met i := by
  rintro ⟨j, hj, hlt, hle⟩
  have hround := round_of_accepts hj.1 (accepts_of_met h hj)
  rcases Visits.connected hj.2 hi with hji | hij
  · rcases hji.first with rfl | ⟨j', hr', hv'⟩
    · omega
    · rw [hround] at hr'
      cases hr'
      have := c.le_of_visits hv'
      omega
  · have := c.le_of_visits hij
    omega

/-! ## The tiling of a silent comparison -/

theorem tiling_met (h : c.changes = []) : c.Tiling c.met where
  begins := fun _ hi => hi.1
  accepts := fun _ hi => accepts_of_met h hi
  apart := fun _ hi => not_passedOver_of_examined h hi.2
  covers := fun _ hb hi =>
    (examined_or_passedOver h hb.1).resolve_left fun hv => hi ⟨hb, hv⟩

/-- With a tiling, the index never comes to a byte that is passed over. -/
theorem Tiling.not_passedOver {F : Set Nat} (ht : c.Tiling F) {i : Nat} (hv : c.Examined i) :
    ¬ c.PassedOver F i := by
  refine hv.invariant (fun i => ¬ c.PassedOver F i) ?_ fun i i' hnot hround => ?_
  · rintro ⟨j, -, hlt, -⟩
    omega
  rintro ⟨j, hj, hlt, hle⟩
  by_cases hsize : i < c.size
  · by_cases hb : c.Begins i
    · -- the tile of `i`; no other one reaches behind it
      have hi : i ∈ F := by
        by_contra hout
        exact hnot (ht.covers i hb hout)
      rw [round_of_accepts hb (ht.accepts i hi)] at hround
      cases hround
      rcases lt_trichotomy j i with hji | rfl | hij
      · exact hnot ⟨j, hj, hji, by omega⟩
      · omega
      · exact ht.apart j hj ⟨i, hi, hij, by omega⟩
    · rw [round_of_not_begins hsize hb] at hround
      cases hround
      rcases Nat.lt_succ_iff_lt_or_eq.mp hlt with hji | rfl
      · exact hnot ⟨j, hj, hji, by omega⟩
      · exact hb (ht.begins j hj)
  · rcases c.round_cases i with ⟨-, hleave⟩ | ⟨hlt', -⟩ | ⟨hlt', -⟩ | ⟨hlt', -⟩
    · rw [hleave] at hround
      cases hround
    · exact hsize hlt'
    · exact hsize hlt'
    · exact hsize hlt'

variable (c) in
/-- **The comparison is silent** exactly if the beginnings of the runs can be tiled. -/
theorem changes_eq_nil_iff_tiling : c.changes = [] ↔ ∃ F, c.Tiling F := by
  constructor
  · intro h
    exact ⟨c.met, tiling_met h⟩
  · rintro ⟨F, ht⟩
    refine c.changes_eq_nil_iff.mpr fun i hi hv hd hr => ?_
    have hF : i ∈ F := by
      by_contra hout
      exact ht.not_passedOver hv (ht.covers i ⟨hi, hd, hr⟩ hout)
    exact c.exemption_ne_none_iff.mpr (ht.accepts i hF)

end CodeCheck

end KernInt
