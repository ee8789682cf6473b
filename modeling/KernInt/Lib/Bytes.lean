import Mathlib.Algebra.Group.Int.Defs
import Mathlib.Algebra.Group.Nat.Defs
import Mathlib.Data.List.Basic
import Mathlib.Tactic.Common

set_option autoImplicit false

/-! # Bytes of a buffer

Words are bit vectors. A buffer is the function from an offset to the byte there; what lies
behind the end of an array is whatever the function says. On it: the comparison `memcmp` of a
window with a constant, and the little-endian load of 32 bits.
-/

namespace Lib

abbrev Byte := BitVec 8
abbrev U32 := BitVec 32
abbrev U64 := BitVec 64

/-- The bytes of a `std::string`. -/
abbrev StdString := List Byte

/-- The bytes of a list, with `rest` behind its end. -/
def bufferOf (content : List Byte) (rest : Nat → Byte) (k : Nat) : Byte :=
  content.getD k (rest k)

/-- The padding behind `pre`. -/
theorem bufferOf_append_replicate {pre : List Byte} {n : Nat} {b : Byte} {k : Nat}
    (rest : Nat → Byte) (h1 : pre.length ≤ k) (h2 : k < pre.length + n) :
    bufferOf (pre ++ List.replicate n b) rest k = b := by
  rw [bufferOf, List.getD_eq_getElem?_getD, List.getElem?_append_right h1,
    List.getElem?_replicate, if_pos (by omega), Option.getD_some]

/-- `memcmp(mem + i, bs, |bs|) == 0`. -/
def memeq (mem : Nat → Byte) : Nat → List Byte → Bool
  | _, [] => true
  | i, b :: bs => mem i == b && memeq mem (i + 1) bs

theorem memeq_iff (mem : Nat → Byte) (i : Nat) (bs : List Byte) :
    memeq mem i bs = true ↔ ∀ k, (h : k < bs.length) → mem (i + k) = bs[k] := by
  induction bs generalizing i with
  | nil => simp [memeq]
  | cons b bs ih =>
      rw [memeq, Bool.and_eq_true, beq_iff_eq, ih]
      constructor
      · rintro ⟨h0, hrest⟩ k hk
        cases k with
        | zero => simpa using h0
        | succ k =>
            have := hrest k (by simpa using hk)
            rw [List.getElem_cons_succ, ← this]
            congr 1
            omega
      · intro h
        refine ⟨h 0 (Nat.succ_pos _), fun k hk => ?_⟩
        have := h (k + 1) (by simpa using hk)
        rw [List.getElem_cons_succ] at this
        rw [← this]
        congr 1
        omega

/-- The 32-bit value that `memcpy` reads at `mem + i`: bytes `i` to `i + 3`, lowest first. -/
def load32 (mem : Nat → Byte) (i : Nat) : BitVec 32 :=
  mem (i + 3) ++ mem (i + 2) ++ mem (i + 1) ++ mem i

/-- Comparisons and loads depend on the bytes of their window only. -/
theorem memeq_congr {mem mem' : Nat → Byte} {i : Nat} {bs : List Byte}
    (h : ∀ k < bs.length, mem' (i + k) = mem (i + k)) : memeq mem' i bs = memeq mem i bs := by
  rw [Bool.eq_iff_iff, memeq_iff, memeq_iff]
  constructor
  · intro heq k hk
    rw [← h k hk]
    exact heq k hk
  · intro heq k hk
    rw [h k hk]
    exact heq k hk

theorem load32_congr {mem mem' : Nat → Byte} {i i' : Nat}
    (h : ∀ k < 4, mem' (i' + k) = mem (i + k)) : load32 mem' i' = load32 mem i := by
  have h0 : mem' i' = mem i := h 0 (by omega)
  rw [load32, load32, h 3 (by omega), h 2 (by omega), h 1 (by omega), h0]

/-- The 64-bit value at `mem + i`. -/
def load64 (mem : Nat → Byte) (i : Nat) : BitVec 64 :=
  load32 mem (i + 4) ++ load32 mem i

theorem load64_congr {mem mem' : Nat → Byte} {i i' : Nat}
    (h : ∀ k < 8, mem' (i' + k) = mem (i + k)) : load64 mem' i' = load64 mem i := by
  have hlow : load32 mem' i' = load32 mem i := load32_congr fun k hk => h k (by omega)
  have hhigh : load32 mem' (i' + 4) = load32 mem (i + 4) := by
    apply load32_congr
    intro k hk
    rw [Nat.add_assoc, Nat.add_assoc]
    exact h (4 + k) (by omega)
  rw [load64, load64, hlow, hhigh]

/-- The four bytes of a 32-bit value, lowest first. -/
def bytes32 (v : BitVec 32) : List Byte :=
  [v.extractLsb' 0 8, v.extractLsb' 8 8, v.extractLsb' 16 8, v.extractLsb' 24 8]

/-- Loading four stored bytes gives the value back. -/
theorem load32_of_bytes32 {mem : Nat → Byte} {i : Nat} {v : BitVec 32}
    (h : ∀ k, (hk : k < 4) → mem (i + k) = (bytes32 v)[k]) : load32 mem i = v := by
  have h0 := h 0 (by omega)
  have h1 := h 1 (by omega)
  have h2 := h 2 (by omega)
  have h3 := h 3 (by omega)
  simp only [bytes32, Nat.add_zero, List.getElem_cons_zero, List.getElem_cons_succ] at h0 h1 h2 h3
  rw [load32, h0, h1, h2, h3]
  apply BitVec.eq_of_getLsbD_eq
  intro j hj
  simp only [BitVec.getLsbD_append, BitVec.getLsbD_extractLsb']
  by_cases ha : j < 8
  · simp [ha]
  · by_cases hb : j < 16
    · have : j - 8 < 8 := by omega
      simp [ha, this, show 8 + (j - 8) = j by omega]
    · by_cases hc : j < 24
      · have h1 : ¬ j - 8 < 8 := by omega
        have h2 : j - 8 - 8 < 8 := by omega
        simp [ha, h1, h2, show 16 + (j - 8 - 8) = j by omega]
      · have h1 : ¬ j - 8 < 8 := by omega
        have h2 : ¬ j - 8 - 8 < 8 := by omega
        have h3 : j - 8 - 8 - 8 < 8 := by omega
        simp [ha, h1, h2, h3, show 24 + (j - 8 - 8 - 8) = j by omega]

/-- The eight bytes of a 64-bit value. -/
def bytes64 (v : BitVec 64) : List Byte :=
  bytes32 (v.extractLsb' 0 32) ++ bytes32 (v.extractLsb' 32 32)

theorem load64_of_bytes64 {mem : Nat → Byte} {i : Nat} {v : BitVec 64}
    (h : ∀ k < 8, some (mem (i + k)) = (bytes64 v)[k]?) : load64 mem i = v := by
  have hlow : load32 mem i = v.extractLsb' 0 32 := by
    apply load32_of_bytes32
    intro k hk
    have hbyte := h k (by omega)
    rw [bytes64, List.getElem?_append_left hk, List.getElem?_eq_getElem hk] at hbyte
    exact Option.some.inj hbyte
  have hhigh : load32 mem (i + 4) = v.extractLsb' 32 32 := by
    apply load32_of_bytes32
    intro k hk
    have hbyte := h (4 + k) (by omega)
    have hfour : (bytes32 (v.extractLsb' 0 32)).length = 4 := rfl
    rw [bytes64, List.getElem?_append_right (by omega), hfour, Nat.add_sub_cancel_left,
      List.getElem?_eq_getElem hk, ← Nat.add_assoc] at hbyte
    exact Option.some.inj hbyte
  rw [load64, hlow, hhigh]
  apply BitVec.eq_of_getLsbD_eq
  intro j hj
  rw [BitVec.getLsbD_append, BitVec.getLsbD_extractLsb', BitVec.getLsbD_extractLsb']
  by_cases h32 : j < 32
  · simp [h32]
  · have hlt : j - 32 < 32 := by omega
    simp [h32, hlt, Nat.add_sub_cancel' (Nat.not_lt.mp h32)]

/-- A value that fits into 32 bits. -/
theorem signExtend_setWidth_of_fits {x : U64} (h : -2 ^ 31 ≤ x.toInt ∧ x.toInt < 2 ^ 31) :
    (x.setWidth 32).signExtend 64 = x := by
  have hbmod : Int.bmod x.toNat (2 ^ 32) = Int.bmod x.toInt (2 ^ 32) := by
    rw [BitVec.toInt_eq_toNat_bmod, Int.bmod_bmod_of_dvd (by decide)]
  apply BitVec.eq_of_toInt_eq
  rw [BitVec.toInt_signExtend_of_le (by decide), BitVec.toInt_setWidth, hbmod]
  exact Int.bmod_eq_of_le (by omega) (by omega)

/-- The longest prefix of `0, 1, …, n - 1` with a property. -/
theorem takeWhile_range (p : Nat → Bool) (n : Nat) :
    ∃ r ≤ n, (List.range n).takeWhile p = List.range r ∧ (∀ k < r, p k = true) ∧
      (r < n → p r = false) := by
  induction n with
  | zero => exact ⟨0, Nat.le_refl 0, rfl, by simp, by simp⟩
  | succ n ih =>
      obtain ⟨r, hr, htake, hall, hstop⟩ := ih
      rw [List.range_succ, List.takeWhile_append, htake]
      simp only [List.length_range]
      by_cases hrn : r = n
      · subst hrn
        rw [if_pos rfl]
        cases hp : p r with
        | true =>
            refine ⟨r + 1, Nat.le_refl _, by simp [hp, List.range_succ], fun k hk => ?_, by simp⟩
            rcases Nat.lt_succ_iff_lt_or_eq.mp hk with hk | rfl
            · exact hall k hk
            · exact hp
        | false => exact ⟨r, Nat.le_succ r, by simp [hp], hall, fun _ => hp⟩
      · rw [if_neg hrn]
        exact ⟨r, by omega, rfl, hall, fun _ => hstop (by omega)⟩

end Lib
