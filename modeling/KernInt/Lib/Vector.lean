import KernInt.Lib.Bytes

set_option autoImplicit false

/-! # Vectors of bytes

A `std::vector` of bytes, with its insertions of copies of a byte and of a range. It cannot grow
beyond `maxSize`, and a position behind the end is not allowed. A range of it can be overwritten,
which leaves the bytes around the range as they were.
-/

namespace Lib

inductive VectorError where
  | lengthError
  | outOfRange
  deriving DecidableEq

/-- The largest number of bytes that a vector can hold. -/
def maxSize : Nat := 2 ^ 63 - 1

/-- The bytes `bs` in front of position `pos`. -/
def insertAt (v : List Byte) (pos : Nat) (bs : List Byte) : List Byte :=
  v.take pos ++ bs ++ v.drop pos

/-- The bytes `bs` in place of those from position `pos` on. -/
def overwriteAt (v : List Byte) (pos : Nat) (bs : List Byte) : List Byte :=
  v.take pos ++ bs ++ v.drop (pos + bs.length)

/-- Insertion of `n` copies of `b`. -/
def insertFill (v : List Byte) (pos n : Nat) (b : Byte) : Except VectorError (List Byte) :=
  if v.length < pos then .error .outOfRange
  else if maxSize - v.length < n then .error .lengthError
  else .ok (insertAt v pos (List.replicate n b))

/-- Insertion of a range. -/
def insertRange (v : List Byte) (pos : Nat) (bs : List Byte) : Except VectorError (List Byte) :=
  if v.length < pos then .error .outOfRange
  else if maxSize - v.length < bs.length then .error .lengthError
  else .ok (insertAt v pos bs)

section

variable {v v' bs : List Byte} {pos n : Nat} {b : Byte}

theorem length_insertAt (v : List Byte) (pos : Nat) (bs : List Byte) :
    (insertAt v pos bs).length = v.length + bs.length := by
  simp only [insertAt, List.length_append, List.length_take, List.length_drop]
  omega

@[simp] theorem insertAt_end : insertAt v v.length bs = v ++ bs := by
  simp [insertAt]

@[simp] theorem insertAt_zero : insertAt v 0 bs = bs ++ v := by
  simp [insertAt]

@[simp] theorem insertAt_nil : insertAt v pos [] = v := by
  simp [insertAt]

theorem insertRange_eq_ok_iff : insertRange v pos bs = .ok v' ↔
    pos ≤ v.length ∧ bs.length ≤ maxSize - v.length ∧ v' = insertAt v pos bs := by
  unfold insertRange
  by_cases hpos : v.length < pos
  · rw [if_pos hpos]
    exact ⟨fun h => (nomatch h), fun h => absurd h.1 (Nat.not_le.mpr hpos)⟩
  by_cases hlen : maxSize - v.length < bs.length
  · rw [if_neg hpos, if_pos hlen]
    exact ⟨fun h => (nomatch h), fun h => absurd h.2.1 (Nat.not_le.mpr hlen)⟩
  · rw [if_neg hpos, if_neg hlen, Except.ok.injEq, eq_comm]
    exact ⟨fun h => ⟨Nat.not_lt.mp hpos, Nat.not_lt.mp hlen, h⟩, fun h => h.2.2⟩

theorem insertFill_eq : insertFill v pos n b = insertRange v pos (List.replicate n b) := by
  unfold insertFill insertRange
  rw [List.length_replicate]

theorem insertFill_eq_ok_iff : insertFill v pos n b = .ok v' ↔
    pos ≤ v.length ∧ n ≤ maxSize - v.length ∧ v' = insertAt v pos (List.replicate n b) := by
  rw [insertFill_eq, insertRange_eq_ok_iff, List.length_replicate]

/-! ## Overwriting -/

section

variable (hfits : pos + bs.length ≤ v.length)

include hfits

theorem length_overwriteAt : (overwriteAt v pos bs).length = v.length := by
  simp only [overwriteAt, List.length_append, List.length_take, List.length_drop]
  omega

/-- A byte in front of the range or behind it. -/
theorem getElem?_overwriteAt {k : Nat} (hk : k < pos ∨ pos + bs.length ≤ k) :
    (overwriteAt v pos bs)[k]? = v[k]? := by
  have hpos : (v.take pos).length = pos := by
    rw [List.length_take]
    omega
  unfold overwriteAt
  rcases hk with hk | hk
  · rw [List.append_assoc, List.getElem?_append_left (by omega), List.getElem?_take_of_lt hk]
  · have hfront : (v.take pos ++ bs).length = pos + bs.length := by
      rw [List.length_append, hpos]
    rw [List.getElem?_append_right (by omega), hfront, List.getElem?_drop]
    congr 1
    omega

/-- The range itself. -/
theorem take_drop_overwriteAt : ((overwriteAt v pos bs).drop pos).take bs.length = bs := by
  have hpos : (v.take pos).length = pos := by
    rw [List.length_take]
    omega
  unfold overwriteAt
  rw [List.append_assoc, List.drop_left' hpos]
  exact List.take_left' rfl

/-- Another range. -/
theorem take_drop_overwriteAt_of_disjoint {a n : Nat} (h : a + n ≤ pos ∨ pos + bs.length ≤ a) :
    ((overwriteAt v pos bs).drop a).take n = (v.drop a).take n := by
  apply List.ext_getElem?
  intro k
  rcases Nat.lt_or_ge k n with hk | hk
  · rw [List.getElem?_take_of_lt hk, List.getElem?_take_of_lt hk, List.getElem?_drop,
      List.getElem?_drop]
    exact getElem?_overwriteAt hfits (by omega)
  · rw [List.getElem?_eq_none, List.getElem?_eq_none]
    · rw [List.length_take]
      omega
    · rw [List.length_take]
      omega

end

end

end Lib
