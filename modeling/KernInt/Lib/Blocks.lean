import KernInt.Lib.NulStrings
import Mathlib.Algebra.GroupWithZero.Nat

set_option autoImplicit false

/-! # Blocks one behind the other

A record is the sequence of its fields, a table that of its records, a block of strings that of its
strings with their NULs, and a file that of its parts: each of them is a list of blocks that are
flattened. `blockStart` is the place of a block, and a reader that reads the whole reads the block
there (`Reads.block`).
-/

namespace Lib

/-- The two bytes of a 16-bit value, lowest first. -/
def bytes16 (v : BitVec 16) : List Byte := [v.extractLsb' 0 8, v.extractLsb' 8 8]

@[simp] theorem length_bytes16 (v : BitVec 16) : (bytes16 v).length = 2 := rfl

@[simp] theorem length_bytes32 (v : U32) : (bytes32 v).length = 4 := rfl

@[simp] theorem length_bytes64 (v : U64) : (bytes64 v).length = 8 := rfl

/-- The bytes of four bytes put together. -/
theorem bytes32_append (a b c d : Byte) : bytes32 (a ++ b ++ c ++ d) = [d, c, b, a] := by
  have h0 : (a ++ b ++ c ++ d).extractLsb' 0 8 = d := BitVec.extractLsb'_append_eq_right
  have h1 : (a ++ b ++ c ++ d).extractLsb' 8 8 = c :=
    (BitVec.extractLsb'_append_eq_of_le (Nat.le_refl 8)).trans BitVec.extractLsb'_append_eq_right
  have h2 : (a ++ b ++ c ++ d).extractLsb' 16 8 = b :=
    (BitVec.extractLsb'_append_eq_of_le (by decide)).trans
      ((BitVec.extractLsb'_append_eq_of_le (Nat.le_refl 8)).trans BitVec.extractLsb'_append_eq_right)
  have h3 : (a ++ b ++ c ++ d).extractLsb' 24 8 = a :=
    (BitVec.extractLsb'_append_eq_of_le (by decide)).trans
      ((BitVec.extractLsb'_append_eq_of_le (by decide)).trans BitVec.extractLsb'_append_eq_left)
  show [_, _, _, _] = _
  rw [h0, h1, h2, h3]

theorem bytes64_append (a b : U32) : bytes64 (a ++ b) = bytes32 b ++ bytes32 a := by
  have h0 : (a ++ b).extractLsb' 0 32 = b := BitVec.extractLsb'_append_eq_right
  have h1 : (a ++ b).extractLsb' 32 32 = a := BitVec.extractLsb'_append_eq_left
  show bytes32 _ ++ bytes32 _ = _
  rw [h0, h1]

theorem bytes16_append (a b : Byte) : bytes16 (a ++ b) = [b, a] := by
  have h0 : (a ++ b).extractLsb' 0 8 = b := BitVec.extractLsb'_append_eq_right
  have h1 : (a ++ b).extractLsb' 8 8 = a := BitVec.extractLsb'_append_eq_left
  show [_, _] = _
  rw [h0, h1]

theorem bytes64_injective : Function.Injective bytes64 := by
  intro v w h
  let mem : Nat → Byte := fun k => (bytes64 v).getD k 0
  have hmem : ∀ k < 8, some (mem (0 + k)) = (bytes64 v)[k]? := by
    intro k hk
    have hbyte : k < (bytes64 v).length := hk
    show some ((bytes64 v).getD (0 + k) 0) = _
    rw [Nat.zero_add, List.getD_eq_getElem?_getD, List.getElem?_eq_getElem hbyte, Option.getD_some]
  rw [← load64_of_bytes64 hmem]
  apply load64_of_bytes64
  intro k hk
  rw [hmem k hk, h]

theorem bytes16_injective : Function.Injective bytes16 := by
  intro v w h
  have hsplit : ∀ x : BitVec 16, x.extractLsb' 8 8 ++ x.extractLsb' 0 8 = x := by
    intro x
    calc x.extractLsb' 8 8 ++ x.extractLsb' 0 8
        = x.extractLsb' 0 16 := BitVec.extractLsb'_append_extractLsb'_eq_extractLsb' rfl
      _ = x := BitVec.extractLsb'_eq_self
  obtain ⟨hlow, htail⟩ := List.cons.inj h
  obtain ⟨hhigh, -⟩ := List.cons.inj htail
  rw [← hsplit v, ← hsplit w, hlow, hhigh]

theorem bytes32_injective : Function.Injective bytes32 := by
  intro v w h
  let mem : Nat → Byte := fun k => (bytes32 v).getD k 0
  have hmem : ∀ k, (hk : k < 4) → mem (0 + k) = (bytes32 v)[k] := by
    intro k hk
    have hbyte : k < (bytes32 v).length := hk
    show (bytes32 v).getD (0 + k) 0 = _
    rw [Nat.zero_add, List.getD_eq_getElem?_getD, List.getElem?_eq_getElem hbyte]
    exact Option.getD_some
  rw [← load32_of_bytes32 hmem]
  apply load32_of_bytes32
  intro k hk
  rw [hmem k hk]
  exact List.getElem_of_eq h hk

/-- The number of bytes in front of block `i`. -/
def blockStart (blocks : List (List Byte)) (i : Nat) : Nat := ((blocks.take i).map List.length).sum

theorem blockStart_zero (blocks : List (List Byte)) : blockStart blocks 0 = 0 := by
  simp [blockStart]

theorem blockStart_cons_succ (b : List Byte) (blocks : List (List Byte)) (i : Nat) :
    blockStart (b :: blocks) (i + 1) = b.length + blockStart blocks i := by
  simp [blockStart]

theorem length_flatten_eq (blocks : List (List Byte)) :
    blocks.flatten.length = blockStart blocks blocks.length := by
  simp [blockStart, List.length_flatten]

/-- A block ends where the next one starts. -/
theorem blockStart_succ {blocks : List (List Byte)} {i : Nat} (hi : i < blocks.length) :
    blockStart blocks (i + 1) = blockStart blocks i + blocks[i].length := by
  rw [blockStart, blockStart, List.take_succ_eq_append_getElem hi, List.map_append, List.sum_append]
  simp

theorem blockStart_mono (blocks : List (List Byte)) {i j : Nat} (h : i ≤ j) :
    blockStart blocks i ≤ blockStart blocks j := by
  have hsplit : blocks.take j = blocks.take i ++ (blocks.drop i).take (j - i) := by
    rw [← List.take_add, Nat.add_sub_of_le h]
  rw [blockStart, blockStart, hsplit, List.map_append, List.sum_append]
  exact Nat.le_add_right _ _

theorem blockStart_le_length (blocks : List (List Byte)) (i : Nat) :
    blockStart blocks i ≤ blocks.flatten.length := by
  rw [length_flatten_eq]
  rcases Nat.le_total i blocks.length with h | h
  · exact blockStart_mono blocks h
  · have hall : blocks.take i = blocks.take blocks.length := by
      rw [List.take_of_length_le h, List.take_length]
    exact Nat.le_of_eq (congrArg (fun l => (l.map List.length).sum) hall)

/-- A block is inside of the whole. -/
theorem blockStart_add_length_le {blocks : List (List Byte)} {i : Nat} (hi : i < blocks.length) :
    blockStart blocks i + blocks[i].length ≤ blocks.flatten.length := by
  rw [← blockStart_succ hi]
  exact blockStart_le_length blocks (i + 1)

/-- Blocks of one length. -/
theorem blockStart_of_length {blocks : List (List Byte)} {n i : Nat}
    (h : ∀ b ∈ blocks, b.length = n) (hi : i ≤ blocks.length) :
    blockStart blocks i = n * i := by
  induction i with
  | zero => exact blockStart_zero blocks
  | succ i ih =>
      rw [blockStart_succ hi, ih (Nat.le_of_lt hi), h _ (List.getElem_mem hi), Nat.mul_succ]

/-- Records of one length, one behind the other. -/
theorem getElem?_records {α : Type} {enc : α → List Byte} {n : Nat} (henc : ∀ x, (enc x).length = n)
    (records : List α) {i j : Nat} (hi : i < records.length) (hj : j < n) :
    (records.flatMap enc)[n * i + j]? = (enc records[i])[j]? := by
  induction records generalizing i with
  | nil => simp at hi
  | cons x records ih =>
      rw [List.flatMap_cons]
      cases i with
      | zero =>
          rw [Nat.mul_zero, Nat.zero_add, List.getElem?_append_left (by rw [henc]; exact hj)]
          rfl
      | succ i =>
          have hindex : n * (i + 1) + j = n + (n * i + j) := by
            rw [Nat.mul_succ]
            omega
          rw [hindex, List.getElem?_append_right (by rw [henc]; omega), henc,
            Nat.add_sub_cancel_left, ih (by simpa using hi)]
          rfl
/-- The place of string `i` of a block of strings. -/
def nulStart (strings : List StdString) (i : Nat) : Nat := blockStart (strings.map (· ++ [0])) i

theorem nulStart_lt {strings : List StdString} {i : Nat} (hi : i < strings.length) :
    nulStart strings i < (nulBlock strings).length := by
  have hi' : i < (strings.map (· ++ [0])).length := by simpa using hi
  have hpos : 0 < (strings.map (· ++ [0]))[i].length := by simp
  exact Nat.lt_of_lt_of_le (Nat.lt_add_of_pos_right hpos) (blockStart_add_length_le hi')

section

variable {read : Reader} {a : U64}

/-- **Each block is read at its place.** -/
theorem Reads.block {blocks : List (List Byte)} (h : Reads read a blocks.flatten) {i : Nat}
    (hi : i < blocks.length) :
    Reads read (a + BitVec.ofNat 64 (blockStart blocks i)) blocks[i] := by
  induction blocks generalizing a i with
  | nil => simp at hi
  | cons b blocks ih =>
      rw [List.flatten_cons, reads_append] at h
      cases i with
      | zero => simpa [blockStart_zero] using h.1
      | succ i =>
          have hrest := ih h.2 (i := i) (by simpa using hi)
          rw [blockStart_cons_succ, BitVec.ofNat_add, ← BitVec.add_assoc]
          simpa using hrest

/-- The same for a field of a record, whose place in it is known. -/
theorem Reads.field {fields : List (List Byte)} {k n : Nat} {bs : List Byte}
    (h : Reads read a fields.flatten) (hbs : fields[k]? = some bs)
    (hn : blockStart fields k = n) : Reads read (a + BitVec.ofNat 64 n) bs := by
  obtain ⟨hk, rfl⟩ := List.getElem?_eq_some_iff.mp hbs
  rw [← hn]
  exact h.block hk

/-- What is read of a list is read of its first part. -/
theorem Reads.left {xs ys : List Byte} (h : Reads read a (xs ++ ys)) : Reads read a xs :=
  (reads_append.mp h).1

theorem Reads.right {xs ys : List Byte} (h : Reads read a (xs ++ ys)) :
    Reads read (a + BitVec.ofNat 64 xs.length) ys :=
  (reads_append.mp h).2

/-- A record of a table, whose records have one length. -/
theorem Reads.record {α : Type} {enc : α → List Byte} {n : Nat} {records : List α}
    (henc : ∀ x, (enc x).length = n) (h : Reads read a (records.map enc).flatten) {i : Nat}
    (hi : i < records.length) :
    Reads read (a + BitVec.ofNat 64 (n * i)) (enc records[i]) := by
  have hblock := Reads.block h (i := i) (by simpa using hi)
  have hlen : ∀ b ∈ records.map enc, b.length = n := by
    intro b hb
    obtain ⟨x, -, rfl⟩ := List.mem_map.mp hb
    exact henc x
  rw [blockStart_of_length hlen (by simpa using Nat.le_of_lt hi)] at hblock
  simpa using hblock

/-- A string of a block of strings, with its NUL. -/
theorem Reads.nulString {strings : List StdString} (h : Reads read a (nulBlock strings)) {i : Nat}
    (hi : i < strings.length) :
    Reads read (a + BitVec.ofNat 64 (nulStart strings i)) (strings[i] ++ [0]) := by
  have hblocks : Reads read a (strings.map (· ++ [0])).flatten := h
  have hblock := Reads.block hblocks (i := i) (by simpa using hi)
  simpa [nulStart] using hblock

end

/-- The bytes of a list from its beginning on. -/
theorem reads_content {content : List Byte} (hfits : content.length < 2 ^ 64) :
    Reads (fun a => content[a.toNat]?) 0 content := by
  intro k hk
  have hlt : k < 2 ^ 64 := by omega
  have haddr : (0 + BitVec.ofNat 64 k).toNat = k := by
    simp
    exact hlt
  show content[(0 + BitVec.ofNat 64 k).toNat]? = some content[k]
  rw [haddr]
  exact List.getElem?_eq_getElem hk

end Lib
