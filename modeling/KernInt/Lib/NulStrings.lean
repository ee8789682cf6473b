import KernInt.Lib.Loop
import KernInt.Lib.Memory
import Mathlib.Data.List.Flatten

set_option autoImplicit false

/-! # Blocks of strings

Strings are laid out one behind the other, each with a terminating NUL (`nulBlock`). A block may
hold empty strings, which are NULs of their own. A loop that reads the string at its cursor and
goes on behind the NUL visits the strings of the block in their order (`stringRound_returns`).
-/

namespace Lib

universe u

/-- The byte at an address, or nothing where no byte may be read. -/
abbrev Reader := U64 → Option Byte

/-- The bytes are read from the address on, which may wrap around. -/
def Reads (read : Reader) (a : U64) (bs : List Byte) : Prop :=
  ∀ k, (h : k < bs.length) → read (a + BitVec.ofNat 64 k) = some bs[k]

/-- The bytes are in memory from the address on. -/
def HoldsAt (mem : Memory) (a : U64) (bs : List Byte) : Prop :=
  Reads (fun a => some (mem a)) a bs

/-- The strings of a block, each with its NUL. -/
def nulBlock (strings : List StdString) : List Byte :=
  (strings.map fun s => s ++ [0]).flatten

/-- No byte of the string is NUL. -/
def NulFree (s : StdString) : Prop := 0 ∉ s

instance (s : StdString) : Decidable (NulFree s) := inferInstanceAs (Decidable (¬ _))

section

variable {read : Reader} {mem : Memory} {a : U64}

theorem reads_append {xs ys : List Byte} :
    Reads read a (xs ++ ys) ↔
      Reads read a xs ∧ Reads read (a + BitVec.ofNat 64 xs.length) ys := by
  constructor
  · intro h
    refine ⟨fun k hk => ?_, fun k hk => ?_⟩
    · rw [h k (by simp; omega), List.getElem_append_left hk]
    · rw [BitVec.add_assoc, ← BitVec.ofNat_add, h (xs.length + k) (by simp; omega)]
      simp
  · rintro ⟨hxs, hys⟩ k hk
    by_cases hlt : k < xs.length
    · rw [hxs k hlt, List.getElem_append_left hlt]
    · have hys' := hys (k - xs.length) (by rw [List.length_append] at hk; omega)
      rw [BitVec.add_assoc, ← BitVec.ofNat_add, Nat.add_sub_of_le (by omega)] at hys'
      rw [hys', List.getElem_append_right (by omega)]

theorem reads_cons {b : Byte} {bs : List Byte} :
    Reads read a (b :: bs) ↔ read a = some b ∧ Reads read (a + 1) bs := by
  rw [← List.singleton_append, reads_append]
  constructor
  · rintro ⟨hb, hbs⟩
    exact ⟨by simpa using hb 0 (by simp), hbs⟩
  · rintro ⟨hb, hbs⟩
    refine ⟨fun k hk => ?_, hbs⟩
    obtain rfl : k = 0 := by simpa using hk
    simpa using hb

theorem HoldsAt.get {bs : List Byte} (h : HoldsAt mem a bs) {k : Nat} (hk : k < bs.length) :
    mem (a + BitVec.ofNat 64 k) = bs[k] :=
  Option.some.inj (h k hk)

@[simp] theorem nulBlock_nil : nulBlock [] = [] := rfl

theorem nulBlock_cons (s : StdString) (strings : List StdString) :
    nulBlock (s :: strings) = (s ++ [0]) ++ nulBlock strings := rfl

theorem length_nulBlock_cons (s : StdString) (strings : List StdString) :
    (nulBlock (s :: strings)).length = s.length + 1 + (nulBlock strings).length := by
  simp [nulBlock_cons]
  omega

/-- An address in front of the top of the address space. -/
theorem toNat_add_ofNat {k : Nat} (h : a.toNat + k < 2 ^ 64) :
    (a + BitVec.ofNat 64 k).toNat = a.toNat + k := by
  have hk : k % 2 ^ 64 = k := Nat.mod_eq_of_lt (by omega)
  rw [BitVec.toNat_add, BitVec.toNat_ofNat, hk]
  exact Nat.mod_eq_of_lt h

end

/-! ## Reading the strings -/

/-- What is read at an address are the bytes up to the next NUL. -/
def ReadsToNul (mem : Memory) (read : U64 → StdString) : Prop :=
  ∀ a s, NulFree s → HoldsAt mem a (s ++ [0]) → read a = s

/-- The bytes up to the next NUL. -/
def stringAt (mem : Memory) (a : U64) : StdString :=
  ((List.range (2 ^ 64)).map fun k => mem (a + BitVec.ofNat 64 k)).takeWhile (· != 0)

/-- There is a NUL within the string if it is as long as the address space. -/
theorem length_lt_of_holdsAt {mem : Memory} {a : U64} {s : StdString} (hnul : NulFree s)
    (h : HoldsAt mem a (s ++ [0])) : s.length < 2 ^ 64 := by
  by_contra hlong
  have hlast : mem (a + BitVec.ofNat 64 s.length) = 0 := by
    rw [h.get (k := s.length) (by simp)]
    simp
  -- the address of the NUL is that of an earlier byte
  have hlt : s.length % 2 ^ 64 < s.length := by
    have := Nat.mod_lt s.length (show 0 < 2 ^ 64 by decide)
    omega
  have hwrap : BitVec.ofNat 64 (s.length % 2 ^ 64) = BitVec.ofNat 64 s.length := by
    apply BitVec.eq_of_toNat_eq
    rw [BitVec.toNat_ofNat, BitVec.toNat_ofNat, Nat.mod_mod]
  have hbyte := h.get (k := s.length % 2 ^ 64) (by rw [List.length_append]; omega)
  rw [hwrap, hlast, List.getElem_append_left hlt] at hbyte
  exact hnul (hbyte ▸ List.getElem_mem hlt)

theorem stringAt_readsToNul (mem : Memory) : ReadsToNul mem (stringAt mem) := by
  intro a s hnul hs
  have hlen := length_lt_of_holdsAt hnul hs
  have hbytes : ∀ k, (hk : k < s.length) → mem (a + BitVec.ofNat 64 k) = s[k] := fun k hk => by
    rw [hs.get (by rw [List.length_append]; omega), List.getElem_append_left hk]
  have hlast : mem (a + BitVec.ofNat 64 s.length) = 0 := by
    rw [hs.get (k := s.length) (by simp)]
    simp
  obtain ⟨r, hr, htake, hbefore, hat⟩ :=
    takeWhile_range (fun k => mem (a + BitVec.ofNat 64 k) != 0) (2 ^ 64)
  have hend : r = s.length := by
    rcases Nat.lt_trichotomy r s.length with hlt | heq | hgt
    · have hzero := hat (by omega)
      rw [hbytes r hlt] at hzero
      have heq : s[r] = 0 := by simpa using hzero
      exact absurd (heq ▸ List.getElem_mem hlt) hnul
    · exact heq
    · have hnonzero := hbefore s.length hgt
      rw [hlast] at hnonzero
      cases hnonzero
  subst hend
  rw [stringAt, List.takeWhile_map]
  have htake' : (List.range (2 ^ 64)).takeWhile
      ((· != 0) ∘ fun k => mem (a + BitVec.ofNat 64 k)) = List.range s.length := htake
  rw [htake']
  apply List.ext_getElem
  · simp
  · intro k hk hk'
    rw [List.getElem_map, List.getElem_range]
    exact hbytes k hk'

variable {ρ : Type u} (read : U64 → StdString) (stop : U64) (f : ρ → StdString → ρ)

/-- A loop over the strings in front of `stop`, with the cursor and what has been found so far. -/
def stringRound : U64 × ρ → Round (U64 × ρ) ρ
  | (i, found) =>
      if i < stop then
        let str := read i
        .again (i + BitVec.ofNat 64 (str.length + 1), f found str)
      else .leave found

variable {read stop f}

/-- **The strings of a block are visited in their order**, and the loop ends behind the last. -/
theorem stringRound_returns {mem : Memory} (hread : ReadsToNul mem read)
    {strings : List StdString} (hnul : ∀ s ∈ strings, NulFree s) {i : U64}
    (hblock : HoldsAt mem i (nulBlock strings))
    (hstop : stop.toNat = i.toNat + (nulBlock strings).length) (found : ρ) :
    Returns (stringRound read stop f) (i, found) (strings.foldl f found) := by
  -- the cursor is in front of the strings that are left
  induction strings generalizing i found with
  | nil =>
      apply returns_of_leave
      have hend : ¬ i < stop := by
        rw [BitVec.lt_def]
        simp at hstop
        omega
      simp only [stringRound, if_neg hend, List.foldl_nil]
  | cons s strings ih =>
      rw [nulBlock_cons, HoldsAt, reads_append] at hblock
      rw [length_nulBlock_cons] at hstop
      have hstr : read i = s := hread i s (hnul s List.mem_cons_self) hblock.1
      have hlt : i < stop := by
        rw [BitVec.lt_def]
        omega
      have hround : stringRound read stop f (i, found) =
          .again (i + BitVec.ofNat 64 (s.length + 1), f found s) := by
        simp only [stringRound, if_pos hlt, hstr]
      have hnext : (i + BitVec.ofNat 64 (s.length + 1)).toNat = i.toNat + (s.length + 1) := by
        have hbound := stop.isLt
        exact toNat_add_ofNat (by omega)
      apply Returns.of_again hround
      rw [List.foldl_cons]
      apply ih
      · exact fun s' hs' => hnul s' (List.mem_cons_of_mem s hs')
      · simpa [HoldsAt] using hblock.2
      · rw [hnext]
        omega

end Lib
