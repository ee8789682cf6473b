import KernInt.Lib.Bytes
import KernInt.Lib.Loop

set_option autoImplicit false

/-! # Flags, strings and instructions

The macros and functions of `helpers.h` and `helpers.cpp`. The disassembler is a parameter: a
function from the bytes in front of it and their address to the first instruction. A pointer
into the host's memory is an offset from the pointer that the caller passes, and `mem` is the
memory seen from there.
-/

namespace KernInt

open Lib

/-- `CHECKFLAGS` -/
def checkFlags {w : Nat} (byte flags : BitVec w) : Bool :=
  byte &&& flags == flags

/-- A flag is one bit. -/
theorem checkFlags_twoPow {w i : Nat} (hi : i < w) (byte : BitVec w) :
    checkFlags byte (BitVec.twoPow w i) = byte.getLsbD i := by
  have hself : (BitVec.twoPow w i).getLsbD i = true := by simp [hi]
  rw [checkFlags, BitVec.and_twoPow]
  cases hbit : byte.getLsbD i with
  | true => simp
  | false =>
      rw [if_neg Bool.false_ne_true, beq_eq_false_iff_ne]
      intro heq
      rw [← heq] at hself
      simp at hself

/-- `SETFLAGS` with another flag. -/
theorem getLsbD_or_of_eq {w i : Nat} {flags flag : BitVec w} (h : flag.getLsbD i = false) :
    (flags ||| flag).getLsbD i = flags.getLsbD i := by
  rw [BitVec.getLsbD_or, h, Bool.or_false]

/-- A bit that both branches have. -/
theorem getLsbD_ite {w i : Nat} {c : Prop} [Decidable c] {x y : BitVec w} {b : Bool}
    (hx : x.getLsbD i = b) (hy : y.getLsbD i = b) : (if c then x else y).getLsbD i = b := by
  split
  · exact hx
  · exact hy

/-- `IN_RANGE` -/
def inRange (value left right : U64) : Bool :=
  left ≤ value && value ≤ right

/-- `CONTAINS` -/
def contains (min size what : U64) : Bool :=
  min ≤ what && what < min + size

/-! ## strtol -/

def isSpace (ch : Char) : Bool :=
  ch = ' ' || (0x9 ≤ ch.toNat && ch.toNat ≤ 0xd)

def hexDigit (ch : Char) : Option Nat :=
  if '0' ≤ ch ∧ ch ≤ '9' then some (ch.toNat - 48)
  else if 'a' ≤ ch ∧ ch ≤ 'f' then some (ch.toNat - 87)
  else if 'A' ≤ ch ∧ ch ≤ 'F' then some (ch.toNat - 55)
  else none

/-- The value of the hexadecimal digits at the beginning of `s`, after `n`. -/
def hexValue (n : Nat) : List Char → Nat
  | [] => n
  | ch :: s =>
      match hexDigit ch with
      | some d => hexValue (16 * n + d) s
      | none => n

/-- The digits behind an optional `0x`. -/
def hexPrefixed : List Char → Nat
  | '0' :: 'x' :: s => hexValue 0 s
  | '0' :: 'X' :: s => hexValue 0 s
  | s => hexValue 0 s

/-- `(uint64_t)strtol(s, NULL, 16)`; a value out of range becomes the nearest `long`. -/
def strtol16 (s : List Char) : U64 :=
  match s.dropWhile isSpace with
  | '-' :: s => -BitVec.ofNat 64 (min (hexPrefixed s) (2 ^ 63))
  | '+' :: s => BitVec.ofNat 64 (min (hexPrefixed s) (2 ^ 63 - 1))
  | s => BitVec.ofNat 64 (min (hexPrefixed s) (2 ^ 63 - 1))

/-! ## displayChange -/

/-- The indices at which `displayChange` reads, in both buffers: that of the change, and those of
the block around it. -/
def displayChangeReads (offset size : U32) : List Int :=
  offset.toInt :: ((List.range 30).map fun n : Nat => offset.toInt - 15 + n).filter fun k =>
    0 ≤ k ∧ k < size.toInt

/-- The block ends at an `int32_t`, and nothing is read outside of a buffer of `n` bytes. -/
structure DisplayInside (offset size : U32) (n : Nat) : Prop where
  no_overflow : offset.toInt + 15 < 2 ^ 31
  inside : ∀ k ∈ displayChangeReads offset size, 0 ≤ k ∧ k < n

theorem displayInside_iff {offset size : U32} {n : Nat} :
    DisplayInside offset size n ↔ 0 ≤ offset.toInt ∧ offset.toInt + 15 < 2 ^ 31 ∧
      offset.toInt < n ∧ min (offset.toInt + 15) size.toInt ≤ n := by
  constructor
  · rintro ⟨hoverflow, hinside⟩
    have hoffset := hinside offset.toInt List.mem_cons_self
    refine ⟨hoffset.1, hoverflow, hoffset.2, ?_⟩
    by_cases hblock : offset.toInt < size.toInt
    · -- the last index of the block
      have hlast := hinside (min (offset.toInt + 15) size.toInt - 1) <| by
        have hround : (min 15 (size.toInt - offset.toInt) + 14).toNat < 30 := by omega
        refine List.mem_cons_of_mem _ (List.mem_filter.mpr
          ⟨List.mem_map.mpr ⟨_, List.mem_range.mpr hround, ?_⟩, ?_⟩)
        · omega
        · simp
          omega
      omega
    · omega
  · rintro ⟨hpos, hoverflow, hlt, hle⟩
    refine ⟨hoverflow, fun k hk => ?_⟩
    rcases List.mem_cons.mp hk with rfl | hk
    · exact ⟨hpos, hlt⟩
    · obtain ⟨hrange, hfilter⟩ := List.mem_filter.mp hk
      obtain ⟨n, hn, rfl⟩ := List.mem_map.mp hrange
      have hn := List.mem_range.mp hn
      simp at hfilter
      omega

/-! ## The disassembler -/

structure Insn where
  size : Nat
  mnemonic : String
  opStr : String
  deriving DecidableEq

/-- `cs_disasm_iter`: decodes one instruction at the beginning of the bytes, which is not
empty and does not reach behind them. -/
structure Disassembler where
  disasm : List Byte → U64 → Option Insn
  size_pos : ∀ bs a insn, disasm bs a = some insn → 0 < insn.size
  size_le : ∀ bs a insn, disasm bs a = some insn → insn.size ≤ bs.length

/-- The `n` bytes from offset `k` on. -/
def window (mem : U64 → Byte) (k : U64) (n : Nat) : List Byte :=
  (List.range n).map fun j => mem (k + BitVec.ofNat 64 j)

@[simp] theorem length_window (mem : U64 → Byte) (k : U64) (n : Nat) :
    (window mem k n).length = n := by
  simp [window]

namespace Disassembler

variable (d : Disassembler) (mem : U64 → Byte)

def isValidInstruction (offset : U32) (index : U64) : Bool :=
  (d.disasm (window mem (offset.setWidth 64) 10) (index + offset.setWidth 64)).isSome

/-- What one round of the loop in `isReturnAddress` finds: the target of a call of length `i`
that ends at `offset`, or `1` for an indirect call. -/
def callBefore (offset : U32) (index : U64) (i : Nat) : Option U64 :=
  let back := BitVec.ofNat 64 i
  match d.disasm (window mem (offset.setWidth 64 - back) 20)
      (index + offset.setWidth 64 - back) with
  | none => none
  | some insn =>
      if insn.size = i ∧ (insn.mnemonic = "call" ∨ insn.mnemonic = "lcall") then
        match insn.opStr.toList with
        | '0' :: 'x' :: s => some (strtol16 s)
        | _ => some 1
      else none

def isReturnAddress (offset : U32) (index : U64) : U64 :=
  if d.isValidInstruction mem offset index then
    ([2, 3, 4, 5, 6, 7].findSome? (d.callBefore mem offset index)).getD 0
  else 0

/-- One round of the loop in `isIntendedInstruction`; `k` bytes have been decoded. -/
def intendedRound (offset : U32) (index : U64) (k : Nat) : Round Nat Bool :=
  let size := (offset + 10).toNat
  match d.disasm (window mem (BitVec.ofNat 64 k) (size - k)) (index + BitVec.ofNat 64 k) with
  | none => .leave (k == offset.toNat)
  | some insn =>
      if k + insn.size < offset.toNat then .again (k + insn.size)
      else .leave (k + insn.size == offset.toNat)

theorem intendedRound_decreases (offset : U32) (index : U64) :
    Decreases (d.intendedRound mem offset index) fun k => offset.toNat - k := by
  intro k k' h
  unfold intendedRound at h
  dsimp only at h
  split at h
  · cases h
  · rename_i insn hinsn
    have hpos := d.size_pos _ _ insn hinsn
    split at h
    · cases h
      show offset.toNat - (k + insn.size) < offset.toNat - k
      omega
    · cases h

def isIntendedInstruction (offset : U32) (index : U64) : Bool :=
  loop (d.intendedRound mem offset index) _ (d.intendedRound_decreases mem offset index) 0

/-- The variables of `printInstructions`: how far `code` has come, what is left of `size`, the
number of instructions and their text. -/
structure Printed where
  code : U64
  size : Nat
  nr_inst : Nat
  text : String

def printRound (index : U64) (s : Printed) : Round Printed (Nat × Bool × String) :=
  match d.disasm (window mem s.code s.size) (index + s.code) with
  | none => .leave (s.nr_inst, s.size == 0, s.text)
  | some insn =>
      let s' : Printed :=
        { code := s.code + BitVec.ofNat 64 insn.size
          size := s.size - insn.size
          nr_inst := s.nr_inst + 1
          text := s.text ++ insn.mnemonic ++ "\t" ++ insn.opStr ++ "\n" }
      if insn.mnemonic = "ret" then .leave (s'.nr_inst, s'.size == 0, s'.text) else .again s'

theorem printRound_decreases (index : U64) : Decreases (d.printRound mem index) Printed.size := by
  intro s s' h
  unfold printRound at h
  split at h
  · cases h
  · rename_i insn hinsn
    have hpos := d.size_pos _ _ insn hinsn
    have hle := d.size_le _ _ insn hinsn
    rw [length_window] at hle
    split at h
    · cases h
    · cases h
      show s.size - insn.size < s.size
      omega

/-- The number of instructions up to the first `ret`, whether the bytes have been used up, and
the instructions. -/
def printInstructions (offset : U32) (index : U64) : Nat × Bool × String :=
  loop (d.printRound mem index) _ (d.printRound_decreases mem index)
    { code := 0, size := offset.toNat, nr_inst := 0, text := "" }

end Disassembler

end KernInt
