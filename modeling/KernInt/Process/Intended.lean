import KernInt.Process.Gadget

set_option autoImplicit false

/-! # Instruction boundaries

`isIntendedInstruction` decodes from the start of the function on and tests whether it comes to
the pointer exactly. The disassembler is given the bytes up to 10 behind the pointer, which may
cut an instruction that is longer. Such an instruction begins in front of the pointer and ends
behind it, or begins at the pointer or behind it, so it decides nothing. If a decoding depends on
the bytes of the instruction alone, the test tells the boundaries of the linear sweep over any
number of bytes (`isIntendedInstruction_iff_boundary`).
-/

namespace KernInt

open Lib

namespace Disassembler

variable (d : Disassembler)

/-- The decoding of an instruction depends on its own bytes only. -/
def ReadsOwnBytes : Prop :=
  ∀ bs bs' a insn, d.disasm bs a = some insn → bs'.take insn.size = bs.take insn.size →
    d.disasm bs' a = some insn

/-- The offsets that the linear sweep over `code`, which is at the address `index`, comes to. -/
inductive Boundary (code : List Byte) (index : U64) : Nat → Prop
  | start : Boundary code index 0
  | next {k : Nat} {insn : Insn} :
      Boundary code index k → d.disasm (code.drop k) (index + BitVec.ofNat 64 k) = some insn →
      Boundary code index (k + insn.size)

variable {d} {mem : U64 → Byte} {index : U64} {offset : U32}

theorem window_take (mem : U64 → Byte) (k : U64) (n m : Nat) :
    (window mem k n).take m = window mem k (min m n) := by
  simp [window, ← List.map_take, List.take_range]

/-- Between two numbers of bytes that both contain the instruction, there is no difference. -/
theorem ReadsOwnBytes.disasm_window (h : d.ReadsOwnBytes) {a : U64} {k n m : Nat} {insn : Insn}
    (hinsn : d.disasm (window mem (BitVec.ofNat 64 k) n) a = some insn) (hm : insn.size ≤ m) :
    d.disasm (window mem (BitVec.ofNat 64 k) m) a = some insn := by
  have hn : insn.size ≤ n := by
    simpa using d.size_le _ _ _ hinsn
  apply h _ _ _ _ hinsn
  rw [window_take, window_take, Nat.min_eq_left hm, Nat.min_eq_left hn]

theorem drop_window_zero (mem : U64 → Byte) (n k : Nat) :
    (window mem 0 n).drop k = window mem (BitVec.ofNat 64 k) (n - k) := by
  simp [window_drop]

/-- An instruction that does not reach behind the pointer is decoded by the loop exactly if the
sweep decodes it. -/
theorem ReadsOwnBytes.decoded_iff (h : d.ReadsOwnBytes) (mem : U64 → Byte) {a : U64} {k n : Nat}
    {insn : Insn} (hwrap : offset.toNat + 10 < 2 ^ 32) (hn : offset.toNat ≤ n)
    (hend : k + insn.size ≤ offset.toNat) :
    d.disasm (window mem (BitVec.ofNat 64 k) ((offset + 10).toNat - k)) a = some insn ↔
      d.disasm ((window mem 0 n).drop k) a = some insn := by
  have hsize : (offset + 10).toNat = offset.toNat + 10 := by
    rw [BitVec.toNat_add]
    exact Nat.mod_eq_of_lt hwrap
  rw [drop_window_zero, hsize]
  constructor
  · intro hinsn
    exact h.disasm_window hinsn (by omega)
  · intro hinsn
    exact h.disasm_window hinsn (by omega)

/-- The heads of the loop are boundaries in front of the pointer. -/
theorem boundary_of_visits (h : d.ReadsOwnBytes) {n k : Nat} (hwrap : offset.toNat + 10 < 2 ^ 32)
    (hn : offset.toNat ≤ n) (hpos : 0 < offset.toNat)
    (hv : Visits (d.intendedRound mem offset index) 0 k) :
    d.Boundary (window mem 0 n) index k ∧ k < offset.toNat := by
  induction hv with
  | enter => exact ⟨.start, hpos⟩
  | next _ hround ih =>
      unfold intendedRound at hround
      dsimp only at hround
      split at hround
      · cases hround
      · rename_i insn hinsn
        split at hround
        · rename_i hlt
          cases hround
          exact ⟨.next ih.1 ((h.decoded_iff mem hwrap hn (by omega)).mp hinsn), hlt⟩
        · cases hround

/-- Every boundary in front of the pointer is a head of the loop. -/
theorem visits_of_boundary (h : d.ReadsOwnBytes) {n k : Nat} (hwrap : offset.toNat + 10 < 2 ^ 32)
    (hn : offset.toNat ≤ n) (hb : d.Boundary (window mem 0 n) index k) (hk : k < offset.toNat) :
    Visits (d.intendedRound mem offset index) 0 k := by
  induction hb with
  | start => exact .enter
  | @next k insn _ hinsn ih =>
      refine .next (ih (by omega)) ?_
      have hloop := (h.decoded_iff mem hwrap hn (by omega)).mpr hinsn
      simp only [intendedRound, hloop, if_pos hk]

/-- **The boundaries are recognised**: the loop ends at the pointer exactly if the sweep over
any code that is long enough comes to it. -/
theorem isIntendedInstruction_iff_boundary (h : d.ReadsOwnBytes) (mem : U64 → Byte) (offset : U32)
    (index : U64) (n : Nat) (hpos : 0 < offset.toNat) (hwrap : offset.toNat + 10 < 2 ^ 32)
    (hn : offset.toNat ≤ n) :
    d.isIntendedInstruction mem offset index = true ↔
      d.Boundary (window mem 0 n) index offset.toNat := by
  constructor
  · intro hintended
    obtain ⟨k, hv, hleave⟩ :=
      exists_visits_leave (d.intendedRound_decreases mem offset index) 0
    obtain ⟨hb, hk⟩ := boundary_of_visits h hwrap hn hpos hv
    rw [isIntendedInstruction] at hintended
    rw [hintended] at hleave
    unfold intendedRound at hleave
    dsimp only at hleave
    split at hleave
    · -- nothing is decoded in front of the pointer
      have heq : (k == offset.toNat) = true := Round.leave.inj hleave
      simp at heq
      omega
    · rename_i insn hinsn
      split at hleave
      · cases hleave
      · -- the last instruction ends at the pointer, not behind it
        have heq : (k + insn.size == offset.toNat) = true := Round.leave.inj hleave
        have hend : k + insn.size = offset.toNat := by simpa using heq
        rw [← hend]
        exact .next hb ((h.decoded_iff mem hwrap hn (by omega)).mp hinsn)
  · intro hb
    generalize hoff : offset.toNat = m at hb
    -- the instruction that ends at the pointer is the last one of the loop
    cases hb with
    | start => omega
    | @next k insn hb hinsn =>
        have hsize := d.size_pos _ _ _ hinsn
        have hv := visits_of_boundary h hwrap hn hb (by omega)
        have hloop := (h.decoded_iff mem hwrap hn (by omega)).mpr hinsn
        apply loop_eq_of_visits_leave _ hv
        simp only [intendedRound, hloop]
        rw [if_neg (by omega), hoff]
        simp

/-! ## A function of one-byte instructions -/

theorem nopRet_readsOwnBytes : nopRet.ReadsOwnBytes := by
  intro bs bs' a insn hinsn htake
  have hsize : insn.size = 1 := (decodeNopRet_size hinsn).1
  rw [hsize] at htake
  cases bs with
  | nil => cases hinsn
  | cons b bs =>
      cases bs' with
      | nil => simp at htake
      | cons b' bs' =>
          obtain rfl : b' = b := by simpa using htake
          exact hinsn

theorem boundary_nops : nopRet.Boundary (window (fun _ => 0x90) 0 2) 0x1000 2 :=
  .next (.next .start (nopRet_disasm_nop [0x90] _)) (nopRet_disasm_nop [] _)

theorem isIntendedInstruction_nops :
    nopRet.isIntendedInstruction (fun _ => 0x90) 2 0x1000 = true :=
  (isIntendedInstruction_iff_boundary nopRet_readsOwnBytes (fun _ => 0x90) 2 0x1000 2 (by decide)
    (by decide) (by decide)).mpr boundary_nops

end Disassembler

end KernInt
