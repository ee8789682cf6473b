import KernInt.Lib.Bytes

set_option autoImplicit false

/-! # The NOP tables of the kernel

`kernel_headers.cpp` keeps the recommended NOP instructions of a processor family as one
byte array, the NOPs of length 1 to 8 followed by the atomic 5-byte NOP, and a table of
pointers into it. `NopTable` is such a table, read through its pointers.
-/

namespace KernInt

open Lib

def ASM_NOP_MAX : Nat := 8

/-- A table `ideal_nops`: entry `n` points at an `n`-byte NOP for `1 ≤ n ≤ 8`, entry `9` at
the 5-byte NOP that is written atomically. -/
structure NopTable where
  ideal_nops : Nat → List Byte
  length_nop : ∀ n, 1 ≤ n → n ≤ ASM_NOP_MAX → (ideal_nops n).length = n
  length_atomic : (ideal_nops (ASM_NOP_MAX + 1)).length = 5

/-- The pointers `p6_nops` and `k8_nops` into their array: entry `n` is behind the NOPs of
length `1` to `n - 1`. -/
def nopOffset : Nat → Nat
  | 0 => 0
  | 1 => 0
  | n + 2 => nopOffset (n + 1) + (n + 1)

/-- The bytes that entry `n` of a pointer table into `nops` stands for. -/
def nopEntry (nops : List Byte) (n : Nat) : List Byte :=
  (nops.drop (nopOffset n)).take (if n ≤ ASM_NOP_MAX then n else 5)

def p6nops : List Byte :=
  [ 0x90,
    0x66, 0x90,
    0x0f, 0x1f, 0x00,
    0x0f, 0x1f, 0x40, 0,
    0x0f, 0x1f, 0x44, 0x00, 0,
    0x66, 0x0f, 0x1f, 0x44, 0x00, 0,
    0x0f, 0x1f, 0x80, 0, 0, 0, 0,
    0x0f, 0x1f, 0x84, 0x00, 0, 0, 0, 0,
    0x0f, 0x1f, 0x44, 0x00, 0 ]

def k8nops : List Byte :=
  [ 0x90,
    0x66, 0x90,
    0x66, 0x66, 0x90,
    0x66, 0x66, 0x66, 0x90,
    0x66, 0x66, 0x90, 0x66, 0x90,
    0x66, 0x66, 0x90, 0x66, 0x66, 0x90,
    0x66, 0x66, 0x66, 0x90, 0x66, 0x66, 0x90,
    0x66, 0x66, 0x66, 0x90, 0x66, 0x66, 0x66, 0x90,
    0x66, 0x66, 0x66, 0x66, 0x90 ]

def p6_nops : NopTable where
  ideal_nops := nopEntry p6nops
  length_nop := fun n h1 h2 =>
    (by decide : ∀ n : Fin 9, 1 ≤ n.val → (nopEntry p6nops n).length = n.val)
      ⟨n, Nat.lt_succ_of_le h2⟩ h1
  length_atomic := by decide

def k8_nops : NopTable where
  ideal_nops := nopEntry k8nops
  length_nop := fun n h1 h2 =>
    (by decide : ∀ n : Fin 9, 1 ≤ n.val → (nopEntry k8nops n).length = n.val)
      ⟨n, Nat.lt_succ_of_le h2⟩ h1
  length_atomic := by decide

namespace NopTable

variable (t : NopTable)

theorem length_five : (t.ideal_nops 5).length = 5 := t.length_nop 5 (by decide) (by decide)

theorem length_nine : (t.ideal_nops 9).length = 5 := t.length_atomic

end NopTable

end KernInt
