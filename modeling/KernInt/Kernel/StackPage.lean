import KernInt.Kernel.CodePtrs

set_option autoImplicit false

/-! # The pointers on a stack

The first loop of `KernelValidator::validateStackPage` collects the kernel code pointers on a
stack of 8 KiB, from the saved stack pointer on. Its index is where the upper half of a pointer
may be, so that the window that is looked at begins four bytes in front of it.

The loop begins with the index, not the window, at the stack pointer, and may read in front of
the stack; it ends in front of the last window; and behind a window that is all ones it goes on
nine bytes further, so that the word there is passed over. `stackScan_covers_iff` says which
stacks are covered all the same.
-/

namespace KernInt

open Lib

/-- The call of `validateStackPage` for one stack. `memory` is the memory of the host around the
image, which has the offsets from 0 up to `0x2000`. -/
structure StackPage where
  memory : Int → Byte
  stackBottom : U64
  stackEnd : U64

/-- What the loop puts down about a pointer: an entry of `returnAddresses`, or a line about a
pointer behind the initialized content. -/
inductive StackPtr where
  | returnAddress (address longPtr : U64)
  | behindContent (address longPtr : U64)
  deriving DecidableEq

def StackPtr.address : StackPtr → U64
  | .returnAddress address _ => address
  | .behindContent address _ => address

namespace StackPage

variable (stack : StackPage)

/-- The four bytes at `i`. -/
def intPtr (i : Int) : U32 := load32 (fun k => stack.memory (i + k)) 0

/-- The value of the window at `w`. -/
def longPtr (w : Int) : U64 := load64 (fun k => stack.memory (w + k)) 0

/-- The index at which the loop begins. -/
def start : Nat := (stack.stackEnd % 0x2000).toNat

/-- The address of the window for the index `i`. -/
def addressAt (i : Nat) : U64 := BitVec.ofNat 64 i - 4 + stack.stackBottom

/-- The first byte that the round at `i` reads; the last one is at `i + 3`. -/
def firstRead (i : Nat) : Int := if stack.intPtr i = 0xffffffff then i - 4 else i

end StackPage

namespace KernelValidator

variable (v : KernelValidator) (stack : StackPage)

/-- The loader that is found for the value has it in its code, and it is no symbol. -/
def isCodePtr (longPtr : U64) : Bool :=
  match v.getModuleForAddress longPtr with
  | none => false
  | some elfloader =>
      v.isCodeAddress elfloader longPtr && !v.symbols.isFunction longPtr &&
        !v.symbols.isSymbol longPtr

/-- What is put down about a pointer into the code of the loader that is found for it. -/
def stackPtr (address longPtr : U64) : Option StackPtr :=
  (v.getModuleForAddress longPtr).map fun elfloader =>
    if v.textOffset elfloader longPtr >
        BitVec.ofNat 64 (v.text elfloader).textSegmentContent.length then
      .behindContent address longPtr
    else .returnAddress address longPtr

/-- The round of the loop at index `i`. -/
def stackStep (i : Nat) : ScanStep StackPtr :=
  if stack.intPtr i ≠ 0xffffffff then .pass 0 none
  else
    let longPtr := stack.longPtr (i - 4)
    if longPtr = 0xffffffffffffffff then .pass 8 none
    else if v.isCodePtr longPtr then .pass 0 (v.stackPtr (stack.addressAt i) longPtr)
    else .pass 0 none

/-- The first loop of `validateStackPage`. -/
def stackPointers : Option (List StackPtr) :=
  scan (v.stackStep stack) (0x2000 - 4) stack.start

/-- The indices that the loop comes to. -/
def stackScanned : List Nat := positions (v.stackStep stack) (0x2000 - 4) stack.start

/-! ## Coverage -/

/-- The window at `w` has a pointer into the code of a loader, which is no symbol. -/
structure KernelCodePtr (w : Nat) : Prop where
  upper_half : stack.intPtr (w + 4) = 0xffffffff
  not_all_ones : stack.longPtr w ≠ 0xffffffffffffffff
  code : ∃ elfloader, v.CodeOf elfloader (stack.longPtr w)
  not_function : v.symbols.isFunction (stack.longPtr w) = false
  not_symbol : v.symbols.isSymbol (stack.longPtr w) = false

/-- The window at `w` is put down. -/
def PutDown (w : Nat) : Prop :=
  ∃ ptrs, v.stackPointers stack = some ptrs ∧
    ∃ ptr ∈ ptrs, ptr.address = BitVec.ofNat 64 w + stack.stackBottom

/-- The loop reads no byte outside the image. -/
def ReadsStack : Prop := ∀ i ∈ v.stackScanned stack, 0 ≤ stack.firstRead i ∧ i + 4 ≤ 0x2000

/-- Nothing keeps the loop from a pointer, and no byte in front of the image is asked for. -/
structure StackCovered : Prop where
  /-- The first four bytes of the image do not look like an upper half. -/
  inside : ∀ i, stack.start ≤ i → i < 4 → stack.intPtr i ≠ 0xffffffff
  last : ∀ w, stack.start ≤ w → w + 8 = 0x2000 → ¬ v.KernelCodePtr stack w
  /-- The loader that is found for a pointer has it in its code. -/
  found : ∀ w, stack.start ≤ w → w + 8 < 0x2000 → v.KernelCodePtr stack w →
    v.isCodePtr (stack.longPtr w) = true
  /-- No window of ones, to which the loop comes, is at most eight bytes in front of a pointer. -/
  apart : ∀ w, stack.start ≤ w → w + 8 < 0x2000 → v.KernelCodePtr stack w →
    ∀ i ∈ v.stackScanned stack, stack.intPtr i = 0xffffffff →
      stack.longPtr (i - 4) = 0xffffffffffffffff → i < w + 4 → i + 8 < w + 4

variable {v stack} {i w : Nat}

theorem stackStep_of_intPtr (h : stack.intPtr i ≠ 0xffffffff) :
    v.stackStep stack i = .pass 0 none := if_pos h

theorem stackStep_ne_stop : v.stackStep stack i ≠ .stop := by
  unfold stackStep
  dsimp only
  split
  · exact fun h => by cases h
  · split
    · exact fun h => by cases h
    · split
      · exact fun h => by cases h
      · exact fun h => by cases h

/-- The loop passes over the windows next to one that is all ones. -/
theorem hides_stackStep_iff {j : Nat} : Hides (v.stackStep stack) i j ↔
    stack.intPtr i = 0xffffffff ∧ stack.longPtr (i - 4) = 0xffffffffffffffff ∧
      i < j ∧ j ≤ i + 8 := by
  by_cases hupper : stack.intPtr i = 0xffffffff
  · by_cases hones : stack.longPtr (i - 4) = 0xffffffffffffffff
    · have hstep : v.stackStep stack i = .pass 8 none := by
        rw [stackStep, if_neg (not_not_intro hupper), if_pos hones]
      rw [hides_of_pass hstep, and_iff_right hupper, and_iff_right hones]
    · have hstep : ∃ note, v.stackStep stack i = .pass 0 note := by
        unfold stackStep
        rw [if_neg (not_not_intro hupper), if_neg hones]
        split
        · exact ⟨_, rfl⟩
        · exact ⟨_, rfl⟩
      obtain ⟨note, hstep⟩ := hstep
      rw [hides_of_pass hstep]
      constructor
      · omega
      · rintro ⟨-, h, -⟩
        exact absurd h hones
  · rw [hides_of_pass (stackStep_of_intPtr hupper)]
    constructor
    · omega
    · rintro ⟨h, -⟩
      exact absurd h hupper

theorem stackPointers_eq : v.stackPointers stack =
    some ((v.stackScanned stack).filterMap fun i => (v.stackStep stack i).note) :=
  scan_eq fun _ _ => stackStep_ne_stop

theorem address_of_stackPtr {address longPtr : U64} {ptr : StackPtr}
    (h : v.stackPtr address longPtr = some ptr) : ptr.address = address := by
  obtain ⟨elfloader, -, rfl⟩ := Option.map_eq_some_iff.mp h
  split
  · rfl
  · rfl

/-- What is put down at an index tells its window. -/
theorem note_stackStep {ptr : StackPtr} (h : (v.stackStep stack i).note = some ptr) :
    stack.intPtr i = 0xffffffff ∧ v.isCodePtr (stack.longPtr (i - 4)) = true ∧
      ptr.address = stack.addressAt i := by
  unfold stackStep at h
  dsimp only at h
  split at h
  · cases h
  · rename_i hupper
    split at h
    · cases h
    · split at h
      · rename_i hcode
        exact ⟨not_not.mp hupper, hcode, address_of_stackPtr h⟩
      · cases h

/-- A return address has a loader, and tells the value of its window. -/
theorem isSome_of_note_stackStep {address longPtr : U64}
    (h : (v.stackStep stack i).note = some (.returnAddress address longPtr)) :
    (v.getModuleForAddress longPtr).isSome = true := by
  unfold stackStep at h
  dsimp only at h
  split at h
  · cases h
  · split at h
    · cases h
    · split at h
      · obtain ⟨elfloader, hfound, hptr⟩ := Option.map_eq_some_iff.mp h
        split at hptr
        · cases hptr
        · cases hptr
          rw [hfound]
          rfl
      · cases h

theorem exists_note_stackStep (hupper : stack.intPtr i = 0xffffffff)
    (hones : stack.longPtr (i - 4) ≠ 0xffffffffffffffff)
    (hcode : v.isCodePtr (stack.longPtr (i - 4)) = true) :
    ∃ ptr, (v.stackStep stack i).note = some ptr ∧ ptr.address = stack.addressAt i := by
  unfold stackStep
  rw [if_neg (not_not_intro hupper), if_neg hones, if_pos hcode]
  have hfound : ∃ ptr, v.stackPtr (stack.addressAt i) (stack.longPtr (i - 4)) = some ptr := by
    unfold isCodePtr at hcode
    unfold stackPtr
    cases hmodule : v.getModuleForAddress (stack.longPtr (i - 4)) with
    | none =>
        rw [hmodule] at hcode
        cases hcode
    | some elfloader => exact ⟨_, rfl⟩
  obtain ⟨ptr, hptr⟩ := hfound
  exact ⟨ptr, hptr, address_of_stackPtr hptr⟩

theorem stackScanned_range (hi : i ∈ v.stackScanned stack) : stack.start ≤ i ∧ i < 0x1ffc :=
  le_of_mem_positions hi

theorem addressAt_eq_iff (hi : i < 0x2000) (hw : w < 0x2000) :
    stack.addressAt i = BitVec.ofNat 64 w + stack.stackBottom ↔ i = w + 4 := by
  unfold StackPage.addressAt
  constructor
  · intro h
    bv_omega
  · intro h
    bv_omega

/-- **Which windows are put down**: those that the loop comes to and finds to be code pointers. -/
theorem putDown_iff (hptr : v.KernelCodePtr stack w) (hw : w + 8 ≤ 0x2000) :
    v.PutDown stack w ↔
      w + 4 ∈ v.stackScanned stack ∧ v.isCodePtr (stack.longPtr w) = true := by
  have hback : ((w + 4 : Nat) : Int) - 4 = w := by omega
  have hupper : stack.intPtr ((w + 4 : Nat) : Int) = 0xffffffff := hptr.upper_half
  unfold PutDown
  rw [stackPointers_eq]
  constructor
  · rintro ⟨ptrs, hptrs, ptr, hmem, haddress⟩
    cases hptrs
    obtain ⟨i, hi, hnote⟩ := List.mem_filterMap.mp hmem
    obtain ⟨-, hcode, haddr⟩ := note_stackStep hnote
    have hrange := stackScanned_range hi
    rw [haddr] at haddress
    obtain rfl := (addressAt_eq_iff (by omega) (by omega)).mp haddress
    rw [hback] at hcode
    exact ⟨hi, hcode⟩
  · rintro ⟨hi, hcode⟩
    obtain ⟨ptr, hnote, haddr⟩ := exists_note_stackStep hupper
      (by rw [hback]; exact hptr.not_all_ones) (by rw [hback]; exact hcode)
    refine ⟨_, rfl, ptr, List.mem_filterMap.mpr ⟨w + 4, hi, hnote⟩, ?_⟩
    rw [haddr]
    exact (addressAt_eq_iff (by omega) (by omega)).mpr rfl

/-- Only a first word of ones makes the loop read in front of the image. -/
theorem readsStack_iff : v.ReadsStack stack ↔
    ∀ i, stack.start ≤ i → i < 4 → stack.intPtr i ≠ 0xffffffff := by
  unfold ReadsStack StackPage.firstRead
  constructor
  · intro h i
    induction i using Nat.strongRecOn with
    | ind i ih =>
        intro hle hlt hones
        -- no index in front of it is one of a window of ones
        have hmem : i ∈ v.stackScanned stack := by
          refine mem_positions_iff.mpr ⟨hle, by omega, fun k hk hides => ?_⟩
          have hk' := stackScanned_range hk
          obtain ⟨hupper, -, hki, -⟩ := hides_stackStep_iff.mp hides
          exact ih k hki hk'.1 (by omega) hupper
        have := (h i hmem).1
        rw [if_pos hones] at this
        omega
  · intro h i hi
    have hrange := stackScanned_range hi
    refine ⟨?_, by omega⟩
    split
    · rename_i hones
      have : ¬ i < 4 := fun hlt => h i hrange.1 hlt hones
      omega
    · omega

/-- **When the loop covers the stack**: all code pointers from the stack pointer on are put down,
and no byte outside the image is read, exactly under the condition `StackCovered`. -/
theorem stackScan_covers_iff (v : KernelValidator) (stack : StackPage) :
    ((∀ w, stack.start ≤ w → w + 8 ≤ 0x2000 → v.KernelCodePtr stack w → v.PutDown stack w) ∧
      v.ReadsStack stack) ↔ v.StackCovered stack := by
  rw [readsStack_iff]
  constructor
  · rintro ⟨hall, hinside⟩
    refine ⟨hinside, fun w hle hw hptr => ?_, fun w hle hw hptr => ?_, fun w hle hw hptr => ?_⟩
    · have hmem := ((putDown_iff hptr (by omega)).mp (hall w hle (by omega) hptr)).1
      have := stackScanned_range hmem
      omega
    · exact ((putDown_iff hptr (by omega)).mp (hall w hle (by omega) hptr)).2
    · intro i hi hupper hones hlt
      have hmem := ((putDown_iff hptr (by omega)).mp (hall w hle (by omega) hptr)).1
      have hnot := (mem_positions_iff.mp hmem).2.2 i hi
      rw [hides_stackStep_iff] at hnot
      by_contra hle'
      exact hnot ⟨hupper, hones, hlt, by omega⟩
  · rintro ⟨hinside, hlast, hfound, hapart⟩
    refine ⟨fun w hle hw hptr => ?_, hinside⟩
    have hlt : w + 8 < 0x2000 := by
      rcases Nat.lt_or_eq_of_le hw with h | h
      · exact h
      · exact absurd hptr (hlast w hle h)
    refine (putDown_iff hptr hw).mpr ⟨?_, hfound w hle hlt hptr⟩
    refine mem_positions_iff.mpr ⟨by omega, by omega, fun i hi hides => ?_⟩
    obtain ⟨hupper, hones, hlt', hle'⟩ := hides_stackStep_iff.mp hides
    have := hapart w hle hlt hptr i hi hupper hones hlt'
    omega

/-- A round depends on the bytes from `firstRead` on. -/
theorem stackStep_congr {memory : Int → Byte}
    (h : ∀ k, stack.firstRead i ≤ k → k < i + 4 → memory k = stack.memory k) :
    v.stackStep { stack with memory } i = v.stackStep stack i := by
  have hfirst : stack.firstRead i ≤ i := by
    unfold StackPage.firstRead
    split
    · omega
    · omega
  have hint : StackPage.intPtr { stack with memory } i = stack.intPtr i := by
    apply load32_congr
    intro k hk
    exact h _ (by omega) (by omega)
  by_cases hupper : stack.intPtr i = 0xffffffff
  · have hback : stack.firstRead i = i - 4 := if_pos hupper
    have hlong : StackPage.longPtr { stack with memory } (i - 4) = stack.longPtr (i - 4) := by
      apply load64_congr
      intro k hk
      exact h _ (by omega) (by omega)
    unfold stackStep
    rw [hint, hlong]
    rfl
  · rw [stackStep_of_intPtr hupper, stackStep_of_intPtr (hint ▸ hupper)]

/-- **Inside the image** the loop depends on the bytes of the image only. -/
theorem stackPointers_congr (h : v.ReadsStack stack) {memory : Int → Byte}
    (hmem : ∀ k, 0 ≤ k → k < 0x2000 → memory k = stack.memory k) :
    v.stackPointers { stack with memory } = v.stackPointers stack := by
  apply scan_congr
  intro i hi
  apply stackStep_congr
  intro k hle hlt
  have := h i hi
  exact hmem k (by omega) (by omega)

end KernelValidator

/-! ## A word of ones in front of a pointer -/

/-- A stack in use from `0x1fe8` on: a word of ones, a pointer into the text, and a zero. -/
def onesStack : StackPage where
  memory := fun k =>
    if 0x1fe8 ≤ k ∧ k < 0x1ff0 then 0xff
    else if 0x1ff0 ≤ k ∧ k < 0x1ff8 then
      (0xffffffff81000010 : U64).extractLsb' (8 * (k - 0x1ff0).toNat) 8
    else 0
  stackBottom := 0xffff880000002000
  stackEnd := 0xffff880000003fe8

theorem onesStack_kernelCodePtr : plainValidator.KernelCodePtr onesStack 0x1ff0 := by
  have hvalue : onesStack.longPtr 0x1ff0 = 0xffffffff81000010 := by decide
  refine ⟨by decide, by decide, ⟨.kernel, ?_⟩, rfl, rfl⟩
  show plainValidator.kernelLoader.isCodeAddress (onesStack.longPtr 0x1ff0) = true
  rw [hvalue]
  decide

/-- The loop comes to the word of ones. -/
theorem onesStack_scanned : 0x1fec ∈ plainValidator.stackScanned onesStack := by
  refine mem_positions_iff.mpr ⟨by decide, by decide, fun k hk hides => ?_⟩
  obtain ⟨hle, -⟩ := KernelValidator.stackScanned_range hk
  obtain ⟨-, hones, hlt, -⟩ := KernelValidator.hides_stackStep_iff.mp hides
  have hstart : onesStack.start = 0x1fe8 := by decide
  obtain ⟨j, rfl⟩ : ∃ j : Fin 4, k = 0x1fe8 + j.val := ⟨⟨k - 0x1fe8, by omega⟩, by simp; omega⟩
  have hmixed : ∀ j : Fin 4,
      onesStack.longPtr ((0x1fe8 + j.val : Nat) - 4) ≠ 0xffffffffffffffff := by decide
  exact hmixed j hones

/-- **A pointer that is missed**: the loop goes on nine bytes behind the word of ones, and the
upper half of the pointer is eight bytes behind it. -/
theorem onesStack_not_putDown :
    onesStack.start ≤ 0x1ff0 ∧ 0x1ff0 + 8 ≤ 0x2000 ∧
      plainValidator.KernelCodePtr onesStack 0x1ff0 ∧
      ¬ plainValidator.PutDown onesStack 0x1ff0 := by
  refine ⟨by decide, by decide, onesStack_kernelCodePtr, fun hput => ?_⟩
  obtain ⟨hmem, -⟩ := (KernelValidator.putDown_iff onesStack_kernelCodePtr (by decide)).mp hput
  refine (mem_positions_iff.mp hmem).2.2 0x1fec onesStack_scanned ?_
  exact KernelValidator.hides_stackStep_iff.mpr ⟨by decide, by decide, by decide, by decide⟩

end KernInt
