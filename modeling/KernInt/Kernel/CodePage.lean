import KernInt.Kernel.Headers
import KernInt.Lib.Loop
import Mathlib.Data.Finset.Basic

set_option autoImplicit false

/-! # The comparison of a kernel code page

`KernelValidator::validateCodePage` compares one page of the guest with the page of the
reference image that belongs there, byte by byte, and accepts the differences that the
running kernel makes itself: every rule that accepts one is a predicate at the index
(`atomicNop`, `isValidJmpLabel`, …), and `exemption` is their chain in the order of the
source, with the amount that the source adds to the index. A byte whose predecessor differs
is passed over. The first difference that no rule accepts ends the comparison with a report.
A page behind the loaded text is not compared at all, an assertion fails.
-/

namespace KernInt

open Lib

/-- What the validator's `dynamic_cast`s tell apart: the loader of the kernel, which knows
the address of `copy_user_generic_unrolled`, and the loader of a module. -/
inductive LoaderClass where
  | kernel (genericUnrolledAddress : U64)
  | module

/-- The part of an `ElfKernelspaceLoader` that the comparison reads. `memindex` is
`textSegment.memindex`; `jumpEntries` maps the address of a jump label to its displacement. -/
structure KernelspaceLoader where
  name : String
  memindex : U64
  textSegmentContent : List Byte
  jumpEntries : U64 → Option U32
  smpOffsets : Finset U64
  cls : LoaderClass

/-- One call of `validateCodePage`: the loader, the NOP table, and the page at `vaddr`, of
`size` bytes, as `readVectorFromVA` returned it. Reads behind the end of the two arrays
return what the host has there, `hostReference` and `hostPage`. -/
structure CodeCheck where
  elf : KernelspaceLoader
  nops : NopTable
  vaddr : U64
  size : Nat
  page : List Byte
  page_length : page.length = size
  hostReference : Nat → Byte
  hostPage : Nat → Byte

/-- The two reports of `validateCodePage`, with what they print. -/
inductive CodeReport where
  | unknownCode (name : String) (pageIndex : U32) (address : U64) (restUninitialized : Bool)
  | mismatch (name : String) (pageIndex : U32) (address : U64) (firstChange : Nat)
  deriving DecidableEq

/-- `assert(false)`: "This section is not completely loaded". -/
inductive CodeAbort where
  | notLoaded
  deriving DecidableEq

namespace CodeCheck

variable (c : CodeCheck)

/-- The distance of the page from the text segment, computed in 64 bits. -/
def pageDistance : U64 := c.vaddr - (c.elf.memindex &&& 0xffffffffffff)

def pageOffset : U32 := c.pageDistance.setWidth 32

def pageIndex : U32 := (c.pageDistance / BitVec.ofNat 64 c.size).setWidth 32

/-- `loadedPage[i]`. -/
def loadedPage (i : Nat) : Byte :=
  bufferOf c.elf.textSegmentContent c.hostReference (c.pageOffset.toNat + i)

/-- `pageInMem[i]`. -/
def pageInMem (i : Nat) : Byte := bufferOf c.page c.hostPage i

/-- `unkCodeAddress` at index `i`. -/
def codeAddress (i : Nat) : U64 :=
  c.elf.memindex + c.pageOffset.setWidth 64 + BitVec.ofNat 64 i

/-! ## The rules -/

/-- The page of the hypercalls is ignored. -/
def hypercallPage (i : Nat) : Bool :=
  c.codeAddress i &&& 0xfffffffffffff000 == 0xffffffff81001000

/-- The 5-byte NOP around `i` has been made the atomic one. -/
def atomicNop (i : Nat) : Bool :=
  1 < i && memeq c.loadedPage (i - 2) (c.nops.ideal_nops 5) &&
    memeq c.pageInMem (i - 2) (c.nops.ideal_nops 9)

/-- The same change, of a NOP that the beginning of the page cuts. -/
def cutNop (i : Nat) : Bool :=
  i ≤ 1 && ((c.loadedPage i == 0x66 && c.pageInMem i == 0x90) ||
    (c.loadedPage i == 0x90 && c.pageInMem i == 0x66))

def fixedNop (i : Nat) : Bool :=
  memeq c.loadedPage i [0x0f, 0x1f, 0x44, 0x00, 0x00] &&
    memeq c.pageInMem i [0x66, 0x66, 0x66, 0x66, 0x90]

/-- A recorded jump label is at `i`, disabled or with its recorded destination. -/
def isValidJmpLabel (i : Nat) : Bool :=
  match c.elf.jumpEntries (c.codeAddress i) with
  | none => false
  | some destination =>
      memeq c.pageInMem i (c.nops.ideal_nops 5) || memeq c.pageInMem i (c.nops.ideal_nops 9) ||
        (c.pageInMem i == 0xe9 && destination == load32 c.pageInMem (i + 1))

/-- The byte before `i` is a call opcode, and `elfDestAddress` is the address of
`copy_user_generic_unrolled`. The four displacement bytes are read one byte too far, and the
displacement is unsigned, as in the source. -/
def unrolledCall (i : Nat) : Bool :=
  0 < i && c.loadedPage (i - 1) == 0xe8 &&
    match c.elf.cls with
    | .kernel genericUnrolledAddress =>
        genericUnrolledAddress ==
          c.codeAddress i + (load32 c.loadedPage (i + 1)).setWidth 64 + 5
    | .module => false

/-- A lock prefix has been switched on or off at a recorded offset. -/
def smpLock (i : Nat) : Bool :=
  ((c.loadedPage i == 0x3e && c.pageInMem i == 0xf0) ||
    (c.loadedPage i == 0xf0 && c.pageInMem i == 0x3e)) &&
    (BitVec.ofNat 32 i + c.pageOffset).setWidth 64 ∈ c.elf.smpOffsets

def zeroJump (i : Nat) : Bool :=
  memeq c.loadedPage i [0xe9, 0x00, 0x00, 0x00, 0x00] &&
    memeq c.pageInMem i (c.nops.ideal_nops 9)

/-- The rules in the order of the source. The result is what the accepting rule adds to the
index before the loop's own increment; `none` when no rule accepts the difference. -/
def exemption (i : Nat) : Option Nat :=
  if c.hypercallPage i then some 0
  else if c.atomicNop i then some 5
  else if c.cutNop i then some 0
  else if c.fixedNop i then some 5
  else if c.isValidJmpLabel i then some 5
  else if c.unrolledCall i then some 4
  else if c.smpLock i then some 0
  else if c.zeroJump i then some 5
  else none

/-! ## The loop -/

/-- The end of the initialized text as seen from the page: `(int32_t) (size - pageOffset)`. -/
def initializedEnd : Int :=
  ((BitVec.ofNat 64 c.elf.textSegmentContent.length - c.pageOffset.setWidth 64).setWidth 32).toInt

/-- The report about a difference at `i` that no rule accepts. `changeCount` is still `0`
here: it is incremented only right before the function returns. -/
def report (i : Nat) : CodeReport :=
  match c.elf.cls with
  | .kernel _ =>
      if c.initializedEnd ≤ (i : Int) then
        .unknownCode c.elf.name c.pageIndex (c.codeAddress i) true
      else .mismatch c.elf.name c.pageIndex (c.codeAddress i) i
  | .module => .mismatch c.elf.name c.pageIndex (c.codeAddress i) i

/-- The round of the comparison at index `i`. -/
def round (i : Nat) : Round Nat (List CodeReport) :=
  if i < c.size then
    if c.loadedPage i = c.pageInMem i then .again (i + 1)
    else if 0 < i ∧ c.loadedPage (i - 1) ≠ c.pageInMem (i - 1) then .again (i + 1)
    else
      match c.exemption i with
      | some skip => .again (i + skip + 1)
      | none => .leave [c.report i]
  else .leave []

/-- How many bytes are left at index `i`. -/
def bytesLeft (i : Nat) : Nat := c.size - i

theorem round_decreases : Decreases c.round c.bytesLeft := by
  intro i i' h
  show c.size - i' < c.size - i
  simp only [round] at h
  split at h
  · split at h
    · cases h
      omega
    · split at h
      · cases h
        omega
      · split at h
        · cases h
          omega
        · cases h
  · cases h

/-- What the loop over the bytes prints. -/
def changes : List CodeReport := loop c.round c.bytesLeft c.round_decreases 0

/-- The text of the loader reaches the page. -/
def Loaded : Prop := c.pageOffset.toNat ≤ c.elf.textSegmentContent.length

instance : Decidable c.Loaded := inferInstanceAs (Decidable (_ ≤ _))

/-- `KernelValidator::validateCodePage`: what it prints. -/
def validateCodePage : Except CodeAbort (List CodeReport) :=
  if c.elf.textSegmentContent.length < c.pageOffset.toNat then .error .notLoaded
  else .ok c.changes

theorem validateCodePage_eq_ok_iff {reports : List CodeReport} :
    c.validateCodePage = .ok reports ↔ c.Loaded ∧ c.changes = reports := by
  unfold validateCodePage Loaded
  split
  · rename_i hlt
    exact iff_of_false (fun h => nomatch h) fun h => absurd h.1 (Nat.not_le.mpr hlt)
  · rename_i hlt
    rw [Except.ok.injEq, and_iff_right (Nat.not_lt.mp hlt)]

/-! ## What the loop examines -/

/-- The page and the reference differ at `i`. -/
def Differs (i : Nat) : Prop := c.loadedPage i ≠ c.pageInMem i

/-- The byte before `i` differs, too. -/
def RunsOn (i : Nat) : Prop := 0 < i ∧ c.Differs (i - 1)

/-- The index takes the value `i`. -/
def Examined (i : Nat) : Prop := Visits c.round 0 i

instance (i : Nat) : Decidable (c.Differs i) := inferInstanceAs (Decidable (_ ≠ _))

instance (i : Nat) : Decidable (c.RunsOn i) := inferInstanceAs (Decidable (_ ∧ _))

/-- What one round does, case by case. -/
theorem round_cases (i : Nat) :
    (c.size ≤ i ∧ c.round i = .leave []) ∨
    (i < c.size ∧ (¬ c.Differs i ∨ c.RunsOn i) ∧ c.round i = .again (i + 1)) ∨
    (i < c.size ∧ c.Differs i ∧ ¬ c.RunsOn i ∧
      ∃ skip, c.exemption i = some skip ∧ c.round i = .again (i + skip + 1)) ∨
    (i < c.size ∧ c.Differs i ∧ ¬ c.RunsOn i ∧ c.exemption i = none ∧
      c.round i = .leave [c.report i]) := by
  by_cases hi : i < c.size
  · by_cases hd : c.loadedPage i = c.pageInMem i
    · exact .inr (.inl ⟨hi, .inl (not_not_intro hd), by simp [round, hi, hd]⟩)
    · by_cases hr : 0 < i ∧ c.loadedPage (i - 1) ≠ c.pageInMem (i - 1)
      · exact .inr (.inl ⟨hi, .inr hr, by simp only [round, hi, hd, hr, if_true, if_false,
          ne_eq, not_false_eq_true, and_self]⟩)
      · cases he : c.exemption i with
        | some skip =>
            exact .inr (.inr (.inl ⟨hi, hd, hr, skip, rfl, by
              simp only [round, if_pos hi, if_neg hd, if_neg hr, he]⟩))
        | none =>
            exact .inr (.inr (.inr ⟨hi, hd, hr, rfl, by
              simp only [round, if_pos hi, if_neg hd, if_neg hr, he]⟩))
  · exact .inl ⟨by omega, by simp [round, hi]⟩

/-- **When the comparison is silent**: every difference that begins a run at an examined
index is accepted by a rule. -/
theorem changes_eq_nil_iff :
    c.changes = [] ↔
      ∀ i, i < c.size → c.Examined i → c.Differs i → ¬ c.RunsOn i → c.exemption i ≠ none := by
  constructor
  · intro h i hi hv hd hr hn
    rcases c.round_cases i with ⟨h1, -⟩ | ⟨-, h2, -⟩ | ⟨-, -, -, _, he, -⟩ | ⟨-, -, -, -, h4⟩
    · omega
    · exact h2.elim (fun h => h hd) hr
    · rw [hn] at he
      cases he
    · rw [changes, loop_eq_of_visits_leave _ hv h4] at h
      cases h
  · intro h
    obtain ⟨i, hv, hl⟩ := exists_visits_leave c.round_decreases 0
    rcases c.round_cases i with ⟨-, h1⟩ | ⟨-, -, h2⟩ | ⟨-, -, -, _, -, h3⟩ | ⟨hi, hd, hr, hn, -⟩
    · rw [h1] at hl
      exact (Round.leave.inj hl).symm
    · rw [h2] at hl
      cases hl
    · rw [h3] at hl
      cases hl
    · exact absurd hn (h i hi hv hd hr)

/-- From an index on, a page that agrees with the reference is passed silently. -/
theorem loop_of_agree (i : Nat) (h : ∀ k, i ≤ k → k < c.size → ¬ c.Differs k) :
    loop c.round c.bytesLeft c.round_decreases i = [] := by
  refine loop_post c.round_decreases (fun j => i ≤ j) (· = []) (Nat.le_refl i) ?_ ?_
  · intro j j' hj hr
    rcases c.round_cases j with ⟨-, h1⟩ | ⟨-, -, h2⟩ | ⟨-, -, -, _, -, h3⟩ | ⟨-, -, -, -, h4⟩ <;>
      simp_all <;> omega
  · intro j r hj hr
    rcases c.round_cases j with ⟨-, h1⟩ | ⟨-, -, h2⟩ | ⟨-, -, -, _, -, h3⟩ | ⟨hlt, hd, -, -, h4⟩
    · rw [h1] at hr
      exact (Round.leave.inj hr).symm
    · rw [h2] at hr
      cases hr
    · rw [h3] at hr
      cases hr
    · exact absurd hd (h j hj hlt)

end CodeCheck

end KernInt
