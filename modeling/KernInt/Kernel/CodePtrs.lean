import KernInt.Kernel.KernelValidator
import KernInt.Lib.Scan

set_option autoImplicit false

/-! # Code pointers in a data page

`KernelValidator::findCodePtrs` goes through the bytes of a data page. Where four bytes are all
ones, they may be the upper half of a pointer into the kernel, and the eight bytes around them are
a window that is looked at. A window that points into some code and that no rule exempts is
counted.

The scan does not come to all windows: it ends in front of the last one, it goes nine bytes on
behind a window that is all ones, seventeen at `bp_int3_addr`, and at one value it leaves the
program. What has to be absent for every window to be counted is in `findCodePtrs_exact_iff`.
-/

namespace KernInt

open Lib

/-- The page that `findCodePtrs` is called with. It has at least the four bytes that are
subtracted from its size. -/
structure DataPage where
  vaddr : U64
  size : Nat
  pageInMem : Nat → Byte
  four_le_size : 4 ≤ size

namespace DataPage

variable (page : DataPage)

/-- The value of the window at `w`. -/
def longPtr (w : Nat) : U64 := load64 page.pageInMem w

/-- The address of the window at `w`. -/
def address (w : Nat) : U64 := page.vaddr + BitVec.ofNat 64 w

end DataPage

namespace KernelValidator

variable (v : KernelValidator)

/-- `bp_int3_addr`, as it is compared with an address of a page. -/
def bpInt3Addr : U64 := v.symbols.getSymbolAddress "bp_int3_addr" &&& 0xffffffffffff

/-- The rules for a pointer into the code of a loader, in the order of the source. One that points
behind the content or behind a call is printed, too, and not counted. -/
def exemptedIn (elfloader : KernelspaceLoaderRef) (longPtr : U64) : Bool :=
  let text := v.text elfloader
  let offset := v.textOffset elfloader longPtr
  offset > BitVec.ofNat 64 text.textSegmentContent.length ||
    offset ∈ text.smpOffsets ||
    (text.jumpEntries longPtr).isSome || longPtr ∈ text.jumpDestinations ||
    longPtr > v.exTable.memindex ||
    v.isReturnAddress elfloader longPtr != 0

/-- One of the rules that depend on the value of the window only passes over it. -/
def exempted (longPtr : U64) : Bool :=
  v.symbols.isFunction longPtr || v.symbols.isSymbol longPtr ||
    match v.getModuleForAddress longPtr with
    | none => true
    | some elfloader => !v.isCodeAddress elfloader longPtr || v.exemptedIn elfloader longPtr

/-- The round of the scan at index `i`, where the upper half of a pointer may be. -/
def codePtrStep (page : DataPage) (i : Nat) : ScanStep Nat :=
  if load32 page.pageInMem i ≠ 0xffffffff then .pass 0 none
  else
    let longPtr := page.longPtr (i - 4)
    if longPtr = 0xffffffffffffffff then .pass 8 none
    else if longPtr = 0xffffffff815237b0 then .stop
    else if v.exempted longPtr then .pass 0 none
    else if page.address (i - 4) = v.bpInt3Addr then .pass 16 none
    else .pass 0 (some (i - 4))

/-- A stack is evaluated separately. -/
def isStack (page : DataPage) : Bool :=
  (v.stackAddresses (page.vaddr &&& 0xffffffffe000)).isSome

/-- `KernelValidator::findCodePtrs`: the windows that are counted, and `none` where the program
exits. -/
def findCodePtrs (page : DataPage) : Option (List Nat) :=
  if v.isStack page then some [] else scan (v.codePtrStep page) (page.size - 4) 4

/-- The indices to which the scan comes. -/
def scanned (page : DataPage) : List Nat :=
  if v.isStack page then [] else positions (v.codePtrStep page) (page.size - 4) 4

/-! ## Windows that are to be counted -/

/-- The window at `w` points into the initialized code of a loader, and no rule exempts it. -/
structure UnexpectedPtr (page : DataPage) (w : Nat) (elfloader : KernelspaceLoaderRef) : Prop where
  upper_half : load32 page.pageInMem (w + 4) = 0xffffffff
  not_all_ones : page.longPtr w ≠ 0xffffffffffffffff
  code : v.CodeOf elfloader (page.longPtr w)
  not_function : v.symbols.isFunction (page.longPtr w) = false
  not_symbol : v.symbols.isSymbol (page.longPtr w) = false
  not_exempted : v.exemptedIn elfloader (page.longPtr w) = false
  not_bp_int3 : page.address w ≠ v.bpInt3Addr

/-- The window at `w` is counted exactly once. -/
def CountedOnce (page : DataPage) (w : Nat) : Prop :=
  ∃ found, v.findCodePtrs page = some found ∧ found.count w = 1

/-- The scan goes on at the next index, whatever it finds. -/
def NeverLeaps (page : DataPage) : Prop :=
  ∀ i ∈ v.scanned page, ∃ note, v.codePtrStep page i = .pass 0 note

/-- The window at `w` makes the scan leap or stop. -/
def Leap (page : DataPage) (w : Nat) : Prop :=
  page.longPtr w = 0xffffffffffffffff ∨ page.longPtr w = 0xffffffff815237b0 ∨
    load32 page.pageInMem (w + 4) = 0xffffffff ∧ v.exempted (page.longPtr w) = false ∧
      page.address w = v.bpInt3Addr

/-- Nothing in the page keeps the scan from a window that is to be counted. For a stack, there is
no such window; otherwise there is no leap in front of the last window, the last window is not to
be counted, and the loader that is found for a window does not exempt it either. -/
def ScansAll (page : DataPage) : Prop :=
  if v.isStack page then ∀ w elfloader, w + 8 ≤ page.size → ¬ v.UnexpectedPtr page w elfloader
  else (∀ w, w + 8 < page.size → ¬ v.Leap page w) ∧
    ∀ w elfloader, w + 8 ≤ page.size → v.UnexpectedPtr page w elfloader →
      w + 8 < page.size ∧ v.exempted (page.longPtr w) = false

variable {v} {page : DataPage} {w : Nat} {elfloader : KernelspaceLoaderRef}

/-- The upper half of the window at `w`. -/
theorem load32_of_longPtr (h : page.longPtr w = 0xffffffffffffffff ∨
    page.longPtr w = 0xffffffff815237b0) : load32 page.pageInMem (w + 4) = 0xffffffff := by
  have hsplit : (page.longPtr w).extractLsb' 32 32 = load32 page.pageInMem (w + 4) := by
    unfold DataPage.longPtr load64
    ext j hj
    simp only [BitVec.getElem_extractLsb', BitVec.getLsbD_append]
    have hnot : ¬ 32 + j < 32 := by omega
    have hback : 32 + j - 32 = j := by omega
    rw [if_neg hnot, hback, BitVec.getLsbD_eq_getElem hj]
  rcases h with h | h
  · rw [← hsplit, h]
    rfl
  · rw [← hsplit, h]
    rfl

theorem codePtrStep_pass_iff :
    (∃ note, v.codePtrStep page (w + 4) = .pass 0 note) ↔ ¬ v.Leap page w := by
  have hw : w + 4 - 4 = w := by omega
  unfold codePtrStep Leap
  rw [hw]
  by_cases hupper : load32 page.pageInMem (w + 4) = 0xffffffff
  · rw [if_neg (not_not_intro hupper)]
    by_cases hones : page.longPtr w = 0xffffffffffffffff
    · simp [hones]
    · by_cases hmagic : page.longPtr w = 0xffffffff815237b0
      · simp [hmagic]
      · rw [if_neg hones, if_neg hmagic]
        cases hexempted : v.exempted (page.longPtr w) with
        | true =>
            refine iff_of_true ⟨none, rfl⟩ ?_
            rintro (h | h | ⟨-, h, -⟩)
            · exact hones h
            · exact hmagic h
            · cases h
        | false =>
            by_cases hbp : page.address w = v.bpInt3Addr
            · simp [hbp, hupper]
            · rw [if_neg Bool.false_ne_true, if_neg hbp]
              refine iff_of_true ⟨some w, rfl⟩ ?_
              rintro (h | h | ⟨-, -, h⟩)
              · exact hones h
              · exact hmagic h
              · exact hbp h
  · rw [if_pos hupper]
    refine iff_of_true ⟨none, rfl⟩ ?_
    rintro (h | h | ⟨h, -⟩)
    · exact hupper (load32_of_longPtr (.inl h))
    · exact hupper (load32_of_longPtr (.inr h))
    · exact hupper h

/-- A window is noted at one index only. -/
theorem eq_of_codePtrStep_note {i : Nat} (hi : 4 ≤ i)
    (h : (v.codePtrStep page i).note = some w) : i = w + 4 := by
  unfold codePtrStep at h
  dsimp only at h
  split at h
  · cases h
  · split at h
    · cases h
    · split at h
      · cases h
      · split at h
        · cases h
        · split at h
          · cases h
          · have := Option.some.inj h
            omega

/-- Where it does not leap, the scan notes the windows that are to be counted. -/
theorem codePtrStep_note_iff (hptr : v.UnexpectedPtr page w elfloader) (hleap : ¬ v.Leap page w) :
    (v.codePtrStep page (w + 4)).note = some w ↔ v.exempted (page.longPtr w) = false := by
  have hw : w + 4 - 4 = w := by omega
  have hmagic : page.longPtr w ≠ 0xffffffff815237b0 := fun h => hleap (.inr (.inl h))
  unfold codePtrStep
  rw [hw, if_neg (not_not_intro hptr.upper_half), if_neg hptr.not_all_ones, if_neg hmagic,
    if_neg hptr.not_bp_int3]
  cases v.exempted (page.longPtr w) with
  | true => simp [ScanStep.note]
  | false => simp [ScanStep.note]

/-- Which windows are counted, in a page that is not a stack. -/
theorem countedOnce_iff (hstack : v.isStack page = false) : v.CountedOnce page w ↔
    (∀ i ∈ v.scanned page, v.codePtrStep page i ≠ .stop) ∧ w + 4 ∈ v.scanned page ∧
      (v.codePtrStep page (w + 4)).note = some w := by
  unfold CountedOnce findCodePtrs scanned
  rw [hstack, if_neg Bool.false_ne_true, if_neg Bool.false_ne_true]
  by_cases hstop : ∃ i ∈ positions (v.codePtrStep page) (page.size - 4) 4,
      v.codePtrStep page i = .stop
  · -- nothing is returned by a scan that stops
    obtain ⟨i, hi, hs⟩ := hstop
    rw [scan_of_stop ⟨i, hi, hs⟩]
    constructor
    · rintro ⟨found, hfound, -⟩
      cases hfound
    · rintro ⟨hnone, -⟩
      exact absurd hs (hnone i hi)
  · have hnone : ∀ i ∈ positions (v.codePtrStep page) (page.size - 4) 4,
        v.codePtrStep page i ≠ .stop := fun i hi hs => hstop ⟨i, hi, hs⟩
    rw [scan_eq hnone, and_iff_right hnone]
    have hle : ∀ i ∈ positions (v.codePtrStep page) (page.size - 4) 4, 4 ≤ i :=
      fun i hi => (le_of_mem_positions hi).1
    constructor
    · rintro ⟨found, hfound, hcount⟩
      cases hfound
      have hmem := List.count_pos_iff.mp (Nat.lt_of_lt_of_eq Nat.one_pos hcount.symm)
      obtain ⟨i, hi, hnote⟩ := List.mem_filterMap.mp hmem
      obtain rfl := eq_of_codePtrStep_note (hle i hi) hnote
      exact ⟨hi, hnote⟩
    · rintro ⟨hmem, hnote⟩
      refine ⟨_, rfl, ?_⟩
      rw [count_notes (j := w + 4), if_pos hmem]
      intro k hk
      constructor
      · exact eq_of_codePtrStep_note (hle k hk)
      · rintro rfl
        exact hnote

theorem neverLeaps_iff (hstack : v.isStack page = false) :
    v.NeverLeaps page ↔ ∀ w, w + 8 < page.size → ¬ v.Leap page w := by
  unfold NeverLeaps scanned
  rw [hstack, if_neg Bool.false_ne_true, forall_positions_iff]
  constructor
  · intro h w hw
    exact codePtrStep_pass_iff.mp (h (w + 4) (by omega) (by omega))
  · intro h i hi hlt
    obtain ⟨w, rfl⟩ : ∃ w, i = w + 4 := ⟨i - 4, by omega⟩
    exact codePtrStep_pass_iff.mpr (h w (by omega))

/-- Without leaps, the scan comes to all windows but the last one. -/
theorem mem_scanned_iff (hstack : v.isStack page = false) (h : v.NeverLeaps page) :
    w + 4 ∈ v.scanned page ↔ w + 8 < page.size := by
  unfold NeverLeaps at h
  unfold scanned at h ⊢
  rw [hstack, if_neg Bool.false_ne_true] at h ⊢
  rw [mem_positions_iff]
  constructor
  · rintro ⟨-, hlt, -⟩
    omega
  · intro hlt
    refine ⟨by omega, by omega, fun k hk hides => ?_⟩
    obtain ⟨note, hstep⟩ := h k hk
    have := (hides_of_pass hstep).mp hides
    omega

/-- **When the scan misses no window**: every window that is to be counted is counted exactly once
and nothing makes the scan leap, exactly under the condition `ScansAll`. -/
theorem findCodePtrs_exact_iff (v : KernelValidator) (page : DataPage) :
    ((∀ w elfloader, w + 8 ≤ page.size → v.UnexpectedPtr page w elfloader →
        v.CountedOnce page w) ∧ v.NeverLeaps page) ↔ v.ScansAll page := by
  unfold ScansAll
  cases hstack : v.isStack page with
  | true =>
      -- a stack is not scanned, and nothing is counted in it
      rw [if_pos rfl]
      have hscanned : v.scanned page = [] := by rw [scanned, hstack, if_pos rfl]
      have hnever : v.NeverLeaps page := by
        intro i hi
        rw [hscanned] at hi
        cases hi
      have hnot : ∀ w, ¬ v.CountedOnce page w := by
        rintro w ⟨found, hfound, hcount⟩
        rw [findCodePtrs, hstack, if_pos rfl] at hfound
        cases hfound
        cases hcount
      constructor
      · rintro ⟨h, -⟩ w elfloader hw hptr
        exact hnot w (h w elfloader hw hptr)
      · intro h
        exact ⟨fun w elfloader hw hptr => absurd hptr (h w elfloader hw), hnever⟩
  | false =>
      rw [if_neg Bool.false_ne_true, ← neverLeaps_iff hstack, and_comm]
      apply and_congr_right
      intro hnever
      have hleap := (neverLeaps_iff hstack).mp hnever
      have hnostop : ∀ i ∈ v.scanned page, v.codePtrStep page i ≠ .stop := by
        intro i hi hstop
        obtain ⟨note, hstep⟩ := hnever i hi
        rw [hstop] at hstep
        cases hstep
      apply forall_congr'
      intro w
      apply forall_congr'
      intro elfloader
      apply imp_congr_right
      intro hw
      apply imp_congr_right
      intro hptr
      rw [countedOnce_iff hstack, and_iff_right hnostop, mem_scanned_iff hstack hnever]
      apply and_congr_right
      intro hlt
      exact codePtrStep_note_iff hptr (hleap w hlt)

end KernelValidator

/-! ## The last window of a page -/

/-- The section header of the exception table. -/
def exTableHeader : Elf64_Shdr where
  sh_name := "__ex_table"
  sh_type := 1
  sh_flags := SHF_ALLOC
  sh_addr := 0xffffffff81800000
  sh_offset := 0x900000
  sh_size := 0x1000
  sh_link := 0
  sh_info := 0
  sh_addralign := 8

def plainFile : ElfFile where
  e_type := ET_EXEC
  e_entry := 0
  fileContent := 0
  elf64Shdr := [exTableHeader]
  shnum_lt := by decide
  rela := fun _ => []
  sym := fun _ _ => default
  symbolName := fun _ _ => ""

theorem size_pos_of_none (_ : List Byte) (_ : U64) (insn : Insn)
    (h : (none : Option Insn) = some insn) : 0 < insn.size := by
  cases h

theorem size_le_of_none (bs : List Byte) (_ : U64) (insn : Insn)
    (h : (none : Option Insn) = some insn) : insn.size ≤ bs.length := by
  cases h

/-- A kernel with one page of text, none of which is an instruction, and without symbols. -/
def plainValidator : KernelValidator where
  kernelLoader := { elffile := plainFile, textSegment := pageAt 0xffffffff81000000 }
  moduleMap := []
  text := fun _ =>
    { textSegmentContent := List.replicate 0x1000 0x06
      hostText := fun _ => 0
      smpOffsets := ∅
      jumpEntries := fun _ => none
      jumpDestinations := ∅ }
  exTable := plainFile.sectionInfo 0 exTableHeader
  exTable_eq := rfl
  symbols :=
    { isFunction := fun _ => false
      isSymbol := fun _ => false
      getContainingSymbol := fun _ => 0
      getElfSymbolName := fun _ => ""
      getSymbolAddress := fun _ => 0 }
  stackAddresses := fun _ => none
  callTargets := Multimap.empty
  disassembler := ⟨fun _ _ => none, size_pos_of_none, size_le_of_none⟩

/-- A page whose last eight bytes point into the text. -/
def lastPtrPage : DataPage where
  vaddr := 0xffff81a00000
  size := 0x1000
  pageInMem := fun k =>
    if k < 0xff8 then 0 else (0xffffffff81000010 : U64).extractLsb' (8 * (k - 0xff8)) 8
  four_le_size := by decide

theorem plainValidator_exemptedIn :
    plainValidator.exemptedIn .kernel 0xffffffff81000010 = false := by
  have hlength : (plainValidator.text .kernel).textSegmentContent.length = 0x1000 :=
    List.length_replicate
  have hreturn : plainValidator.isReturnAddress .kernel 0xffffffff81000010 = 0 := rfl
  unfold KernelValidator.exemptedIn
  dsimp only
  rw [hlength, hreturn]
  decide

theorem lastPtrPage_unexpectedPtr :
    plainValidator.UnexpectedPtr lastPtrPage 0xff8 .kernel := by
  have hvalue : lastPtrPage.longPtr 0xff8 = 0xffffffff81000010 := by decide
  refine ⟨by decide, by decide, ?_, rfl, rfl, ?_, by decide⟩
  · rw [hvalue]
    show plainValidator.kernelLoader.isCodeAddress 0xffffffff81000010 = true
    decide
  · rw [hvalue]
    exact plainValidator_exemptedIn

/-- **A window that is missed**: the scan ends in front of the last one. -/
theorem lastPtrPage_not_counted :
    plainValidator.isStack lastPtrPage = false ∧ 0xff8 + 8 ≤ lastPtrPage.size ∧
      plainValidator.UnexpectedPtr lastPtrPage 0xff8 .kernel ∧
      ¬ plainValidator.CountedOnce lastPtrPage 0xff8 := by
  refine ⟨rfl, Nat.le_refl _, lastPtrPage_unexpectedPtr, fun hcounted => ?_⟩
  obtain ⟨-, hmem, -⟩ := (KernelValidator.countedOnce_iff rfl).mp hcounted
  have hlt : 0xff8 + 4 < 0x1000 - 4 := (le_of_mem_positions hmem).2
  omega

end KernInt
