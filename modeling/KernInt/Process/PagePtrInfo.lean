import KernInt.Process.Process
import KernInt.Lib.Outcome
import KernInt.Lib.Tally
import Mathlib.Data.Finset.Card

set_option autoImplicit false

/-! # Pointers into a mapping

`PagePtrInfo` collects the pointers from one mapping into another one, each with the offsets
at which it was found, and classifies them (`showPtrs`). The class of a pointer is a set of
flags. It depends on the pointer and the mapping that it points into only (`ptrFlags`).
-/

namespace KernInt

open Lib

def PTR_NO_SECTION : U64 := 1 <<< 0
def PTR_PLAIN_FILE : U64 := 1 <<< 1
def PTR_SECTION_START : U64 := 1 <<< 2
def PTR_DYNSTR : U64 := 1 <<< 3
def PTR_DYNSYM : U64 := 1 <<< 4
def PTR_SEC_NOT_TEXT : U64 := 1 <<< 5
def PTR_SYMBOL : U64 := 1 <<< 6
def PTR_ENTRY : U64 := 1 <<< 7
def PTR_INVALID_INSTR : U64 := 1 <<< 8
def PTR_UNINT_INSTR : U64 := 1 <<< 9
def PTR_RETURN : U64 := 1 <<< 10
def PTR_UNKNOWN : U64 := 1 <<< 12
def PTR_GADGET : U64 := 1 <<< 13
def PTR_NOT_7f : U64 := 1 <<< 14
def PTR_UNINT_INSTR_NC : U64 := 1 <<< 15
def PTR_END_PRINTABLE : U64 := 1 <<< 16

/-- The sections that data may point into. -/
def allowedSections : List String :=
  [ ".data.rel.ro", ".data.rel.ro.local", ".dynamic", ".dynstr", ".dynsym", ".eh_frame",
    ".eh_frame_hdr", ".gcc_except_table", ".gnu.hash", ".gnu.version", ".gnu.version_d",
    ".gnu.version_r", ".got", ".got.plt", ".hash", ".interp", ".note.ABI-tag",
    ".note.gnu.build-id", ".plt", ".plt.got", ".rela.dyn", ".rela.plt", ".rodata",
    "__libc_IO_vtables", "__libc_thread_freeres_fn" ]

/-- Where the program does not go on: the use of a null loader, the assertion that the loader
has a text segment, and the assertion that a pointer has the same flags as before. -/
inductive Abort where
  | nullLoader
  | noData
  | otherFlags
  deriving DecidableEq

structure PagePtrInfo where
  count : U32
  ptrs : AList fun _ : U64 => Finset Nat
  toVMA : VMAInfo
  toLoader : Option ElfUserspaceLoader

namespace PagePtrInfo

def new (process : Process) (toVMA : VMAInfo) : PagePtrInfo where
  count := 0
  ptrs := ∅
  toVMA := toVMA
  toLoader := process.findLoaderByFileName toVMA.name

/-- The offsets at which the pointer `addr` has been found. -/
def wheres (info : PagePtrInfo) (addr : U64) : Finset Nat :=
  (info.ptrs.lookup addr).getD ∅

/-- `pos` is the parameter `where`. -/
def addPtr (info : PagePtrInfo) (pos : Nat) (addr : U64) : PagePtrInfo :=
  { info with
    count := info.count + 1
    ptrs := info.ptrs.insert addr (insert pos (info.wheres addr)) }

end PagePtrInfo

/-- The pointer, read from its highest byte on, has a zero byte that no byte with the highest
bit set follows. -/
def endsPrintable (ptr : U64) : Bool :=
  ([7, 6, 5, 4, 3, 2, 1, 0].foldl (fun (found : Bool × Bool) i =>
    let ptr_char : Byte := ptr.extractLsb' (8 * i) 8
    if !found.1 && ptr_char == 0 then (true, true)
    else if found.1 && ptr_char.msb then (false, false) else found) (false, false)).2

variable (d : Disassembler) (symbols : SymbolManager) (toVMA : VMAInfo)
  (toLoader : ElfUserspaceLoader)

/-- The end of the loop in `showPtrs`: pointers to instructions in no known role. -/
def unknownPtrFlags (flags ptr : U64) : U64 :=
  let flags := flags ||| PTR_UNKNOWN
  let flags := if endsPrintable ptr then flags ||| PTR_END_PRINTABLE else flags
  let offset := ptr - toVMA.start
  let len := BitVec.ofNat 64 toLoader.textSegmentContent.length - offset
  let ret := d.printInstructions (fun k => toLoader.data (offset + k)) (len.setWidth 32) ptr
  let end_valid := ret.2.1
  if end_valid then flags else flags ||| PTR_GADGET

/-- Pointers that are neither symbols nor entry points: what they have to do with the
instructions of their function. -/
def instructionPtrFlags (flags ptr : U64) : U64 :=
  let func := symbols.getContainingSymbol ptr
  let offset : U32 := (ptr - toVMA.start).setWidth 32
  if !d.isValidInstruction toLoader.data offset toVMA.start then
    flags ||| PTR_UNKNOWN ||| PTR_INVALID_INSTR
  else
    let flags :=
      if ptr - func > 0x4000 then flags ||| PTR_UNINT_INSTR_NC
      else if !d.isIntendedInstruction (fun k => toLoader.data (func - toVMA.start + k))
          ((ptr - func).setWidth 32) func then
        flags ||| PTR_UNKNOWN ||| PTR_UNINT_INSTR
      else flags
    let callAddr := d.isReturnAddress toLoader.data offset toVMA.start
    let flags := if callAddr ≠ 0 then flags ||| PTR_RETURN else flags
    if callAddr ≠ 0 ∧ checkFlags flags PTR_UNINT_INSTR = false then flags
    else unknownPtrFlags d toVMA toLoader flags ptr

/-- One round of the loop in `showPtrs`, for a mapping with a loader: the flags of `ptr`. -/
def ptrFlags (ptr : U64) : Except Abort U64 :=
  let flags := if ptr >>> 24 = 0 then PTR_NOT_7f else 0
  match toLoader.elffile.findSectionByOffset (ptr - toVMA.start) with
  | none => .ok (flags ||| PTR_NO_SECTION)
  | some toSec =>
      -- the test for `PTR_PLAIN_FILE` comes behind the use of the loader, which is not null
      if ptr - toVMA.start - toSec.offset = 0 then .ok (flags ||| PTR_SECTION_START)
      else
        let flags := if toSec.name = ".dynstr" then flags ||| PTR_DYNSTR else flags
        let flags := if toSec.name = ".dynsym" then flags ||| PTR_DYNSYM else flags
        if toSec.name ∈ allowedSections then .ok (flags ||| PTR_SEC_NOT_TEXT)
        else if symbols.getElfSymbolName ptr ≠ "" then .ok (flags ||| PTR_SYMBOL)
        else if toLoader.elffile.entryPoint = ptr - toVMA.start then .ok (flags ||| PTR_ENTRY)
        else if toSec.name = ".text" ∧ toLoader.textSegmentContent = [] then .error .noData
        else .ok (instructionPtrFlags d symbols toVMA toLoader flags ptr)

section

/-- The flags that the rules for instructions set. -/
def instructionFlags : U64 :=
  PTR_UNKNOWN ||| PTR_END_PRINTABLE ||| PTR_GADGET ||| PTR_INVALID_INSTR |||
    PTR_UNINT_INSTR_NC ||| PTR_UNINT_INSTR ||| PTR_RETURN

variable {d symbols toVMA toLoader} {i : Nat}

/-- The other flags stay as they are. -/
theorem unknownPtrFlags_getLsbD (hi : instructionFlags.getLsbD i = false) (flags ptr : U64) :
    (unknownPtrFlags d toVMA toLoader flags ptr).getLsbD i = flags.getLsbD i := by
  simp only [instructionFlags, BitVec.getLsbD_or, Bool.or_eq_false_iff] at hi
  obtain ⟨⟨⟨⟨⟨⟨hunknown, hprintable⟩, hgadget⟩, -⟩, -⟩, -⟩, -⟩ := hi
  have hfirst : (flags ||| PTR_UNKNOWN).getLsbD i = flags.getLsbD i :=
    getLsbD_or_of_eq hunknown
  have hsecond : (if endsPrintable ptr = true then flags ||| PTR_UNKNOWN ||| PTR_END_PRINTABLE
      else flags ||| PTR_UNKNOWN).getLsbD i = flags.getLsbD i :=
    getLsbD_ite ((getLsbD_or_of_eq hprintable).trans hfirst) hfirst
  exact getLsbD_ite hsecond ((getLsbD_or_of_eq hgadget).trans hsecond)

theorem instructionPtrFlags_getLsbD (hi : instructionFlags.getLsbD i = false) (flags ptr : U64) :
    (instructionPtrFlags d symbols toVMA toLoader flags ptr).getLsbD i = flags.getLsbD i := by
  have hall := hi
  simp only [instructionFlags, BitVec.getLsbD_or, Bool.or_eq_false_iff] at hi
  obtain ⟨⟨⟨⟨⟨⟨hunknown, -⟩, -⟩, hinvalid⟩, hnotChecked⟩, hunint⟩, hreturn⟩ := hi
  have hfirst : (flags ||| PTR_UNKNOWN).getLsbD i = flags.getLsbD i :=
    getLsbD_or_of_eq hunknown
  have hfunction : (if ptr - symbols.getContainingSymbol ptr > 0x4000 then
        flags ||| PTR_UNINT_INSTR_NC
      else if (!d.isIntendedInstruction
          (fun k => toLoader.data (symbols.getContainingSymbol ptr - toVMA.start + k))
          ((ptr - symbols.getContainingSymbol ptr).setWidth 32)
          (symbols.getContainingSymbol ptr)) = true then
        flags ||| PTR_UNKNOWN ||| PTR_UNINT_INSTR
      else flags).getLsbD i = flags.getLsbD i :=
    getLsbD_ite (getLsbD_or_of_eq hnotChecked)
      (getLsbD_ite ((getLsbD_or_of_eq hunint).trans hfirst) rfl)
  have hbehind := getLsbD_ite (c := d.isReturnAddress toLoader.data
      ((ptr - toVMA.start).setWidth 32) toVMA.start ≠ 0)
    ((getLsbD_or_of_eq hreturn).trans hfunction) hfunction
  exact getLsbD_ite ((getLsbD_or_of_eq hinvalid).trans hfirst)
    (getLsbD_ite hbehind ((unknownPtrFlags_getLsbD hall _ ptr).trans hbehind))

end

variable {d symbols toVMA toLoader} in
/-- Behind the rule for the start of a section. Only the flags of three earlier rules are set. -/
theorem ptrFlags_of_section {ptr : U64} {toSec : SectionInfo}
    (hfind : toLoader.elffile.findSectionByOffset (ptr - toVMA.start) = some toSec)
    (hstart : ptr - toVMA.start - toSec.offset ≠ 0) :
    ∃ flags : U64, (∀ i, (PTR_NOT_7f ||| PTR_DYNSTR ||| PTR_DYNSYM).getLsbD i = false →
        flags.getLsbD i = false) ∧
      ptrFlags d symbols toVMA toLoader ptr =
        if toSec.name ∈ allowedSections then .ok (flags ||| PTR_SEC_NOT_TEXT)
        else if symbols.getElfSymbolName ptr ≠ "" then .ok (flags ||| PTR_SYMBOL)
        else if toLoader.elffile.entryPoint = ptr - toVMA.start then .ok (flags ||| PTR_ENTRY)
        else if toSec.name = ".text" ∧ toLoader.textSegmentContent = [] then .error .noData
        else .ok (instructionPtrFlags d symbols toVMA toLoader flags ptr) := by
  unfold ptrFlags
  simp only [hfind]
  refine ⟨_, fun i hi => ?_, if_neg hstart⟩
  rw [BitVec.getLsbD_or, BitVec.getLsbD_or, Bool.or_eq_false_iff, Bool.or_eq_false_iff] at hi
  obtain ⟨⟨hnot7f, hdynstr⟩, hdynsym⟩ := hi
  have h7f : (if ptr >>> 24 = 0 then PTR_NOT_7f else 0).getLsbD i = false :=
    getLsbD_ite hnot7f BitVec.getLsbD_zero
  have hstr : (if toSec.name = ".dynstr" then
      (if ptr >>> 24 = 0 then PTR_NOT_7f else 0) ||| PTR_DYNSTR
      else if ptr >>> 24 = 0 then PTR_NOT_7f else 0).getLsbD i = false :=
    getLsbD_ite (by rw [getLsbD_or_of_eq hdynstr, h7f]) h7f
  exact getLsbD_ite (by rw [getLsbD_or_of_eq hdynsym, hstr]) hstr

variable {d symbols toVMA toLoader} in
/-- The only way for the classification to stop is the assertion that there is a text segment. -/
theorem ptrFlags_eq_error {ptr : U64} {a : Abort}
    (h : ptrFlags d symbols toVMA toLoader ptr = .error a) :
    a = .noData ∧ toLoader.textSegmentContent = [] := by
  unfold ptrFlags at h
  dsimp only at h
  split at h
  · cases h
  · replace h := error_of_ite_ok (error_of_ite_ok (error_of_ite_ok (error_of_ite_ok h)))
    split at h
    · rename_i hnone
      cases h
      exact ⟨rfl, hnone.2⟩
    · cases h

namespace PagePtrInfo

/-- The number of offsets and the flags of every pointer. -/
def showPtrs (info : PagePtrInfo) : Except Abort (Tally U64 U64) :=
  info.ptrs.entries.foldlM (fun ptr_class ptr =>
    match info.toLoader with
    | none => .error .nullLoader
    | some toLoader => do
        let flags ← ptrFlags d symbols info.toVMA toLoader ptr.1
        return ptr_class.insert ptr.1 (ptr.2.card, flags)) ∅

end PagePtrInfo

end KernInt
