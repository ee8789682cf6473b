import KernInt.Elf.ElfFile

set_option autoImplicit false

/-! # Processes and their mappings

The data that `ProcessValidator` works on: the mappings of the process, as `getVMAInfo` read
them from the guest, the loaders of the files that are mapped, and the reads of guest memory.
-/

namespace KernInt

open Lib

def PAGESIZE : Nat := 0x1000

def VM_READ : U64 := 0x1
def VM_WRITE : U64 := 0x2
def VM_EXEC : U64 := 0x4

/-- A mapping, which is never empty. `stop` is the member `end`; the name is that of the
backing file, or a label in square brackets. The number of the inode of the file and the offset
in it, in pages, are 0 where no file backs the mapping. -/
structure VMAInfo where
  start : U64
  stop : U64
  ino : U64 := 0
  off : U64 := 0
  flags : U64
  name : String
  start_lt_stop : start < stop
  deriving DecidableEq

/-- The size of a mapping. -/
def VMAInfo.length (vma : VMAInfo) : Nat :=
  (vma.stop - vma.start).toNat

theorem VMAInfo.start_add_length (vma : VMAInfo) :
    vma.start.toNat + vma.length = vma.stop.toNat := by
  have h := BitVec.lt_def.mp vma.start_lt_stop
  rw [length, BitVec.toNat_sub_of_le (BitVec.le_of_lt vma.start_lt_stop)]
  omega

/-- The loader of a mapped file: its path, the image of its code segment, what the host has
around that image, and the file itself. -/
structure ElfUserspaceLoader where
  name : String
  textSegmentContent : List Byte
  hostMemory : U64 → Byte
  elffile : ElfFile

/-- The byte at `textSegment.data() + k`. -/
def ElfUserspaceLoader.data (loader : ElfUserspaceLoader) (k : U64) : Byte :=
  loader.textSegmentContent.getD k.toNat (loader.hostMemory k)

/-- The names that the process' symbol manager knows. -/
structure SymbolManager where
  getElfSymbolName : U64 → String
  getContainingSymbol : U64 → U64

structure Process where
  name : String
  mappedVMAs : List VMAInfo
  execLoader : ElfUserspaceLoader
  findLoaderByFileName : String → Option ElfUserspaceLoader
  symbols : SymbolManager

/-- Reads of `n` bytes of guest memory at the virtual address `va` of the process; the flag is
the last argument, `false` where the source leaves it out. -/
structure VMIInstance where
  readVectorFromVA : (va n : U64) → Bool → List Byte

/-! ## Mapped pages -/

/-- The memory of the guest: which pages are mapped, by their number, and the bytes. -/
structure GuestMemory where
  mappedPage : Nat → Bool
  byte : U64 → Byte

namespace GuestMemory

variable (g : GuestMemory)

def mapped (a : U64) : Bool :=
  g.mappedPage (a.toNat / PAGESIZE)

/-- The longest prefix of `[a, a + n)` whose pages are all mapped. -/
def mappedPrefix (a : U64) (n : Nat) : List Byte :=
  ((List.range n).takeWhile fun k => g.mapped (a + BitVec.ofNat 64 k)).map fun k =>
    g.byte (a + BitVec.ofNat 64 k)

/-- The prefix ends where it is long enough, or in front of an unmapped page. -/
theorem mappedPrefix_spec (a : U64) (n : Nat) :
    ∃ r ≤ n, (g.mappedPrefix a n).length = r ∧
      (∀ k < r, g.mapped (a + BitVec.ofNat 64 k) = true ∧
        (g.mappedPrefix a n)[k]? = some (g.byte (a + BitVec.ofNat 64 k))) ∧
      (r < n → g.mapped (a + BitVec.ofNat 64 r) = false) := by
  obtain ⟨r, hr, htake, hall, hstop⟩ :=
    takeWhile_range (fun k => g.mapped (a + BitVec.ofNat 64 k)) n
  refine ⟨r, hr, ?_, fun k hk => ⟨hall k hk, ?_⟩, hstop⟩
  · rw [mappedPrefix, htake, List.length_map, List.length_range]
  · rw [mappedPrefix, htake, List.getElem?_map, List.getElem?_range hk]
    rfl

end GuestMemory

/-- What is relied on of the reads: they return the longest mapped prefix. -/
def VMIInstance.ReadsMapped (vmi : VMIInstance) (g : GuestMemory) : Prop :=
  ∀ va n, vmi.readVectorFromVA va n false = g.mappedPrefix va n.toNat

end KernInt
