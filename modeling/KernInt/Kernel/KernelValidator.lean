import KernInt.Helpers
import KernInt.Kernel.Attribution
import KernInt.Lib.Multimap
import Mathlib.Data.Finset.Basic

set_option autoImplicit false

/-! # The kernel validator

What `KernelValidator` looks up while it goes through data pages and stacks: the loaders with the
text they have initialized, the symbols, the stacks and the recorded calls. The symbols come from
a library, and a lookup there is a function of the address.
-/

namespace KernInt

open Lib

/-- The text of a loader, and what the loader has recorded about it. `hostText` is the memory of
the host as seen from the beginning of the content. -/
structure LoaderText where
  textSegmentContent : List Byte
  hostText : U64 → Byte
  smpOffsets : Finset U64
  jumpEntries : U64 → Option U32
  jumpDestinations : Finset U64

/-- The byte at a distance from the beginning of the content. -/
def LoaderText.mem (t : LoaderText) (k : U64) : Byte :=
  t.textSegmentContent.getD k.toNat (t.hostText k)

/-- What is asked of the `SymbolManager` of the kernel. -/
structure KernelSymbols where
  isFunction : U64 → Bool
  isSymbol : U64 → Bool
  getContainingSymbol : U64 → U64
  getElfSymbolName : U64 → String
  getSymbolAddress : String → U64

/-- `exTable` is looked up again by each scan; `initText` has found it before. -/
structure KernelValidator where
  kernelLoader : ElfKernelLoader
  moduleMap : List ElfModuleLoader
  text : KernelspaceLoaderRef → LoaderText
  exTable : SectionInfo
  exTable_eq : kernelLoader.elffile.findSectionWithName "__ex_table" = .ok exTable
  symbols : KernelSymbols
  stackAddresses : U64 → Option U64
  callTargets : Multimap U64 U64
  disassembler : Disassembler

namespace KernelValidator

variable (v : KernelValidator)

def textSegment : KernelspaceLoaderRef → SectionInfo
  | .kernel => v.kernelLoader.textSegment
  | .module m => m.textSegment

def isCodeAddress : KernelspaceLoaderRef → U64 → Bool
  | .kernel, address => v.kernelLoader.isCodeAddress address
  | .module m, address => m.isCodeAddress address

def getModuleForAddress (address : U64) : Option KernelspaceLoaderRef :=
  v.kernelLoader.getModuleForAddress v.moduleMap address

/-- The distance of an address from the text segment of a loader. -/
def textOffset (elfloader : KernelspaceLoaderRef) (address : U64) : U64 :=
  address - (v.textSegment elfloader).memindex

/-- `isReturnAddress` for an address in the text of a loader; its parameter `offset` has 32 bits. -/
def isReturnAddress (elfloader : KernelspaceLoaderRef) (address : U64) : U64 :=
  v.disassembler.isReturnAddress (v.text elfloader).mem
    ((v.textOffset elfloader address).setWidth 32) (v.textSegment elfloader).memindex

/-- The kernel or a loaded module has the address in its text segment. -/
def CodeOf (elfloader : KernelspaceLoaderRef) (address : U64) : Prop :=
  v.kernelLoader.Claims v.moduleMap address elfloader .code

end KernelValidator

end KernInt
