import KernInt.Elf.ElfFile
import KernInt.Lib.CString
import KernInt.Lib.Checked

set_option autoImplicit false

/-! # ELF files as bytes

The constructor of `ElfFile64` and the functions that read names, dependencies and symbols follow
offsets, counts and indices in the file. Here each of their reads is checked, and so is that a loop
ends; the program itself checks the magic number of a file and the class byte, and nothing else.
A pointer into the buffer is its offset from `fileContent`, and the arithmetic wraps around.
-/

namespace KernInt

open Lib

def ELFCLASS64 : Byte := 2
def DT_NULL : U64 := 0
def DT_NEEDED : U64 := 1
def DT_SONAME : U64 := 14

/-- The first four bytes of a file. -/
def ELFMAG : List Byte := [0x7f, 0x45, 0x4c, 0x46]

/-- Ways in which reading ends without a result. -/
inductive ReadStop where
  | outside
  | endless
  | nullDereference
  | nullResult
  | exception (text : String)
  deriving DecidableEq

/-- All but null results and exceptions. -/
def ReadStop.Bad : ReadStop → Prop
  | .outside => True
  | .endless => True
  | .nullDereference => True
  | .nullResult => False
  | .exception _ => False

/-- The bytes of a buffer. -/
structure ElfBytes where
  content : List Byte
  fits : content.length < 2 ^ 64

namespace ElfBytes

variable (f : ElfBytes)

def size : Nat := f.content.length

def mem : Nat → Byte := bufferOf f.content fun _ => 0

/-! ## Fields -/

def u8 (a : U64) : Byte := f.mem a.toNat
def u16 (a : U64) : BitVec 16 := f.mem (a.toNat + 1) ++ f.mem a.toNat
def u32 (a : U64) : U32 := load32 f.mem a.toNat
def u64 (a : U64) : U64 := load64 f.mem a.toNat

/-- All `n` bytes are in the buffer. -/
def Inside (a : U64) (n : Nat) : Prop := a.toNat + n ≤ f.size

instance (a : U64) (n : Nat) : Decidable (f.Inside a n) := inferInstanceAs (Decidable (_ ≤ _))

/-- The value of `n` bytes, if they are in the buffer. -/
def get {α : Type} (a : U64) (n : Nat) (value : α) : Except ReadStop α :=
  if f.Inside a n then .ok value else .error .outside

def read8 (a : U64) : Except ReadStop Byte := f.get a 1 (f.u8 a)
def read16 (a : U64) : Except ReadStop (BitVec 16) := f.get a 2 (f.u16 a)
def read32 (a : U64) : Except ReadStop U32 := f.get a 4 (f.u32 a)
def read64 (a : U64) : Except ReadStop U64 := f.get a 8 (f.u64 a)

def reader : Reader := fun a => f.content[a.toNat]?

/-- The bytes from `a` on up to the next NUL. -/
def stringBytes (a : U64) : Option StdString := bytesWhile f.reader (· != 0) (f.size + 1) a

/-- `std::string(a)` -/
def readString (a : U64) : Except ReadStop StdString :=
  match f.stringBytes a with
  | some s => .ok s
  | none => .error .outside

/-- There is a NUL in the buffer at this address or behind it. -/
def Terminated (a : U64) : Prop := ∃ k, a.toNat ≤ k ∧ f.content[k]? = some 0

/-- The string at an address where there is one. -/
def string (a : U64) : StdString := (f.stringBytes a).getD []

end ElfBytes

/-- A name with its bytes as characters. -/
def nameText (name : StdString) : String := String.ofList (name.map fun b => Char.ofNat b.toNat)

/-! ## The constructor -/

/-- What the constructor saves. -/
structure ElfImage where
  e_shoff : U64
  sections : List SectionInfo
  segments : List SegmentInfo

namespace ElfBytes

variable (f : ElfBytes)

def e_type : BitVec 16 := f.u16 0x10
def e_phoff : U64 := f.u64 0x20
def e_shoff : U64 := f.u64 0x28
def e_phnum : Nat := (f.u16 0x38).toNat
def e_shnum : Nat := (f.u16 0x3c).toNat
def e_shstrndx : Nat := (f.u16 0x3e).toNat

end ElfBytes

/-- The address of a section header. -/
def shdrAt (e_shoff : U64) (i : Nat) : U64 := e_shoff + BitVec.ofNat 64 (64 * i)

/-- The address of a program header. -/
def phdrAt (e_phoff : U64) (i : Nat) : U64 := e_phoff + BitVec.ofNat 64 (56 * i)

namespace ElfBytes

variable (f : ElfBytes)

def sectionName (e_shoff : U64) (shstrndx i : Nat) : Except ReadStop StdString := do
  let sh_offset ← f.read64 (shdrAt e_shoff shstrndx + 24)
  let sh_name ← f.read32 (shdrAt e_shoff i)
  f.readString (sh_offset + sh_name.setWidth 64)

def readSection (e_shoff : U64) (shstrndx i : Nat) : Except ReadStop SectionInfo := do
  let section_name ← f.sectionName e_shoff shstrndx i
  let sh_offset ← f.read64 (shdrAt e_shoff i + 24)
  let sh_addr ← f.read64 (shdrAt e_shoff i + 16)
  let sh_size ← f.read64 (shdrAt e_shoff i + 32)
  let sh_flags ← f.read64 (shdrAt e_shoff i + 8)
  return {
    name := nameText section_name
    secID := BitVec.ofNat 32 i
    offset := sh_offset
    index := sh_offset
    memindex := sh_addr
    size := sh_size
    flags := sh_flags }

/-- A program header as a whole. -/
def segmentInfo (a : U64) : SegmentInfo where
  type := f.u32 a
  flags := f.u32 (a + 4)
  offset := f.u64 (a + 8)
  vaddr := f.u64 (a + 16)
  filesz := f.u64 (a + 32)
  memsz := f.u64 (a + 40)

/-- Only the headers of segments that are loaded are copied. -/
def readSegment (e_phoff : U64) (i : Nat) : Except ReadStop (Option SegmentInfo) := do
  let p_type ← f.read32 (phdrAt e_phoff i)
  if p_type = PT_LOAD then
    let hdr ← f.get (phdrAt e_phoff i) 56 (f.segmentInfo (phdrAt e_phoff i))
    return some hdr
  else return none

/-- The constructor of `ElfFile64`. -/
def construct : Except ReadStop ElfImage := do
  let e_shoff ← f.read64 0x28
  let e_phoff ← f.read64 0x20
  let shstrindex ← f.read16 0x3e
  let e_shnum ← f.read16 0x3c
  let sections ← (List.range e_shnum.toNat).mapM (f.readSection e_shoff shstrindex.toNat)
  let e_phnum ← f.read16 0x38
  let segments ← (List.range e_phnum.toNat).mapM (f.readSegment e_phoff)
  return { e_shoff, sections, segments := segments.reduceOption }

end ElfBytes

/-- Where a buffer comes from. -/
inductive Source where
  /-- `loadElfFile` -/
  | file
  /-- `loadElfFileFromBuffer` -/
  | buffer
  deriving DecidableEq

/-- Loading a file or a buffer. Of a buffer that is not of this class, the member `fd` is written
all the same. -/
def Source.load (src : Source) (f : ElfBytes) : Except ReadStop ElfImage :=
  match src with
  | .file =>
      if f.content.take 4 = ELFMAG then do
        let elfclass ← f.read8 4
        if elfclass = ELFCLASS64 then f.construct
        else .error (.exception "unsupported elfclass!\n")
      else .error .nullResult
  | .buffer => do
      let elfclass ← f.read8 4
      if elfclass = ELFCLASS64 then f.construct
      else .error .nullDereference

/-! ## The functions of the file -/

def ElfImage.findSectionWithName (image : ElfImage) (sectionName : String) :
    Except ReadStop SectionInfo :=
  match image.sections.find? fun sI => sI.name = sectionName with
  | some sI => .ok sI
  | none => .error (.exception "could not find section by name")

/-- A symbol without its section and its segment. -/
structure RawSymbol where
  name : StdString
  value : U64
  info : Byte
  shndx : BitVec 16
  deriving DecidableEq

namespace ElfBytes

variable (f : ElfBytes) (image : ElfImage)

/-- The loop over the entries of `.dynamic`. `visit` looks at an entry, and may leave the loop. The
counter is an `int`, so there is no way on behind entry `2 ^ 31 - 1`. -/
def walkDynamic {σ ρ : Type} (visit : U64 → U64 → σ → Except ReadStop (Round σ ρ))
    (atEnd : σ → ρ) : Nat → U64 → σ → Except ReadStop ρ
  | 0, _, _ => .error .endless
  | left + 1, entry, s => do
      let d_tag ← f.read64 entry
      if d_tag = DT_NULL then return atEnd s
      else do
        let round ← visit d_tag entry s
        match round with
        | .again s => walkDynamic visit atEnd left (entry + 16) s
        | .leave r => return r

/-- The name of a dependency is taken from `.dynstr`. -/
def visitNeeded (strtab d_tag entry : U64) (dependencies : List StdString) :
    Except ReadStop (Round (List StdString) (List StdString)) :=
  if d_tag = DT_NEEDED then do
    let d_val ← f.read64 (entry + 8)
    let name ← f.readString (strtab + d_val)
    return .again (dependencies ++ [name])
  else return .again dependencies

/-- The files that have a section `.dynamic`. -/
def isDynamicOrExecutable (e_type : BitVec 16) : Bool := e_type = ET_DYN ∨ e_type = ET_EXEC

def getDependencies : Except ReadStop (List StdString) := do
  let e_type ← f.read16 0x10
  if isDynamicOrExecutable e_type then do
    let dynamic ← image.findSectionWithName ".dynamic"
    let dynstr ← image.findSectionWithName ".dynstr"
    f.walkDynamic (f.visitNeeded dynstr.index) id (2 ^ 31) dynamic.index []
  else return []

def visitSoname (d_tag _ : U64) (_ : Unit) : Except ReadStop (Round Unit Bool) :=
  if d_tag = DT_SONAME then return .leave true else return .again ()

def isDynamicLibrary : Except ReadStop Bool := do
  let e_type ← f.read16 0x10
  if isDynamicOrExecutable e_type then do
    let dynamic ← image.findSectionWithName ".dynamic"
    f.walkDynamic visitSoname (fun _ => false) (2 ^ 31) dynamic.index ()
  else return false

/-- The first section of type `SHT_SYMTAB` among these. -/
def findSymtab : List Nat → Except ReadStop (Option Nat)
  | [] => return none
  | i :: rest => do
      let sh_type ← f.read32 (shdrAt image.e_shoff i + 4)
      if sh_type = SHT_SYMTAB then return some i else findSymtab rest

/-- One round of the loop over the symbols: the entry at an address, with its name from the table
at `strtab`. -/
def readSymbol (strtab entry : U64) : Except ReadStop (Option RawSymbol) := do
  let shndx ← f.read16 (entry + 6)
  if shndx ≠ SHN_UNDEF ∧ shndx ≠ SHN_ABS ∧ shndx ≠ SHN_COMMON then do
    let st_name ← f.read32 entry
    let name ← f.readString (strtab + st_name.setWidth 64)
    if name = [] then return none
    else do
      let targetAddr ← f.read64 (entry + 8)
      if targetAddr = 0 then return none
      else do
        let info ← f.read8 (entry + 4)
        return some { name, value := targetAddr, info, shndx }
  else return none

/-- The loop over a table. Its counter has 32 bits, and does not come to the end of a longer
table. -/
def readSymbols (symtab size strtab : U64) : Except ReadStop (List RawSymbol) := do
  let ret ← (List.range (min (size / 24).toNat (2 ^ 32))).mapM fun i =>
    f.readSymbol strtab (symtab + BitVec.ofNat 64 (24 * i))
  if 2 ^ 32 ≤ (size / 24).toNat then .error .endless else return ret.reduceOption

/-- `getSymbols(false)`. A section that is not found throws, and this is caught. -/
def getSymbols : Except ReadStop (List RawSymbol) := do
  let e_type ← f.read16 0x10
  if isDynamicOrExecutable e_type then do
    let symtab ← f.findSymtab image (List.range image.sections.length)
    match symtab with
    | none => return []
    | some i => do
        let sh_link ← f.read32 (shdrAt image.e_shoff i + 40)
        match image.sections[i]?, image.sections[sh_link.toNat]? with
        | some symtabSection, some strtabSection =>
            f.readSymbols symtabSection.index symtabSection.size strtabSection.index
        | _, _ => return []
  else return []

end ElfBytes

end KernInt
