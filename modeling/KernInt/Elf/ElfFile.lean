import KernInt.Helpers

set_option autoImplicit false

/-! # ELF files

The tables of an ELF file that the rest of the program reads: the section headers, the segments,
the entries of the relocation sections and the symbols. Names stand in the tables themselves, in
place of their offsets in a string section. The member `st_value` of a symbol is written by
relocations, so it is not here but part of the state that they work on.
-/

namespace KernInt

open Lib

def ET_REL : BitVec 16 := 1
def ET_EXEC : BitVec 16 := 2
def ET_DYN : BitVec 16 := 3

def SHT_PROGBITS : U32 := 1
def SHT_SYMTAB : U32 := 2
def SHT_STRTAB : U32 := 3
def SHT_RELA : U32 := 4
def SHT_REL : U32 := 9

def SHF_WRITE : U64 := 0x1
def SHF_ALLOC : U64 := 0x2
def SHF_EXECINSTR : U64 := 0x4

def SHN_UNDEF : BitVec 16 := 0
def SHN_ABS : BitVec 16 := 0xfff1
def SHN_COMMON : BitVec 16 := 0xfff2

def STB_LOCAL : Byte := 0
def STB_WEAK : Byte := 2

def STT_FUNC : Byte := 2

def PT_LOAD : U32 := 1
def PF_X : U32 := 0x1
def PF_W : U32 := 0x2
def PF_R : U32 := 0x4

/-- A section header. -/
structure Elf64_Shdr where
  sh_name : String
  sh_type : U32
  sh_flags : U64
  sh_addr : U64
  sh_offset : U64
  sh_size : U64
  sh_link : U32
  sh_info : U32
  sh_addralign : U64
  deriving DecidableEq, Inhabited

structure Elf64_Sym where
  st_name : U32
  st_info : Byte
  st_shndx : BitVec 16
  deriving DecidableEq, Inhabited

structure Elf64_Rela where
  r_offset : U64
  r_info : U64
  r_addend : U64
  deriving DecidableEq, Inhabited

def ELF64_R_SYM (i : U64) : Nat := (i >>> 32).toNat
def ELF64_R_TYPE (i : U64) : U32 := i.setWidth 32
def ELF64_ST_BIND (val : Byte) : Byte := val >>> 4
def ELF64_ST_TYPE (val : Byte) : Byte := val &&& 0xf

/-- A section as the program works with it. `index` is the address of its content on the host,
`memindex` the one in the guest. -/
structure SectionInfo where
  name : String
  secID : U32
  offset : U64
  index : U64
  memindex : U64
  size : U64
  flags : U64
  deriving DecidableEq

/-- A segment as the program header has it. -/
structure SegmentInfo where
  type : U32
  flags : U32
  offset : U64
  vaddr : U64
  filesz : U64
  memsz : U64
  deriving DecidableEq

/-- The empty section, whose id no section of a file has. -/
def SectionInfo.empty : SectionInfo where
  name := ""
  secID := 0xffffffff
  offset := 0
  index := 0
  memindex := 0
  size := 0
  flags := 0

/-- The address behind the end counts as well. -/
def SectionInfo.containsElfAddress (info : SectionInfo) (address : U64) : Bool :=
  info.index ≤ address && address ≤ info.index + info.size

/-- So it does here. -/
def SectionInfo.containsMemAddress (info : SectionInfo) (address : U64) : Bool :=
  info.memindex ≤ address && address ≤ info.memindex + info.size

/-- An ELF file. `fileContent` is the address of its first byte on the host. -/
structure ElfFile where
  e_type : BitVec 16
  e_entry : U64
  fileContent : U64
  elf64Shdr : List Elf64_Shdr
  /-- Their number, `e_shnum`, has 16 bits. -/
  shnum_lt : elf64Shdr.length < 2 ^ 16
  segments : List SegmentInfo := []
  /-- The entries of the section with this number. -/
  rela : Nat → List Elf64_Rela
  /-- The symbols of the section with this number. -/
  sym : Nat → Nat → Elf64_Sym
  /-- The name at an offset in the section with this number. -/
  symbolName : U32 → U32 → String

theorem ElfFile.shnum_lt_nil : ([] : List Elf64_Shdr).length < 2 ^ 16 := by
  decide

theorem ElfFile.shnum_lt_three (a b c : Elf64_Shdr) : [a, b, c].length < 2 ^ 16 := by
  show 3 < 2 ^ 16
  decide

/-- What the program throws, and the points at which it aborts. -/
inductive ElfError where
  | error (text : String)
  | internalError (text : String)
  | assertion
  | divisionByZero
  deriving DecidableEq

namespace ElfFile

variable (elf : ElfFile)

def getNrOfSections : Nat := elf.elf64Shdr.length

/-- The header with number `i` of a table that is long enough. -/
def shdr (i : Nat) : Elf64_Shdr := elf.elf64Shdr.getD i default

def sectionName (sectionID : Nat) : String := (elf.shdr sectionID).sh_name

def sectionAlign (sectionID : Nat) : U64 := (elf.shdr sectionID).sh_addralign

def entryPoint : U64 := elf.e_entry

/-- The section with number `i` as the constructor of the file saves it. -/
def sectionInfo (i : Nat) (shdr : Elf64_Shdr) : SectionInfo where
  name := shdr.sh_name
  secID := BitVec.ofNat 32 i
  offset := shdr.sh_offset
  index := elf.fileContent + shdr.sh_offset
  memindex := shdr.sh_addr
  size := shdr.sh_size
  flags := shdr.sh_flags

def sections : List SectionInfo := elf.elf64Shdr.mapIdx elf.sectionInfo

/-- Of several sections with one name, the map has kept the first. -/
def findSectionWithName (sectionName : String) : Except ElfError SectionInfo :=
  match elf.sections.find? fun sI => sI.name = sectionName with
  | some sI => .ok sI
  | none => .error (.error "could not find section by name")

def findSectionByID (sectionID : U32) : Except ElfError SectionInfo :=
  match elf.sections[sectionID.toNat]? with
  | some sI => .ok sI
  | none => .error (.error "could not find section by id")

/-- The first section whose offsets in the file contain `offset`. -/
def findSectionByOffset (offset : U64) : Option SectionInfo :=
  elf.sections.find? fun sI => contains sI.offset sI.size offset

/-- The two flags are combined by `&`, as the source has it. -/
def isCodeAddress (address : U64) : Bool :=
  match elf.elf64Shdr.find? fun shdr => contains shdr.sh_addr shdr.sh_size address with
  | some shdr => checkFlags shdr.sh_flags (SHF_ALLOC &&& SHF_EXECINSTR)
  | none => false

/-- The first section that contains the address is allocated and holds no code. -/
def isDataAddress (address : U64) : Bool :=
  match elf.elf64Shdr.find? fun shdr => contains shdr.sh_addr shdr.sh_size address with
  | some shdr => checkFlags shdr.sh_flags SHF_ALLOC && !checkFlags shdr.sh_flags SHF_EXECINSTR
  | none => false

def findCodeSegment : Except ElfError SegmentInfo :=
  match elf.segments.find? fun seg => seg.type = PT_LOAD ∧ seg.flags = PF_X ||| PF_R with
  | some seg => .ok seg
  | none => .error (.error "could not find code segment")

/-- The first segment that contains the address; the address behind its end counts as well. -/
def findSegmentByVaddr (addr : U64) : Except ElfError SegmentInfo :=
  match elf.segments.find? fun seg => seg.vaddr ≤ addr ∧ addr ≤ seg.vaddr + seg.memsz with
  | some seg => .ok seg
  | none => .error (.error "could not find segment by vaddr")

theorem length_sections : elf.sections.length = elf.getNrOfSections :=
  List.length_mapIdx

theorem getElem?_sections {i : Nat} (hi : i < elf.getNrOfSections) :
    elf.sections[i]? = some (elf.sectionInfo i (elf.shdr i)) := by
  rw [sections, List.getElem?_mapIdx, List.getElem?_eq_getElem hi, Option.map_some, shdr,
    List.getD_eq_getElem?_getD, List.getElem?_eq_getElem hi, Option.getD_some]

theorem lt_of_findSectionByID {sectionID : U32} {sI : SectionInfo}
    (h : elf.findSectionByID sectionID = .ok sI) : sectionID.toNat < elf.getNrOfSections := by
  unfold findSectionByID at h
  split at h
  · rename_i sI' hget
    have hlt := (List.getElem?_eq_some_iff.mp hget).1
    rwa [length_sections] at hlt
  · cases h

theorem findSectionByID_of_lt {sectionID : U32} (h : sectionID.toNat < elf.getNrOfSections) :
    elf.findSectionByID sectionID =
      .ok (elf.sectionInfo sectionID.toNat (elf.shdr sectionID.toNat)) := by
  unfold findSectionByID
  rw [elf.getElem?_sections h]

/-- The section that is found is the one of the header with this number. -/
theorem findSectionByID_eq_ok {sectionID : U32} {sI : SectionInfo}
    (h : elf.findSectionByID sectionID = .ok sI) :
    sI = elf.sectionInfo sectionID.toNat (elf.shdr sectionID.toNat) := by
  rw [elf.findSectionByID_of_lt (elf.lt_of_findSectionByID h)] at h
  exact (Except.ok.inj h).symm

theorem index_of_findSectionWithName {elf : ElfFile} {sectionName : String} {sI : SectionInfo}
    (h : elf.findSectionWithName sectionName = .ok sI) :
    sI.index = elf.fileContent + sI.offset := by
  unfold findSectionWithName at h
  split at h
  · rename_i sI' hfind
    cases h
    have hmem : sI ∈ elf.sections := List.mem_of_find?_eq_some hfind
    obtain ⟨i, hi, rfl⟩ := List.mem_mapIdx.mp hmem
    rfl
  · cases h

theorem secID_of_findSectionByID {sectionID : U32} {sI : SectionInfo}
    (h : elf.findSectionByID sectionID = .ok sI) : sI.secID = sectionID := by
  rw [elf.findSectionByID_eq_ok h]
  show BitVec.ofNat 32 sectionID.toNat = sectionID
  rw [BitVec.ofNat_toNat, BitVec.setWidth_eq]

end ElfFile

/-! ## Loaded modules -/

/-- The entry of a module in the list of modules of the guest, as far as it is read: the size
of the structure and its address, and the members `gpl_syms`, `percpu` and `sect_attrs`, the
latter as the names and the addresses of its array `attrs`. -/
structure ModuleInstance where
  size : U64
  address : U64
  gpl_syms : U64
  percpu : U64
  sect_attrs : List (String × U64)

/-- The guest address of a section of a module. -/
def findMemAddressOfSegment (elf : ElfFile) (currentModule : ModuleInstance)
    (info : SectionInfo) : Except ElfError U64 :=
  if info.name = ".bss" then
    let align := elf.sectionAlign info.secID.toNat
    if align = 0 then .error .divisionByZero
    else
      let offset := currentModule.size % align
      let offset := if offset = 0 then currentModule.size else currentModule.size + align - offset
      .ok (currentModule.address + offset)
  else if info.name = "__ksymtab_gpl" then .ok currentModule.gpl_syms
  else
    match currentModule.sect_attrs.find? fun attr => attr.1 = info.name with
    | some attr => .ok attr.2
    | none => .ok 0

end KernInt
