import KernInt.Elf.ElfFile
import KernInt.Lib.Memory
import KernInt.Lib.Outcome

set_option autoImplicit false

/-! # Relocations

`ElfFile64::applyRelocations` and `ElfFile64::applyRelaOnSection`: the entries of the relocation
sections are applied one after the other. An entry brings the `st_value` of its symbol up to
date, in the symbol table itself, and patches a word of the file content with it. The section
of the last symbol is kept for the next entry (`symRelSectionInfo`).

The file content on the host is a memory. The section headers, the entries and the symbols stand
beside it here, as the tables of the file. In the source they are in the file content as well, where
`RelocationInPlace` has the symbols; relocations that keep the tables do the same there.
-/

namespace KernInt

open Lib

inductive RelaType where
  | R_X86_64_NONE
  | R_X86_64_64
  | R_X86_64_PC32
  | R_X86_64_COPY
  | R_X86_64_GLOB_DAT
  | R_X86_64_JUMP_SLOT
  | R_X86_64_RELATIVE
  | R_X86_64_32
  | R_X86_64_32S
  | R_X86_64_IRELATIVE
  | unknown
  deriving DecidableEq

def RelaType.ofType : Nat → RelaType
  | 0 => .R_X86_64_NONE
  | 1 => .R_X86_64_64
  | 2 => .R_X86_64_PC32
  | 5 => .R_X86_64_COPY
  | 6 => .R_X86_64_GLOB_DAT
  | 7 => .R_X86_64_JUMP_SLOT
  | 8 => .R_X86_64_RELATIVE
  | 10 => .R_X86_64_32
  | 11 => .R_X86_64_32S
  | 37 => .R_X86_64_IRELATIVE
  | _ => .unknown

def Elf64_Rela.type (rel : Elf64_Rela) : RelaType :=
  .ofType (ELF64_R_TYPE rel.r_info).toNat

/-- The number of the symbol of an entry. -/
def Elf64_Rela.symbol (rel : Elf64_Rela) : Nat :=
  ELF64_R_SYM rel.r_info

/-- What a file is relocated for: a module of the kernel, with its entry in the list of modules
and the symbols of the kernel, or a process, with the symbols of the process. -/
inductive LoadContext where
  | kernelModule (currentModule : ModuleInstance) (getSymbolAddress : String → U64)
  | userspace (getSymbolAddress : String → U64)

/-- The state that relocations change, seen as tables and patches: the memory of the host, with the
content of the file, and the `st_value` of every symbol, by the section of its table and its number
in it. `FileState` has both in the file content. The source does not keep `vals`, which lists the
entries that came as far as to compute `val`, with the section of their symbol table. -/
structure HostState where
  mem : Memory
  st_value : Nat → Nat → U64
  vals : List (Nat × Elf64_Rela × U64)

namespace HostState

/-- An entry has given its symbol the value `st_value` and computed `val` from it; `mem` is the
memory then. -/
def relocated (host : HostState) (symindex : Nat) (rel : Elf64_Rela) (st_value : U64)
    (mem : Memory) : HostState where
  mem := mem
  st_value := Function.update host.st_value symindex
    (Function.update (host.st_value symindex) rel.symbol st_value)
  vals := host.vals ++ [(symindex, rel, st_value + rel.r_addend)]

variable {host : HostState} {symindex : Nat} {rel : Elf64_Rela} {st_value : U64} {mem : Memory}

theorem relocated_table : (host.relocated symindex rel st_value mem).st_value symindex =
    Function.update (host.st_value symindex) rel.symbol st_value :=
  Function.update_self symindex _ host.st_value

@[simp] theorem relocated_self :
    (host.relocated symindex rel st_value mem).st_value symindex rel.symbol = st_value := by
  rw [relocated_table, Function.update_self]

theorem relocated_other_symbol {i : Nat} (h : i ≠ rel.symbol) :
    (host.relocated symindex rel st_value mem).st_value symindex i =
      host.st_value symindex i := by
  rw [relocated_table, Function.update_of_ne h]

theorem relocated_other_table {table : Nat} (h : table ≠ symindex) :
    (host.relocated symindex rel st_value mem).st_value table = host.st_value table :=
  Function.update_of_ne h _ _

theorem mem_relocated_vals {entry : Nat × Elf64_Rela × U64} :
    entry ∈ (host.relocated symindex rel st_value mem).vals ↔
      entry ∈ host.vals ∨ entry = (symindex, rel, st_value + rel.r_addend) := by
  simp [relocated]

end HostState

/-- What `applyRelaOnSection` finds out in front of its loop, apart from the target section. -/
structure RelaSection where
  symindex : Nat
  strindex : U32
  isAltinstrSection : Bool
  percpuDataSection : SectionInfo

/-- The state of the loop in `applyRelaOnSection`. -/
structure RelaState where
  host : HostState
  targetSection : SectionInfo
  symRelSectionInfo : SectionInfo

section

variable (elf : ElfFile) (ctx : LoadContext)

/-- For a process the section stays as it is. -/
def updateSectionInfoMemAddress (info : SectionInfo) : Except ElfError SectionInfo :=
  match ctx with
  | .kernelModule currentModule _ => do
      let memindex ← findMemAddressOfSegment elf currentModule info
      return { info with memindex }
  | .userspace _ => .ok info

/-- The number of the section with the highest address below `relOffset`, and that address. An
address 0 is not looked at. -/
def closestSection (relOffset : U64) : Option Nat × U64 :=
  elf.elf64Shdr.zipIdx.foldl (fun (sectionCandidate, closest) (shdr, j) =>
    if shdr.sh_addr < relOffset ∧ closest < shdr.sh_addr then (some j, shdr.sh_addr)
    else (sectionCandidate, closest)) (none, 0)

/-- The section that an entry patches, and the address `locInElf`. -/
def relaTarget (targetSection : SectionInfo) (relOffset : U64) :
    Except ElfError (SectionInfo × U64) :=
  let locInElf := targetSection.index + relOffset
  if elf.e_type = ET_EXEC ∨ elf.e_type = ET_DYN then
    match (closestSection elf relOffset).1 with
    | none => .error (.internalError "no section can be the target for the relocation")
    | some sectionCandidate => do
        let targetSection ← elf.findSectionByID (BitVec.ofNat 32 sectionCandidate)
        return (targetSection, locInElf - targetSection.memindex)
  else .ok (targetSection, locInElf)

variable (rs : RelaSection)

/-- Per-CPU data of a module is not where its section is. -/
def percpuHook (st_shndx : BitVec 16) (symRelSectionInfo : SectionInfo) : SectionInfo :=
  match ctx with
  | .kernelModule currentModule _ =>
      if st_shndx.setWidth 32 = rs.percpuDataSection.secID then
        { symRelSectionInfo with memindex := currentModule.percpu }
      else symRelSectionInfo
  | .userspace _ => symRelSectionInfo

/-- The section of a symbol, which is looked up unless it is the one of the symbol before. -/
def symSection (symRelSectionInfo : SectionInfo) (st_shndx : BitVec 16) :
    Except ElfError SectionInfo := do
  let symRelSectionInfo ←
    if symRelSectionInfo.secID ≠ st_shndx.setWidth 32 then
      elf.findSectionByID (st_shndx.setWidth 32) >>= updateSectionInfoMemAddress elf ctx
    else pure symRelSectionInfo
  return percpuHook ctx rs st_shndx symRelSectionInfo

/-- The new `st_value` of the symbol `sym`, which lies in the section `symRelSectionInfo`. -/
def resolveSymbol (symRelSectionInfo : SectionInfo) (sym : Elf64_Sym) (type : RelaType)
    (st_value : U64) : Except ElfError U64 :=
  if sym.st_shndx = SHN_COMMON then .error .assertion
  else if sym.st_shndx = SHN_ABS then .ok st_value
  else if sym.st_shndx = SHN_UNDEF then
    match ctx with
    | .kernelModule _ getSymbolAddress =>
        .ok (getSymbolAddress (elf.symbolName sym.st_name rs.strindex))
    | .userspace getSymbolAddress =>
        match type with
        | .R_X86_64_JUMP_SLOT | .R_X86_64_GLOB_DAT =>
            let addr := getSymbolAddress (elf.symbolName sym.st_name rs.strindex)
            if addr = 0 ∧ ELF64_ST_BIND sym.st_info ≠ STB_WEAK then
              .error (.error "undefined symbol (=0) encountered")
            else .ok addr
        | .R_X86_64_RELATIVE | .R_X86_64_IRELATIVE => .ok st_value
        | _ => .error (.error "unknown relocation type")
  -- a symbol whose value is its offset in the section
  else if st_value < symRelSectionInfo.memindex then
    .ok (st_value + symRelSectionInfo.memindex)
  else .ok st_value

/-- What is written at `locInElf`. -/
def relaStore (symRelSectionInfo : SectionInfo) (type : RelaType) (st_value val : U64)
    (locInElf locInMem : U64) : Except ElfError Store :=
  match type with
  | .R_X86_64_NONE => .ok ⟨locInElf, 0, val⟩
  | .R_X86_64_64 => .ok ⟨locInElf, 8, val⟩
  -- a `uint64_t` for this type, too
  | .R_X86_64_32 => .ok ⟨locInElf, 8, val⟩
  | .R_X86_64_32S => .ok ⟨locInElf, 4, val⟩
  | .R_X86_64_PC32 =>
      if rs.isAltinstrSection then
        .ok ⟨locInElf, 4, val - symRelSectionInfo.memindex + symRelSectionInfo.index - locInElf⟩
      else .ok ⟨locInElf, 4, val - locInMem⟩
  | .R_X86_64_GLOB_DAT | .R_X86_64_JUMP_SLOT => .ok ⟨locInElf, 8, val⟩
  | .R_X86_64_RELATIVE | .R_X86_64_IRELATIVE => .ok ⟨locInElf, 8, val - st_value⟩
  | .R_X86_64_COPY => .ok ⟨locInElf, 0, val⟩
  | .unknown => .error .assertion

/-- The first part of a round: the section to patch, the address `locInElf`, the section of the
symbol and its new `st_value`. -/
def resolveRela (s : RelaState) (rel : Elf64_Rela) :
    Except ElfError (SectionInfo × U64 × SectionInfo × U64) := do
  let sym := elf.sym rs.symindex rel.symbol
  let (targetSection, locInElf) ← relaTarget elf s.targetSection rel.r_offset
  let symRelSectionInfo ← symSection elf ctx rs s.symRelSectionInfo sym.st_shndx
  let st_value ← resolveSymbol elf ctx rs symRelSectionInfo sym rel.type
    (s.host.st_value rs.symindex rel.symbol)
  return (targetSection, locInElf, symRelSectionInfo, st_value)

/-- One round of the loop. Where it does not come to its end, the state of the host at that
point is left. -/
def applyRela (s : RelaState) (rel : Elf64_Rela) : Except (HostState × ElfError) RelaState :=
  match resolveRela elf ctx rs s rel with
  | .error e => .error (s.host, e)
  | .ok (targetSection, locInElf, symRelSectionInfo, st_value) =>
      let val := st_value + rel.r_addend
      let locInMem := s.targetSection.memindex + rel.r_offset
      let host := s.host.relocated rs.symindex rel st_value
      match relaStore rs symRelSectionInfo rel.type st_value val locInElf locInMem with
      | .error e => .error (host s.host.mem, e)
      | .ok store => .ok ⟨host (store.apply s.host.mem), targetSection, symRelSectionInfo⟩

end

/-- The part of `applyRelaOnSection` in front of its loop. -/
def relaSection (elf : ElfFile) (ctx : LoadContext) (relSectionID : Nat) :
    Except ElfError (RelaSection × SectionInfo) := do
  let sectionID := (elf.shdr relSectionID).sh_info
  let symindex := (elf.shdr relSectionID).sh_link
  let strindex := (elf.shdr symindex.toNat).sh_link
  if symindex = 0 then throw .assertion
  let isAltinstrSection := elf.sectionName sectionID.toNat == ".altinstructions"
  let targetSection ← elf.findSectionByID sectionID
  let targetSection ← updateSectionInfoMemAddress elf ctx targetSection
  let _relSectionInfo ← elf.findSectionByID (BitVec.ofNat 32 relSectionID)
  let percpuDataSection ←
    match ctx with
    | .kernelModule _ _ => elf.findSectionWithName ".data..percpu"
    | .userspace _ => pure SectionInfo.empty
  return ({ symindex := symindex.toNat, strindex, isAltinstrSection, percpuDataSection },
    targetSection)

/-- `rel` are the entries of the section. -/
def applyRelaOnSection (elf : ElfFile) (ctx : LoadContext) (relSectionID : Nat)
    (rel : List Elf64_Rela) (host : HostState) : Except (HostState × ElfError) HostState :=
  match relaSection elf ctx relSectionID with
  | .error e => .error (host, e)
  | .ok (rs, targetSection) => do
      let s ← rel.foldlM (applyRela elf ctx rs)
        { host, targetSection, symRelSectionInfo := SectionInfo.empty }
      return s.host

/-- One round of the loop in `applyRelocations`. -/
def relocateSection (elf : ElfFile) (ctx : LoadContext) (host : HostState) (i : Nat) :
    Except (HostState × ElfError) HostState :=
  let infosec := (elf.shdr i).sh_info.toNat
  if infosec ≥ elf.getNrOfSections then .ok host
  else if (elf.shdr infosec).sh_flags &&& SHF_ALLOC = 0 then .ok host
  else if (elf.shdr i).sh_type = SHT_REL then .error (host, .assertion)
  else if (elf.shdr i).sh_type = SHT_RELA then applyRelaOnSection elf ctx i (elf.rela i) host
  else .ok host

def applyRelocations (elf : ElfFile) (ctx : LoadContext) (host : HostState) :
    Except (HostState × ElfError) HostState :=
  if elf.e_type = ET_REL ∨ elf.e_type = ET_DYN ∨ elf.e_type = ET_EXEC then
    (List.range elf.getNrOfSections).foldlM (relocateSection elf ctx) host
  else .ok host

/-- The state of the host in which relocations have ended, in one way or the other. -/
def finalHost (result : Except (HostState × ElfError) HostState) : HostState :=
  match result with
  | .ok host => host
  | .error (host, _) => host

/-! ## The kept section

A section that an entry leaves in `symRelSectionInfo` is as good for the next entry as none: it
is used again only for a symbol of that very section. -/

section

variable {elf : ElfFile} {ctx : LoadContext} {rs : RelaSection}

/-- The section of a symbol, looked up afresh. -/
def sectionOfSymbol (elf : ElfFile) (ctx : LoadContext) (rs : RelaSection)
    (st_shndx : BitVec 16) : Except ElfError SectionInfo := do
  let info ← elf.findSectionByID (st_shndx.setWidth 32) >>= updateSectionInfoMemAddress elf ctx
  return percpuHook ctx rs st_shndx info

def CacheOk (elf : ElfFile) (ctx : LoadContext) (rs : RelaSection) (cache : SectionInfo) : Prop :=
  ∀ st_shndx, symSection elf ctx rs cache st_shndx = sectionOfSymbol elf ctx rs st_shndx

/-- Only the address in the guest changes. -/
theorem update_eq_ok {info info' : SectionInfo}
    (h : updateSectionInfoMemAddress elf ctx info = .ok info') :
    info' = { info with memindex := info'.memindex } := by
  unfold updateSectionInfoMemAddress at h
  cases ctx with
  | kernelModule currentModule getSymbolAddress =>
      obtain ⟨memindex, _, h⟩ := exists_of_bind_ok h
      cases h
      rfl
  | userspace getSymbolAddress =>
      cases h
      rfl

@[simp] theorem secID_percpuHook (st_shndx : BitVec 16) (info : SectionInfo) :
    (percpuHook ctx rs st_shndx info).secID = info.secID := by
  unfold percpuHook
  cases ctx with
  | kernelModule currentModule getSymbolAddress => dsimp only; split <;> rfl
  | userspace getSymbolAddress => rfl

@[simp] theorem percpuHook_percpuHook (st_shndx : BitVec 16) (info : SectionInfo) :
    percpuHook ctx rs st_shndx (percpuHook ctx rs st_shndx info) =
      percpuHook ctx rs st_shndx info := by
  unfold percpuHook
  cases ctx with
  | kernelModule currentModule getSymbolAddress => dsimp only; split <;> rfl
  | userspace getSymbolAddress => rfl

theorem symSection_of_other {cache : SectionInfo} {st_shndx : BitVec 16}
    (h : cache.secID ≠ st_shndx.setWidth 32) :
    symSection elf ctx rs cache st_shndx = sectionOfSymbol elf ctx rs st_shndx := by
  rw [symSection, if_pos h, sectionOfSymbol]

theorem symSection_of_same {cache : SectionInfo} {st_shndx : BitVec 16}
    (h : cache.secID = st_shndx.setWidth 32) :
    symSection elf ctx rs cache st_shndx = .ok (percpuHook ctx rs st_shndx cache) := by
  rw [symSection, if_neg (not_not_intro h)]
  rfl

/-- No section has the id of the empty one. -/
theorem CacheOk.empty : CacheOk elf ctx rs SectionInfo.empty := by
  intro st_shndx
  refine symSection_of_other fun h => ?_
  have hlt := st_shndx.isLt
  have := congrArg BitVec.toNat h
  rw [BitVec.toNat_setWidth, Nat.mod_eq_of_lt (by omega)] at this
  have hempty : SectionInfo.empty.secID.toNat = 0xffffffff := rfl
  omega

theorem secID_of_sectionOfSymbol {st_shndx : BitVec 16} {info : SectionInfo}
    (h : sectionOfSymbol elf ctx rs st_shndx = .ok info) : info.secID = st_shndx.setWidth 32 := by
  obtain ⟨info', h', hinfo⟩ := exists_of_bind_ok h
  obtain ⟨found, hfind, hupdate⟩ := exists_of_bind_ok h'
  cases hinfo
  rw [secID_percpuHook, update_eq_ok hupdate, elf.secID_of_findSectionByID hfind]

theorem CacheOk.next {st_shndx : BitVec 16} {info : SectionInfo}
    (h : sectionOfSymbol elf ctx rs st_shndx = .ok info) : CacheOk elf ctx rs info := by
  have hid := secID_of_sectionOfSymbol h
  intro st_shndx'
  by_cases hsame : info.secID = st_shndx'.setWidth 32
  · have heq : st_shndx' = st_shndx := by
      have := hsame.symm.trans hid
      bv_omega
    subst heq
    obtain ⟨info', _, hinfo⟩ := exists_of_bind_ok h
    cases hinfo
    rw [symSection_of_same hsame, percpuHook_percpuHook, h]
  · exact symSection_of_other hsame

end

/-! ## What one entry does -/

section

variable {elf : ElfFile} {ctx : LoadContext} {rs : RelaSection}

theorem resolveRela_eq_ok {s : RelaState} {rel : Elf64_Rela} {targetSection info : SectionInfo}
    {locInElf st_value : U64} (hcache : CacheOk elf ctx rs s.symRelSectionInfo)
    (h : resolveRela elf ctx rs s rel = .ok (targetSection, locInElf, info, st_value)) :
    relaTarget elf s.targetSection rel.r_offset = .ok (targetSection, locInElf) ∧
    sectionOfSymbol elf ctx rs (elf.sym rs.symindex rel.symbol).st_shndx = .ok info ∧
    resolveSymbol elf ctx rs info (elf.sym rs.symindex rel.symbol) rel.type
      (s.host.st_value rs.symindex rel.symbol) = .ok st_value := by
  obtain ⟨⟨targetSection', locInElf'⟩, htarget, h⟩ := exists_of_bind_ok h
  obtain ⟨info', hinfo, h⟩ := exists_of_bind_ok h
  obtain ⟨st_value', hvalue, h⟩ := exists_of_bind_ok h
  cases h
  exact ⟨htarget, (hcache _).symm.trans hinfo, hvalue⟩

/-- The rule for one entry: it may fail in the state it was met in, and otherwise the symbol has
its new value in the state that the entry leaves, whether or not it could be stored. -/
theorem applyRela_ensures {s : RelaState} {rel : Elf64_Rela}
    (hcache : CacheOk elf ctx rs s.symRelSectionInfo) (Inv : HostState → Prop)
    (hhost : Inv s.host)
    (hstep : ∀ info st_value mem,
      sectionOfSymbol elf ctx rs (elf.sym rs.symindex rel.symbol).st_shndx = .ok info →
      resolveSymbol elf ctx rs info (elf.sym rs.symindex rel.symbol) rel.type
        (s.host.st_value rs.symindex rel.symbol) = .ok st_value →
      Inv (s.host.relocated rs.symindex rel st_value mem)) :
    Ensures (applyRela elf ctx rs s rel) (fun stop => Inv stop.1)
      (fun s' => Inv s'.host ∧ CacheOk elf ctx rs s'.symRelSectionInfo) := by
  unfold applyRela
  cases hresolved : resolveRela elf ctx rs s rel with
  | error e => exact Ensures.error hhost
  | ok resolved =>
      obtain ⟨targetSection, locInElf, info, st_value⟩ := resolved
      obtain ⟨_, hinfo, hvalue⟩ := resolveRela_eq_ok hcache hresolved
      have hinv := fun mem => hstep info st_value mem hinfo hvalue
      dsimp only
      split
      · exact Ensures.error (hinv _)
      · exact Ensures.ok ⟨hinv _, CacheOk.next hinfo⟩

/-- A round that comes to its end has given its symbol a value. -/
theorem host_of_applyRela {s s' : RelaState} {rel : Elf64_Rela}
    (hcache : CacheOk elf ctx rs s.symRelSectionInfo)
    (h : applyRela elf ctx rs s rel = .ok s') :
    CacheOk elf ctx rs s'.symRelSectionInfo ∧ ∃ info st_value mem,
      sectionOfSymbol elf ctx rs (elf.sym rs.symindex rel.symbol).st_shndx = .ok info ∧
      resolveSymbol elf ctx rs info (elf.sym rs.symindex rel.symbol) rel.type
        (s.host.st_value rs.symindex rel.symbol) = .ok st_value ∧
      s'.host = s.host.relocated rs.symindex rel st_value mem := by
  unfold applyRela at h
  split at h
  · cases h
  rename_i targetSection locInElf info st_value hresolved
  obtain ⟨-, hinfo, hresolve⟩ := resolveRela_eq_ok hcache hresolved
  dsimp only at h
  split at h
  · cases h
  · cases h
    exact ⟨CacheOk.next hinfo, info, st_value, _, hinfo, hresolve, rfl⟩

end

end KernInt
