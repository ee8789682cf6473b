import KernInt.Elf.BufferBounds
import KernInt.Elf.GetSymbols
import Mathlib.Data.List.Find

set_option autoImplicit false

/-! # The tables of a file and its bytes

The relocations, the lookups and the searches for symbols are about the tables of a file
(`ElfFile`, `SymbolFile`), the constructor and the bounds of its reads about its bytes (`ElfBytes`).
Here the tables are those that the bytes hold (`ElfBytes.elfFile`), with the file mapped at an
address of the host, and what the two levels compute is the same (`elfFile_refines`): the byte level
only ends earlier, where a read is outside.
-/

namespace KernInt

open Lib

/-- The section of a file whose first byte is at this address of the host. -/
def SectionInfo.mappedAt (fileContent : U64) (sI : SectionInfo) : SectionInfo :=
  { sI with index := fileContent + sI.index }

/-- A symbol with its name as text, and without its section and its segment. -/
def RawSymbol.entry (symbol : RawSymbol) : SymbolEntry where
  name := nameText symbol.name
  value := symbol.value
  info := symbol.info
  shndx := symbol.shndx.setWidth 32
  sectionInfo := none
  segmentInfo := none

theorem nameText_eq_empty_iff {name : StdString} : nameText name = "" ↔ name = [] := by
  rw [nameText, ← String.toList_inj, String.toList_ofList]
  simp

namespace ElfBytes

variable (f : ElfBytes) (fileContent : U64)

/-! ## The tables -/

/-- A section header of the table in the file. -/
def shdr (i : Nat) : Elf64_Shdr where
  sh_name := nameText (f.string (f.nameAt i))
  sh_type := f.u32 (shdrAt f.e_shoff i + 4)
  sh_flags := f.u64 (shdrAt f.e_shoff i + 8)
  sh_addr := f.u64 (shdrAt f.e_shoff i + 16)
  sh_offset := f.u64 (shdrAt f.e_shoff i + 24)
  sh_size := f.u64 (shdrAt f.e_shoff i + 32)
  sh_link := f.u32 (shdrAt f.e_shoff i + 40)
  sh_info := f.u32 (shdrAt f.e_shoff i + 44)
  sh_addralign := f.u64 (shdrAt f.e_shoff i + 48)

def relaEntry (a : U64) : Elf64_Rela where
  r_offset := f.u64 a
  r_info := f.u64 (a + 8)
  r_addend := f.u64 (a + 16)

def symEntry (a : U64) : Elf64_Sym where
  st_name := f.u32 a
  st_info := f.u8 (a + 4)
  st_shndx := f.u16 (a + 6)

/-- Their number is read as 16 bits. -/
theorem length_shdrs_lt : ((List.range f.e_shnum).map f.shdr).length < 2 ^ 16 := by
  rw [List.length_map, List.length_range]
  exact (f.u16 0x3c).isLt

/-- The file with the tables that its bytes hold. -/
def elfFile : ElfFile where
  e_type := f.e_type
  e_entry := f.u64 0x18
  fileContent
  elf64Shdr := (List.range f.e_shnum).map f.shdr
  shnum_lt := f.length_shdrs_lt
  segments := ((List.range f.e_phnum).map f.segmentAt).reduceOption
  rela := fun i => (List.range ((f.shdr i).sh_size / 24).toNat).map fun k =>
    f.relaEntry ((f.shdr i).sh_offset + BitVec.ofNat 64 (24 * k))
  sym := fun i k => f.symEntry (symAt (f.shdr i).sh_offset k)
  symbolName := fun index strindex =>
    nameText (f.string ((f.shdr strindex.toNat).sh_offset + index.setWidth 64))

def symbolFile : SymbolFile where
  elf := f.elfFile fileContent
  st_value := fun i k => f.u64 (symAt (f.shdr i).sh_offset k + 8)

variable {f fileContent}

theorem elf_symbolFile : (f.symbolFile fileContent).elf = f.elfFile fileContent := rfl

theorem st_value_symbolFile (i k : Nat) :
    (f.symbolFile fileContent).st_value i k = f.u64 (symAt (f.sectionAt i).index k + 8) := rfl

theorem sym_elfFile (i k : Nat) :
    (f.elfFile fileContent).sym i k = f.symEntry (symAt (f.sectionAt i).index k) := rfl

theorem symbolName_elfFile (index strindex : U32) :
    (f.elfFile fileContent).symbolName index strindex =
      nameText (f.string ((f.sectionAt strindex.toNat).index + index.setWidth 64)) := rfl

/-! ## Sections -/

theorem getNrOfSections_elfFile : (f.elfFile fileContent).getNrOfSections = f.e_shnum := by
  show ((List.range f.e_shnum).map f.shdr).length = f.e_shnum
  rw [List.length_map, List.length_range]

theorem shdr_elfFile {i : Nat} (hi : i < f.e_shnum) :
    (f.elfFile fileContent).shdr i = f.shdr i := by
  show ((List.range f.e_shnum).map f.shdr).getD i default = f.shdr i
  rw [List.getD_eq_getElem?_getD, List.getElem?_map, List.getElem?_range hi]
  rfl

/-- The sections that the constructor saves are those of the tables. -/
theorem sections_elfFile :
    (f.elfFile fileContent).sections = f.image.sections.map (·.mappedAt fileContent) := by
  apply List.ext_getElem?
  intro i
  by_cases hi : i < f.e_shnum
  · rw [(f.elfFile fileContent).getElem?_sections (by rwa [getNrOfSections_elfFile]),
      shdr_elfFile hi, List.getElem?_map, image_getElem?, if_pos hi]
    rfl
  · have hlen := (f.elfFile fileContent).length_sections
    rw [getNrOfSections_elfFile] at hlen
    rw [List.getElem?_eq_none (by omega), List.getElem?_map, image_getElem?, if_neg hi]
    rfl

theorem findSectionByID_elfFile {sectionID : U32} :
    (f.elfFile fileContent).findSectionByID sectionID =
      match f.image.sections[sectionID.toNat]? with
      | some sI => .ok (sI.mappedAt fileContent)
      | none => .error (.error "could not find section by id") := by
  rw [ElfFile.findSectionByID, sections_elfFile, List.getElem?_map]
  cases f.image.sections[sectionID.toNat]? with
  | none => rfl
  | some sI => rfl

theorem findSectionWithName_elfFile (name : String) :
    (f.elfFile fileContent).findSectionWithName name =
      match f.image.findSectionWithName name with
      | .ok sI => .ok (sI.mappedAt fileContent)
      | .error _ => .error (.error "could not find section by name") := by
  have hfind : (f.elfFile fileContent).sections.find? (fun sI => sI.name = name) =
      (f.image.sections.find? fun sI => sI.name = name).map (·.mappedAt fileContent) := by
    rw [sections_elfFile, List.find?_map]
    rfl
  rw [ElfFile.findSectionWithName, ElfImage.findSectionWithName, hfind]
  cases f.image.sections.find? fun sI => sI.name = name with
  | none => rfl
  | some sI => rfl

/-! ## Symbols -/

variable (f) in
/-- The symbol of an entry that is returned, if it is. -/
def symbolAt (strtab entry : U64) : Option RawSymbol :=
  let name := f.string (strtab + (f.u32 entry).setWidth 64)
  if f.u16 (entry + 6) ≠ SHN_UNDEF ∧ f.u16 (entry + 6) ≠ SHN_ABS ∧
      f.u16 (entry + 6) ≠ SHN_COMMON then
    if name = [] then none
    else if f.u64 (entry + 8) = 0 then none
    else some {
      name
      value := f.u64 (entry + 8)
      info := f.u8 (entry + 4)
      shndx := f.u16 (entry + 6) }
  else none

theorem checked_symbolAt (strtab entry : U64) :
    Checked ReadStop.Bad (f.readSymbol strtab entry) (f.EntryInside strtab entry)
      (f.symbolAt strtab entry) := by
  have hsymbol : Checked ReadStop.Bad (f.readSymbol strtab entry) _ (f.symbolAt strtab entry) :=
    (checked_read16 _).bind (Checked.ite
      ((checked_read32 _).bind ((checked_readString _).bind (Checked.ite (Checked.pure _)
        ((checked_read64 _).bind (Checked.ite (Checked.pure _)
          ((checked_read8 _).bind (Checked.pure _)))))))
      (Checked.pure _))
  apply hsymbol.congr
  simp only [EntryInside, and_true, if_true_right, if_true_left]

theorem reduceOption_map_eq {α β : Type} (g : α → Option β) (l : List α) :
    (l.map g).reduceOption = l.filterMap g :=
  List.filterMap_map

/-- A table that is read has all its symbols. -/
theorem readSymbols_eq_ok {symtab size strtab : U64} {ret : List RawSymbol}
    (h : f.readSymbols symtab size strtab = .ok ret) :
    ret = (List.range (size / 24).toNat).filterMap fun k => f.symbolAt strtab (symAt symtab k) := by
  have hentries : Checked ReadStop.Bad _ _ _ := Checked.mapM
    fun k (_ : k ∈ List.range (min (size / 24).toNat (2 ^ 32))) =>
      checked_symbolAt (f := f) strtab (symAt symtab k)
  rw [readSymbols] at h
  obtain ⟨symbols, hsymbols, h⟩ := exists_of_bind_ok h
  by_cases hlong : 2 ^ 32 ≤ (size / 24).toNat
  · rw [if_pos hlong] at h
    cases h
  · rw [if_neg hlong] at h
    obtain ⟨-, rfl⟩ := hentries.eq_of_ok hsymbols
    cases h
    rw [Nat.min_eq_left (by omega), reduceOption_map_eq]

theorem toNat_secID {i : Nat} (hi : i < f.e_shnum) : (f.sectionAt i).secID.toNat = i := by
  have h16 : f.e_shnum < 2 ^ 16 := (f.u16 0x3c).isLt
  show (BitVec.ofNat 32 i).toNat = i
  rw [BitVec.toNat_ofNat]
  exact Nat.mod_eq_of_lt (by omega)

/-- The two sections as the lookups by their numbers give them. -/
def tableAt (f : ElfBytes) (fileContent : U64) (i strindex : Nat) : SymbolTable :=
  ⟨(f.sectionAt i).mappedAt fileContent, (f.sectionAt strindex).mappedAt fileContent⟩

/-- A symbol of the tables is the one of the bytes. -/
theorem rawSymbol_symbolFile {i strindex : Nat} (hi : i < f.e_shnum) (hstr : strindex < f.e_shnum)
    (k : Nat) :
    (f.symbolFile fileContent).rawSymbol (f.tableAt fileContent i strindex) k = {
      name := nameText (f.string ((f.sectionAt strindex).index +
        (f.u32 (symAt (f.sectionAt i).index k)).setWidth 64))
      value := f.u64 (symAt (f.sectionAt i).index k + 8)
      info := f.u8 (symAt (f.sectionAt i).index k + 4)
      shndx := (f.u16 (symAt (f.sectionAt i).index k + 6)).setWidth 32
      sectionInfo := none
      segmentInfo := none } := by
  simp only [SymbolFile.rawSymbol, tableAt, SectionInfo.mappedAt, elf_symbolFile,
    st_value_symbolFile, sym_elfFile, symbolName_elfFile, symEntry, toNat_secID hi,
    toNat_secID hstr]

/-- One round of the loop over a table is the same on both levels. -/
theorem symbolRound_symbolFile {i strindex : Nat} (hi : i < f.e_shnum)
    (hstr : strindex < f.e_shnum) (k : Nat) :
    (f.symbolFile fileContent).symbolRound (f.tableAt fileContent i strindex) false k =
      .ok ((f.symbolAt (f.sectionAt strindex).index (symAt (f.sectionAt i).index k)).map
        RawSymbol.entry) := by
  have hshndx : ((f.symbolFile fileContent).elf.sym
      (f.tableAt fileContent i strindex).symtabSection.secID.toNat k).st_shndx =
        f.u16 (symAt (f.sectionAt i).index k + 6) := by
    simp only [tableAt, SectionInfo.mappedAt, elf_symbolFile, sym_elfFile, symEntry, toNat_secID hi]
  rw [SymbolFile.symbolRound, rawSymbol_symbolFile hi hstr, hshndx, symbolAt]
  simp only [nameText_eq_empty_iff]
  split
  · split
    · rfl
    · split
      · rfl
      · rfl
  · rfl

theorem find?_symtab_elfFile :
    ((List.range (f.elfFile fileContent).getNrOfSections).find? fun i =>
        ((f.elfFile fileContent).shdr i).sh_type = SHT_SYMTAB) =
      (List.range f.e_shnum).find? fun i => f.IsSymtab i := by
  rw [getNrOfSections_elfFile]
  apply List.find?_congr
  intro i hi
  rw [shdr_elfFile (List.mem_range.mp hi)]
  rfl

/-- Without a table of symbols, both are the section without content. -/
theorem internalSymbols_of_none
    (hfind : (List.range f.e_shnum).find? (fun i => f.IsSymtab i) = none) :
    (f.symbolFile fileContent).internalSymbols false = [] := by
  have htab : (f.symbolFile fileContent).findSymtab =
      .ok ⟨SectionInfo.empty, SectionInfo.empty⟩ := by
    rw [SymbolFile.findSymtab, elf_symbolFile, find?_symtab_elfFile, hfind]
  rw [SymbolFile.internalSymbols, htab]
  rfl

/-- The link of a table may be to a section that is not there. -/
theorem internalSymbols_of_some {i : Nat}
    (hfind : (List.range f.e_shnum).find? (fun i => f.IsSymtab i) = some i) :
    (f.symbolFile fileContent).internalSymbols false =
      if (f.shdr i).sh_link.toNat < f.e_shnum then
        ((List.range ((f.sectionAt i).size / 24).toNat).filterMap fun k =>
          f.symbolAt (f.sectionAt (f.shdr i).sh_link.toNat).index
            (symAt (f.sectionAt i).index k)).map RawSymbol.entry
      else [] := by
  have hi : i < f.e_shnum := List.mem_range.mp (List.mem_of_find?_eq_some hfind)
  have hid : (BitVec.ofNat 32 i).toNat = i := toNat_secID hi
  have hshdr : ((f.elfFile fileContent).shdr i).sh_link = (f.shdr i).sh_link := by
    rw [shdr_elfFile hi]
  have hfirst : (f.elfFile fileContent).findSectionByID (BitVec.ofNat 32 i) =
      .ok ((f.sectionAt i).mappedAt fileContent) := by
    rw [findSectionByID_elfFile, hid, image_getElem?, if_pos hi]
  by_cases hlink : (f.shdr i).sh_link.toNat < f.e_shnum
  · have htab : (f.symbolFile fileContent).findSymtab =
        .ok (f.tableAt fileContent i (f.shdr i).sh_link.toNat) := by
      rw [SymbolFile.findSymtab, elf_symbolFile, find?_symtab_elfFile, hfind]
      dsimp only
      rw [hfirst, hshdr, findSectionByID_elfFile, image_getElem?, if_pos hlink]
      rfl
    rw [SymbolFile.internalSymbols, htab, if_pos hlink, List.map_filterMap]
    exact collect_of_ok fun k _ => symbolRound_symbolFile hi hlink k
  · have htab : (f.symbolFile fileContent).findSymtab =
        .error (.error "could not find section by id") := by
      rw [SymbolFile.findSymtab, elf_symbolFile, find?_symtab_elfFile, hfind]
      dsimp only
      rw [hfirst, hshdr, findSectionByID_elfFile, image_getElem?, if_neg hlink]
      rfl
    rw [SymbolFile.internalSymbols, htab, if_neg hlink]

/-- The symbols that are read are those that the search in the tables finds. -/
theorem symbolsOnly_symbolFile {ret : List RawSymbol} (h : f.getSymbols f.image = .ok ret) :
    (f.symbolFile fileContent).symbolsOnly = ret.map RawSymbol.entry := by
  obtain ⟨e_type, htype, h⟩ := exists_of_bind_ok h
  obtain ⟨-, rfl⟩ := (checked_read16 0x10).eq_of_ok htype
  by_cases hdyn : isDynamicOrExecutable (f.u16 0x10) = true
  · have helf : (f.symbolFile fileContent).elf.e_type = ET_DYN ∨
        (f.symbolFile fileContent).elf.e_type = ET_EXEC := of_decide_eq_true hdyn
    have hlen : f.image.sections.length = f.e_shnum := by simp [image]
    rw [if_pos hdyn, hlen, List.range_eq_range'] at h
    rw [SymbolFile.symbolsOnly, if_pos helf]
    obtain ⟨symtab, hsymtab, h⟩ := exists_of_bind_ok h
    obtain ⟨-, hfind⟩ := (checked_findSymtab 0 f.e_shnum).eq_of_ok hsymtab
    rw [← List.range_eq_range'] at hfind
    cases symtab with
    | none =>
        cases h
        rw [internalSymbols_of_none hfind.symm]
        rfl
    | some i =>
        have hi : i < f.e_shnum := List.mem_range.mp (List.mem_of_find?_eq_some hfind.symm)
        obtain ⟨sh_link, hsh_link, h⟩ := exists_of_bind_ok h
        obtain ⟨-, rfl⟩ := (checked_read32 _).eq_of_ok hsh_link
        rw [internalSymbols_of_some hfind.symm]
        have hlink : f.u32 (shdrAt f.image.e_shoff i + 40) = (f.shdr i).sh_link := rfl
        rw [hlink, image_getElem?, image_getElem?, if_pos hi] at h
        by_cases hlt : (f.shdr i).sh_link.toNat < f.e_shnum
        · rw [if_pos hlt] at h
          rw [if_pos hlt, readSymbols_eq_ok h]
        · rw [if_neg hlt] at h
          cases h
          rw [if_neg hlt]
          rfl
  · have helf : ¬ ((f.symbolFile fileContent).elf.e_type = ET_DYN ∨
        (f.symbolFile fileContent).elf.e_type = ET_EXEC) := fun h => hdyn (decide_eq_true h)
    rw [if_neg hdyn] at h
    cases h
    rw [SymbolFile.symbolsOnly, if_neg helf]
    rfl

end ElfBytes

/-- What has been loaded is the file as its header tables describe it. -/
theorem image_of_load {src : Source} {f : ElfBytes} {image : ElfImage}
    (h : src.load f = .ok image) : image = f.image := by
  have hconstruct : f.construct = .ok image := by
    by_cases hlooks : src.Looks f
    · obtain ⟨e, -, hload⟩ := load_looks hlooks
      obtain ⟨elfclass, -, hclass⟩ := exists_of_bind_ok (hload.symm.trans h)
      by_cases helf : elfclass = ELFCLASS64
      · rwa [if_pos helf] at hclass
      · rw [if_neg helf] at hclass
        cases hclass
    · cases src with
      | file =>
          rw [Source.load, if_neg fun htake => hlooks fun _ => htake] at h
          cases h
      | buffer => exact absurd (fun h => by cases h) hlooks
  exact (ElfBytes.checked_construct.eq_of_ok hconstruct).2

/-- **What is read of the bytes is what the tables have.** -/
theorem elfFile_refines {src : Source} {f : ElfBytes} {image : ElfImage}
    (hload : src.load f = .ok image) (fileContent : U64) :
    (f.elfFile fileContent).sections = image.sections.map (·.mappedAt fileContent) ∧
      (f.elfFile fileContent).segments = image.segments ∧
      (∀ name, (f.elfFile fileContent).findSectionWithName name =
        match image.findSectionWithName name with
        | .ok sI => .ok (sI.mappedAt fileContent)
        | .error _ => .error (.error "could not find section by name")) ∧
      ∀ ret, f.getSymbols image = .ok ret →
        (f.symbolFile fileContent).symbolsOnly = ret.map RawSymbol.entry := by
  obtain rfl := image_of_load hload
  refine ⟨ElfBytes.sections_elfFile, rfl, ElfBytes.findSectionWithName_elfFile, ?_⟩
  intro ret hret
  exact ElfBytes.symbolsOnly_symbolFile hret

theorem load_smallLibrary : Source.file.load smallLibrary = .ok smallLibrary.image := by
  have hclass : smallLibrary.read8 4 = .ok ELFCLASS64 := by decide +kernel
  have hlooks : Source.file.Looks smallLibrary := fun _ => rfl
  obtain ⟨e, -, hload⟩ := load_looks hlooks
  rw [hload, hclass, bind_of_ok rfl, if_pos rfl]
  exact ElfBytes.checked_construct.ok smallLibrary_tables.headers

theorem elfFile_refines_smallLibrary :
    (smallLibrary.elfFile 0x7000).sections =
        smallLibrary.image.sections.map (·.mappedAt 0x7000) ∧
      ∀ ret, smallLibrary.getSymbols smallLibrary.image = .ok ret →
        (smallLibrary.symbolFile 0x7000).symbolsOnly = ret.map RawSymbol.entry := by
  obtain ⟨hsections, -, -, hsymbols⟩ := elfFile_refines load_smallLibrary 0x7000
  exact ⟨hsections, hsymbols⟩

end KernInt
