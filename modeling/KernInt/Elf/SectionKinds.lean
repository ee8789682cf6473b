import KernInt.Elf.ElfFile

set_option autoImplicit false

/-! # Code and data of an ELF file

`isCodeAddress` and `isDataAddress` look for the first section that contains an address and test
its flags. The one for code tests for `SHF_ALLOC & SHF_EXECINSTR`, which is no flag at all, and so
takes every section for code. The two answers exclude each other exactly at the addresses of
sections with both flags and at those of no section (`sectionKinds_iff`).
-/

namespace KernInt

open Lib

namespace ElfFile

/-- Section `i` contains the address, and no section in front of it does. -/
structure FirstSection (elf : ElfFile) (address : U64) (i : Nat) (shdr : Elf64_Shdr) : Prop where
  getElem : elf.elf64Shdr[i]? = some shdr
  contains : contains shdr.sh_addr shdr.sh_size address = true
  before : ∀ j < i, ∀ shdr', elf.elf64Shdr[j]? = some shdr' →
    KernInt.contains shdr'.sh_addr shdr'.sh_size address = false

/-- What the two answers tell about the first section with the address. -/
structure SectionKinds (elf : ElfFile) (address : U64) : Prop where
  separate : ¬ (elf.isCodeAddress address = true ∧ elf.isDataAddress address = true)
  code : elf.isCodeAddress address = true → ∃ i shdr, elf.FirstSection address i shdr ∧
    checkFlags shdr.sh_flags SHF_ALLOC ∧ checkFlags shdr.sh_flags SHF_EXECINSTR
  data : elf.isDataAddress address = true → ∃ i shdr, elf.FirstSection address i shdr ∧
    checkFlags shdr.sh_flags SHF_ALLOC ∧ ¬ checkFlags shdr.sh_flags SHF_EXECINSTR

section

variable {elf : ElfFile} {address : U64} {i : Nat} {shdr : Elf64_Shdr}

/-! ## The search -/

theorem find?_eq_some_iff_firstSection :
    (elf.elf64Shdr.find? fun shdr => KernInt.contains shdr.sh_addr shdr.sh_size address) =
      some shdr ↔ ∃ i, elf.FirstSection address i shdr := by
  rw [List.find?_eq_some_iff_getElem]
  constructor
  · rintro ⟨hc, i, hi, rfl, hbefore⟩
    refine ⟨i, by simp, hc, fun j hj shdr' hget => ?_⟩
    obtain ⟨hlt, rfl⟩ := List.getElem?_eq_some_iff.mp hget
    simpa using hbefore j hj
  · rintro ⟨i, h⟩
    obtain ⟨hi, rfl⟩ := List.getElem?_eq_some_iff.mp h.getElem
    refine ⟨h.contains, i, hi, rfl, fun j hj => ?_⟩
    have hlt : j < elf.elf64Shdr.length := by omega
    simpa using h.before j hj _ (by simp [hlt])

/-- No flag is tested for. -/
theorem alloc_and_execinstr (flags : U64) : checkFlags flags (SHF_ALLOC &&& SHF_EXECINSTR) := by
  have hzero : SHF_ALLOC &&& SHF_EXECINSTR = 0 := by decide
  rw [hzero]
  simp [checkFlags]

/-- Every section is one of code. -/
theorem isCodeAddress_iff :
    elf.isCodeAddress address = true ↔ ∃ i shdr, elf.FirstSection address i shdr := by
  unfold isCodeAddress
  constructor
  · intro h
    split at h
    · rename_i shdr hfind
      obtain ⟨i, hi⟩ := find?_eq_some_iff_firstSection.mp hfind
      exact ⟨i, shdr, hi⟩
    · cases h
  · rintro ⟨i, shdr, h⟩
    rw [find?_eq_some_iff_firstSection.mpr ⟨i, h⟩]
    exact alloc_and_execinstr shdr.sh_flags

theorem isDataAddress_iff :
    elf.isDataAddress address = true ↔ ∃ i shdr, elf.FirstSection address i shdr ∧
      checkFlags shdr.sh_flags SHF_ALLOC ∧ ¬ checkFlags shdr.sh_flags SHF_EXECINSTR := by
  unfold isDataAddress
  constructor
  · intro h
    split at h
    · rename_i shdr hfind
      obtain ⟨i, hi⟩ := find?_eq_some_iff_firstSection.mp hfind
      exact ⟨i, shdr, hi, by simpa using h⟩
    · cases h
  · rintro ⟨i, shdr, h, hflags⟩
    rw [find?_eq_some_iff_firstSection.mpr ⟨i, h⟩]
    simpa using hflags

theorem FirstSection.unique {i' : Nat} {shdr' : Elf64_Shdr} (h : elf.FirstSection address i shdr)
    (h' : elf.FirstSection address i' shdr') : shdr = shdr' := by
  have hfind := find?_eq_some_iff_firstSection.mpr ⟨i, h⟩
  rw [find?_eq_some_iff_firstSection.mpr ⟨i', h'⟩] at hfind
  simpa using hfind.symm

/-! ## The kinds -/

/-- **Code and data are separated** at an address exactly if the first section that contains it,
where there is one, is allocated and executable. -/
theorem sectionKinds_iff : elf.SectionKinds address ↔ ∀ i shdr, elf.FirstSection address i shdr →
    checkFlags shdr.sh_flags SHF_ALLOC ∧ checkFlags shdr.sh_flags SHF_EXECINSTR := by
  constructor
  · intro h i shdr hfirst
    obtain ⟨i', shdr', hfirst', hflags⟩ := h.code (isCodeAddress_iff.mpr ⟨i, shdr, hfirst⟩)
    rwa [hfirst.unique hfirst']
  · intro h
    -- what is taken for data would be a section without `SHF_EXECINSTR`
    have hnodata : ¬ elf.isDataAddress address = true := by
      intro hdata
      obtain ⟨i, shdr, hfirst, -, hno⟩ := isDataAddress_iff.mp hdata
      exact hno (h i shdr hfirst).2
    refine ⟨fun hboth => hnodata hboth.2, fun hcode => ?_, fun hdata => absurd hdata hnodata⟩
    obtain ⟨i, shdr, hfirst⟩ := isCodeAddress_iff.mp hcode
    exact ⟨i, shdr, hfirst, h i shdr hfirst⟩

end

/-- A kernel with its text and its data and with a section that is not loaded, whose address
is 0. -/
def threeSections : ElfFile where
  e_type := ET_EXEC
  e_entry := 0
  fileContent := 0
  elf64Shdr := [
    { (default : Elf64_Shdr) with
      sh_name := ".text", sh_flags := SHF_ALLOC ||| SHF_EXECINSTR
      sh_addr := 0xffffffff81000000, sh_size := 0x1000 },
    { (default : Elf64_Shdr) with
      sh_name := ".data", sh_flags := SHF_ALLOC ||| SHF_WRITE
      sh_addr := 0xffffffff81001000, sh_size := 0x1000 },
    { (default : Elf64_Shdr) with sh_name := ".comment", sh_size := 0x40 }]
  shnum_lt := shnum_lt_three _ _ _
  rela := fun _ => []
  sym := fun _ _ => default
  symbolName := fun _ _ => ""

/-- An address of the data is one of code as well, and so is one of a section that the guest
does not have. -/
theorem threeSections_dataIsCode :
    threeSections.isCodeAddress 0xffffffff81001010 = true ∧
    threeSections.isDataAddress 0xffffffff81001010 = true ∧
    threeSections.isCodeAddress 0x10 = true ∧
    ¬ threeSections.SectionKinds 0xffffffff81001010 ∧ ¬ threeSections.SectionKinds 0x10 := by
  have hcode : threeSections.isCodeAddress 0xffffffff81001010 = true := by decide
  have hdata : threeSections.isDataAddress 0xffffffff81001010 = true := by decide
  have hcode' : threeSections.isCodeAddress 0x10 = true := by decide
  refine ⟨hcode, hdata, hcode', fun h => h.separate ⟨hcode, hdata⟩, fun h => ?_⟩
  have hfirst : threeSections.FirstSection 0x10 2 (threeSections.shdr 2) := by
    refine ⟨rfl, by decide, fun j hj shdr' hget => ?_⟩
    obtain rfl | rfl : j = 0 ∨ j = 1 := by omega
    · obtain rfl : _ = shdr' := Option.some.inj hget
      decide
    · obtain rfl : _ = shdr' := Option.some.inj hget
      decide
  obtain ⟨i, shdr, hfirst', halloc, -⟩ := h.code hcode'
  rw [hfirst'.unique hfirst] at halloc
  exact absurd halloc (by decide)

end ElfFile

end KernInt
