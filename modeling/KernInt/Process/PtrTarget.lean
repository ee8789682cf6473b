import KernInt.Process.Gadget
import Mathlib.Data.Nat.Find

set_option autoImplicit false

/-! # What a pointer points to

`showPtrs` takes the difference between a pointer and the start of the mapping for an offset in
the file, when it looks for the section of the pointer, and for an address as the file has it,
when it compares it with the entry point. It is the first only if the mapping begins with the
file, and the second only if the mapping begins at the load bias. The section that is found is the
first one whose offsets contain the difference, and may have no bytes in the file.
-/

namespace KernInt

open Lib

def SHT_NULL : U32 := 0
def SHT_NOBITS : U32 := 8

/-- The section has bytes in the file, and that at `offset` is one of them. -/
def Elf64_Shdr.Backs (shdr : Elf64_Shdr) (offset : Nat) : Prop :=
  (shdr.sh_type ≠ SHT_NULL ∧ shdr.sh_type ≠ SHT_NOBITS) ∧
    shdr.sh_offset.toNat ≤ offset ∧ offset < shdr.sh_offset.toNat + shdr.sh_size.toNat

instance (shdr : Elf64_Shdr) (offset : Nat) : Decidable (shdr.Backs offset) :=
  inferInstanceAs (Decidable (_ ∧ _))

/-- The section has the difference `x` among its offsets, and the byte at `offset` as well. -/
def Elf64_Shdr.Spans (shdr : Elf64_Shdr) (x : U64) (offset : Nat) : Prop :=
  contains shdr.sh_offset shdr.sh_size x = true ∧ shdr.Backs offset

/-- The section has the difference `x` among its offsets, but has no bytes in the file, or ends in
front of the byte at `offset`. -/
def Elf64_Shdr.Misleads (shdr : Elf64_Shdr) (x : U64) (offset : Nat) : Prop :=
  contains shdr.sh_offset shdr.sh_size x = true ∧
    (shdr.sh_type = SHT_NULL ∨ shdr.sh_type = SHT_NOBITS ∨
      shdr.sh_offset.toNat + shdr.sh_size.toNat ≤ offset)

/-- A mapping of the code segment of a file that is loaded at `bias`: an address `v` of the segment
is at `bias + v`, and the mapping begins with the byte of the file at `off` pages. -/
structure CodeMapping (elf : ElfFile) (vma : VMAInfo) where
  bias : U64
  seg : SegmentInfo
  type : elf.e_type = ET_DYN ∨ elf.e_type = ET_EXEC
  code_segment : elf.findCodeSegment = .ok seg
  start : vma.start = bias + seg.vaddr - seg.offset + vma.off * 0x1000
  aligned : bias % 0x1000 = 0
  exec : elf.e_type = ET_EXEC → bias = 0

/-- The offset in the file of what is mapped at `p`. -/
def VMAInfo.fileOffset (vma : VMAInfo) (p : U64) : Nat :=
  vma.off.toNat * 0x1000 + (p - vma.start).toNat

section

variable {elf : ElfFile}

/-- Sections are told apart by their numbers. -/
theorem ElfFile.sectionInfo_injective {i j : Nat} {shdr shdr' : Elf64_Shdr}
    (hi : i < elf.getNrOfSections) (hj : j < elf.getNrOfSections)
    (h : elf.sectionInfo i shdr = elf.sectionInfo j shdr') : i = j := by
  have hlt := elf.shnum_lt
  have hid := congrArg (fun sI => sI.secID.toNat) h
  simp only [sectionInfo, BitVec.toNat_ofNat] at hid
  simp only [getNrOfSections] at hi hj
  omega

/-- The section with number `i` is found exactly if it is the first that contains the offset. -/
theorem ElfFile.findSectionByOffset_eq_some_iff {offset : U64} {i : Nat}
    (hi : i < elf.getNrOfSections) :
    elf.findSectionByOffset offset = some (elf.sectionInfo i (elf.shdr i)) ↔
      contains (elf.shdr i).sh_offset (elf.shdr i).sh_size offset = true ∧
        ∀ j < i, contains (elf.shdr j).sh_offset (elf.shdr j).sh_size offset = false := by
  unfold findSectionByOffset
  rw [List.find?_eq_some_iff_getElem]
  constructor
  · rintro ⟨hcontains, k, hk, hget, hfirst⟩
    have hk' : k < elf.getNrOfSections := by
      rwa [length_sections] at hk
    have hsection := elf.getElem?_sections hk'
    rw [List.getElem?_eq_getElem hk, hget] at hsection
    have hki : i = k := elf.sectionInfo_injective hi hk' (Option.some.inj hsection)
    subst hki
    refine ⟨hcontains, fun j hj => ?_⟩
    have hj' := elf.getElem?_sections (hj.trans hi)
    rw [List.getElem?_eq_getElem (hj.trans hk)] at hj'
    have := hfirst j hj
    rw [Option.some.inj hj', Bool.not_eq_true'] at this
    exact this
  · rintro ⟨hcontains, hfirst⟩
    have hk : i < elf.sections.length := by
      rwa [length_sections]
    have hget := elf.getElem?_sections hi
    rw [List.getElem?_eq_getElem hk] at hget
    refine ⟨hcontains, i, hk, Option.some.inj hget, fun j hj => ?_⟩
    have hj' := elf.getElem?_sections (hj.trans hi)
    rw [List.getElem?_eq_getElem (hj.trans hk)] at hj'
    rw [Option.some.inj hj', Bool.not_eq_true']
    exact hfirst j hj

end

section

variable (d : Disassembler) (symbols : SymbolManager) (toVMA : VMAInfo)
  (toLoader : ElfUserspaceLoader) (p : U64)

/-- Some section has the difference for an offset; without one, nothing else is looked at. -/
def SectionFound : Prop :=
  (toLoader.elffile.findSectionByOffset (p - toVMA.start)).isSome

/-- A rule in front of the one for the entry point accepts the pointer. -/
def AcceptedEarlier : Prop :=
  ∃ toSec, toLoader.elffile.findSectionByOffset (p - toVMA.start) = some toSec ∧
    (p - toVMA.start - toSec.offset = 0 ∨ toSec.name ∈ allowedSections ∨
      symbols.getElfSymbolName p ≠ "")

/-- The section that is worked with has the byte of the file that is mapped at the pointer, if a
section has it, and the pointer counts as the entry point exactly if it is the address of the
entry point in the process. -/
structure TargetResolved (m : CodeMapping toLoader.elffile toVMA) : Prop where
  section_mapped : (∃ i < toLoader.elffile.getNrOfSections,
      (toLoader.elffile.shdr i).Backs (toVMA.fileOffset p)) →
    ∃ i < toLoader.elffile.getNrOfSections,
      toLoader.elffile.findSectionByOffset (p - toVMA.start) =
        some (toLoader.elffile.sectionInfo i (toLoader.elffile.shdr i)) ∧
      (toLoader.elffile.shdr i).Backs (toVMA.fileOffset p)
  entry : (∃ flags, ptrFlags d symbols toVMA toLoader p = .ok flags ∧
      checkFlags flags PTR_ENTRY = true) ↔
    p = m.bias + toLoader.elffile.entryPoint ∧ ¬ AcceptedEarlier symbols toVMA toLoader p

/-- Some section has the difference for an offset. -/
def HasDifference : Prop :=
  ∃ i < toLoader.elffile.getNrOfSections, contains (toLoader.elffile.shdr i).sh_offset
    (toLoader.elffile.shdr i).sh_size (p - toVMA.start) = true

/-- Where a section has the byte that is mapped at the pointer, such a section has the difference as
well, and every section that has the difference only stands behind one of them; and the difference
tells whether the pointer is the entry point. -/
structure DifferenceFits (m : CodeMapping toLoader.elffile toVMA) : Prop where
  spanned : (∃ i < toLoader.elffile.getNrOfSections,
      (toLoader.elffile.shdr i).Backs (toVMA.fileOffset p)) →
    ∃ i < toLoader.elffile.getNrOfSections,
      (toLoader.elffile.shdr i).Spans (p - toVMA.start) (toVMA.fileOffset p)
  misled : (∃ i < toLoader.elffile.getNrOfSections,
      (toLoader.elffile.shdr i).Backs (toVMA.fileOffset p)) →
    ∀ j < toLoader.elffile.getNrOfSections,
      (toLoader.elffile.shdr j).Misleads (p - toVMA.start) (toVMA.fileOffset p) →
        ∃ i < j, (toLoader.elffile.shdr i).Spans (p - toVMA.start) (toVMA.fileOffset p)
  entry : AcceptedEarlier symbols toVMA toLoader p ∨
    HasDifference toVMA toLoader p ∧ toVMA.start = m.bias ∨
    p ≠ m.bias + toLoader.elffile.entryPoint ∧
      (HasDifference toVMA toLoader p → p ≠ toVMA.start + toLoader.elffile.entryPoint)

variable {d symbols toVMA toLoader p}

theorem checkFlags_entry (flags : U64) : checkFlags flags PTR_ENTRY = flags.getLsbD 7 := by
  have hbit : PTR_ENTRY = BitVec.twoPow 64 7 := by decide
  rw [hbit, checkFlags_twoPow (by decide)]

/-- The rules for instructions do not set the flag. -/
theorem instructionPtrFlags_entry {flags : U64} :
    (instructionPtrFlags d symbols toVMA toLoader flags p).getLsbD 7 = flags.getLsbD 7 :=
  instructionPtrFlags_getLsbD (by decide) flags p

/-- Whether flags that are returned have the flag is told by its bit. -/
theorem exists_ok_entry_iff {flags : U64} : (∃ flags', (.ok flags : Except Abort U64) = .ok flags' ∧
    checkFlags flags' PTR_ENTRY = true) ↔ flags.getLsbD 7 = true := by
  constructor
  · rintro ⟨flags', heq, hset⟩
    cases heq
    rwa [checkFlags_entry] at hset
  · intro hset
    exact ⟨flags, rfl, by rwa [checkFlags_entry]⟩

/-- The flag is set where a section is found, no earlier rule applies and the difference is the
entry point. -/
theorem ptrFlags_entry_iff : (∃ flags, ptrFlags d symbols toVMA toLoader p = .ok flags ∧
      checkFlags flags PTR_ENTRY = true) ↔
    SectionFound toVMA toLoader p ∧ ¬ AcceptedEarlier symbols toVMA toLoader p ∧
      toLoader.elffile.entryPoint = p - toVMA.start := by
  have hstart : (if p >>> 24 = 0 then PTR_NOT_7f else 0).getLsbD 7 = false :=
    getLsbD_ite (by decide) (by decide)
  cases hfind : toLoader.elffile.findSectionByOffset (p - toVMA.start) with
  | none =>
      -- the round ends with `PTR_NO_SECTION`
      unfold ptrFlags SectionFound
      simp only [hfind]
      rw [exists_ok_entry_iff, getLsbD_or_of_eq (by decide), hstart]
      simp
  | some toSec =>
      have hfound : SectionFound toVMA toLoader p := by rw [SectionFound, hfind]; rfl
      have haccepted : AcceptedEarlier symbols toVMA toLoader p ↔
          p - toVMA.start - toSec.offset = 0 ∨ toSec.name ∈ allowedSections ∨
            symbols.getElfSymbolName p ≠ "" := by simp [AcceptedEarlier, hfind]
      rw [haccepted, and_iff_right hfound]
      -- the rules in their order; each of the earlier ones sets another flag
      by_cases hzero : p - toVMA.start - toSec.offset = 0
      · unfold ptrFlags
        simp only [hfind]
        rw [if_pos hzero, exists_ok_entry_iff, getLsbD_or_of_eq (by decide), hstart]
        simp [hzero]
      obtain ⟨flags, hflags, hrest⟩ := @ptrFlags_of_section d symbols toVMA toLoader p toSec
        hfind hzero
      have hflags : flags.getLsbD 7 = false := hflags 7 (by decide)
      rw [hrest]
      by_cases hallowed : toSec.name ∈ allowedSections
      · rw [if_pos hallowed, exists_ok_entry_iff, getLsbD_or_of_eq (by decide), hflags]
        simp [hallowed]
      by_cases hsymbol : symbols.getElfSymbolName p = ""
      · rw [if_neg hallowed, if_neg (not_not.mpr hsymbol)]
        by_cases hentry : toLoader.elffile.entryPoint = p - toVMA.start
        · have hset : PTR_ENTRY.getLsbD 7 = true := by decide
          rw [if_pos hentry, exists_ok_entry_iff, BitVec.getLsbD_or, hset, Bool.or_true]
          refine iff_of_true rfl ⟨?_, hentry⟩
          rintro (h | h | h)
          · exact hzero h
          · exact hallowed h
          · exact h hsymbol
        · rw [if_neg hentry]
          -- behind the rule, nothing sets the flag
          split
          · simp [hentry]
          · rw [exists_ok_entry_iff, instructionPtrFlags_entry, hflags]
            simp [hentry]
      · rw [if_neg hallowed, if_pos hsymbol, exists_ok_entry_iff,
          getLsbD_or_of_eq (by decide), hflags]
        simp [hsymbol]

/-! ## The first section -/

theorem sectionFound_iff : SectionFound toVMA toLoader p ↔ HasDifference toVMA toLoader p := by
  unfold SectionFound HasDifference ElfFile.findSectionByOffset
  rw [List.find?_isSome]
  constructor
  · rintro ⟨sI, hsI, hcontains⟩
    obtain ⟨i, hi, hget⟩ := List.getElem_of_mem hsI
    have hi' : i < toLoader.elffile.getNrOfSections := by
      rwa [ElfFile.length_sections] at hi
    have hsection := toLoader.elffile.getElem?_sections hi'
    rw [List.getElem?_eq_getElem hi, hget] at hsection
    obtain rfl := Option.some.inj hsection
    exact ⟨i, hi', hcontains⟩
  · rintro ⟨i, hi, hcontains⟩
    exact ⟨_, List.mem_of_getElem? (toLoader.elffile.getElem?_sections hi), hcontains⟩

/-- A section that has the difference either has the byte, too, or misleads. -/
theorem Elf64_Shdr.misleads_iff {shdr : Elf64_Shdr} {x : U64} {offset : Nat}
    (hle : x.toNat ≤ offset) (hcontains : contains shdr.sh_offset shdr.sh_size x = true) :
    shdr.Misleads x offset ↔ ¬ shdr.Backs offset := by
  have hstart : shdr.sh_offset.toNat ≤ x.toNat := by
    unfold contains at hcontains
    simp only [Bool.and_eq_true, decide_eq_true_eq, BitVec.le_def] at hcontains
    exact hcontains.1
  unfold Misleads Backs
  rw [and_iff_right hcontains]
  constructor
  · rintro (h | h | h) ⟨⟨hnull, hnobits⟩, -, hlt⟩
    · exact hnull h
    · exact hnobits h
    · omega
  · intro hnot
    by_contra hother
    push Not at hother
    exact hnot ⟨⟨hother.1, hother.2.1⟩, hstart.trans hle, hother.2.2⟩

/-- The first section with the difference has the byte exactly if some section has both, and none
misleads in front of all of these. -/
theorem first_backs_iff {x : U64} {offset : Nat} (hle : x.toNat ≤ offset) (elf : ElfFile) :
    (∃ i < elf.getNrOfSections,
      elf.findSectionByOffset x = some (elf.sectionInfo i (elf.shdr i)) ∧
        (elf.shdr i).Backs offset) ↔
    (∃ i < elf.getNrOfSections, (elf.shdr i).Spans x offset) ∧
      ∀ j < elf.getNrOfSections, (elf.shdr j).Misleads x offset →
        ∃ i < j, (elf.shdr i).Spans x offset := by
  constructor
  · rintro ⟨i, hi, hfind, hbacks⟩
    obtain ⟨hcontains, hfirst⟩ := (ElfFile.findSectionByOffset_eq_some_iff hi).mp hfind
    refine ⟨⟨i, hi, hcontains, hbacks⟩, fun j hj hmisled => ⟨i, ?_, hcontains, hbacks⟩⟩
    rcases lt_trichotomy i j with hlt | rfl | hgt
    · exact hlt
    · exact absurd hbacks ((Elf64_Shdr.misleads_iff hle hcontains).mp hmisled)
    · have hnone := hfirst j hgt
      rw [hmisled.1] at hnone
      cases hnone
  · rintro ⟨⟨i, hi, hspans⟩, hmisled⟩
    -- the least number of a section with the difference
    have hex : ∃ k, k < elf.getNrOfSections ∧
        contains (elf.shdr k).sh_offset (elf.shdr k).sh_size x = true := ⟨i, hi, hspans.1⟩
    obtain ⟨hk, hcontains⟩ := Nat.find_spec hex
    have hfirst : ∀ j < Nat.find hex,
        contains (elf.shdr j).sh_offset (elf.shdr j).sh_size x = false := by
      intro j hj
      have hnot := Nat.find_min hex hj
      rw [not_and, Bool.not_eq_true] at hnot
      exact hnot (hj.trans hk)
    refine ⟨Nat.find hex, hk, (ElfFile.findSectionByOffset_eq_some_iff hk).mpr
      ⟨hcontains, hfirst⟩, ?_⟩
    by_contra hnot
    obtain ⟨j, hj, hspans⟩ := hmisled _ hk ((Elf64_Shdr.misleads_iff hle hcontains).mpr hnot)
    have hnone := hfirst j hj
    rw [hspans.1] at hnone
    cases hnone

/-- **Pointers are resolved to what is mapped at them** exactly if the difference to the start of
the mapping fits. -/
theorem targetResolved_iff (d : Disassembler) (symbols : SymbolManager) (toVMA : VMAInfo)
    (toLoader : ElfUserspaceLoader) (p : U64) (m : CodeMapping toLoader.elffile toVMA) :
    TargetResolved d symbols toVMA toLoader p m ↔ DifferenceFits symbols toVMA toLoader p m := by
  generalize hentryPoint : toLoader.elffile.entryPoint = e
  have hdiff : e = p - toVMA.start ↔ p = toVMA.start + e := by
    constructor
    · intro h
      bv_omega
    · intro h
      bv_omega
  -- one address is not both, unless the mapping begins at the load bias
  have hcancel : toVMA.start + e = m.bias + e → toVMA.start = m.bias := by
    intro h
    bv_omega
  have hflag : (∃ flags, ptrFlags d symbols toVMA toLoader p = .ok flags ∧
      checkFlags flags PTR_ENTRY = true) ↔ SectionFound toVMA toLoader p ∧
      ¬ AcceptedEarlier symbols toVMA toLoader p ∧ p = toVMA.start + e := by
    rw [ptrFlags_entry_iff, hentryPoint, hdiff]
  have hoffset : (p - toVMA.start).toNat ≤ toVMA.fileOffset p := Nat.le_add_left _ _
  have hfirst := first_backs_iff hoffset toLoader.elffile
  rw [sectionFound_iff] at hflag
  constructor
  · rintro ⟨hmapped, hentry⟩
    refine ⟨fun hback => (hfirst.mp (hmapped hback)).1,
      fun hback => (hfirst.mp (hmapped hback)).2, ?_⟩
    rw [hflag, hentryPoint] at hentry
    rw [hentryPoint]
    by_cases haccepted : AcceptedEarlier symbols toVMA toLoader p
    · exact .inl haccepted
    · by_cases hboth : HasDifference toVMA toLoader p ∧ toVMA.start = m.bias
      · exact .inr (.inl hboth)
      · refine .inr (.inr ⟨fun hp => hboth ?_, fun hfound hp => hboth ⟨hfound, ?_⟩⟩)
        · obtain ⟨hfound, -, hp'⟩ := hentry.mpr ⟨hp, haccepted⟩
          exact ⟨hfound, hcancel (hp'.symm.trans hp)⟩
        · exact hcancel (hp.symm.trans (hentry.mp ⟨hfound, haccepted, hp⟩).1)
  · rintro ⟨hspanned, hmisled, hentry⟩
    refine ⟨fun hback => hfirst.mpr ⟨hspanned hback, hmisled hback⟩, ?_⟩
    rw [hflag, hentryPoint]
    rw [hentryPoint] at hentry
    rcases hentry with haccepted | ⟨hfound, hbias⟩ | ⟨hrun, hstart⟩
    · exact ⟨fun h => absurd haccepted h.2.1, fun h => absurd haccepted h.2⟩
    · rw [hbias, and_iff_right hfound]
      exact And.comm
    · exact ⟨fun h => absurd h.2.2 (hstart h.1), fun h => absurd h.1 hrun⟩

end

/-! ## The entry point of a program -/

theorem shnum_lt_execFile : [default, default, nopText].length < 2 ^ 16 :=
  ElfFile.shnum_lt_three _ _ _

/-- A program that is not position-independent, with its code segment at `0x400000`. -/
def execFile : ElfFile where
  e_type := ET_EXEC
  e_entry := 0x400020
  fileContent := 0
  elf64Shdr := [default, default, nopText]
  shnum_lt := shnum_lt_execFile
  segments := [
    { type := PT_LOAD, flags := PF_X ||| PF_R, offset := 0, vaddr := 0x400000, filesz := 0x1000,
      memsz := 0x1000 }]
  rela := fun _ => []
  sym := fun _ _ => default
  symbolName := fun _ _ => ""

def execLoader : ElfUserspaceLoader where
  name := "/bin/prog"
  textSegmentContent := List.replicate 0x30 0x90
  hostMemory := fun _ => 0
  elffile := execFile

def execCode : VMAInfo := textOf "/bin/prog" 0x400000 0x401000 (by decide)

def execMapping : CodeMapping execFile execCode where
  bias := 0
  seg := _
  type := .inr rfl
  code_segment := rfl
  start := by decide
  aligned := by decide
  exec := fun _ => rfl

/-- The pointer to its entry point does not count as one. -/
theorem execEntry_missed :
    0x400020 = execMapping.bias + execFile.entryPoint ∧
    ¬ AcceptedEarlier noSymbols execCode execLoader 0x400020 ∧
    ¬ TargetResolved nopRet noSymbols execCode execLoader 0x400020 execMapping := by
  have haccepted : ¬ AcceptedEarlier noSymbols execCode execLoader 0x400020 := by
    rintro ⟨toSec, hfind, hrule⟩
    obtain rfl : execFile.sectionInfo 2 nopText = toSec := Option.some.inj hfind
    revert hrule
    show ¬ ((0x400020 : U64) - execCode.start - nopText.sh_offset = 0 ∨
      nopText.sh_name ∈ allowedSections ∨ noSymbols.getElfSymbolName 0x400020 ≠ "")
    decide
  refine ⟨by decide, haccepted, fun h => ?_⟩
  have hentry := ptrFlags_entry_iff.mp (h.entry.mpr ⟨by decide, haccepted⟩)
  exact absurd hentry.2.2 (by decide)

end KernInt
