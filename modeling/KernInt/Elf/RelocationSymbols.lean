import KernInt.Elf.RelocationInPlace
import Mathlib.Tactic.IntervalCases

set_option autoImplicit false

/-! # The values of symbols in the relocations of a module

A symbol of a module holds its offset in its section at first. The first entry that refers to
it adds the guest address of the section, in the symbol table itself, and every later entry
finds that the value is not below this address any more. So an invariant of all relocations is
that a symbol holds its offset still or holds its offset with the address added once
(`OffsetOrAddress`), and either way an entry computes with the address. In the file content this is
so as long as the tables are kept (`symbol_based_once`): a patch that is written over a symbol makes
its value neither of the two.
-/

namespace KernInt

open Lib

/-- The symbol lies in a section. -/
def Elf64_Sym.Defined (sym : Elf64_Sym) : Prop :=
  sym.st_shndx ≠ SHN_UNDEF ∧ sym.st_shndx ≠ SHN_ABS ∧ sym.st_shndx ≠ SHN_COMMON

instance (sym : Elf64_Sym) : Decidable sym.Defined :=
  inferInstanceAs (Decidable (_ ∧ _ ∧ _))

/-- Where the section `st_shndx` of a module is in the guest. -/
def guestBase (elf : ElfFile) (currentModule : ModuleInstance) (st_shndx : BitVec 16) :
    Except ElfError U64 := do
  let info ← elf.findSectionByID (st_shndx.setWidth 32)
  let percpuDataSection ← elf.findSectionWithName ".data..percpu"
  if info.secID = percpuDataSection.secID then return currentModule.percpu
  else findMemAddressOfSegment elf currentModule info

/-! ## Adding the address -/

/-- What happens to the value of a symbol in a section at `base`. -/
def addBase (base st_value : U64) : U64 :=
  if st_value < base then st_value + base else st_value

theorem addBase_of_lt {base st_value : U64} (h : st_value < base) :
    addBase base st_value = base + st_value := by
  rw [addBase, if_pos h, BitVec.add_comm]

/-- The address is not added a second time. -/
theorem addBase_add {base st_value : U64} (h : base.toNat + st_value.toNat < 2 ^ 64) :
    addBase base (base + st_value) = base + st_value := by
  refine if_neg fun hlt => ?_
  have hlt' := BitVec.lt_def.mp hlt
  rw [BitVec.toNat_add_of_lt h] at hlt'
  omega

theorem resolveSymbol_of_defined {elf : ElfFile} {ctx : LoadContext} {rs : RelaSection}
    {info : SectionInfo} {sym : Elf64_Sym} {type : RelaType} {st_value : U64}
    (h : sym.Defined) :
    resolveSymbol elf ctx rs info sym type st_value = .ok (addBase info.memindex st_value) := by
  obtain ⟨hundef, habs, hcommon⟩ := h
  unfold resolveSymbol addBase
  rw [if_neg hcommon, if_neg habs, if_neg hundef]
  split <;> rfl

/-! ## The section of a symbol -/

section

variable {elf : ElfFile} {currentModule : ModuleInstance} {getSymbolAddress : String → U64}

/-- What `applyRelaOnSection` has found out in front of its loop. -/
theorem relaSection_eq_ok {relSectionID : Nat} {rs : RelaSection} {targetSection : SectionInfo}
    (h : relaSection elf (.kernelModule currentModule getSymbolAddress) relSectionID =
      .ok (rs, targetSection)) :
    rs.symindex = (elf.shdr relSectionID).sh_link.toNat ∧
      targetSection.index =
        elf.fileContent + (elf.shdr (elf.shdr relSectionID).sh_info.toNat).sh_offset ∧
      elf.findSectionWithName ".data..percpu" = .ok rs.percpuDataSection := by
  unfold relaSection at h
  dsimp only at h
  split at h
  · cases h
  · obtain ⟨found, hfound, h⟩ := exists_of_bind_ok h
    obtain ⟨updated, hupdated, h⟩ := exists_of_bind_ok h
    obtain ⟨_, _, h⟩ := exists_of_bind_ok h
    obtain ⟨percpu, hpercpu, h⟩ := exists_of_bind_ok h
    cases h
    refine ⟨rfl, ?_, hpercpu⟩
    rw [update_eq_ok hupdated, elf.findSectionByID_eq_ok hfound]
    rfl

/-- The section that an entry works with lies at its guest address. -/
theorem guestBase_of_sectionOfSymbol {rs : RelaSection} {st_shndx : BitVec 16}
    {info : SectionInfo}
    (hpercpu : elf.findSectionWithName ".data..percpu" = .ok rs.percpuDataSection)
    (h : sectionOfSymbol elf (.kernelModule currentModule getSymbolAddress) rs st_shndx =
      .ok info) :
    guestBase elf currentModule st_shndx = .ok info.memindex := by
  obtain ⟨updated, hupdated, hinfo⟩ := exists_of_bind_ok h
  obtain ⟨found, hfound, hupdate⟩ := exists_of_bind_ok hupdated
  have hid := elf.secID_of_findSectionByID hfound
  obtain ⟨memindex, hmemindex, hok⟩ := exists_of_bind_ok hupdate
  cases hok
  cases hinfo
  unfold guestBase percpuHook
  simp only [hfound, hpercpu, bind, Except.bind, hid]
  by_cases hsame : st_shndx.setWidth 32 = rs.percpuDataSection.secID
  · rw [if_pos hsame, if_pos hsame]
    rfl
  · rw [if_neg hsame, if_neg hsame, hmemindex]

end

/-! ## The invariant -/

section

variable (elf : ElfFile) (currentModule : ModuleInstance) (symindex : Nat)
  (st_value : Nat → U64)

/-- Every symbol of the table holds its offset, as it was at first, or its address. -/
def OffsetOrAddress (host : HostState) : Prop :=
  ∀ i, (elf.sym symindex i).Defined →
    host.st_value symindex i = st_value i ∨
    ∃ base, guestBase elf currentModule (elf.sym symindex i).st_shndx = .ok base ∧
      host.st_value symindex i = base + st_value i

/-- Every entry that refers to a symbol of the table has computed with its address. -/
def ComputedWithAddress (host : HostState) : Prop :=
  ∀ rel val, (symindex, rel, val) ∈ host.vals → (elf.sym symindex rel.symbol).Defined →
    ∃ base, guestBase elf currentModule (elf.sym symindex rel.symbol).st_shndx = .ok base ∧
      val = base + st_value rel.symbol + rel.r_addend

/-- The offsets are below the guest addresses of their sections, and adding these does not
wrap around. -/
def OffsetsBelowBases : Prop :=
  ∀ i base, (elf.sym symindex i).Defined →
    guestBase elf currentModule (elf.sym symindex i).st_shndx = .ok base →
    st_value i < base ∧ base.toNat + (st_value i).toNat < 2 ^ 64

variable {elf currentModule symindex st_value}
variable {getSymbolAddress : String → U64} {rs : RelaSection}

/-- The address of a symbol, whether it holds its offset or its address. -/
theorem addBase_of_offsetOrAddress {host : HostState} {i : Nat} {base : U64}
    (hoffsets : OffsetsBelowBases elf currentModule symindex st_value)
    (hhost : OffsetOrAddress elf currentModule symindex st_value host)
    (hdefined : (elf.sym symindex i).Defined)
    (hbase : guestBase elf currentModule (elf.sym symindex i).st_shndx = .ok base) :
    addBase base (host.st_value symindex i) = base + st_value i := by
  obtain ⟨hlt, hwrap⟩ := hoffsets i base hdefined hbase
  rcases hhost i hdefined with hvalue | ⟨base', hbase', hvalue⟩
  · rw [hvalue, addBase_of_lt hlt]
  · have : base' = base := Except.ok.inj (hbase'.symm.trans hbase)
    rw [hvalue, this, addBase_add hwrap]

/-- The invariant after one entry. -/
theorem invariant_step {host : HostState} {rel : Elf64_Rela} {info : SectionInfo} {value : U64}
    {mem : Memory}
    (hoffsets : OffsetsBelowBases elf currentModule symindex st_value)
    (hpercpu : elf.findSectionWithName ".data..percpu" = .ok rs.percpuDataSection)
    (hvalues : OffsetOrAddress elf currentModule symindex st_value host)
    (hvals : ComputedWithAddress elf currentModule symindex st_value host)
    (hinfo : sectionOfSymbol elf (.kernelModule currentModule getSymbolAddress) rs
      (elf.sym rs.symindex rel.symbol).st_shndx = .ok info)
    (hresolve : resolveSymbol elf (.kernelModule currentModule getSymbolAddress) rs info
      (elf.sym rs.symindex rel.symbol) rel.type (host.st_value rs.symindex rel.symbol) =
        .ok value) :
    OffsetOrAddress elf currentModule symindex st_value
        (host.relocated rs.symindex rel value mem) ∧
      ComputedWithAddress elf currentModule symindex st_value
        (host.relocated rs.symindex rel value mem) := by
  have hbase := guestBase_of_sectionOfSymbol hpercpu hinfo
  -- what an entry of this table computes with
  have hvalue : rs.symindex = symindex → (elf.sym symindex rel.symbol).Defined →
      value = info.memindex + st_value rel.symbol := by
    intro htable hdefined
    subst htable
    rw [resolveSymbol_of_defined hdefined] at hresolve
    rw [← Except.ok.inj hresolve]
    exact addBase_of_offsetOrAddress hoffsets hvalues hdefined hbase
  refine ⟨fun i hdefined => ?_, fun rel' val hmem hdefined => ?_⟩
  · by_cases htable : symindex = rs.symindex
    · subst htable
      by_cases hi : i = rel.symbol
      · subst hi
        rw [HostState.relocated_self]
        exact .inr ⟨info.memindex, hbase, hvalue rfl hdefined⟩
      · rw [HostState.relocated_other_symbol hi]
        exact hvalues i hdefined
    · rw [HostState.relocated_other_table htable]
      exact hvalues i hdefined
  · rcases HostState.mem_relocated_vals.mp hmem with hmem | heq
    · exact hvals rel' val hmem hdefined
    · cases heq
      exact ⟨info.memindex, hbase, by rw [hvalue rfl hdefined]⟩

/-! ## Whole runs -/

variable (elf currentModule symindex st_value) in
def SymbolsOk (host : HostState) : Prop :=
  OffsetOrAddress elf currentModule symindex st_value host ∧
    ComputedWithAddress elf currentModule symindex st_value host

theorem symbolsOk_applyRelaOnSection {relSectionID : Nat} {rel : List Elf64_Rela}
    {host : HostState} (hoffsets : OffsetsBelowBases elf currentModule symindex st_value)
    (hhost : SymbolsOk elf currentModule symindex st_value host) :
    Ensures
      (applyRelaOnSection elf (.kernelModule currentModule getSymbolAddress) relSectionID rel host)
      (fun stop => SymbolsOk elf currentModule symindex st_value stop.1)
      (SymbolsOk elf currentModule symindex st_value) := by
  unfold applyRelaOnSection
  split
  · exact Ensures.error hhost
  · rename_i rs targetSection hsection
    have hpercpu := (relaSection_eq_ok hsection).2.2
    -- the invariant of the loop; the kept section starts as the empty one
    have hloop := Ensures.foldlM
      (f := applyRela elf (.kernelModule currentModule getSymbolAddress) rs) (l := rel)
      (a := ⟨host, targetSection, SectionInfo.empty⟩)
      (E := fun stop => SymbolsOk elf currentModule symindex st_value stop.1)
      (fun _ s => SymbolsOk elf currentModule symindex st_value s.host ∧
        CacheOk elf (.kernelModule currentModule getSymbolAddress) rs s.symRelSectionInfo)
      ⟨hhost, CacheOk.empty⟩
      (fun _ rel _ _ s hs =>
        applyRela_ensures hs.2 (SymbolsOk elf currentModule symindex st_value) hs.1
          fun info value mem hinfo hresolve =>
            invariant_step hoffsets hpercpu hs.1.1 hs.1.2 hinfo hresolve)
    exact hloop.bind fun s hs => Ensures.ok hs.1

theorem symbolsOk_relocateSection {i : Nat} {host : HostState}
    (hoffsets : OffsetsBelowBases elf currentModule symindex st_value)
    (hhost : SymbolsOk elf currentModule symindex st_value host) :
    Ensures (relocateSection elf (.kernelModule currentModule getSymbolAddress) host i)
      (fun stop => SymbolsOk elf currentModule symindex st_value stop.1)
      (SymbolsOk elf currentModule symindex st_value) := by
  unfold relocateSection
  dsimp only
  split
  · exact Ensures.ok hhost
  split
  · exact Ensures.ok hhost
  split
  · exact Ensures.error hhost
  split
  · exact symbolsOk_applyRelaOnSection hoffsets hhost
  · exact Ensures.ok hhost

theorem symbolsOk_applyRelocations {host : HostState}
    (hoffsets : OffsetsBelowBases elf currentModule symindex st_value)
    (hhost : SymbolsOk elf currentModule symindex st_value host) :
    SymbolsOk elf currentModule symindex st_value
      (finalHost (applyRelocations elf (.kernelModule currentModule getSymbolAddress) host)) := by
  have hall : Ensures (applyRelocations elf (.kernelModule currentModule getSymbolAddress) host)
      (fun stop => SymbolsOk elf currentModule symindex st_value stop.1)
      (SymbolsOk elf currentModule symindex st_value) := by
    unfold applyRelocations
    split
    · exact Ensures.foldlM (fun _ => SymbolsOk elf currentModule symindex st_value) hhost
        fun _ i _ _ host hhost => symbolsOk_relocateSection hoffsets hhost
    · exact Ensures.ok hhost
  unfold finalHost
  split
  · rename_i host' h
    exact hall.of_ok h
  · rename_i host' e h
    exact hall.of_error h

/-- **The address of its section is added once to a symbol**: whatever relocation sections use
the table `symindex`, in whatever order their entries come and however often these refer to one
symbol, every entry for a symbol in a section computes `val` from the guest address of that
section and the value that the symbol had before all relocations. -/
theorem symbol_based_once {mem : Memory} {e_shoff : U64}
    (hkept : TablesKept elf e_shoff {symbol | elf.Referenced symbol.1 symbol.2}
      (InPlace.finalFile (InPlace.applyRelocations elf
        (.kernelModule currentModule getSymbolAddress) (.start mem))).written)
    (hoffsets : OffsetsBelowBases elf currentModule symindex (elf.st_value mem symindex)) :
    ∀ rel val,
      (symindex, rel, val) ∈ (InPlace.finalFile (InPlace.applyRelocations elf
        (.kernelModule currentModule getSymbolAddress) (.start mem))).vals →
      (elf.sym symindex rel.symbol).Defined →
      ∃ base, guestBase elf currentModule (elf.sym symindex rel.symbol).st_shndx = .ok base ∧
        val = base + elf.st_value mem symindex rel.symbol + rel.r_addend := by
  have hagrees := Agrees.of_endsAlike (agrees_of_tablesKept elf
    (.kernelModule currentModule getSymbolAddress) mem (fun _ _ h => h) hkept)
  have hstart : SymbolsOk elf currentModule symindex (elf.st_value mem symindex)
      ⟨mem, elf.st_value mem, []⟩ :=
    ⟨fun i _ => .inl rfl, fun rel val h => absurd h List.not_mem_nil⟩
  rw [hagrees.vals]
  exact (symbolsOk_applyRelocations hoffsets hstart).2

end

/-! ## Code, per-CPU data and a patch beside them -/

/-- A module whose code refers to a function, to per-CPU data and to the function again. -/
def percpuModule : ElfFile where
  e_type := ET_REL
  e_entry := 0
  fileContent := 0x10000
  elf64Shdr :=
    [ default,
      { (default : Elf64_Shdr) with
        sh_name := ".text", sh_flags := SHF_ALLOC, sh_offset := 0x40, sh_size := 0x20 },
      { (default : Elf64_Shdr) with
        sh_name := ".data..percpu", sh_flags := SHF_ALLOC, sh_offset := 0x60, sh_size := 0x10 },
      { (default : Elf64_Shdr) with sh_name := ".symtab", sh_offset := 0x70, sh_size := 0x48 },
      { (default : Elf64_Shdr) with
        sh_name := ".rela.text", sh_type := SHT_RELA, sh_offset := 0xb8, sh_size := 0x48,
        sh_link := 3, sh_info := 1 } ]
  shnum_lt := by decide
  rela := fun i => if i = 4 then [⟨0, 1 <<< 32 ||| 1, 4⟩, ⟨8, 2 <<< 32 ||| 1, 0⟩,
    ⟨16, 1 <<< 32 ||| 11, 0⟩] else []
  sym := fun _ i => ⟨0, 0, if i = 1 then 1 else if i = 2 then 2 else SHN_UNDEF⟩
  symbolName := fun _ _ => ""

def percpuInstance : ModuleInstance where
  size := 0x100
  address := 0xffffffffa0002000
  gpl_syms := 0
  percpu := 0xffff88007fc00000
  sect_attrs := [(".text", 0xffffffffa0000000), (".data..percpu", 0x1000)]

/-- Symbol 1 is at offset 16 of the code, symbol 2 at offset 8 of the per-CPU data. -/
def percpuOffsets (_ i : Nat) : U64 := if i = 1 then 0x10 else 8

theorem percpuOffsets_below :
    OffsetsBelowBases percpuModule percpuInstance 3 (percpuOffsets 3) := by
  intro i base hdefined hbase
  by_cases h1 : i = 1
  · subst h1
    cases hbase
    decide
  by_cases h2 : i = 2
  · subst h2
    cases hbase
    decide
  · exact absurd (by simp [percpuModule, h1, h2]) hdefined.1

/-- The values of the two symbols in the file content. -/
def percpuMemory : Memory :=
  applyStores [⟨0x10090, 8, 0x10⟩, ⟨0x100a8, 8, 8⟩] fun _ => 0

theorem percpuMemory_offsets {i : Nat} (h : (percpuModule.sym 3 i).Defined) :
    percpuModule.st_value percpuMemory 3 i = percpuOffsets 3 i := by
  by_cases h1 : i = 1
  · subst h1
    decide +kernel
  by_cases h2 : i = 2
  · subst h2
    decide +kernel
  · exact absurd (by simp [percpuModule, h1, h2]) h.1

theorem percpuMemory_below : OffsetsBelowBases percpuModule percpuInstance 3
    (percpuModule.st_value percpuMemory 3) := by
  intro i base hdefined hbase
  rw [percpuMemory_offsets hdefined]
  exact percpuOffsets_below i base hdefined hbase

def relocatedPercpu : FileState :=
  InPlace.finalFile (InPlace.applyRelocations percpuModule
    (.kernelModule percpuInstance fun _ => 0) (.start percpuMemory))

/-- The headers of the sections are behind their contents, from 256 on. -/
theorem percpu_tablesKept : TablesKept percpuModule 0x100
    {symbol | percpuModule.Referenced symbol.1 symbol.2} relocatedPercpu.written where
  header := by decide +kernel
  sections := by decide +kernel
  contents := by decide +kernel
  symbols := by
    rintro symindex i ⟨j, hj, -, -, htype, rfl, rel, hrel, rfl⟩
    have hj : j < 5 := hj
    interval_cases j
    · exact absurd htype (by decide)
    · exact absurd htype (by decide)
    · exact absurd htype (by decide)
    · exact absurd htype (by decide)
    · have hentries : ∀ rel ∈ percpuModule.rela 4,
          Untouched (relocatedPercpu.written.filter fun w => w.owner ≠ some (3, rel.symbol))
            (percpuModule.symAddress 3 rel.symbol) 24 := by
        decide +kernel
      exact hentries rel hrel

theorem symbol_based_once_percpu :
    relocatedPercpu.vals.length = 3 ∧ ∀ rel val, (3, rel, val) ∈ relocatedPercpu.vals →
      rel.symbol = 2 → val = 0xffff88007fc00008 + rel.r_addend := by
  refine ⟨by decide +kernel, fun rel val hmem hsymbol => ?_⟩
  have hdefined : (percpuModule.sym 3 rel.symbol).Defined := by
    rw [hsymbol]
    decide
  obtain ⟨base, hbase, hval⟩ :=
    symbol_based_once percpu_tablesKept percpuMemory_below rel val hmem hdefined
  rw [percpuMemory_offsets hdefined, hsymbol] at hval
  rw [hsymbol] at hbase
  cases hbase
  rw [hval]
  rfl

/-- The same module with other entries. The first one refers to the per-CPU data and points behind
the code, to the value of the function; the second one refers to the function. -/
def aliasedModule : ElfFile where
  e_type := percpuModule.e_type
  e_entry := percpuModule.e_entry
  fileContent := percpuModule.fileContent
  elf64Shdr := percpuModule.elf64Shdr
  shnum_lt := percpuModule.shnum_lt
  rela := fun i => if i = 4 then [⟨0x50, 2 <<< 32 ||| 1, 0⟩, ⟨0, 1 <<< 32 ||| 1, 0⟩] else []
  sym := percpuModule.sym
  symbolName := percpuModule.symbolName

/-- **A patch over a symbol**: the address of the code is added to the address of the per-CPU
data. -/
theorem aliasedModule_not_based :
    OffsetsBelowBases aliasedModule percpuInstance 3 (aliasedModule.st_value percpuMemory 3) ∧
    ∃ rel val base, (3, rel, val) ∈ (InPlace.finalFile (InPlace.applyRelocations aliasedModule
        (.kernelModule percpuInstance fun _ => 0) (.start percpuMemory))).vals ∧
      (aliasedModule.sym 3 rel.symbol).Defined ∧
      guestBase aliasedModule percpuInstance (aliasedModule.sym 3 rel.symbol).st_shndx = .ok base ∧
      val ≠ base + aliasedModule.st_value percpuMemory 3 rel.symbol + rel.r_addend := by
  refine ⟨percpuMemory_below, ?_⟩
  exact ⟨⟨0, 1 <<< 32 ||| 1, 0⟩, 0xffff88001fc00008, 0xffffffffa0000000, by decide +kernel,
    by decide, rfl, by decide +kernel⟩

end KernInt
