import KernInt.Elf.RelocationTarget
import KernInt.Elf.RelocationSymbols

set_option autoImplicit false

/-! # Relocations against absolute symbols

For a symbol with `SHN_ABS` a round of `applyRelaOnSection` takes `st_value` as it is. It comes to
that only behind the lookup of the symbol's section, and `SHN_ABS` is no section of a file with
fewer than `0xfff2` of them. The lookup throws, and the entries in front of this one have already
been applied. Where all entries are applied is told by `everyApplied_iff`.
-/

namespace KernInt

open Lib

def LoadContext.isUserspace : LoadContext → Bool
  | .kernelModule _ _ => false
  | .userspace _ => true

section

variable (elf : ElfFile) (ctx : LoadContext) (relSectionID : Nat) (rel : List Elf64_Rela)

/-- The symbol of an entry. -/
def relaSymbol (r : Elf64_Rela) : Elf64_Sym :=
  elf.sym (elf.shdr relSectionID).sh_link.toNat r.symbol

/-- The name of a symbol of the section. -/
def relaSymbolName (sym : Elf64_Sym) : String :=
  elf.symbolName sym.st_name (elf.shdr (elf.shdr relSectionID).sh_link.toNat).sh_link

/-- An undefined symbol of a process has an address or is weak, unless its entry does not ask for
one. -/
def Resolvable (r : Elf64_Rela) : Prop :=
  match ctx with
  | .kernelModule _ _ => True
  | .userspace getSymbolAddress =>
      r.type = .R_X86_64_RELATIVE ∨ r.type = .R_X86_64_IRELATIVE ∨
        getSymbolAddress (relaSymbolName elf relSectionID (relaSymbol elf relSectionID r)) ≠ 0 ∨
        ELF64_ST_BIND (relaSymbol elf relSectionID r).st_info = STB_WEAK

/-- A symbol that is defined in a section of the file, that is undefined and can be resolved, or
that is absolute. -/
def SymbolKnown (r : Elf64_Rela) : Prop :=
  (relaSymbol elf relSectionID r).Defined ∧
      (relaSymbol elf relSectionID r).st_shndx.toNat < elf.getNrOfSections ∨
    (relaSymbol elf relSectionID r).st_shndx = SHN_UNDEF ∧ Resolvable elf ctx relSectionID r ∨
    (relaSymbol elf relSectionID r).st_shndx = SHN_ABS

/-- The entries `done` have been applied, in their order, and an absolute symbol with its own
value. -/
def AppliedInOrder (host host' : HostState) (done : List Elf64_Rela) : Prop :=
  ∃ added, host'.vals = host.vals ++ added ∧ added.map (fun entry => entry.2.1) = done ∧
    ∀ entry ∈ added, entry.1 = (elf.shdr relSectionID).sh_link.toNat ∧
      ((relaSymbol elf relSectionID entry.2.1).st_shndx = SHN_ABS →
        entry.2.2 = host.st_value entry.1 entry.2.1.symbol + entry.2.1.r_addend)

/-- All entries are applied. -/
def EveryApplied (host : HostState) : Prop :=
  ∃ host', applyRelaOnSection elf ctx relSectionID rel host = .ok host' ∧
    AppliedInOrder elf relSectionID host host' rel

/-- The section exists, and its address in the guest can be computed. -/
def SectionPlaced (i : Nat) : Prop :=
  i < elf.getNrOfSections ∧
    (ctx.isUserspace = false → elf.sectionName i = ".bss" → elf.sectionAlign i ≠ 0)

/-- The types of entries that a process may have for an undefined symbol. -/
def RelaType.Undefined (type : RelaType) : Prop :=
  type ∈ [RelaType.R_X86_64_JUMP_SLOT, .R_X86_64_GLOB_DAT, .R_X86_64_RELATIVE, .R_X86_64_IRELATIVE]

instance (type : RelaType) : Decidable type.Undefined :=
  inferInstanceAs (Decidable (_ ∈ _))

/-- What the round for an entry asks for. For an absolute symbol, `symbol` is about the section
with the number `SHN_ABS`. -/
structure EntryApplies (r : Elf64_Rela) : Prop where
  target : elf.e_type = ET_EXEC ∨ elf.e_type = ET_DYN →
    ∃ shdr ∈ elf.elf64Shdr, 0 < shdr.sh_addr ∧ shdr.sh_addr < r.r_offset
  symbol : SectionPlaced elf ctx (relaSymbol elf relSectionID r).st_shndx.toNat
  undefined : ctx.isUserspace = true → (relaSymbol elf relSectionID r).st_shndx = SHN_UNDEF →
    r.type.Undefined

structure AppliesAll : Prop where
  symtab : (elf.shdr relSectionID).sh_link ≠ 0
  patched : SectionPlaced elf ctx (elf.shdr relSectionID).sh_info.toNat
  percpu : ctx.isUserspace = false → ∃ shdr ∈ elf.elf64Shdr, shdr.sh_name = ".data..percpu"
  entries : ∀ r ∈ rel, EntryApplies elf ctx relSectionID r

end

section

variable {elf : ElfFile} {ctx : LoadContext} {rs : RelaSection} {relSectionID : Nat}

/-! ## Sections that are found -/

/-- A module's section has an address in the guest unless it is a `.bss` without alignment. -/
theorem exists_findMemAddressOfSegment {currentModule : ModuleInstance} {info : SectionInfo}
    (h : info.name = ".bss" → elf.sectionAlign info.secID.toNat ≠ 0) :
    ∃ memindex, findMemAddressOfSegment elf currentModule info = .ok memindex := by
  unfold findMemAddressOfSegment
  split
  · rename_i hname
    dsimp only
    rw [if_neg (h hname)]
    exact ⟨_, rfl⟩
  split
  · exact ⟨_, rfl⟩
  split <;> exact ⟨_, rfl⟩

theorem exists_update_iff {i : BitVec 32} :
    (∃ info, elf.findSectionByID i >>= updateSectionInfoMemAddress elf ctx = .ok info) ↔
      SectionPlaced elf ctx i.toNat := by
  constructor
  · rintro ⟨info, h⟩
    obtain ⟨found, hfound, h⟩ := exists_of_bind_ok h
    refine ⟨elf.lt_of_findSectionByID hfound, fun hctx hbss halign => ?_⟩
    have heq := elf.findSectionByID_eq_ok hfound
    cases ctx with
    | userspace getSymbolAddress => cases hctx
    | kernelModule currentModule getSymbolAddress =>
        obtain ⟨memindex, hmem, -⟩ := exists_of_bind_ok h
        have hname : found.name = ".bss" := by rw [heq]; exact hbss
        have hid : found.secID = i := elf.secID_of_findSectionByID hfound
        simp [findMemAddressOfSegment, hname, hid, halign] at hmem
  · rintro ⟨hlt, hbss⟩
    rw [elf.findSectionByID_of_lt hlt]
    cases ctx with
    | userspace getSymbolAddress => exact ⟨_, rfl⟩
    | kernelModule currentModule getSymbolAddress =>
        have hid : (elf.sectionInfo i.toNat (elf.shdr i.toNat)).secID = i := by
          simp [ElfFile.sectionInfo]
        obtain ⟨memindex, hmem⟩ : ∃ memindex, findMemAddressOfSegment elf currentModule
            (elf.sectionInfo i.toNat (elf.shdr i.toNat)) = .ok memindex :=
          exists_findMemAddressOfSegment (by rw [hid]; exact hbss rfl)
        refine ⟨{ elf.sectionInfo i.toNat (elf.shdr i.toNat) with memindex }, ?_⟩
        exact bind_of_ok hmem _

theorem exists_findSectionWithName_iff {name : String} :
    (∃ info, elf.findSectionWithName name = .ok info) ↔
      ∃ shdr ∈ elf.elf64Shdr, shdr.sh_name = name := by
  unfold ElfFile.findSectionWithName
  constructor
  · rintro ⟨info, h⟩
    split at h
    · rename_i sI hfind
      obtain ⟨i, hi, rfl⟩ := List.mem_mapIdx.mp (List.mem_of_find?_eq_some hfind)
      have hname := List.find?_some hfind
      exact ⟨_, List.getElem_mem hi, of_decide_eq_true hname⟩
    · cases h
  · rintro ⟨shdr, hmem, hname⟩
    obtain ⟨i, hi, rfl⟩ := List.mem_iff_getElem.mp hmem
    cases hfind : elf.sections.find? fun sI => sI.name = name with
    | some sI => exact ⟨sI, rfl⟩
    | none =>
        have hno := List.find?_eq_none.mp hfind (elf.sectionInfo i elf.elf64Shdr[i])
          (List.mem_mapIdx.mpr ⟨i, hi, rfl⟩)
        exact absurd (decide_eq_true hname) hno

/-- The part in front of the loop comes to its end. -/
theorem exists_relaSection_iff (hid : relSectionID < elf.getNrOfSections) :
    (∃ start, relaSection elf ctx relSectionID = .ok start) ↔
      (elf.shdr relSectionID).sh_link ≠ 0 ∧
      SectionPlaced elf ctx (elf.shdr relSectionID).sh_info.toNat ∧
      (ctx.isUserspace = false → ∃ shdr ∈ elf.elf64Shdr, shdr.sh_name = ".data..percpu") := by
  have hnum := elf.shnum_lt
  have hself : (BitVec.ofNat 32 relSectionID).toNat < elf.getNrOfSections := by
    have hle := Nat.mod_le relSectionID (2 ^ 32)
    simp only [BitVec.toNat_ofNat]
    omega
  unfold relaSection
  dsimp only
  constructor
  · rintro ⟨start, h⟩
    split at h
    · cases h
    rename_i hlink
    obtain ⟨found, hfound, h⟩ := exists_of_bind_ok h
    obtain ⟨updated, hupdate, h⟩ := exists_of_bind_ok h
    refine ⟨hlink, exists_update_iff.mp ⟨updated, by rw [hfound]; exact hupdate⟩, fun hctx => ?_⟩
    obtain ⟨_, -, h⟩ := exists_of_bind_ok h
    cases ctx with
    | userspace getSymbolAddress => cases hctx
    | kernelModule currentModule getSymbolAddress =>
        obtain ⟨percpu, hpercpu, -⟩ := exists_of_bind_ok h
        exact exists_findSectionWithName_iff.mp ⟨percpu, hpercpu⟩
  · rintro ⟨hlink, hplaced, hpercpu⟩
    obtain ⟨updated, hupdated⟩ := exists_update_iff.mpr hplaced
    obtain ⟨found, hfound, hupdate⟩ := exists_of_bind_ok hupdated
    rw [if_neg hlink]
    simp only [pure_bind, bind_of_ok hfound, bind_of_ok hupdate,
      bind_of_ok (elf.findSectionByID_of_lt hself)]
    cases ctx with
    | userspace getSymbolAddress => exact ⟨_, rfl⟩
    | kernelModule currentModule getSymbolAddress =>
        obtain ⟨percpu, hfind⟩ := exists_findSectionWithName_iff.mpr (hpercpu rfl)
        exact ⟨_, bind_of_ok hfind _⟩

/-- The tables that the loop reads the symbols from. -/
structure RelaSection.Reads (rs : RelaSection) (elf : ElfFile) (relSectionID : Nat) : Prop where
  symindex : rs.symindex = (elf.shdr relSectionID).sh_link.toNat
  strindex : rs.strindex = (elf.shdr (elf.shdr relSectionID).sh_link.toNat).sh_link

theorem reads_of_relaSection {targetSection : SectionInfo}
    (h : relaSection elf ctx relSectionID = .ok (rs, targetSection)) :
    rs.Reads elf relSectionID := by
  unfold relaSection at h
  dsimp only at h
  split at h
  · cases h
  obtain ⟨_, -, h⟩ := exists_of_bind_ok h
  obtain ⟨_, -, h⟩ := exists_of_bind_ok h
  obtain ⟨_, -, h⟩ := exists_of_bind_ok h
  split at h <;>
  · obtain ⟨_, -, h⟩ := exists_of_bind_ok h
    cases h
    exact ⟨rfl, rfl⟩

/-! ## One entry -/

section

variable {r : Elf64_Rela}

theorem exists_relaTarget_iff (info : SectionInfo) {relOffset : U64} :
    (∃ target, relaTarget elf info relOffset = .ok target) ↔
      (elf.e_type = ET_EXEC ∨ elf.e_type = ET_DYN →
        ∃ shdr ∈ elf.elf64Shdr, 0 < shdr.sh_addr ∧ shdr.sh_addr < relOffset) := by
  have hnearest : (∃ j, (closestSection elf relOffset).1 = some j) ↔
      ∃ shdr ∈ elf.elf64Shdr, 0 < shdr.sh_addr ∧ shdr.sh_addr < relOffset := by
    rw [ElfFile.closestSection_eq]
    exact exists_nearest_iff
  rw [← hnearest]
  by_cases htype : elf.e_type = ET_EXEC ∨ elf.e_type = ET_DYN
  · constructor
    · rintro ⟨⟨targetSection, locInElf⟩, h⟩ _
      obtain ⟨j, shdr, hshdr, -⟩ := (relaTarget_eq_ok_iff htype).mp h
      exact ⟨j, ElfFile.closestSection_eq_some_iff.mpr ⟨shdr, hshdr⟩⟩
    · intro h
      obtain ⟨j, hj⟩ := h htype
      obtain ⟨shdr, hshdr⟩ := ElfFile.closestSection_eq_some_iff.mp hj
      exact ⟨_, (relaTarget_eq_ok_iff htype).mpr ⟨j, shdr, hshdr, rfl, rfl⟩⟩
  · constructor
    · intro _ h
      exact absurd h htype
    · intro _
      exact ⟨_, if_neg htype⟩

theorem exists_sectionOfSymbol_iff (rs : RelaSection) {st_shndx : BitVec 16} :
    (∃ info, sectionOfSymbol elf ctx rs st_shndx = .ok info) ↔
      SectionPlaced elf ctx st_shndx.toNat := by
  have hwidth : (st_shndx.setWidth 32).toNat = st_shndx.toNat := by
    have hlt := st_shndx.isLt
    rw [BitVec.toNat_setWidth, Nat.mod_eq_of_lt (by omega)]
  rw [← hwidth, ← exists_update_iff]
  constructor
  · rintro ⟨info, h⟩
    obtain ⟨found, hfound, -⟩ := exists_of_bind_ok h
    exact ⟨found, hfound⟩
  · rintro ⟨found, hfound⟩
    exact ⟨_, bind_of_ok hfound _⟩

/-- An undefined symbol is looked up by its name, in a process only for some types of entries. -/
theorem exists_resolveSymbol_undef_iff (hreads : rs.Reads elf relSectionID)
    (hundef : (relaSymbol elf relSectionID r).st_shndx = SHN_UNDEF)
    (hresolvable : Resolvable elf ctx relSectionID r) (info : SectionInfo) (st_value : U64) :
    (∃ v, resolveSymbol elf ctx rs info (relaSymbol elf relSectionID r) r.type st_value = .ok v) ↔
      (ctx.isUserspace = true → r.type.Undefined) := by
  have hcommon : ¬ SHN_UNDEF = SHN_COMMON := by decide
  have habs : ¬ SHN_UNDEF = SHN_ABS := by decide
  unfold resolveSymbol
  rw [hundef, if_neg hcommon, if_neg habs, if_pos rfl]
  cases ctx with
  | kernelModule currentModule getSymbolAddress =>
      exact ⟨fun _ hctx => absurd hctx Bool.false_ne_true, fun _ => ⟨_, rfl⟩⟩
  | userspace getSymbolAddress =>
      constructor
      · rintro ⟨v, h⟩ -
        -- every other type ends in an error
        cases htype : r.type <;> first
          | decide
          | rw [htype] at h; cases h
      · intro h
        have htypes := h rfl
        simp only [RelaType.Undefined, List.mem_cons, List.not_mem_nil, or_false] at htypes
        have hasked : r.type = .R_X86_64_JUMP_SLOT ∨ r.type = .R_X86_64_GLOB_DAT →
            ¬ (getSymbolAddress (elf.symbolName (relaSymbol elf relSectionID r).st_name
                rs.strindex) = 0 ∧
              ELF64_ST_BIND (relaSymbol elf relSectionID r).st_info ≠ STB_WEAK) := by
          rintro htype ⟨hzero, hstrong⟩
          rw [hreads.strindex] at hzero
          rcases hresolvable with h | h | h | h
          · rw [h] at htype
            simp at htype
          · rw [h] at htype
            simp at htype
          · exact h hzero
          · exact hstrong h
        rcases htypes with htype | htype | htype | htype
        · rw [htype]
          exact ⟨_, if_neg (hasked (.inl htype))⟩
        · rw [htype]
          exact ⟨_, if_neg (hasked (.inr htype))⟩
        · rw [htype]
          exact ⟨_, rfl⟩
        · rw [htype]
          exact ⟨_, rfl⟩

/-- The value of a known symbol is found, save for an undefined one of an entry with a type that
has none. -/
theorem exists_resolveSymbol_iff (hreads : rs.Reads elf relSectionID)
    (hknown : SymbolKnown elf ctx relSectionID r) (info : SectionInfo) (st_value : U64) :
    (∃ v, resolveSymbol elf ctx rs info (relaSymbol elf relSectionID r) r.type st_value = .ok v) ↔
      (ctx.isUserspace = true → (relaSymbol elf relSectionID r).st_shndx = SHN_UNDEF →
        r.type.Undefined) := by
  rcases hknown with ⟨hdefined, -⟩ | ⟨hundef, hresolvable⟩ | habs
  · rw [resolveSymbol_of_defined hdefined]
    exact ⟨fun _ _ hundef => absurd hundef hdefined.1, fun _ => ⟨_, rfl⟩⟩
  · rw [exists_resolveSymbol_undef_iff hreads hundef hresolvable]
    exact ⟨fun h hctx _ => h hctx, fun h hctx => h hctx hundef⟩
  · have hcommon : ¬ SHN_ABS = SHN_COMMON := by decide
    have hundef : ¬ SHN_ABS = SHN_UNDEF := by decide
    unfold resolveSymbol
    rw [habs, if_neg hcommon, if_pos rfl]
    exact ⟨fun _ _ h => absurd h hundef, fun _ => ⟨_, rfl⟩⟩

/-- Every supported type has a place and a size. -/
theorem exists_relaStore {info : SectionInfo} {type : RelaType} (h : type ≠ .unknown)
    (st_value val locInElf locInMem : U64) :
    ∃ store, relaStore rs info type st_value val locInElf locInMem = .ok store := by
  cases type with
  | unknown => exact absurd rfl h
  | R_X86_64_PC32 =>
      unfold relaStore
      dsimp only
      split <;> exact ⟨_, rfl⟩
  | _ => exact ⟨_, rfl⟩

variable {s : RelaState}

/-- Whether a round comes to its end is decided by its entry. -/
theorem exists_applyRela_iff (hreads : rs.Reads elf relSectionID)
    (hcache : CacheOk elf ctx rs s.symRelSectionInfo) (htype : r.type ≠ .unknown)
    (hknown : SymbolKnown elf ctx relSectionID r) :
    (∃ s', applyRela elf ctx rs s r = .ok s') ↔ EntryApplies elf ctx relSectionID r := by
  have hsym : elf.sym rs.symindex r.symbol = relaSymbol elf relSectionID r := by
    rw [hreads.symindex]
    rfl
  have hvalue := exists_resolveSymbol_iff hreads hknown
  unfold applyRela
  constructor
  · rintro ⟨s', h⟩
    split at h
    · cases h
    rename_i targetSection locInElf info st_value hresolved
    obtain ⟨htarget, hinfo, hresolve⟩ := resolveRela_eq_ok hcache hresolved
    rw [hsym] at hinfo hresolve
    exact ⟨(exists_relaTarget_iff _).mp ⟨_, htarget⟩,
      (exists_sectionOfSymbol_iff rs).mp ⟨info, hinfo⟩,
      (hvalue info _).mp ⟨st_value, hresolve⟩⟩
  · rintro ⟨htarget, hsymbol, hundefined⟩
    obtain ⟨⟨targetSection, locInElf⟩, htarget⟩ :=
      (exists_relaTarget_iff s.targetSection).mpr htarget
    obtain ⟨info, hinfo⟩ := (exists_sectionOfSymbol_iff rs).mpr hsymbol
    obtain ⟨st_value, hresolve⟩ := (hvalue info
      (s.host.st_value rs.symindex r.symbol)).mpr hundefined
    have hresolved : resolveRela elf ctx rs s r =
        .ok (targetSection, locInElf, info, st_value) := by
      unfold resolveRela
      simp only [hsym, bind_of_ok htarget, hcache _, bind_of_ok hinfo, bind_of_ok hresolve]
      rfl
    rw [hresolved]
    obtain ⟨store, hstore⟩ := exists_relaStore htype st_value (st_value + r.r_addend) locInElf
      (s.targetSection.memindex + r.r_offset)
    dsimp only
    rw [hstore]
    exact ⟨_, rfl⟩

end

/-! ## All entries -/

/-- Behind the entries `done`. No entry has changed an absolute symbol. -/
structure Progress (elf : ElfFile) (ctx : LoadContext) (rs : RelaSection) (relSectionID : Nat)
    (host : HostState) (done : List Elf64_Rela) (s : RelaState) : Prop where
  cache : CacheOk elf ctx rs s.symRelSectionInfo
  applied : AppliedInOrder elf relSectionID host s.host done
  absolute : ∀ i, (elf.sym rs.symindex i).st_shndx = SHN_ABS →
    s.host.st_value rs.symindex i = host.st_value rs.symindex i

theorem progress_step {host : HostState} {done : List Elf64_Rela} {s s' : RelaState}
    {r : Elf64_Rela} (hreads : rs.Reads elf relSectionID)
    (hs : Progress elf ctx rs relSectionID host done s)
    (h : applyRela elf ctx rs s r = .ok s') :
    Progress elf ctx rs relSectionID host (done ++ [r]) s' := by
  obtain ⟨hcache, info, st_value, mem, -, hresolve, hhost⟩ := host_of_applyRela hs.cache h
  -- an absolute symbol keeps the value that it had before all entries
  have hkept : (elf.sym rs.symindex r.symbol).st_shndx = SHN_ABS →
      st_value = host.st_value rs.symindex r.symbol := by
    intro habs
    have hcommon : ¬ SHN_ABS = SHN_COMMON := by decide
    unfold resolveSymbol at hresolve
    rw [habs, if_neg hcommon, if_pos rfl, hs.absolute _ habs] at hresolve
    exact (Except.ok.inj hresolve).symm
  refine ⟨hcache, ?_, fun i habs => ?_⟩
  · obtain ⟨added, hvals, hdone, hentries⟩ := hs.applied
    refine ⟨added ++ [(rs.symindex, r, st_value + r.r_addend)], ?_, by simp [hdone], ?_⟩
    · simp [hhost, HostState.relocated, hvals]
    · intro entry hentry
      rcases List.mem_append.mp hentry with hentry | hentry
      · exact hentries entry hentry
      · obtain rfl := List.mem_singleton.mp hentry
        refine ⟨hreads.symindex, fun habs => ?_⟩
        rw [relaSymbol, ← hreads.symindex] at habs
        show st_value + r.r_addend = _
        rw [hkept habs]
  · rw [hhost]
    by_cases hi : i = r.symbol
    · subst hi
      rw [HostState.relocated_self, hkept habs]
    · rw [HostState.relocated_other_symbol hi, hs.absolute i habs]

/-- **Every entry is applied** exactly if the symbol table and the sections that the loop works
with are there, among them, for an absolute symbol, one with the number `SHN_ABS`. -/
theorem everyApplied_iff {rel : List Elf64_Rela} (hid : relSectionID < elf.getNrOfSections)
    (htypes : ∀ r ∈ rel, r.type ≠ .unknown)
    (hknown : ∀ r ∈ rel, SymbolKnown elf ctx relSectionID r) (host : HostState) :
    EveryApplied elf ctx relSectionID rel host ↔ AppliesAll elf ctx relSectionID rel := by
  have hrounds : ∀ {rs : RelaSection} {targetSection : SectionInfo},
      rs.Reads elf relSectionID →
      ((∃ s, rel.foldlM (applyRela elf ctx rs) ⟨host, targetSection, SectionInfo.empty⟩ = .ok s) ↔
        ∀ r ∈ rel, EntryApplies elf ctx relSectionID r) := by
    intro rs targetSection hreads
    refine exists_foldlM_ok_iff (fun s => CacheOk elf ctx rs s.symRelSectionInfo)
      CacheOk.empty ?_ ?_
    · intro r hr s hcache
      exact exists_applyRela_iff hreads hcache (htypes r hr) (hknown r hr)
    · intro r _ s s' hcache h
      exact (host_of_applyRela hcache h).1
  constructor
  · rintro ⟨host', h, -⟩
    unfold applyRelaOnSection at h
    split at h
    · cases h
    rename_i rs targetSection hsection
    obtain ⟨s, hloop, -⟩ := exists_of_bind_ok h
    obtain ⟨hsymtab, hpatched, hpercpu⟩ := (exists_relaSection_iff hid).mp ⟨_, hsection⟩
    exact ⟨hsymtab, hpatched, hpercpu, (hrounds (reads_of_relaSection hsection)).mp ⟨s, hloop⟩⟩
  · rintro ⟨hsymtab, hpatched, hpercpu, hentries⟩
    obtain ⟨⟨rs, targetSection⟩, hsection⟩ :=
      (exists_relaSection_iff hid).mpr ⟨hsymtab, hpatched, hpercpu⟩
    have hreads := reads_of_relaSection hsection
    obtain ⟨s, hloop⟩ := (hrounds hreads).mpr hentries
    have hstart : Progress elf ctx rs relSectionID host []
        ⟨host, targetSection, SectionInfo.empty⟩ :=
      ⟨CacheOk.empty, ⟨[], by simp⟩, fun _ _ => rfl⟩
    have hprogress : Ensures (rel.foldlM (applyRela elf ctx rs)
        ⟨host, targetSection, SectionInfo.empty⟩) (fun _ => True)
        (Progress elf ctx rs relSectionID host rel) := by
      refine Ensures.foldlM (Progress elf ctx rs relSectionID host) hstart ?_
      intro done r _ _ s hs
      cases hround : applyRela elf ctx rs s r with
      | error stop => exact Ensures.error trivial
      | ok s' => exact Ensures.ok (progress_step hreads hs hround)
    refine ⟨s.host, ?_, (hprogress.of_ok hloop).applied⟩
    unfold applyRelaOnSection
    rw [hsection]
    exact bind_of_ok hloop _

end

/-- In the file content, too, all entries are applied, if they keep its tables. -/
theorem EveryApplied.inPlace {elf : ElfFile} {ctx : LoadContext} {relSectionID : Nat}
    {rel : List Elf64_Rela} {mem : Memory} {e_shoff : U64} {S : Set (Nat × Nat)}
    (h : EveryApplied elf ctx relSectionID rel ⟨mem, elf.st_value mem, []⟩)
    (hS : ∀ r ∈ rel, ((elf.shdr relSectionID).sh_link.toNat, r.symbol) ∈ S)
    (hkept : TablesKept elf e_shoff S (InPlace.finalFile
      (InPlace.applyRelaOnSection elf ctx relSectionID rel (.start mem))).written) :
    ∃ file, InPlace.applyRelaOnSection elf ctx relSectionID rel (.start mem) = .ok file ∧
      file.vals.map (fun entry => entry.2.1) = rel := by
  obtain ⟨host, happly, added, hvals, hadded, -⟩ := h
  have halike : EndsAlike (Agrees elf S) (Agrees elf S)
      (InPlace.applyRelaOnSection elf ctx relSectionID rel (.start mem))
      (applyRelaOnSection elf ctx relSectionID rel ⟨mem, elf.st_value mem, []⟩) :=
    agrees_of_section hS hkept
  rw [happly] at halike
  cases hfile : InPlace.applyRelaOnSection elf ctx relSectionID rel (.start mem) with
  | ok file =>
      rw [hfile] at halike
      refine ⟨file, rfl, ?_⟩
      rw [Agrees.vals halike, hvals]
      exact hadded
  | error stop =>
      rw [hfile] at halike
      exact halike.elim

def percpuContext : LoadContext := .kernelModule percpuInstance fun _ => 0

def hostAtStart : HostState := ⟨fun _ => 0, percpuOffsets, []⟩

theorem everyApplied_percpu :
    EveryApplied percpuModule percpuContext 4 (percpuModule.rela 4) hostAtStart := by
  have hentries : ∀ r ∈ percpuModule.rela 4,
      (relaSymbol percpuModule 4 r).Defined ∧
        (relaSymbol percpuModule 4 r).st_shndx.toNat < 5 ∧
        percpuModule.sectionName (relaSymbol percpuModule 4 r).st_shndx.toNat ≠ ".bss" := by
    decide
  refine (everyApplied_iff (by decide) (by decide) (fun r hr => ?_) hostAtStart).mpr ?_
  · exact .inl ⟨(hentries r hr).1, (hentries r hr).2.1⟩
  · refine ⟨by decide, ⟨by decide, fun _ hbss => absurd hbss (by decide)⟩, fun _ => by decide,
      fun r hr => ⟨fun htype => absurd htype (by decide), ⟨(hentries r hr).2.1, ?_⟩, ?_⟩⟩
    · intro _ hbss
      exact absurd hbss (hentries r hr).2.2
    · intro hctx
      cases hctx

/-- The module again, with an absolute symbol in place of the one for its per-CPU data. -/
def absModule : ElfFile where
  e_type := percpuModule.e_type
  e_entry := percpuModule.e_entry
  fileContent := percpuModule.fileContent
  elf64Shdr := percpuModule.elf64Shdr
  shnum_lt := percpuModule.shnum_lt
  rela := percpuModule.rela
  sym := fun _ i => ⟨0, 0, if i = 1 then 1 else SHN_ABS⟩
  symbolName := percpuModule.symbolName

/-- The second entry, with the absolute symbol, ends the loop. The first one has been applied and
the third one has not. -/
theorem absModule_prefix_applied :
    (∀ r ∈ absModule.rela 4, r.type ≠ .unknown ∧ SymbolKnown absModule percpuContext 4 r) ∧
    (∃ host, applyRelaOnSection absModule percpuContext 4 (absModule.rela 4) hostAtStart =
        .error (host, .error "could not find section by id") ∧
      hostAtStart.mem 0x10040 = 0 ∧ host.mem 0x10040 = 0x14 ∧ host.vals.length = 1) ∧
    ¬ EveryApplied absModule percpuContext 4 (absModule.rela 4) hostAtStart := by
  have hknown : ∀ r ∈ absModule.rela 4, r.type ≠ .unknown ∧
      ((relaSymbol absModule 4 r).Defined ∧ (relaSymbol absModule 4 r).st_shndx.toNat < 5 ∨
        (relaSymbol absModule 4 r).st_shndx = SHN_ABS) := by
    decide
  have hstop : ∃ host, applyRelaOnSection absModule percpuContext 4 (absModule.rela 4)
        hostAtStart = .error (host, .error "could not find section by id") ∧
      hostAtStart.mem 0x10040 = 0 ∧ host.mem 0x10040 = 0x14 ∧ host.vals.length = 1 :=
    ⟨_, rfl, rfl, rfl, rfl⟩
  refine ⟨fun r hr => ⟨(hknown r hr).1, ?_⟩, hstop, ?_⟩
  · rcases (hknown r hr).2 with hdefined | habs
    · exact .inl hdefined
    · exact .inr (.inr habs)
  · rintro ⟨host', h, -⟩
    obtain ⟨host, herror, -⟩ := hstop
    rw [herror] at h
    cases h

end KernInt
