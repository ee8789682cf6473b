import KernInt.Elf.RelocationOrder
import KernInt.Elf.RelocationTarget
import KernInt.Kernel.Altinstr

set_option autoImplicit false

/-! # The relocation of `.altinstructions`

The table tells its places by distances, which `applyRelaOnSection` computes for the host: the
guest address of the section is taken off and the host address put in its place. The value of
the symbol has to be an address for this. One that is below the address of its section counts as
an offset and is made an address first, so that all goes well for the sections of a real guest,
which start far above all offsets (`altinstr_pointer_relocated`).
-/

namespace KernInt

open Lib

/-! ## A distance of 32 bits -/

/-- Four bytes that are those of a word. -/
theorem loadWord_of_bytes {mem : Memory} {p v : U64}
    (h : ∀ k < 4, mem (p + BitVec.ofNat 64 k) = v.extractLsb' (8 * k) 8) :
    loadWord mem p = v.setWidth 32 := by
  apply load32_of_bytes32
  intro k hk
  rw [Nat.zero_add, h k hk]
  match k, hk with
  | 0, _ | 1, _ | 2, _ | 3, _ => simp [bytes32, BitVec.extractLsb'_setWidth_of_le]

/-! ## The value of the symbol -/

/-- The address of the section does not matter for the lower half, or the offset is below it and
adding it does not wrap around. -/
def GoodBase (base offset : U64) : Prop :=
  base.setWidth 32 = 0#32 ∨ offset < base ∧ base.toNat + offset.toNat < 2 ^ 64

instance (base offset : U64) : Decidable (GoodBase base offset) :=
  inferInstanceAs (Decidable (_ ∨ _ ∧ _))

/-- What may have become of the value of a symbol with this offset: as far as it matters, it is
the offset or the address. -/
def Rebased (base offset st_value : U64) : Prop :=
  base.setWidth 32 = 0#32 ∧ st_value.setWidth 32 = offset.setWidth 32 ∨
    (offset < base ∧ base.toNat + offset.toNat < 2 ^ 64) ∧
      (st_value = offset ∨ st_value = base + offset)

section

variable {base offset st_value : U64}

theorem rebased_start (h : GoodBase base offset)
    (hvalue : st_value = offset ∨ st_value = base + offset) : Rebased base offset st_value := by
  rcases h with hzero | hbelow
  · refine .inl ⟨hzero, ?_⟩
    rcases hvalue with rfl | rfl
    · rfl
    · rw [setWidth_add, hzero, BitVec.zero_add]
  · exact .inr ⟨hbelow, hvalue⟩

/-- An entry computes with the address. -/
theorem Rebased.addBase_eq (h : Rebased base offset st_value) :
    base.setWidth 32 = 0#32 ∧ (addBase base st_value).setWidth 32 = offset.setWidth 32 ∨
      (offset < base ∧ base.toNat + offset.toNat < 2 ^ 64) ∧
        addBase base st_value = base + offset := by
  rcases h with ⟨hzero, hvalue⟩ | ⟨hbelow, rfl | rfl⟩
  · refine .inl ⟨hzero, ?_⟩
    unfold addBase
    split
    · rw [setWidth_add, hzero, BitVec.add_zero, hvalue]
    · exact hvalue
  · exact .inr ⟨hbelow, addBase_of_lt hbelow.1⟩
  · exact .inr ⟨hbelow, addBase_add hbelow.2⟩

theorem Rebased.next (h : Rebased base offset st_value) :
    Rebased base offset (addBase base st_value) :=
  h.addBase_eq.imp_right fun ⟨hbelow, hvalue⟩ => ⟨hbelow, .inr hvalue⟩

theorem Rebased.sub_base (h : Rebased base offset st_value) :
    (addBase base st_value - base).setWidth 32 = offset.setWidth 32 := by
  rcases h.addBase_eq with ⟨hzero, hvalue⟩ | ⟨-, hvalue⟩
  · rw [setWidth_sub, hzero, hvalue, BitVec.sub_zero]
  · rw [hvalue, BitVec.add_comm, BitVec.add_sub_cancel]

end

/-! ## One round -/

/-- How many bytes an entry may write. -/
def RelaType.reach : RelaType → Nat
  | .R_X86_64_NONE | .R_X86_64_COPY => 0
  | .R_X86_64_32S | .R_X86_64_PC32 => 4
  | _ => 8

section

variable {elf : ElfFile} {currentModule : ModuleInstance} {getSymbolAddress : String → U64}
  {rs : RelaSection} {s s' : RelaState} {rel : Elf64_Rela}

theorem width_of_relaStore {info : SectionInfo} {type : RelaType}
    {st_value val locInElf locInMem : U64} {store : Store}
    (h : relaStore rs info type st_value val locInElf locInMem = .ok store) :
    store.width = type.reach := by
  unfold relaStore at h
  cases type with
  | R_X86_64_PC32 =>
      dsimp only at h
      split at h <;> (cases h; rfl)
  | unknown => cases h
  | _ => cases h; rfl

/-- What a round leaves. -/
structure RelaRound (elf : ElfFile) (currentModule : ModuleInstance)
    (getSymbolAddress : String → U64) (rs : RelaSection) (s s' : RelaState) (rel : Elf64_Rela)
    (info : SectionInfo) (st_value : U64) (store : Store) : Prop where
  section_eq : sectionOfSymbol elf (.kernelModule currentModule getSymbolAddress) rs
    (elf.sym rs.symindex rel.symbol).st_shndx = .ok info
  value : resolveSymbol elf (.kernelModule currentModule getSymbolAddress) rs info
    (elf.sym rs.symindex rel.symbol) rel.type (s.host.st_value rs.symindex rel.symbol) =
      .ok st_value
  stored : relaStore rs info rel.type st_value (st_value + rel.r_addend)
    (s.targetSection.index + rel.r_offset) (s.targetSection.memindex + rel.r_offset) = .ok store
  host : s'.host = s.host.relocated rs.symindex rel st_value (store.apply s.host.mem)
  targetSection : s'.targetSection = s.targetSection
  cache : CacheOk elf (.kernelModule currentModule getSymbolAddress) rs s'.symRelSectionInfo

theorem applyRela_round (hrel : elf.e_type = ET_REL)
    (hcache : CacheOk elf (.kernelModule currentModule getSymbolAddress) rs s.symRelSectionInfo)
    (h : applyRela elf (.kernelModule currentModule getSymbolAddress) rs s rel = .ok s') :
    ∃ info st_value store,
      RelaRound elf currentModule getSymbolAddress rs s s' rel info st_value store := by
  unfold applyRela at h
  split at h
  · cases h
  · rename_i targetSection locInElf info st_value hresolve
    obtain ⟨htarget, hinfo, hvalue⟩ := resolveRela_eq_ok hcache hresolve
    rw [relaTarget_of_relocatable hrel] at htarget
    cases htarget
    dsimp only at h
    split at h
    · cases h
    · rename_i store hstore
      cases h
      exact ⟨info, st_value, store, hinfo, hvalue, hstore, rfl, rfl, CacheOk.next hinfo⟩

variable {base offset : U64} {i : Nat}

/-- What is known in front of an entry: the kept section, the target section, and what has become
of the value of symbol number `i`. -/
structure InFrontOf (elf : ElfFile) (currentModule : ModuleInstance)
    (getSymbolAddress : String → U64) (rs : RelaSection) (targetSection : SectionInfo)
    (s : RelaState) : Prop where
  cache : CacheOk elf (.kernelModule currentModule getSymbolAddress) rs s.symRelSectionInfo
  target : s.targetSection = targetSection

theorem InFrontOf.next {targetSection : SectionInfo} {info : SectionInfo} {st_value : U64}
    {store : Store} (h : InFrontOf elf currentModule getSymbolAddress rs targetSection s)
    (hround : RelaRound elf currentModule getSymbolAddress rs s s' rel info st_value store) :
    InFrontOf elf currentModule getSymbolAddress rs targetSection s' :=
  ⟨hround.cache, hround.targetSection.trans h.target⟩

/-- The value of a symbol in a section at `base` stays as good as it is. -/
theorem rebased_round {info : SectionInfo} {st_value : U64} {store : Store}
    (hpercpu : elf.findSectionWithName ".data..percpu" = .ok rs.percpuDataSection)
    (hdefined : (elf.sym rs.symindex i).Defined)
    (hbase : guestBase elf currentModule (elf.sym rs.symindex i).st_shndx = .ok base)
    (hround : RelaRound elf currentModule getSymbolAddress rs s s' rel info st_value store)
    (h : Rebased base offset (s.host.st_value rs.symindex i)) :
    Rebased base offset (s'.host.st_value rs.symindex i) := by
  rw [hround.host]
  by_cases hi : i = rel.symbol
  · subst hi
    have hmemindex := guestBase_of_sectionOfSymbol hpercpu hround.section_eq
    have hbase' : info.memindex = base := Except.ok.inj (hmemindex.symm.trans hbase)
    have hvalue := hround.value
    rw [resolveSymbol_of_defined hdefined, hbase'] at hvalue
    rw [HostState.relocated_self, ← Except.ok.inj hvalue]
    exact h.next
  · rw [HostState.relocated_other_symbol hi]
    exact h

/-- A byte that the entry does not reach stays. -/
theorem mem_round {info : SectionInfo} {st_value a : U64} {store : Store}
    (hround : RelaRound elf currentModule getSymbolAddress rs s s' rel info st_value store)
    (ha : rel.type.reach ≤ (a - (s.targetSection.index + rel.r_offset)).toNat) :
    s'.host.mem a = s.host.mem a := by
  rw [hround.host]
  apply Store.apply_of_not_covers
  unfold Store.Covers
  rw [addr_of_relaStore hround.stored, width_of_relaStore hround.stored]
  exact Nat.not_lt.mpr ha

/-- The section of a symbol is where the host has it. -/
theorem index_of_sectionOfSymbol {ctx : LoadContext} {st_shndx : BitVec 16}
    {info found : SectionInfo} (hfound : elf.findSectionByID (st_shndx.setWidth 32) = .ok found)
    (h : sectionOfSymbol elf ctx rs st_shndx = .ok info) : info.index = found.index := by
  obtain ⟨updated, hupdated, hinfo⟩ := exists_of_bind_ok h
  rw [hfound] at hupdated
  cases hinfo
  have hindex : updated.index = found.index := by rw [update_eq_ok hupdated]
  unfold percpuHook
  cases ctx with
  | kernelModule currentModule getSymbolAddress =>
      dsimp only
      split <;> exact hindex
  | userspace getSymbolAddress => exact hindex

/-- A store of four bytes is found as a word. -/
theorem loadWord_store (p v : U64) (mem : Memory) :
    loadWord ((⟨p, 4, v⟩ : Store).apply mem) p = v.setWidth 32 := by
  apply loadWord_of_bytes
  intro k hk
  have hdist : (p + BitVec.ofNat 64 k - p).toNat = k := toNat_add_sub p (by omega)
  have hcovers : (⟨p, 4, v⟩ : Store).Covers (p + BitVec.ofNat 64 k) := by
    unfold Store.Covers
    rw [hdist]
    exact hk
  rw [Store.apply_of_covers hcovers, Store.byteAt, hdist]

/-- The field of an entry of `.altinstructions` for byte `k` of a section tells the place of this
byte on the host. -/
theorem relativeTo_round {info found : SectionInfo} {st_value k : U64} {store : Store}
    (haltinstr : rs.isAltinstrSection = true) (htype : rel.type = .R_X86_64_PC32)
    (hpercpu : elf.findSectionWithName ".data..percpu" = .ok rs.percpuDataSection)
    (hdefined : (elf.sym rs.symindex rel.symbol).Defined)
    (hbase : guestBase elf currentModule (elf.sym rs.symindex rel.symbol).st_shndx = .ok base)
    (hfound : elf.findSectionByID ((elf.sym rs.symindex rel.symbol).st_shndx.setWidth 32) =
      .ok found)
    (hround : RelaRound elf currentModule getSymbolAddress rs s s' rel info st_value store)
    (h : Rebased base offset (s.host.st_value rs.symindex rel.symbol))
    (hk : offset + rel.r_addend = k)
    (hfits : -2 ^ 31 ≤ (found.index + k - (s.targetSection.index + rel.r_offset)).toInt ∧
      (found.index + k - (s.targetSection.index + rel.r_offset)).toInt < 2 ^ 31) :
    relativeTo s'.host.mem (s.targetSection.index + rel.r_offset) = found.index + k := by
  have hmemindex := guestBase_of_sectionOfSymbol hpercpu hround.section_eq
  have hbase' : info.memindex = base := Except.ok.inj (hmemindex.symm.trans hbase)
  have hindex := index_of_sectionOfSymbol hfound hround.section_eq
  have hvalue := hround.value
  rw [resolveSymbol_of_defined hdefined, hbase'] at hvalue
  have hstored := hround.stored
  rw [htype, ← Except.ok.inj hvalue] at hstored
  unfold relaStore at hstored
  rw [hbase', hindex, if_pos haltinstr] at hstored
  have hword : loadWord s'.host.mem (s.targetSection.index + rel.r_offset) =
      (found.index + k - (s.targetSection.index + rel.r_offset)).setWidth 32 := by
    have hword : ∀ x a b c d : U64, (x + a - b + c - d).setWidth 32 =
        (x - b).setWidth 32 + (a + c - d).setWidth 32 := by
      intro x a b c d
      rw [← setWidth_add]
      congr 1
      grind
    rw [hround.host, ← Except.ok.inj hstored]
    show loadWord (Store.apply _ _) _ = _
    rw [loadWord_store, hword, h.sub_base, ← setWidth_add, ← hk]
    congr 1
    grind
  unfold relativeTo
  rw [hword, signExtend_setWidth_of_fits hfits, BitVec.add_comm, BitVec.sub_add_cancel]

end

/-! ## A run -/

/-- The place that an entry of a module patches. -/
def fieldAddress (elf : ElfFile) (relSectionID : Nat) (rel : Elf64_Rela) : U64 :=
  elf.fileContent + (targetShdr elf relSectionID).sh_offset + rel.r_offset

/-- An entry of `.rela.altinstructions` for byte `k` of the section `found`, which the guest has at
`base`. The symbol has the offset `offset` in this section. -/
structure AltinstrRela (elf : ElfFile) (currentModule : ModuleInstance) (relSectionID : Nat)
    (rel : Elf64_Rela) (found : SectionInfo) (base offset k : U64) : Prop where
  relocatable : elf.e_type = ET_REL
  altinstructions : (targetShdr elf relSectionID).sh_name = ".altinstructions"
  type_eq : rel.type = .R_X86_64_PC32
  defined : (elf.sym (elf.shdr relSectionID).sh_link.toNat rel.symbol).Defined
  base_eq : guestBase elf currentModule
    (elf.sym (elf.shdr relSectionID).sh_link.toNat rel.symbol).st_shndx = .ok base
  found_eq : elf.findSectionByID
    ((elf.sym (elf.shdr relSectionID).sh_link.toNat rel.symbol).st_shndx.setWidth 32) = .ok found
  byte_eq : offset + rel.r_addend = k
  fits : -2 ^ 31 ≤ (found.index + k - fieldAddress elf relSectionID rel).toInt ∧
    (found.index + k - fieldAddress elf relSectionID rel).toInt < 2 ^ 31

/-- No entry of the list writes into the field of `rel`. -/
def LeavesField (rel : Elf64_Rela) (entries : List Elf64_Rela) : Prop :=
  ∀ r ∈ entries, ∀ n < 4,
    r.type.reach ≤ (rel.r_offset + BitVec.ofNat 64 n - r.r_offset).toNat

theorem relativeTo_congr {mem mem' : Memory} {p : U64}
    (h : ∀ n < 4, mem' (p + BitVec.ofNat 64 n) = mem (p + BitVec.ofNat 64 n)) :
    relativeTo mem' p = relativeTo mem p := by
  unfold relativeTo
  rw [loadWord_congr h]

section

variable {elf : ElfFile} {currentModule : ModuleInstance} {getSymbolAddress : String → U64}
  {rs : RelaSection} {targetSection : SectionInfo} {s s' : RelaState} {base offset : U64}

/-- The entries in front of one leave the value of its symbol as good as it was. -/
theorem rebased_rounds {entries : List Elf64_Rela} {i : Nat} (hrel : elf.e_type = ET_REL)
    (hpercpu : elf.findSectionWithName ".data..percpu" = .ok rs.percpuDataSection)
    (hdefined : (elf.sym rs.symindex i).Defined)
    (hbase : guestBase elf currentModule (elf.sym rs.symindex i).st_shndx = .ok base)
    (hs : InFrontOf elf currentModule getSymbolAddress rs targetSection s)
    (hvalue : Rebased base offset (s.host.st_value rs.symindex i))
    (hrun : entries.foldlM (applyRela elf (.kernelModule currentModule getSymbolAddress) rs) s =
      .ok s') :
    InFrontOf elf currentModule getSymbolAddress rs targetSection s' ∧
      Rebased base offset (s'.host.st_value rs.symindex i) := by
  refine invariant_of_foldlM_ok
    (fun s => InFrontOf elf currentModule getSymbolAddress rs targetSection s ∧
      Rebased base offset (s.host.st_value rs.symindex i)) ⟨hs, hvalue⟩ ?_ hrun
  rintro r - s₁ s₂ ⟨hs₁, hvalue₁⟩ happly
  obtain ⟨info, st_value, store, hround⟩ := applyRela_round hrel hs₁.cache happly
  exact ⟨hs₁.next hround, rebased_round hpercpu hdefined hbase hround hvalue₁⟩

/-- The entries behind one leave its field. -/
theorem mem_rounds {entries : List Elf64_Rela} {rel : Elf64_Rela} (hrel : elf.e_type = ET_REL)
    (hs : InFrontOf elf currentModule getSymbolAddress rs targetSection s)
    (hleaves : LeavesField rel entries)
    (hrun : entries.foldlM (applyRela elf (.kernelModule currentModule getSymbolAddress) rs) s =
      .ok s') {n : Nat} (hn : n < 4) :
    s'.host.mem (targetSection.index + rel.r_offset + BitVec.ofNat 64 n) =
      s.host.mem (targetSection.index + rel.r_offset + BitVec.ofNat 64 n) := by
  have hall := invariant_of_foldlM_ok
    (fun s₁ => InFrontOf elf currentModule getSymbolAddress rs targetSection s₁ ∧
      s₁.host.mem (targetSection.index + rel.r_offset + BitVec.ofNat 64 n) =
        s.host.mem (targetSection.index + rel.r_offset + BitVec.ofNat 64 n)) ⟨hs, rfl⟩ ?_ hrun
  · exact hall.2
  · rintro r hr s₁ s₂ ⟨hs₁, hmem⟩ happly
    obtain ⟨info, st_value, store, hround⟩ := applyRela_round hrel hs₁.cache happly
    refine ⟨hs₁.next hround, (mem_round hround ?_).trans hmem⟩
    have hdist : targetSection.index + rel.r_offset + BitVec.ofNat 64 n -
        (targetSection.index + r.r_offset) = rel.r_offset + BitVec.ofNat 64 n - r.r_offset := by
      grind
    rw [hs₁.target, hdist]
    exact hleaves r hr n hn

end

/-- **The distances of `.altinstructions` are those on the host.** In a run that succeeds the field
of an entry tells the place of its byte, whatever entries stand in front of it, and whether or
not the symbol holds its address already. -/
theorem altinstr_pointer_relocated (target : ElfKernelspaceLoader)
    {currentModule : ModuleInstance} {getSymbolAddress : String → U64} {relSectionID : Nat}
    {pre post : List Elf64_Rela} {rel : Elf64_Rela} {found : SectionInfo}
    {base offset k : U64} {host host' : HostState}
    (hmodule : target.currentModule = some currentModule)
    (hentry : AltinstrRela target.elffile currentModule relSectionID rel found base offset k)
    (hgood : GoodBase base offset)
    (hvalue : host.st_value (target.elffile.shdr relSectionID).sh_link.toNat rel.symbol = offset ∨
      host.st_value (target.elffile.shdr relSectionID).sh_link.toNat rel.symbol = base + offset)
    (hpost : LeavesField rel post)
    (hrun : applyRelaOnSection target.elffile (.kernelModule currentModule getSymbolAddress)
      relSectionID (pre ++ rel :: post) host = .ok host') :
    target.instr host'.mem (fieldAddress target.elffile relSectionID rel) = found.index + k ∧
      relativeTo host'.mem (fieldAddress target.elffile relSectionID rel) = found.index + k := by
  suffices hrelative : relativeTo host'.mem (fieldAddress target.elffile relSectionID rel) =
      found.index + k by
    refine ⟨?_, hrelative⟩
    unfold ElfKernelspaceLoader.instr
    rw [hmodule]
    exact hrelative
  unfold applyRelaOnSection at hrun
  split at hrun
  · cases hrun
  · rename_i rs targetSection hsection
    obtain ⟨hsym, hindex, hpercpu⟩ := relaSection_eq_ok hsection
    have haltinstr : rs.isAltinstrSection = true := by
      rw [(relaSection_parts hsection).1, beq_iff_eq]
      exact hentry.altinstructions
    have hdefined := hentry.defined
    have hbase := hentry.base_eq
    have hfound := hentry.found_eq
    have hfits := hentry.fits
    have hfield : fieldAddress target.elffile relSectionID rel =
        targetSection.index + rel.r_offset := by rw [hindex]; rfl
    rw [← hsym] at hdefined hbase hfound hvalue
    rw [hfield] at hfits ⊢
    obtain ⟨s, hloop, hend⟩ := exists_of_bind_ok hrun
    cases hend
    -- the entries in front may have changed the value of the symbol, but not beyond repair
    obtain ⟨s₀, s₁, hpre, happly, hrest⟩ := foldlM_split_eq_ok_iff.mp hloop
    obtain ⟨hs₀, hvalue₀⟩ := rebased_rounds hentry.relocatable hpercpu hdefined hbase
      ⟨CacheOk.empty, rfl⟩ (rebased_start hgood hvalue) hpre
    obtain ⟨info, st_value, store, hround⟩ := applyRela_round hentry.relocatable hs₀.cache happly
    have hstored := relativeTo_round haltinstr hentry.type_eq hpercpu hdefined hbase hfound hround
      hvalue₀ hentry.byte_eq (by rw [hs₀.target]; exact hfits)
    rw [hs₀.target] at hstored
    rw [← hstored]
    -- the entries behind it leave the field
    exact relativeTo_congr fun n hn =>
      mem_rounds hentry.relocatable (hs₀.next hround) hpost hrest hn

/-- In the file content the field tells the same place, if no value of a symbol is there and the
entries keep the tables. -/
theorem relativeTo_inPlace {elf : ElfFile} {ctx : LoadContext} {relSectionID : Nat}
    {entries : List Elf64_Rela} {mem : Memory} {e_shoff : U64} {S : Set (Nat × Nat)}
    {host : HostState} {p : U64}
    (hrun : applyRelaOnSection elf ctx relSectionID entries ⟨mem, elf.st_value mem, []⟩ = .ok host)
    (hS : ∀ r ∈ entries, ((elf.shdr relSectionID).sh_link.toNat, r.symbol) ∈ S)
    (hkept : TablesKept elf e_shoff S (InPlace.finalFile
      (InPlace.applyRelaOnSection elf ctx relSectionID entries (.start mem))).written)
    (hvalues : ∀ n < 4, BesideValues elf S (p + BitVec.ofNat 64 n)) :
    relativeTo (InPlace.finalFile
      (InPlace.applyRelaOnSection elf ctx relSectionID entries (.start mem))).mem p =
        relativeTo host.mem p := by
  have hagrees := Agrees.of_endsAlike (agrees_of_section hS hkept)
  rw [hrun] at hagrees
  exact relativeTo_congr fun n hn => hagrees.mem _ (hvalues n hn)

/-! ## A module with one element -/

def altinstrEntry : Elf64_Rela := ⟨0, 1 <<< 32 ||| 2, 4⟩

/-- The only entry is for byte 0x24 of `.text`, and its symbol has the offset 0x20. -/
def altinstrModule : ElfFile where
  e_type := ET_REL
  e_entry := 0
  fileContent := 0x10000
  elf64Shdr :=
    [ default,
      { (default : Elf64_Shdr) with
        sh_name := ".text", sh_flags := SHF_ALLOC, sh_offset := 0x40, sh_size := 0x100 },
      { (default : Elf64_Shdr) with sh_name := ".data..percpu", sh_offset := 0x140 },
      { (default : Elf64_Shdr) with sh_name := ".symtab" },
      { (default : Elf64_Shdr) with
        sh_name := ".altinstructions", sh_flags := SHF_ALLOC, sh_offset := 0x200, sh_size := 12 },
      { (default : Elf64_Shdr) with
        sh_name := ".rela.altinstructions", sh_type := SHT_RELA, sh_size := 0x18, sh_link := 3,
        sh_info := 4 } ]
  shnum_lt := by decide
  rela _ := [altinstrEntry]
  sym _ _ := ⟨0, 0, 1⟩
  symbolName _ _ := ""

def altinstrInstance (text : U64) : ModuleInstance where
  size := 0x1000
  address := 0xffffffffa0002000
  gpl_syms := 0
  percpu := 0
  sect_attrs := [(".text", text)]

def altinstrLoader (text : U64) : ElfKernelspaceLoader where
  elffile := altinstrModule
  textSegment := altinstrModule.sectionInfo 1 (altinstrModule.shdr 1)
  currentModule := some (altinstrInstance text)

def altinstrHost : HostState := ⟨fun _ => 0, fun _ _ => 0x20, []⟩

theorem altinstrRela_of_base (text : U64) :
    AltinstrRela altinstrModule (altinstrInstance text) 5 altinstrEntry
      (altinstrModule.sectionInfo 1 (altinstrModule.shdr 1)) text 0x20 0x24 where
  relocatable := rfl
  altinstructions := rfl
  type_eq := rfl
  defined := by decide
  base_eq := rfl
  found_eq := rfl
  byte_eq := rfl
  fits := by decide

/-- At the address of a real module the field tells the place of the byte. -/
theorem altinstr_pointer_module :
    ∃ host', applyRelaOnSection altinstrModule
        (.kernelModule (altinstrInstance 0xffffffffa0000000) fun _ => 0) 5 [altinstrEntry]
        altinstrHost = .ok host' ∧
      (altinstrLoader 0xffffffffa0000000).instr host'.mem 0x10200 = 0x10064 := by
  have hnone : LeavesField altinstrEntry [] := by
    intro r hr
    cases hr
  obtain ⟨host', hrun⟩ : ∃ host', applyRelaOnSection altinstrModule
      (.kernelModule (altinstrInstance 0xffffffffa0000000) fun _ => 0) 5
      ([] ++ altinstrEntry :: []) altinstrHost = .ok host' := ⟨_, rfl⟩
  refine ⟨host', hrun, ?_⟩
  exact (altinstr_pointer_relocated (altinstrLoader 0xffffffffa0000000) rfl
    (altinstrRela_of_base _) (by decide) (.inl rfl) hnone hrun).1

/-- In a guest that had `.text` at 0x10 the offset of the symbol would be taken for an address. -/
theorem altinstr_pointer_low_base :
    ∃ host', applyRelaOnSection altinstrModule (.kernelModule (altinstrInstance 0x10) fun _ => 0) 5
        [altinstrEntry] altinstrHost = .ok host' ∧
      AltinstrRela altinstrModule (altinstrInstance 0x10) 5 altinstrEntry
        (altinstrModule.sectionInfo 1 (altinstrModule.shdr 1)) 0x10 0x20 0x24 ∧
      altinstrHost.st_value 3 altinstrEntry.symbol = 0x20 ∧
      (altinstrModule.sectionInfo 1 (altinstrModule.shdr 1)).index + 0x24 = 0x10064 ∧
      (altinstrLoader 0x10).instr host'.mem 0x10200 = 0x10054 :=
  ⟨_, rfl, altinstrRela_of_base 0x10, rfl, rfl, by decide⟩

end KernInt
