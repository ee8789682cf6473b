import KernInt.Elf.RelocationSymbols
import KernInt.Lib.Patches
import Mathlib.Data.List.Pairwise

set_option autoImplicit false

/-! # The fields and the order of the relocations of a module

The entries of a relocation section of a module are patches: their cells are the values of the
symbols, and `applyRelaOnSection` applies them as a list of patches is applied
(`relocatedHost_patched`). An entry of type `R_X86_64_32` has a field of four bytes, but
eight are stored, so it reaches bytes behind its field. When this, a symbol that cannot be
looked up, or an address that wraps around has an effect is decided by `relocation_settled_iff`.
-/

namespace KernInt

open Lib

/-- The types of entries that modules have. -/
def RelaType.Plain (type : RelaType) : Prop :=
  type ∈ [RelaType.R_X86_64_NONE, .R_X86_64_64, .R_X86_64_32, .R_X86_64_32S, .R_X86_64_PC32]

instance (type : RelaType) : Decidable type.Plain :=
  inferInstanceAs (Decidable (_ ∈ _))

/-- The size of the field that an entry relocates. -/
def RelaType.fieldSize : RelaType → Nat
  | .R_X86_64_64 => 8
  | .R_X86_64_32 | .R_X86_64_32S | .R_X86_64_PC32 => 4
  | _ => 0

/-- The number of bytes that are stored for an entry. -/
def RelaType.storeSize : RelaType → Nat
  | .R_X86_64_64 | .R_X86_64_32 => 8
  | .R_X86_64_32S | .R_X86_64_PC32 => 4
  | _ => 0

/-- Only one type reaches beyond its field. -/
theorem RelaType.storeSize_le {type : RelaType} (h : type ≠ .R_X86_64_32) :
    type.storeSize ≤ type.fieldSize := by
  cases type <;> first | exact absurd rfl h | decide

/-! ## What is to hold of a relocation section -/

section

variable (elf : ElfFile) (ctx : LoadContext) (relSectionID : Nat) (rel : List Elf64_Rela)
  (host : HostState)

/-- The header of the section that the entries are applied to. -/
def targetShdr : Elf64_Shdr := elf.shdr (elf.shdr relSectionID).sh_info.toNat

/-- The address lies in the field of an entry. -/
def InField (r : Elf64_Rela) (a : U64) : Prop :=
  (a - (elf.fileContent + (targetShdr elf relSectionID).sh_offset + r.r_offset)).toNat <
    r.type.fieldSize

/-- The field of an entry lies in the section. -/
def FieldInSection (r : Elf64_Rela) : Prop :=
  r.r_offset.toNat + r.type.fieldSize ≤ (targetShdr elf relSectionID).sh_size.toNat

/-- The fields of two entries have no byte in common. -/
def FieldsDisjoint (r r' : Elf64_Rela) : Prop :=
  r.r_offset.toNat + r.type.fieldSize ≤ r'.r_offset.toNat ∨
    r'.r_offset.toNat + r'.type.fieldSize ≤ r.r_offset.toNat

instance (a : U64) : Decidable (∀ r ∈ rel, ¬ InField elf relSectionID r a) :=
  inferInstanceAs (Decidable (∀ r ∈ rel, ¬ _ < _))

instance (r : Elf64_Rela) : Decidable (FieldInSection elf relSectionID r) :=
  inferInstanceAs (Decidable (_ ≤ _))

instance : DecidableRel FieldsDisjoint :=
  fun _ _ => inferInstanceAs (Decidable (_ ∨ _))

/-- The state in which `applyRelaOnSection` leaves the host. -/
def relocatedHost : HostState := finalHost (applyRelaOnSection elf ctx relSectionID rel host)

/-- Nothing changes but the bytes of the fields and the values in the symbol table. -/
def TouchesOnlyFields : Prop :=
  (∀ a, (∀ r ∈ rel, ¬ InField elf relSectionID r a) →
    (relocatedHost elf ctx relSectionID rel host).mem a = host.mem a) ∧
  ∀ table, table ≠ (elf.shdr relSectionID).sh_link.toNat →
    (relocatedHost elf ctx relSectionID rel host).st_value table = host.st_value table

/-- In any other order the entries give the same file content. -/
def SameInAnyOrder : Prop :=
  ∀ rel', rel'.Perm rel →
    (relocatedHost elf ctx relSectionID rel' host).mem =
        (relocatedHost elf ctx relSectionID rel host).mem ∧
      (relocatedHost elf ctx relSectionID rel' host).st_value =
        (relocatedHost elf ctx relSectionID rel host).st_value

end

/-! ## Entries as patches -/

section

variable (elf : ElfFile) (currentModule : ModuleInstance) (getSymbolAddress : String → U64)
  (rs : RelaSection) (targetSection : SectionInfo)

/-- The section of symbol number `i`; the empty one if it cannot be looked up. -/
def infoOfSymbol (i : Nat) : SectionInfo :=
  match sectionOfSymbol elf (.kernelModule currentModule getSymbolAddress) rs
    (elf.sym rs.symindex i).st_shndx with
  | .ok info => info
  | .error _ => SectionInfo.empty

/-- The section of symbol number `i` is found, and it is not a common symbol. -/
def symbolResolves (i : Nat) : Bool :=
  (sectionOfSymbol elf (.kernelModule currentModule getSymbolAddress) rs
    (elf.sym rs.symindex i).st_shndx).isOk && (elf.sym rs.symindex i).st_shndx != SHN_COMMON

/-- What an entry makes of the value of its symbol. -/
def symbolStep (i : Nat) (st_value : U64) : U64 :=
  let sym := elf.sym rs.symindex i
  if sym.st_shndx = SHN_ABS then st_value
  else if sym.st_shndx = SHN_UNDEF then
    getSymbolAddress (elf.symbolName sym.st_name rs.strindex)
  else addBase (infoOfSymbol elf currentModule getSymbolAddress rs i).memindex st_value

/-- The word that an entry stores for a symbol with the value `st_value`. -/
def relaWord (r : Elf64_Rela) (st_value : U64) : U64 :=
  let val := st_value + r.r_addend
  let info := infoOfSymbol elf currentModule getSymbolAddress rs r.symbol
  if r.type = .R_X86_64_PC32 then
    if rs.isAltinstrSection then
      val - info.memindex + info.index - (targetSection.index + r.r_offset)
    else val - (targetSection.memindex + r.r_offset)
  else val

/-- The entries as patches of the section. -/
def relaPatching : Patching Elf64_Rela Nat U64 where
  key := Elf64_Rela.symbol
  step := symbolStep elf currentModule getSymbolAddress rs
  addr := fun r => targetSection.index + r.r_offset
  width := fun r => r.type.storeSize
  word := relaWord elf currentModule getSymbolAddress rs targetSection
  applies := fun r => symbolResolves elf currentModule getSymbolAddress rs r.symbol

variable {elf currentModule getSymbolAddress rs targetSection}

theorem sectionOfSymbol_of_resolves {i : Nat}
    (h : symbolResolves elf currentModule getSymbolAddress rs i = true) :
    sectionOfSymbol elf (.kernelModule currentModule getSymbolAddress) rs
      (elf.sym rs.symindex i).st_shndx =
        .ok (infoOfSymbol elf currentModule getSymbolAddress rs i) := by
  unfold symbolResolves at h
  unfold infoOfSymbol
  cases hinfo : sectionOfSymbol elf (.kernelModule currentModule getSymbolAddress) rs
      (elf.sym rs.symindex i).st_shndx with
  | ok info => rfl
  | error e =>
      rw [hinfo] at h
      cases h

theorem resolveSymbol_of_resolves {i : Nat} {type : RelaType} {st_value : U64}
    (h : symbolResolves elf currentModule getSymbolAddress rs i = true) :
    resolveSymbol elf (.kernelModule currentModule getSymbolAddress) rs
      (infoOfSymbol elf currentModule getSymbolAddress rs i) (elf.sym rs.symindex i) type st_value =
        .ok (symbolStep elf currentModule getSymbolAddress rs i st_value) := by
  have hcommon : (elf.sym rs.symindex i).st_shndx ≠ SHN_COMMON := by
    simpa using (Bool.and_eq_true_iff.mp h).2
  unfold resolveSymbol symbolStep addBase
  rw [if_neg hcommon]
  dsimp only
  split
  · rfl
  split
  · rfl
  split <;> rfl

theorem resolveSymbol_of_not_resolves {i : Nat} {type : RelaType} {st_value : U64}
    {info : SectionInfo} (h : symbolResolves elf currentModule getSymbolAddress rs i = false)
    (hinfo : sectionOfSymbol elf (.kernelModule currentModule getSymbolAddress) rs
      (elf.sym rs.symindex i).st_shndx = .ok info) :
    resolveSymbol elf (.kernelModule currentModule getSymbolAddress) rs info
      (elf.sym rs.symindex i) type st_value = .error .assertion := by
  have hcommon : (elf.sym rs.symindex i).st_shndx = SHN_COMMON := by
    unfold symbolResolves at h
    rw [hinfo] at h
    simpa [Except.isOk, Except.toBool] using h
  unfold resolveSymbol
  rw [if_pos hcommon]

/-- What is stored for an entry of a plain type. -/
theorem relaStore_of_plain {r : Elf64_Rela} {st_value : U64} (h : r.type.Plain) :
    relaStore rs (infoOfSymbol elf currentModule getSymbolAddress rs r.symbol) r.type st_value
      (st_value + r.r_addend) (targetSection.index + r.r_offset)
      (targetSection.memindex + r.r_offset) =
        .ok ((relaPatching elf currentModule getSymbolAddress rs targetSection).store r
          st_value) := by
  show _ = Except.ok (⟨targetSection.index + r.r_offset, r.type.storeSize,
    relaWord elf currentModule getSymbolAddress rs targetSection r st_value⟩ : Store)
  unfold relaStore relaWord
  simp only [RelaType.Plain, List.mem_cons, List.not_mem_nil, or_false] at h
  rcases h with h | h | h | h | h <;> rw [h]
  · rfl
  · rfl
  · rfl
  · rfl
  · rw [if_pos rfl]
    dsimp only
    split <;> rfl

/-! ## The loop applies the entries as patches -/

theorem relaTarget_of_relocatable (hrel : elf.e_type = ET_REL) (relOffset : U64) :
    relaTarget elf targetSection relOffset =
      .ok (targetSection, targetSection.index + relOffset) := by
  unfold relaTarget
  rw [hrel]
  exact if_neg (by decide)

variable {s : RelaState} {r : Elf64_Rela}

/-- An entry with a symbol that resolves is applied. -/
theorem applyRela_of_resolves (hrel : elf.e_type = ET_REL) (hplain : r.type.Plain)
    (hcache : CacheOk elf (.kernelModule currentModule getSymbolAddress) rs s.symRelSectionInfo)
    (h : symbolResolves elf currentModule getSymbolAddress rs r.symbol = true) :
    let P := relaPatching elf currentModule getSymbolAddress rs s.targetSection
    let v := P.step r.symbol (s.host.st_value rs.symindex r.symbol)
    ∃ s', applyRela elf (.kernelModule currentModule getSymbolAddress) rs s r = .ok s' ∧
      s'.targetSection = s.targetSection ∧
      CacheOk elf (.kernelModule currentModule getSymbolAddress) rs s'.symRelSectionInfo ∧
      s'.host = s.host.relocated rs.symindex r v ((P.store r v).apply s.host.mem) := by
  intro P v
  have hsection := (hcache _).trans (sectionOfSymbol_of_resolves h)
  refine ⟨⟨s.host.relocated rs.symindex r v ((P.store r v).apply s.host.mem), s.targetSection,
    infoOfSymbol elf currentModule getSymbolAddress rs r.symbol⟩, ?_, rfl,
    CacheOk.next (sectionOfSymbol_of_resolves h), rfl⟩
  unfold applyRela resolveRela
  simp only [relaTarget_of_relocatable hrel, hsection, resolveSymbol_of_resolves h, bind,
    Except.bind, pure, Except.pure, relaStore_of_plain hplain]
  rfl

/-- An entry with a symbol that does not resolve ends the loop. -/
theorem applyRela_of_not_resolves (hrel : elf.e_type = ET_REL)
    (hcache : CacheOk elf (.kernelModule currentModule getSymbolAddress) rs s.symRelSectionInfo)
    (h : symbolResolves elf currentModule getSymbolAddress rs r.symbol = false) :
    ∃ e, applyRela elf (.kernelModule currentModule getSymbolAddress) rs s r =
      .error (s.host, e) := by
  unfold applyRela resolveRela
  rw [relaTarget_of_relocatable hrel]
  cases hinfo : sectionOfSymbol elf (.kernelModule currentModule getSymbolAddress) rs
      (elf.sym rs.symindex r.symbol).st_shndx with
  | error e =>
      refine ⟨e, ?_⟩
      simp only [(hcache _).trans hinfo, bind, Except.bind]
  | ok info =>
      refine ⟨.assertion, ?_⟩
      simp only [(hcache _).trans hinfo, resolveSymbol_of_not_resolves h hinfo, bind, Except.bind]

/-- The state of the host behind the loop over `rel`. -/
def relaLoop (elf : ElfFile) (ctx : LoadContext) (rs : RelaSection) (s : RelaState)
    (rel : List Elf64_Rela) : HostState :=
  finalHost (do
    let s' ← rel.foldlM (applyRela elf ctx rs) s
    return s'.host)

theorem relaLoop_cons_ok {ctx : LoadContext} {s' : RelaState} {rel : List Elf64_Rela}
    (h : applyRela elf ctx rs s r = .ok s') :
    relaLoop elf ctx rs s (r :: rel) = relaLoop elf ctx rs s' rel := by
  unfold relaLoop
  rw [List.foldlM_cons, h]
  rfl

theorem relaLoop_cons_error {ctx : LoadContext} {host : HostState} {e : ElfError}
    {rel : List Elf64_Rela} (h : applyRela elf ctx rs s r = .error (host, e)) :
    relaLoop elf ctx rs s (r :: rel) = host := by
  unfold relaLoop
  rw [List.foldlM_cons, h]
  rfl

/-- `host'` is what the patches make of `host`; their cells are the table `symindex`. -/
structure PatchedTo (P : Patching Elf64_Rela Nat U64) (symindex : Nat) (rel : List Elf64_Rela)
    (host host' : HostState) : Prop where
  mem : host'.mem = P.finalMem (host.st_value symindex) host.mem rel
  cells : host'.st_value symindex = P.finalCells (host.st_value symindex) rel
  tables : ∀ table, table ≠ symindex → host'.st_value table = host.st_value table

/-- **The loop runs as a list of patches does.** -/
theorem relaLoop_patched (hrel : elf.e_type = ET_REL) {rel : List Elf64_Rela}
    (hplain : ∀ r ∈ rel, r.type.Plain)
    (hcache : CacheOk elf (.kernelModule currentModule getSymbolAddress) rs s.symRelSectionInfo) :
    PatchedTo (relaPatching elf currentModule getSymbolAddress rs s.targetSection) rs.symindex rel
      s.host (relaLoop elf (.kernelModule currentModule getSymbolAddress) rs s rel) := by
  induction rel generalizing s with
  | nil => exact ⟨rfl, rfl, fun _ _ => rfl⟩
  | cons r rel ih =>
      cases h : symbolResolves elf currentModule getSymbolAddress rs r.symbol with
      | true =>
          obtain ⟨s', happly, htarget, hcache', hhost⟩ :=
            applyRela_of_resolves hrel (hplain r List.mem_cons_self) hcache h
          have hrest := ih (fun r' hr' => hplain r' (List.mem_cons_of_mem r hr')) hcache'
          rw [← relaLoop_cons_ok happly, htarget, hhost] at hrest
          obtain ⟨hmem, hcells⟩ := Patching.final_cons_of_applies
            (P := relaPatching elf currentModule getSymbolAddress rs s.targetSection)
            (s.host.st_value rs.symindex) s.host.mem (l := rel) h
          refine ⟨?_, ?_, fun table htable => ?_⟩
          · rw [hmem, hrest.mem, HostState.relocated_table]
            rfl
          · rw [hcells, hrest.cells, HostState.relocated_table]
            rfl
          · rw [hrest.tables table htable, HostState.relocated_other_table htable]
      | false =>
          obtain ⟨e, he⟩ := applyRela_of_not_resolves hrel hcache h
          rw [relaLoop_cons_error he]
          obtain ⟨hmem, hcells⟩ := Patching.final_cons_of_stop
            (P := relaPatching elf currentModule getSymbolAddress rs s.targetSection)
            (s.host.st_value rs.symindex) s.host.mem (l := rel) h
          exact ⟨hmem.symm, hcells.symm, fun _ _ => rfl⟩

/-! ## When the order does not matter -/

variable {relSectionID : Nat} {host : HostState}

/-- **`applyRelaOnSection` applies the entries as patches.** -/
theorem relocatedHost_patched (host : HostState) (hrel : elf.e_type = ET_REL)
    {rel : List Elf64_Rela} (hplain : ∀ r ∈ rel, r.type.Plain)
    (hsection : relaSection elf (.kernelModule currentModule getSymbolAddress) relSectionID =
      .ok (rs, targetSection)) :
    PatchedTo (relaPatching elf currentModule getSymbolAddress rs targetSection) rs.symindex rel
      host (relocatedHost elf (.kernelModule currentModule getSymbolAddress) relSectionID rel
        host) := by
  unfold relocatedHost applyRelaOnSection
  rw [hsection]
  exact relaLoop_patched (s := ⟨host, targetSection, SectionInfo.empty⟩) hrel hplain CacheOk.empty

/-- If the section cannot be relocated at all, nothing happens. -/
theorem relocatedHost_of_error {ctx : LoadContext} {e : ElfError} (rel : List Elf64_Rela)
    (host : HostState)
    (h : relaSection elf ctx relSectionID = .error e) :
    relocatedHost elf ctx relSectionID rel host = host := by
  unfold relocatedHost applyRelaOnSection
  rw [h]
  rfl

section

variable {rel : List Elf64_Rela} (hrel : elf.e_type = ET_REL) (hplain : ∀ r ∈ rel, r.type.Plain)
  (hsection : relaSection elf (.kernelModule currentModule getSymbolAddress) relSectionID =
    .ok (rs, targetSection))

include hrel hplain hsection

theorem touchesOnlyFields_iff :
    TouchesOnlyFields elf (.kernelModule currentModule getSymbolAddress) relSectionID rel host ↔
      (relaPatching elf currentModule getSymbolAddress rs targetSection).OnlyFields
        (host.st_value rs.symindex) host.mem (InField elf relSectionID) rel := by
  have hpatched := relocatedHost_patched host hrel hplain hsection
  rw [TouchesOnlyFields, Patching.OnlyFields, hpatched.mem]
  constructor
  · intro h
    exact h.1
  · intro h
    refine ⟨h, fun table htable => hpatched.tables table ?_⟩
    rw [(relaSection_eq_ok hsection).1]
    exact htable

theorem sameInAnyOrder_iff :
    SameInAnyOrder elf (.kernelModule currentModule getSymbolAddress) relSectionID rel host ↔
      (relaPatching elf currentModule getSymbolAddress rs targetSection).OrderIndependent
        (host.st_value rs.symindex) host.mem rel := by
  have hpatched := relocatedHost_patched host hrel hplain hsection
  refine forall_congr' fun rel' => forall_congr' fun hperm => ?_
  have hpatched' := relocatedHost_patched host hrel
    (fun r hr => hplain r (hperm.subset hr)) hsection
  rw [hpatched'.mem, hpatched.mem, ← hpatched'.cells, ← hpatched.cells]
  refine and_congr_right fun _ => ⟨fun h => congrFun h _, fun h => funext fun table => ?_⟩
  by_cases htable : table = rs.symindex
  · rw [htable, h]
  · rw [hpatched'.tables table htable, hpatched.tables table htable]

end

/-- **When relocation touches only its fields and does not depend on the order**: exactly if
the entries are settled as patches of the section. -/
theorem relocation_settled_iff (hrel : elf.e_type = ET_REL) {rel : List Elf64_Rela}
    (hplain : ∀ r ∈ rel, r.type.Plain) :
    (TouchesOnlyFields elf (.kernelModule currentModule getSymbolAddress) relSectionID rel host ∧
      SameInAnyOrder elf (.kernelModule currentModule getSymbolAddress) relSectionID rel host) ↔
    ∀ rs targetSection,
      relaSection elf (.kernelModule currentModule getSymbolAddress) relSectionID =
        .ok (rs, targetSection) →
      (relaPatching elf currentModule getSymbolAddress rs targetSection).Settled
        (host.st_value rs.symindex) host.mem (InField elf relSectionID) rel := by
  cases hsection : relaSection elf (.kernelModule currentModule getSymbolAddress)
      relSectionID with
  | error e =>
      have hsame := fun rel' => relocatedHost_of_error rel' host hsection
      constructor
      · intro _ rs targetSection h
        cases h
      · intro _
        refine ⟨⟨fun a _ => ?_, fun table _ => ?_⟩, fun rel' _ => ?_⟩
        · rw [hsame]
        · rw [hsame]
        · rw [hsame, hsame]
          exact ⟨rfl, rfl⟩
  | ok found =>
      obtain ⟨rs, targetSection⟩ := found
      rw [touchesOnlyFields_iff hrel hplain hsection, sameInAnyOrder_iff hrel hplain hsection,
        Patching.settled_iff]
      constructor
      · intro h rs' targetSection' heq
        cases heq
        exact h
      · intro h
        exact h rs targetSection rfl

/-! ## Modules without `R_X86_64_32` -/

theorem symbolStep_of_undef {i : Nat} (h : (elf.sym rs.symindex i).st_shndx = SHN_UNDEF)
    (st_value : U64) : symbolStep elf currentModule getSymbolAddress rs i st_value =
      getSymbolAddress (elf.symbolName (elf.sym rs.symindex i).st_name rs.strindex) := by
  unfold symbolStep
  dsimp only
  rw [h, if_neg (by decide), if_pos rfl]

/-- The value of a symbol does not change after its first entry. -/
theorem symbolStep_iterate {i : Nat} {st_value : Nat → U64}
    (hpercpu : elf.findSectionWithName ".data..percpu" = .ok rs.percpuDataSection)
    (hoffsets : OffsetsBelowBases elf currentModule rs.symindex st_value)
    (h : symbolResolves elf currentModule getSymbolAddress rs i = true) (m : Nat) :
    (symbolStep elf currentModule getSymbolAddress rs i)^[m + 1] (st_value i) =
      symbolStep elf currentModule getSymbolAddress rs i (st_value i) := by
  have hfixed : symbolStep elf currentModule getSymbolAddress rs i
      (symbolStep elf currentModule getSymbolAddress rs i (st_value i)) =
        symbolStep elf currentModule getSymbolAddress rs i (st_value i) := by
    by_cases hundef : (elf.sym rs.symindex i).st_shndx = SHN_UNDEF
    · rw [symbolStep_of_undef hundef, symbolStep_of_undef hundef]
    by_cases habs : (elf.sym rs.symindex i).st_shndx = SHN_ABS
    · have hid : ∀ v, symbolStep elf currentModule getSymbolAddress rs i v = v :=
        fun v => if_pos habs
      rw [hid, hid]
    have hdefined : (elf.sym rs.symindex i).Defined :=
      ⟨hundef, habs, by simpa using (Bool.and_eq_true_iff.mp h).2⟩
    have hbase := guestBase_of_sectionOfSymbol hpercpu (sectionOfSymbol_of_resolves h)
    obtain ⟨hlt, hwrap⟩ := hoffsets i _ hdefined hbase
    have hstep : ∀ v, symbolStep elf currentModule getSymbolAddress rs i v =
        addBase (infoOfSymbol elf currentModule getSymbolAddress rs i).memindex v :=
      fun v => (if_neg habs).trans (if_neg hundef)
    rw [hstep, hstep, addBase_of_lt hlt, addBase_add hwrap]
  rw [Function.iterate_succ_apply]
  exact Function.iterate_fixed hfixed m

/-- Two fields in one section that have no byte in common are not both at one address. -/
theorem not_both_in_field {r r' : Elf64_Rela} {base a : U64} {size : U64}
    (hr : r.r_offset.toNat + r.type.fieldSize ≤ size.toNat)
    (hr' : r'.r_offset.toNat + r'.type.fieldSize ≤ size.toNat) (hdisj : FieldsDisjoint r r')
    (ha : (a - (base + r.r_offset)).toNat < r.type.fieldSize) :
    ¬ (a - (base + r'.r_offset)).toNat < r'.type.fieldSize := by
  intro ha'
  have hsize := size.isLt
  unfold FieldsDisjoint at hdisj
  rw [← BitVec.sub_sub] at ha ha'
  generalize a - base = x at ha ha'
  have hx := x.isLt
  rw [BitVec.toNat_sub] at ha ha'
  omega

/-- Entries of the other types settle if their fields are disjoint, their symbols can be looked
up and the offsets of these are below the addresses of their sections. -/
theorem settled_of_disjoint {rel : List Elf64_Rela}
    (hsection : relaSection elf (.kernelModule currentModule getSymbolAddress) relSectionID =
      .ok (rs, targetSection))
    (hresolves : ∀ r ∈ rel, symbolResolves elf currentModule getSymbolAddress rs r.symbol = true)
    (hoffsets : OffsetsBelowBases elf currentModule rs.symindex (host.st_value rs.symindex))
    (hno32 : ∀ r ∈ rel, r.type ≠ .R_X86_64_32)
    (hin : ∀ r ∈ rel, FieldInSection elf relSectionID r)
    (hdisj : rel.Pairwise FieldsDisjoint) :
    (relaPatching elf currentModule getSymbolAddress rs targetSection).Settled
      (host.st_value rs.symindex) host.mem (InField elf relSectionID) rel := by
  obtain ⟨_, hindex, hpercpu⟩ := relaSection_eq_ok hsection
  -- what an entry stores is its field
  have hfield : ∀ r ∈ rel, ∀ a,
      (relaPatching elf currentModule getSymbolAddress rs targetSection).Reaches r a →
        InField elf relSectionID r a := by
    intro r hr a ha
    have ha' : (a - (targetSection.index + r.r_offset)).toNat < r.type.storeSize := ha
    rw [hindex] at ha'
    exact lt_of_lt_of_le ha' (RelaType.storeSize_le (hno32 r hr))
  refine ⟨fun _ a r m hr => ⟨fun r' m' hr' => ?_, fun hout => ?_⟩, fun hstop => ?_⟩
  · have ha := hfield r hr.1.1 a hr.2
    have ha' := hfield r' hr'.1.1 a hr'.2
    by_cases heq : r = r'
    · subst heq
      have hcell : ∀ m, (relaPatching elf currentModule getSymbolAddress rs
          targetSection).cellAfter (host.st_value rs.symindex) m r = _ :=
        symbolStep_iterate hpercpu hoffsets (hresolves r hr.1.1)
      rw [hcell, hcell]
    · have hsymm : Std.Symm FieldsDisjoint := ⟨fun _ _ h => h.symm⟩
      have hd := hdisj.forall hr.1.1 hr'.1.1 heq
      exact absurd ha' (not_both_in_field (hin r hr.1.1) (hin r' hr'.1.1) hd ha)
  · exact absurd (hfield r hr.1.1 a hr.2) (hout r hr.1.1)
  · obtain ⟨r, hr, hnot⟩ := hstop
    have hnot' : symbolResolves elf currentModule getSymbolAddress rs r.symbol = false := hnot
    rw [hresolves r hr] at hnot'
    cases hnot'

end

/-! ## In the file content -/

section

variable {elf : ElfFile} {ctx : LoadContext} {relSectionID : Nat} {rel : List Elf64_Rela}
  {mem : Memory} {e_shoff : U64} {S : Set (Nat × Nat)}

/-- What holds beside the file content holds in it: no byte changes outside of the fields and of the
values of the symbols. -/
theorem TouchesOnlyFields.inPlace
    (h : TouchesOnlyFields elf ctx relSectionID rel ⟨mem, elf.st_value mem, []⟩)
    (hS : ∀ r ∈ rel, ((elf.shdr relSectionID).sh_link.toNat, r.symbol) ∈ S)
    (hkept : TablesKept elf e_shoff S (InPlace.finalFile
      (InPlace.applyRelaOnSection elf ctx relSectionID rel (.start mem))).written) {a : U64}
    (hfields : ∀ r ∈ rel, ¬ InField elf relSectionID r a) (hvalues : BesideValues elf S a) :
    (InPlace.finalFile (InPlace.applyRelaOnSection elf ctx relSectionID rel (.start mem))).mem a =
      mem a :=
  ((Agrees.of_endsAlike (agrees_of_section hS hkept)).mem a hvalues).trans (h.1 a hfields)

/-- In any other order that keeps the tables, too, the entries give the same file content. -/
theorem SameInAnyOrder.inPlace
    (h : SameInAnyOrder elf ctx relSectionID rel ⟨mem, elf.st_value mem, []⟩)
    (hS : ∀ r ∈ rel, ((elf.shdr relSectionID).sh_link.toNat, r.symbol) ∈ S)
    (hkept : TablesKept elf e_shoff S (InPlace.finalFile
      (InPlace.applyRelaOnSection elf ctx relSectionID rel (.start mem))).written)
    {rel' : List Elf64_Rela} (hperm : rel'.Perm rel)
    (hkept' : TablesKept elf e_shoff S (InPlace.finalFile
      (InPlace.applyRelaOnSection elf ctx relSectionID rel' (.start mem))).written) {a : U64}
    (hvalues : BesideValues elf S a) :
    (InPlace.finalFile (InPlace.applyRelaOnSection elf ctx relSectionID rel' (.start mem))).mem a =
      (InPlace.finalFile
        (InPlace.applyRelaOnSection elf ctx relSectionID rel (.start mem))).mem a := by
  have hagrees := Agrees.of_endsAlike (agrees_of_section hS hkept)
  have hagrees' := Agrees.of_endsAlike
    (agrees_of_section (fun r hr => hS r (hperm.mem_iff.mp hr)) hkept')
  have hsame := (h rel' hperm).1
  exact (hagrees'.mem a hvalues).trans ((congrFun hsame a).trans (hagrees.mem a hvalues).symm)

end

/-! ## Entries of a module -/

/-- Offsets of the symbols of `percpuModule`, and content of zeros. -/
def percpuHost : HostState := ⟨fun _ => 0, percpuOffsets, []⟩

theorem relocation_settled_percpu :
    TouchesOnlyFields percpuModule (.kernelModule percpuInstance fun _ => 0) 4
        (percpuModule.rela 4) percpuHost ∧
      SameInAnyOrder percpuModule (.kernelModule percpuInstance fun _ => 0) 4
        (percpuModule.rela 4) percpuHost := by
  refine (relocation_settled_iff (by decide) (by decide)).mpr fun rs targetSection hsection => ?_
  have hfound := hsection
  cases hsection
  exact settled_of_disjoint hfound (by decide) percpuOffsets_below (by decide) (by decide)
    (by decide)

/-- Entries of type `R_X86_64_32` in front of another field and at the end. -/
def wideEntries : List Elf64_Rela :=
  [⟨0, 1 <<< 32 ||| 10, 0⟩, ⟨4, 1 <<< 32 ||| 11, 0⟩, ⟨8, 1 <<< 32 ||| 10, 0⟩]

/-- Four bytes behind the last field are overwritten, and the second field holds its value only
if its entry comes behind the first one. -/
theorem wideEntries_unsettled :
    percpuModule.e_type = ET_REL ∧
      (∀ r ∈ wideEntries, r.type.Plain ∧ FieldInSection percpuModule 4 r) ∧
      wideEntries.Pairwise FieldsDisjoint ∧
      ¬ TouchesOnlyFields percpuModule (.kernelModule percpuInstance fun _ => 0) 4 wideEntries
        percpuHost ∧
      ¬ SameInAnyOrder percpuModule (.kernelModule percpuInstance fun _ => 0) 4 wideEntries
        percpuHost := by
  refine ⟨by decide, by decide, by decide, fun h => ?_, fun h => ?_⟩
  · have hbyte := h.1 0x1004c (by decide)
    exact absurd hbyte (by decide)
  · have hswap := (h _ (List.Perm.swap (wideEntries[0]) (wideEntries[1]) [wideEntries[2]])).1
    exact absurd (congrFun hswap 0x10044) (by decide)

end KernInt
