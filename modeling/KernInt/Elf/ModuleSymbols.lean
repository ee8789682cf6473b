import KernInt.Elf.RelocationSymbols
import Mathlib.Algebra.GroupWithZero.Nat
import Mathlib.Logic.Function.Iterate

set_option autoImplicit false

/-! # The symbols that a module stores

`addSymbolsToStore` tells the symbol manager of the kernel the `st_value` of every named symbol of
a module. It is called behind `applyRelocations`, which has replaced the offset of a symbol in its
section by its address if some entry referred to the symbol, and has left it as it was otherwise.
For a function, the address of `.text` is added to what is below this address, whatever section
the function is in. Which symbols are stored with their address is told by `storedRight_iff`, for
relocations that do not write over the tables of the file.
-/

namespace KernInt

open Lib

/-- What the symbol manager is told. -/
inductive StoreCall where
  | addSymbolAddress (name : String) (address : U64)
  | addFunctionAddress (name : String) (address : U64)
  deriving DecidableEq

namespace ElfFile

variable (elf : ElfFile)

/-- The last section with symbols; 0 if there is none. -/
def symtabIndex : Nat :=
  (List.range elf.getNrOfSections).foldl
    (fun symindex i => if (elf.shdr i).sh_type = SHT_SYMTAB then i else symindex) 0

/-- The name under which a symbol is stored. -/
def storeName (symindex i : Nat) : String :=
  let sym := elf.sym symindex i
  let symbolName := elf.symbolName sym.st_name (elf.shdr symindex).sh_link
  if ELF64_ST_BIND sym.st_info = STB_LOCAL then symbolName ++ "@@" ++ "kernel" else symbolName

/-- The round for a symbol with its value. The calls come with the number of the table and of the
symbol, which the source does not keep. -/
def symbolCalls (memindex : U64) (st_value : Nat → U64) (symindex i : Nat) :
    List (Nat × Nat × StoreCall) :=
  let sym := elf.sym symindex i
  if sym.st_name = 0 then []
  else
    let symbolName := elf.storeName symindex i
    let symbolAddress := st_value i
    (symindex, i, .addSymbolAddress symbolName symbolAddress) ::
      if ELF64_ST_TYPE sym.st_info = STT_FUNC then
        let symbolAddress :=
          if symbolAddress < memindex then symbolAddress + memindex else symbolAddress
        [(symindex, i, .addFunctionAddress symbolName symbolAddress)]
      else []

/-- `symSize` has 32 bits. The loop takes a last entry that only begins in front of the end. -/
def addSymbolsToStore (memindex : U64) (st_value : Nat → Nat → U64) :
    List (Nat × Nat × StoreCall) :=
  let symindex := elf.symtabIndex
  if symindex = 0 then []
  else
    let symSize : U32 := (elf.shdr symindex).sh_size.setWidth 32
    (List.range ((symSize.toNat + 23) / 24)).flatMap
      (elf.symbolCalls memindex (st_value symindex) symindex)

/-! ## What is to be stored -/

/-- Where a section of a module is in the guest. -/
def sectionBase (currentModule : ModuleInstance) (st_shndx : BitVec 16) : Except ElfError U64 := do
  let info ← elf.findSectionByID (st_shndx.setWidth 32)
  match elf.findSectionWithName ".data..percpu" with
  | .ok percpuDataSection =>
      if info.secID = percpuDataSection.secID then return currentModule.percpu
      else findMemAddressOfSegment elf currentModule info
  | .error _ => findMemAddressOfSegment elf currentModule info

/-- A named symbol in a section with a known address. -/
structure NamedSymbol (currentModule : ModuleInstance) (symindex i : Nat) (base : U64) :
    Prop where
  table : symindex < elf.getNrOfSections ∧ (elf.shdr symindex).sh_type = SHT_SYMTAB
  number : i < (elf.shdr symindex).sh_size.toNat / 24
  named : (elf.sym symindex i).st_name ≠ 0
  defined : (elf.sym symindex i).Defined
  base_eq : elf.sectionBase currentModule (elf.sym symindex i).st_shndx = .ok base
  known : base ≠ 0

/-- The symbol is stored with this address, as a function, too, if it is one. -/
structure StoredAt (calls : List (Nat × Nat × StoreCall)) (symindex i : Nat) (address : U64) :
    Prop where
  symbol : (symindex, i, .addSymbolAddress (elf.storeName symindex i) address) ∈ calls
  function : ELF64_ST_TYPE (elf.sym symindex i).st_info = STT_FUNC →
    (symindex, i, .addFunctionAddress (elf.storeName symindex i) address) ∈ calls

/-- The number of entries for the table `table` that refer to the symbol. -/
def entryReferences (table symindex i : Nat) (rel : List Elf64_Rela) : Nat :=
  if table = symindex then rel.countP fun r => r.symbol = i else 0

/-- The number of those of a section, if the section is applied. -/
def sectionReferences (symindex i j : Nat) : Nat :=
  let infosec := (elf.shdr j).sh_info.toNat
  if infosec < elf.getNrOfSections ∧ (elf.shdr infosec).sh_flags &&& SHF_ALLOC ≠ 0 ∧
      (elf.shdr j).sh_type = SHT_RELA then
    entryReferences (elf.shdr j).sh_link.toNat symindex i (elf.rela j)
  else 0

/-- The number of all that refer to it. -/
def references (symindex i : Nat) : Nat :=
  if elf.e_type = ET_REL ∨ elf.e_type = ET_DYN ∨ elf.e_type = ET_EXEC then
    ((List.range elf.getNrOfSections).map (elf.sectionReferences symindex i)).sum
  else 0

/-- The table is the one that is read, as far as to the symbol; some entry refers to the symbol,
and only one if its address wraps around; and a function is not below `.text`. -/
structure StoredRight (memindex : U64) (symindex i : Nat) (base st_value : U64) : Prop where
  table : symindex ≠ 0 ∧ ∀ j < elf.getNrOfSections, symindex < j →
    (elf.shdr j).sh_type ≠ SHT_SYMTAB
  read : 24 * i < (elf.shdr symindex).sh_size.toNat % 2 ^ 32
  offset : st_value < base
  referenced : elf.references symindex i = 1 ∨
    1 < elf.references symindex i ∧ base.toNat + st_value.toNat < 2 ^ 64
  text : ELF64_ST_TYPE (elf.sym symindex i).st_info = STT_FUNC → memindex ≤ base + st_value

end ElfFile

/-! ## Adding the address several times -/

section

variable {base st_value : U64}

theorem toNat_addBase_of_lt (h : st_value < base) :
    (addBase base st_value).toNat = (base.toNat + st_value.toNat) % 2 ^ 64 := by
  rw [addBase_of_lt h, BitVec.toNat_add]

/-- A value below the address does not come back: it gets smaller by wrapping around, or is not
below the address any more. -/
theorem iterate_addBase_ne {x : U64} (hx : x < base) (m : Nat) :
    (addBase base)^[m + 1] x ≠ x := by
  have hstep : ∀ y : U64, y.toNat ≤ x.toNat → (addBase base y).toNat < x.toNat ∨
      base.toNat ≤ (addBase base y).toNat := by
    intro y hy
    have hlt : y < base := BitVec.lt_def.mpr (by have := BitVec.lt_def.mp hx; omega)
    have hbase := base.isLt
    have hyx := y.isLt
    rw [toNat_addBase_of_lt hlt]
    omega
  have hkey : ((addBase base)^[m + 1] x).toNat < x.toNat ∨
      base.toNat ≤ ((addBase base)^[m + 1] x).toNat := by
    induction m with
    | zero => exact hstep x (Nat.le_refl _)
    | succ m ih =>
        rw [Function.iterate_succ_apply']
        rcases ih with hsmall | hlarge
        · exact hstep _ (Nat.le_of_lt hsmall)
        · have hfixed : addBase base ((addBase base)^[m + 1] x) = (addBase base)^[m + 1] x :=
            if_neg fun hlt => by have := BitVec.lt_def.mp hlt; omega
          rw [hfixed]
          exact .inr hlarge
  intro heq
  rw [heq] at hkey
  have := BitVec.lt_def.mp hx
  omega

/-- After how many additions a symbol has its address. -/
theorem iterate_addBase_eq_iff (hbase : base ≠ 0) (n : Nat) :
    (addBase base)^[n] st_value = base + st_value ↔
      st_value < base ∧ (n = 1 ∨ 1 < n ∧ base.toNat + st_value.toNat < 2 ^ 64) := by
  have hne : st_value ≠ base + st_value := fun h => hbase (by bv_omega)
  by_cases hlt : st_value < base
  · rw [and_iff_right hlt]
    match n with
    | 0 =>
        constructor
        · intro h
          exact absurd h hne
        · intro h
          omega
    | 1 =>
        constructor
        · intro _
          exact .inl rfl
        · intro _
          exact addBase_of_lt hlt
    | m + 2 =>
        rw [Function.iterate_succ_apply, addBase_of_lt hlt]
        constructor
        · intro h
          refine .inr ⟨by omega, ?_⟩
          by_contra hwrap
          -- the sum has wrapped around, and is below the address again
          have hsum : base + st_value < base := by
            have hb := base.isLt
            have hs := st_value.isLt
            rw [BitVec.lt_def, BitVec.toNat_add]
            omega
          exact iterate_addBase_ne hsum m h
        · rintro (h | ⟨-, hsmall⟩)
          · omega
          · exact Function.iterate_fixed (addBase_add hsmall) _
  · have hfixed : addBase base st_value = st_value := if_neg hlt
    rw [Function.iterate_fixed hfixed]
    constructor
    · intro h
      exact absurd h hne
    · rintro ⟨h, -⟩
      exact absurd h hlt

end

/-! ## The values behind the relocations -/

section

variable {elf : ElfFile} {currentModule : ModuleInstance} {getSymbolAddress : String → U64}
  {symindex i : Nat} {base : U64}

/-- The address that an entry adds to a symbol is the one of its section. -/
theorem guestBase_eq_sectionBase {st_shndx : BitVec 16} {percpuDataSection : SectionInfo}
    (h : elf.findSectionWithName ".data..percpu" = .ok percpuDataSection) :
    elf.sectionBase currentModule st_shndx = guestBase elf currentModule st_shndx := by
  unfold ElfFile.sectionBase guestBase
  simp only [h, bind, Except.bind]

/-- The address has been added to the value of the symbol `n` times, while that was below it. -/
def AddedTimes (symindex i : Nat) (base : U64) (host : HostState) (n : Nat) (host' : HostState) :
    Prop :=
  host'.st_value symindex i = (addBase base)^[n] (host.st_value symindex i)

theorem AddedTimes.trans {host₁ host₂ host₃ : HostState} {m n : Nat}
    (h : AddedTimes symindex i base host₁ m host₂)
    (h' : AddedTimes symindex i base host₂ n host₃) :
    AddedTimes symindex i base host₁ (m + n) host₃ :=
  calc host₃.st_value symindex i
      = (addBase base)^[n] (host₂.st_value symindex i) := h'
    _ = (addBase base)^[n] ((addBase base)^[m] (host₁.st_value symindex i)) := by rw [h]
    _ = (addBase base)^[m + n] (host₁.st_value symindex i) := by
        rw [Nat.add_comm, Function.iterate_add_apply]

theorem addedTimes_of_round {rs : RelaSection} {s s' : RelaState} {r : Elf64_Rela}
    (hpercpu : elf.findSectionWithName ".data..percpu" = .ok rs.percpuDataSection)
    (hdefined : (elf.sym symindex i).Defined)
    (hbase : elf.sectionBase currentModule (elf.sym symindex i).st_shndx = .ok base)
    (hcache : CacheOk elf (.kernelModule currentModule getSymbolAddress) rs s.symRelSectionInfo)
    (h : applyRela elf (.kernelModule currentModule getSymbolAddress) rs s r = .ok s') :
    CacheOk elf (.kernelModule currentModule getSymbolAddress) rs s'.symRelSectionInfo ∧
      AddedTimes symindex i base s.host
        (ElfFile.entryReferences rs.symindex symindex i [r]) s'.host := by
  obtain ⟨hcache', info, st_value, mem, hinfo, hresolve, hhost⟩ := host_of_applyRela hcache h
  refine ⟨hcache', ?_⟩
  unfold AddedTimes ElfFile.entryReferences
  rw [hhost, List.countP_singleton]
  by_cases htable : rs.symindex = symindex
  · subst htable
    by_cases hsymbol : r.symbol = i
    · subst hsymbol
      -- what is added is the address of the section
      have hguest := guestBase_of_sectionOfSymbol hpercpu hinfo
      rw [← guestBase_eq_sectionBase hpercpu, hbase] at hguest
      rw [resolveSymbol_of_defined hdefined, ← Except.ok.inj hguest] at hresolve
      rw [HostState.relocated_self, ← Except.ok.inj hresolve]
      simp
    · rw [HostState.relocated_other_symbol (Ne.symm hsymbol)]
      simp [hsymbol]
  · rw [HostState.relocated_other_table (Ne.symm htable)]
    simp [htable]

theorem entryReferences_append (table : Nat) (rel rel' : List Elf64_Rela) :
    ElfFile.entryReferences table symindex i (rel ++ rel') =
      ElfFile.entryReferences table symindex i rel +
        ElfFile.entryReferences table symindex i rel' := by
  unfold ElfFile.entryReferences
  split
  · exact List.countP_append
  · rfl

theorem addedTimes_of_rounds {rs : RelaSection} {targetSection : SectionInfo}
    {rel : List Elf64_Rela} {host : HostState} {s : RelaState}
    (hpercpu : elf.findSectionWithName ".data..percpu" = .ok rs.percpuDataSection)
    (hdefined : (elf.sym symindex i).Defined)
    (hbase : elf.sectionBase currentModule (elf.sym symindex i).st_shndx = .ok base)
    (hrun : rel.foldlM (applyRela elf (.kernelModule currentModule getSymbolAddress) rs)
      ⟨host, targetSection, SectionInfo.empty⟩ = .ok s) :
    AddedTimes symindex i base host (ElfFile.entryReferences rs.symindex symindex i rel)
      s.host := by
  have hall := Ensures.foldlM (E := fun _ => True)
    (f := applyRela elf (.kernelModule currentModule getSymbolAddress) rs) (l := rel)
    (a := ⟨host, targetSection, SectionInfo.empty⟩)
    (fun done (s : RelaState) =>
      CacheOk elf (.kernelModule currentModule getSymbolAddress) rs s.symRelSectionInfo ∧
        AddedTimes symindex i base host
          (ElfFile.entryReferences rs.symindex symindex i done) s.host)
    ⟨CacheOk.empty, by simp [AddedTimes, ElfFile.entryReferences]⟩ ?_
  · exact (hall.of_ok hrun).2
  · rintro done r _ - s ⟨hcache, hadded⟩
    cases hround : applyRela elf (.kernelModule currentModule getSymbolAddress) rs s r with
    | error stop => exact Ensures.error trivial
    | ok s' =>
        obtain ⟨hcache', hstep⟩ := addedTimes_of_round hpercpu hdefined hbase hcache hround
        rw [entryReferences_append]
        exact Ensures.ok ⟨hcache', hadded.trans hstep⟩

theorem addedTimes_of_relocateSection {host host' : HostState} {j : Nat}
    (hdefined : (elf.sym symindex i).Defined)
    (hbase : elf.sectionBase currentModule (elf.sym symindex i).st_shndx = .ok base)
    (h : relocateSection elf (.kernelModule currentModule getSymbolAddress) host j = .ok host') :
    AddedTimes symindex i base host (elf.sectionReferences symindex i j) host' := by
  unfold relocateSection at h
  unfold ElfFile.sectionReferences
  dsimp only at h ⊢
  by_cases hlt : (elf.shdr j).sh_info.toNat < elf.getNrOfSections
  · rw [if_neg (Nat.not_le.mpr hlt)] at h
    split at h
    · rename_i halloc
      cases h
      simp [halloc, AddedTimes]
    rename_i halloc
    split at h
    · cases h
    split at h
    · rename_i hrela
      rw [if_pos ⟨hlt, halloc, hrela⟩]
      unfold applyRelaOnSection at h
      split at h
      · cases h
      rename_i rs targetSection hsection
      obtain ⟨s, hrun, hend⟩ := exists_of_bind_ok h
      cases hend
      obtain ⟨hsymindex, -, hpercpu⟩ := relaSection_eq_ok hsection
      rw [← hsymindex]
      exact addedTimes_of_rounds hpercpu hdefined hbase hrun
    · rename_i hrela
      cases h
      simp [hrela, AddedTimes]
  · rw [if_pos (Nat.not_lt.mp hlt)] at h
    cases h
    simp [hlt, AddedTimes]

/-- **Every entry that refers to a symbol adds the address of its section**, while the value is
below it. -/
theorem addedTimes_of_applyRelocations {host host' : HostState}
    (hdefined : (elf.sym symindex i).Defined)
    (hbase : elf.sectionBase currentModule (elf.sym symindex i).st_shndx = .ok base)
    (h : applyRelocations elf (.kernelModule currentModule getSymbolAddress) host = .ok host') :
    AddedTimes symindex i base host (elf.references symindex i) host' := by
  unfold applyRelocations at h
  unfold ElfFile.references
  split at h
  · rename_i htype
    rw [if_pos htype]
    have hall := Ensures.foldlM (E := fun _ => True)
      (f := relocateSection elf (.kernelModule currentModule getSymbolAddress))
      (l := List.range elf.getNrOfSections) (a := host)
      (fun done host' => AddedTimes symindex i base host
        (done.map (elf.sectionReferences symindex i)).sum host') rfl ?_
    · exact hall.of_ok h
    · intro done j _ _ host₁ hadded
      cases hround : relocateSection elf (.kernelModule currentModule getSymbolAddress)
          host₁ j with
      | error stop => exact Ensures.error trivial
      | ok host₂ =>
          have hstep := addedTimes_of_relocateSection hdefined hbase hround
          rw [List.map_append, List.sum_append, List.map_singleton, List.sum_singleton]
          exact Ensures.ok (hadded.trans hstep)
  · rename_i htype
    cases h
    rw [if_neg htype]
    rfl

/-! ## What is stored -/

theorem foldl_last_eq_iff {p : Nat → Prop} [DecidablePred p] {n last : Nat} (hlast : last < n)
    (hp : p last) : (List.range n).foldl (fun k j => if p j then j else k) 0 = last ↔
      ∀ j < n, last < j → ¬ p j := by
  induction n with
  | zero => omega
  | succ n ih =>
      rw [List.range_succ, List.foldl_append, List.foldl_cons, List.foldl_nil]
      by_cases hn : p n
      · rw [if_pos hn]
        constructor
        · rintro rfl j hj hlt
          omega
        · intro h
          by_contra hne
          exact h n (Nat.lt_succ_self n) (by omega) hn
      · rw [if_neg hn]
        have hne : last ≠ n := fun heq => hn (heq ▸ hp)
        rw [ih (by omega)]
        constructor
        · intro h j hj hlt
          by_cases hjn : j = n
          · rwa [hjn]
          · exact h j (by omega) hlt
        · intro h j hj hlt
          exact h j (by omega) hlt

theorem mem_addSymbolsToStore_iff {memindex : U64} {st_value : Nat → Nat → U64}
    {call : StoreCall} : (symindex, i, call) ∈ elf.addSymbolsToStore memindex st_value ↔
      (elf.symtabIndex = symindex ∧ symindex ≠ 0 ∧
        24 * i < (elf.shdr symindex).sh_size.toNat % 2 ^ 32) ∧
      (symindex, i, call) ∈ elf.symbolCalls memindex (st_value symindex) symindex i := by
  have hsource : ∀ {table k}, (symindex, i, call) ∈
      elf.symbolCalls memindex (st_value table) table k → table = symindex ∧ k = i := by
    intro table k h
    unfold ElfFile.symbolCalls at h
    dsimp only at h
    split at h
    · cases h
    split at h
    · simp at h
      rcases h with ⟨rfl, rfl, -⟩ | ⟨rfl, rfl, -⟩
      · exact ⟨rfl, rfl⟩
      · exact ⟨rfl, rfl⟩
    · simp at h
      exact ⟨h.1.symm, h.2.1.symm⟩
  unfold ElfFile.addSymbolsToStore
  dsimp only
  constructor
  · intro h
    split at h
    · cases h
    rename_i hne
    obtain ⟨k, hk, hcall⟩ := List.mem_flatMap.mp h
    obtain ⟨htable, rfl⟩ := hsource hcall
    rw [htable] at hk hcall hne
    rw [List.mem_range, BitVec.toNat_setWidth] at hk
    exact ⟨⟨htable, hne, by omega⟩, hcall⟩
  · rintro ⟨⟨htable, hne, hread⟩, hcall⟩
    rw [htable, if_neg hne]
    refine List.mem_flatMap.mpr ⟨i, List.mem_range.mpr ?_, hcall⟩
    rw [BitVec.toNat_setWidth]
    omega

theorem symbolAddress_mem_iff {memindex address : U64} {st_value : Nat → U64}
    (hnamed : (elf.sym symindex i).st_name ≠ 0) :
    (symindex, i, .addSymbolAddress (elf.storeName symindex i) address) ∈
      elf.symbolCalls memindex st_value symindex i ↔ address = st_value i := by
  unfold ElfFile.symbolCalls
  dsimp only
  rw [if_neg hnamed]
  split <;> simp

theorem functionAddress_mem_iff {memindex address : U64} {st_value : Nat → U64}
    (hnamed : (elf.sym symindex i).st_name ≠ 0)
    (htype : ELF64_ST_TYPE (elf.sym symindex i).st_info = STT_FUNC) :
    (symindex, i, .addFunctionAddress (elf.storeName symindex i) address) ∈
      elf.symbolCalls memindex st_value symindex i ↔
      address = if st_value i < memindex then st_value i + memindex else st_value i := by
  unfold ElfFile.symbolCalls
  dsimp only
  rw [if_neg hnamed, if_pos htype]
  simp

/-- The address of `.text` is added to what is below it. -/
theorem eq_addText_iff {memindex address : U64} :
    (address = if address < memindex then address + memindex else address) ↔
      memindex ≤ address := by
  by_cases h : address < memindex
  · rw [if_pos h]
    constructor
    · intro heq
      bv_omega
    · intro hle
      bv_omega
  · rw [if_neg h]
    constructor
    · intro _
      bv_omega
    · intro _
      rfl

/-- What is stored for a symbol tells how often the address has been added to its value. -/
theorem storedAt_iff {memindex value : U64} {st_value : Nat → Nat → U64}
    (hsymbol : elf.NamedSymbol currentModule symindex i base)
    (hvalue : st_value symindex i = (addBase base)^[elf.references symindex i] value) :
    elf.StoredAt (elf.addSymbolsToStore memindex st_value) symindex i (base + value) ↔
      elf.StoredRight memindex symindex i base value := by
  have htable : elf.symtabIndex = symindex ↔ ∀ j < elf.getNrOfSections, symindex < j →
      (elf.shdr j).sh_type ≠ SHT_SYMTAB := foldl_last_eq_iff hsymbol.table.1 hsymbol.table.2
  constructor
  · -- the symbol's own call tells its value, and how often the address has been added to it
    rintro ⟨hstored, hfunction⟩
    obtain ⟨⟨hindex, hne, hread⟩, hcall⟩ := mem_addSymbolsToStore_iff.mp hstored
    have heq := (symbolAddress_mem_iff hsymbol.named).mp hcall
    obtain ⟨hlt, hreferences⟩ :=
      (iterate_addBase_eq_iff hsymbol.known _).mp (hvalue.symm.trans heq.symm)
    refine ⟨⟨hne, htable.mp hindex⟩, hread, hlt, hreferences, fun htype => ?_⟩
    have hcall := (mem_addSymbolsToStore_iff.mp (hfunction htype)).2
    rw [functionAddress_mem_iff hsymbol.named htype, ← heq] at hcall
    exact eq_addText_iff.mp hcall
  · rintro ⟨⟨hne, hlast⟩, hread, hlt, hreferences, htext⟩
    have heq := hvalue.trans ((iterate_addBase_eq_iff hsymbol.known _).mpr ⟨hlt, hreferences⟩)
    have hreached := And.intro (htable.mpr hlast) (And.intro hne hread)
    refine ⟨mem_addSymbolsToStore_iff.mpr ⟨hreached, ?_⟩, fun htype =>
      mem_addSymbolsToStore_iff.mpr ⟨hreached, ?_⟩⟩
    · exact (symbolAddress_mem_iff hsymbol.named).mpr heq.symm
    · rw [functionAddress_mem_iff hsymbol.named htype, heq]
      exact eq_addText_iff.mpr (htext htype)

/-- **A symbol is stored with its address** exactly under the condition `StoredRight`, if the
relocations keep the tables of the file. For a module, `memindex` is the address of `.text`. -/
theorem storedRight_iff {mem : Memory} {file : FileState} {e_shoff : U64} (memindex : U64)
    (hsymbol : elf.NamedSymbol currentModule symindex i base)
    (happly : InPlace.applyRelocations elf (.kernelModule currentModule getSymbolAddress)
      (.start mem) = .ok file)
    (hkept : TablesKept elf e_shoff
      {symbol | elf.Referenced symbol.1 symbol.2 ∨ symbol = (symindex, i)} file.written) :
    elf.StoredAt (elf.addSymbolsToStore memindex (elf.st_value file.mem)) symindex i
        (base + elf.st_value mem symindex i) ↔
      elf.StoredRight memindex symindex i base (elf.st_value mem symindex i) := by
  have hfinal : InPlace.finalFile (InPlace.applyRelocations elf
      (.kernelModule currentModule getSymbolAddress) (.start mem)) = file := by
    rw [happly]
    rfl
  have halike := agrees_of_tablesKept elf (.kernelModule currentModule getSymbolAddress) mem
    (fun _ _ h => .inl h) (hfinal.symm ▸ hkept)
  rw [happly] at halike
  cases hhost : applyRelocations elf (.kernelModule currentModule getSymbolAddress)
      ⟨mem, elf.st_value mem, []⟩ with
  | error stop =>
      rw [hhost] at halike
      exact halike.elim
  | ok host =>
      rw [hhost] at halike
      have hadded := addedTimes_of_applyRelocations hsymbol.defined hsymbol.base_eq hhost
      exact storedAt_iff hsymbol ((Agrees.st_value halike symindex i (.inr rfl)).trans hadded)

end

/-! ## Two sections with code

A module with `.init.text` below `.text`. Its symbols are a function of `.text` and one of
`.init.text`, which the relocations refer to, and a function of `.text` that they do not. -/

def twoTextsHeaders : List Elf64_Shdr :=
  [default,
    { (default : Elf64_Shdr) with
      sh_name := ".text", sh_flags := SHF_ALLOC ||| SHF_EXECINSTR, sh_offset := 0x40,
      sh_size := 0x40 },
    { (default : Elf64_Shdr) with
      sh_name := ".init.text", sh_flags := SHF_ALLOC ||| SHF_EXECINSTR, sh_offset := 0x80,
      sh_size := 0x20 },
    { (default : Elf64_Shdr) with
      sh_name := ".data..percpu", sh_flags := SHF_ALLOC, sh_offset := 0xa0 },
    { (default : Elf64_Shdr) with
      sh_name := ".symtab", sh_type := SHT_SYMTAB, sh_offset := 0xa0, sh_size := 0x60 },
    { (default : Elf64_Shdr) with
      sh_name := ".rela.text", sh_type := SHT_RELA, sh_offset := 0x100, sh_size := 0x30,
      sh_link := 4, sh_info := 1 }]

theorem shnum_lt_twoTexts : twoTextsHeaders.length < 2 ^ 16 := by
  show 6 < 2 ^ 16
  decide

def twoTexts : ElfFile where
  e_type := ET_REL
  e_entry := 0
  fileContent := 0x10000
  elf64Shdr := twoTextsHeaders
  shnum_lt := shnum_lt_twoTexts
  rela := fun i => if i = 5 then [⟨0, 1 <<< 32 ||| 1, 0⟩, ⟨8, 2 <<< 32 ||| 1, 0⟩] else []
  sym := fun _ i => ⟨BitVec.ofNat 32 i, 0x12, if i = 0 then SHN_UNDEF else if i = 2 then 2 else 1⟩
  symbolName := fun offset _ => if offset = 1 then "run" else if offset = 2 then "init" else "stop"

def twoTextsInstance : ModuleInstance where
  size := 0x100
  address := 0xffffffffa0002000
  gpl_syms := 0
  percpu := 0
  sect_attrs := [(".text", 0xffffffffa0001000), (".init.text", 0xffffffffa0000000)]

def twoTextsContext : LoadContext := .kernelModule twoTextsInstance fun _ => 0

/-- The symbols are at the offsets 16, 8 and 32 of their sections. -/
def twoTextsMemory : Memory :=
  applyStores [⟨0x100c0, 8, 0x10⟩, ⟨0x100d8, 8, 8⟩, ⟨0x100f0, 8, 0x20⟩] fun _ => 0

def relocatedTwoTexts : FileState :=
  InPlace.finalFile (InPlace.applyRelocations twoTexts twoTextsContext (.start twoTextsMemory))

theorem twoTexts_applied :
    InPlace.applyRelocations twoTexts twoTextsContext (.start twoTextsMemory) =
      .ok relocatedTwoTexts := rfl

/-- The headers of the sections are behind their contents. -/
theorem twoTexts_tablesKept {i : Nat} (hi : i < 4) : TablesKept twoTexts 0x140
    {symbol | twoTexts.Referenced symbol.1 symbol.2 ∨ symbol = (4, i)}
    relocatedTwoTexts.written where
  header := by decide +kernel
  sections := by decide +kernel
  contents := by decide +kernel
  symbols := by
    have hall : ∀ k < 4, Untouched (relocatedTwoTexts.written.filter
        fun w => w.owner ≠ some (4, k)) (twoTexts.symAddress 4 k) 24 := by
      decide +kernel
    rintro symindex k (⟨j, hj, -, -, htype, rfl, rel, hrel, rfl⟩ | heq)
    · have hj : j < 6 := hj
      have hrela : ∀ j < 6, (twoTexts.shdr j).sh_type = SHT_RELA →
          (twoTexts.shdr j).sh_link.toNat = 4 ∧ ∀ rel ∈ twoTexts.rela j, rel.symbol < 4 := by
        decide
      obtain ⟨hlink, hsymbols⟩ := hrela j hj htype
      rw [hlink]
      exact hall _ (hsymbols rel hrel)
    · cases heq
      exact hall i hi

def twoTextsCalls : List (Nat × Nat × StoreCall) :=
  twoTexts.addSymbolsToStore 0xffffffffa0001000 (twoTexts.st_value relocatedTwoTexts.mem)

theorem twoTexts_run_stored : twoTexts.StoredAt twoTextsCalls 4 1 0xffffffffa0001010 := by
  have hsymbol : twoTexts.NamedSymbol twoTextsInstance 4 1 0xffffffffa0001000 :=
    ⟨by decide, by decide, by decide, by decide, rfl, by decide⟩
  have hvalue : twoTexts.st_value twoTextsMemory 4 1 = 0x10 := by decide +kernel
  have hiff := storedRight_iff 0xffffffffa0001000 hsymbol twoTexts_applied
    (twoTexts_tablesKept (by decide))
  rw [hvalue] at hiff
  exact hiff.mpr ⟨by decide, by decide, by decide, by decide, by decide⟩

/-- The function that no entry refers to is stored with its offset. To the address of the function
in `.init.text`, the one of `.text` is added. -/
theorem twoTexts_stored_wrong :
    InPlace.applyRelocations twoTexts twoTextsContext (.start twoTextsMemory) =
      .ok relocatedTwoTexts ∧
    (twoTexts.NamedSymbol twoTextsInstance 4 3 0xffffffffa0001000 ∧
      twoTexts.st_value twoTextsMemory 4 3 = 0x20 ∧
      (4, 3, StoreCall.addSymbolAddress "stop" 0x20) ∈ twoTextsCalls ∧
      ¬ twoTexts.StoredAt twoTextsCalls 4 3 0xffffffffa0001020) ∧
    (twoTexts.NamedSymbol twoTextsInstance 4 2 0xffffffffa0000000 ∧
      twoTexts.st_value twoTextsMemory 4 2 = 8 ∧
      (4, 2, StoreCall.addSymbolAddress "init" 0xffffffffa0000008) ∈ twoTextsCalls ∧
      (4, 2, StoreCall.addFunctionAddress "init" 0xffffffff40001008) ∈ twoTextsCalls ∧
      ¬ twoTexts.StoredAt twoTextsCalls 4 2 0xffffffffa0000008) := by
  refine ⟨rfl, ⟨⟨by decide, by decide, by decide, by decide, rfl, by decide⟩, by decide +kernel,
    by decide +kernel, ?_⟩, ⟨by decide, by decide, by decide, by decide, rfl, by decide⟩,
    by decide +kernel, by decide +kernel, by decide +kernel, ?_⟩
  · rintro ⟨hstored, -⟩
    have hnot : (4, 3, StoreCall.addSymbolAddress (twoTexts.storeName 4 3) 0xffffffffa0001020) ∉
        twoTextsCalls := by decide +kernel
    exact hnot hstored
  · rintro ⟨-, hfunction⟩
    have hnot : (4, 2, StoreCall.addFunctionAddress (twoTexts.storeName 4 2) 0xffffffffa0000008) ∉
        twoTextsCalls := by decide +kernel
    exact hnot (hfunction (by decide))

end KernInt
