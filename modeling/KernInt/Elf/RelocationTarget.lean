import KernInt.Elf.Relocation
import KernInt.Lib.Nearest

set_option autoImplicit false

/-! # The place that an entry patches

In an executable or a shared library `r_offset` is a virtual address. The section that starts
next below it becomes the target section, and the address of that section in the guest is taken
off. But `locInElf` was computed before, from the section that the entry in front of this one
has left: the place is right exactly if the two mistakes cancel out (`patchesRight_iff`).
-/

namespace KernInt

open Lib

namespace ElfFile

variable (elf : ElfFile)

/-- The section with number `j` and this header starts next below `relOffset`, among those whose
address is not 0. -/
def IsClosest (relOffset : U64) (j : Nat) (shdr : Elf64_Shdr) : Prop :=
  IsNearest Elf64_Shdr.sh_addr 0 relOffset elf.elf64Shdr j shdr

theorem closestSection_eq (relOffset : U64) :
    closestSection elf relOffset = nearest Elf64_Shdr.sh_addr 0 relOffset elf.elf64Shdr := rfl

variable {elf}

theorem closestSection_eq_some_iff {relOffset : U64} {j : Nat} :
    (closestSection elf relOffset).1 = some j ↔ ∃ shdr, elf.IsClosest relOffset j shdr := by
  rw [closestSection_eq]
  exact nearest_eq_some_iff

theorem findSectionByID_of_get {j : Nat} {shdr : Elf64_Shdr} (h : elf.elf64Shdr[j]? = some shdr) :
    elf.findSectionByID (BitVec.ofNat 32 j) = .ok (elf.sectionInfo j shdr) := by
  have hlt : j < elf.elf64Shdr.length := (List.getElem?_eq_some_iff.mp h).1
  have hnum := elf.shnum_lt
  have htoNat : (BitVec.ofNat 32 j).toNat = j := by
    rw [BitVec.toNat_ofNat, Nat.mod_eq_of_lt (by omega)]
  have hget : elf.sections[j]? = some (elf.sectionInfo j shdr) := by
    rw [sections, List.getElem?_mapIdx, h, Option.map_some]
  rw [findSectionByID, htoNat, hget]

end ElfFile

/-- The section is allocated, and the address lies in it. -/
def Elf64_Shdr.Holds (t : Elf64_Shdr) (address : U64) : Prop :=
  t.sh_flags &&& SHF_ALLOC ≠ 0 ∧ t.sh_addr.toNat ≤ address.toNat ∧
    address.toNat < t.sh_addr.toNat + t.sh_size.toNat

instance (t : Elf64_Shdr) (address : U64) : Decidable (t.Holds address) :=
  inferInstanceAs (Decidable (_ ∧ _ ∧ _))

/-- No address lies in two allocated sections. -/
def ElfFile.SectionsDisjoint (elf : ElfFile) : Prop :=
  elf.elf64Shdr.Pairwise fun t u => ∀ address, ¬ (t.Holds address ∧ u.Holds address)

theorem not_holds_both {t u : Elf64_Shdr} (h : t.sh_flags &&& SHF_ALLOC = 0 ∨
      u.sh_flags &&& SHF_ALLOC = 0 ∨ t.sh_addr.toNat + t.sh_size.toNat ≤ u.sh_addr.toNat)
    (address : U64) : ¬ (t.Holds address ∧ u.Holds address) := by
  rintro ⟨⟨htAlloc, -, hlt⟩, huAlloc, hge, -⟩
  rcases h with h | h | h
  · exact htAlloc h
  · exact huAlloc h
  · omega

/-- The section that is in `targetSection` behind the entries `pre`: the one that the last of them
has patched, or the one of `sh_info`. -/
def LeftBehind (elf : ElfFile) (relSectionID : Nat) (pre : List Elf64_Rela) (p : Elf64_Shdr) :
    Prop :=
  match pre.getLast? with
  | none => p = elf.shdr (elf.shdr relSectionID).sh_info.toNat
  | some rel => ∃ j, elf.IsClosest rel.r_offset j p

/-- The round for an entry finds a place to patch, and it is the one in the file that the section
around `r_offset` has for it. -/
def PatchesRight (elf : ElfFile) (s : RelaState) (rel : Elf64_Rela) : Prop :=
  ∃ targetSection locInElf,
    relaTarget elf s.targetSection rel.r_offset = .ok (targetSection, locInElf) ∧
    ∀ t ∈ elf.elf64Shdr, t.Holds rel.r_offset →
      locInElf = elf.fileContent + t.sh_offset + (rel.r_offset - t.sh_addr)

section

variable {elf : ElfFile} {ctx : LoadContext} {rs : RelaSection} {s s' : RelaState}
  {rel : Elf64_Rela}

theorem addr_of_relaStore {info : SectionInfo} {type : RelaType}
    {st_value val locInElf locInMem : U64} {store : Store}
    (h : relaStore rs info type st_value val locInElf locInMem = .ok store) :
    store.addr = locInElf := by
  unfold relaStore at h
  cases type with
  | R_X86_64_PC32 =>
      dsimp only at h
      split at h <;> (cases h; rfl)
  | unknown => cases h
  | _ => cases h; rfl

/-- What a round stores is at `locInElf`, and its target section is the next round's to start
with. -/
theorem applyRela_eq_ok (h : applyRela elf ctx rs s rel = .ok s') :
    ∃ locInElf, relaTarget elf s.targetSection rel.r_offset = .ok (s'.targetSection, locInElf) ∧
      ∃ store : Store, store.addr = locInElf ∧ s'.host.mem = store.apply s.host.mem := by
  unfold applyRela at h
  split at h
  · cases h
  · rename_i targetSection locInElf info st_value hresolve
    obtain ⟨⟨targetSection', locInElf'⟩, htarget, hresolve⟩ := exists_of_bind_ok hresolve
    obtain ⟨info', -, hresolve⟩ := exists_of_bind_ok hresolve
    obtain ⟨st_value', -, hresolve⟩ := exists_of_bind_ok hresolve
    cases hresolve
    dsimp only at h
    split at h
    · cases h
    · rename_i store hstore
      cases h
      exact ⟨locInElf, htarget, store, addr_of_relaStore hstore, rfl⟩

/-- Where a section is found, it is the closest one, and `locInElf` comes from the section
before. -/
theorem relaTarget_eq_ok_iff (htype : elf.e_type = ET_EXEC ∨ elf.e_type = ET_DYN)
    {info targetSection : SectionInfo} {relOffset locInElf : U64} :
    relaTarget elf info relOffset = .ok (targetSection, locInElf) ↔
      ∃ j shdr, elf.IsClosest relOffset j shdr ∧ targetSection = elf.sectionInfo j shdr ∧
        locInElf = info.index + relOffset - shdr.sh_addr := by
  unfold relaTarget
  rw [if_pos htype]
  constructor
  · intro h
    split at h
    · cases h
    · rename_i j hj
      obtain ⟨shdr, hshdr⟩ := ElfFile.closestSection_eq_some_iff.mp hj
      rw [ElfFile.findSectionByID_of_get hshdr.get] at h
      cases h
      exact ⟨j, shdr, hshdr, rfl, rfl⟩
  · rintro ⟨j, shdr, hshdr, rfl, rfl⟩
    rw [ElfFile.closestSection_eq_some_iff.mpr ⟨shdr, hshdr⟩]
    dsimp only
    rw [ElfFile.findSectionByID_of_get hshdr.get]
    rfl

variable {getSymbolAddress : String → U64} {relSectionID : Nat} {targetSection : SectionInfo}
  {host : HostState} {pre : List Elf64_Rela}

/-- What is found out in front of the loop. -/
theorem relaSection_parts (h : relaSection elf ctx relSectionID = .ok (rs, targetSection)) :
    rs.isAltinstrSection = (elf.sectionName (elf.shdr relSectionID).sh_info.toNat ==
        ".altinstructions") ∧
      ∃ found, elf.findSectionByID (elf.shdr relSectionID).sh_info = .ok found ∧
        updateSectionInfoMemAddress elf ctx found = .ok targetSection := by
  unfold relaSection at h
  dsimp only at h
  split at h
  · cases h
  obtain ⟨found, hfound, h⟩ := exists_of_bind_ok h
  obtain ⟨updated, hupdate, h⟩ := exists_of_bind_ok h
  obtain ⟨_, -, h⟩ := exists_of_bind_ok h
  split at h <;>
  · obtain ⟨_, -, h⟩ := exists_of_bind_ok h
    cases h
    exact ⟨rfl, found, hfound, hupdate⟩

/-- For a process the loop starts with the section of `sh_info` as the file has it. -/
theorem relaSection_userspace
    (h : relaSection elf (.userspace getSymbolAddress) relSectionID = .ok (rs, targetSection)) :
    targetSection = elf.sectionInfo (elf.shdr relSectionID).sh_info.toNat
      (elf.shdr (elf.shdr relSectionID).sh_info.toNat) := by
  obtain ⟨-, found, hfound, hupdate⟩ := relaSection_parts h
  cases hupdate
  exact elf.findSectionByID_eq_ok hfound

/-- The section that a run has in `targetSection` when it comes to the next entry. -/
theorem leftBehind_of_rounds (htype : elf.e_type = ET_EXEC ∨ elf.e_type = ET_DYN)
    (hsec : relaSection elf (.userspace getSymbolAddress) relSectionID = .ok (rs, targetSection))
    (hrun : pre.foldlM (applyRela elf (.userspace getSymbolAddress) rs)
      ⟨host, targetSection, SectionInfo.empty⟩ = .ok s) :
    ∃ p, LeftBehind elf relSectionID pre p ∧
      s.targetSection.index = elf.fileContent + p.sh_offset := by
  induction pre using List.reverseRecOn generalizing s with
  | nil =>
      cases hrun
      exact ⟨_, rfl, by rw [relaSection_userspace hsec]; rfl⟩
  | append_singleton pre rel ih =>
      -- whatever the rounds before have done, the last one leaves its own section
      obtain ⟨s₀, s₁, -, hround, hend⟩ := foldlM_split_eq_ok_iff.mp hrun
      cases hend
      obtain ⟨locInElf, htarget, -⟩ := applyRela_eq_ok hround
      obtain ⟨j, p, hp, hsection, -⟩ := (relaTarget_eq_ok_iff htype).mp htarget
      refine ⟨p, ?_, by rw [hsection]; rfl⟩
      unfold LeftBehind
      rw [List.getLast?_concat]
      exact ⟨j, hp⟩

theorem LeftBehind.unique {p q : Elf64_Shdr} (hp : LeftBehind elf relSectionID pre p)
    (hq : LeftBehind elf relSectionID pre q) : p = q := by
  unfold LeftBehind at hp hq
  cases hlast : pre.getLast? with
  | none =>
      rw [hlast] at hp hq
      exact hp.trans hq.symm
  | some rel =>
      rw [hlast] at hp hq
      obtain ⟨i, hi⟩ := hp
      obtain ⟨j, hj⟩ := hq
      exact (hi.unique hj).2

/-- In a run that comes to the entry `rel`, behind the entries `pre`, it patches the right place
if and only if the section left behind by `pre` is as far in the file from the address of the
closest section as the section around `r_offset` is from its own. -/
theorem patchesRight_iff (htype : elf.e_type = ET_EXEC ∨ elf.e_type = ET_DYN)
    (hsec : relaSection elf (.userspace getSymbolAddress) relSectionID = .ok (rs, targetSection))
    (hrun : pre.foldlM (applyRela elf (.userspace getSymbolAddress) rs)
      ⟨host, targetSection, SectionInfo.empty⟩ = .ok s) :
    PatchesRight elf s rel ↔
      ∃ p j shdr, LeftBehind elf relSectionID pre p ∧ elf.IsClosest rel.r_offset j shdr ∧
        ∀ t ∈ elf.elf64Shdr, t.Holds rel.r_offset →
          p.sh_offset - shdr.sh_addr = t.sh_offset - t.sh_addr := by
  obtain ⟨p, hp, hindex⟩ := leftBehind_of_rounds htype hsec hrun
  -- the base of the file and `r_offset` are on both sides
  have hcancel : ∀ a b c d : U64,
      elf.fileContent + a + rel.r_offset - b = elf.fileContent + c + (rel.r_offset - d) ↔
        a - b = c - d := by
    intro a b c d
    constructor
    · intro h
      grind
    · intro h
      grind
  constructor
  · rintro ⟨target, locInElf, htarget, hright⟩
    obtain ⟨j, shdr, hclosest, -, hloc⟩ := (relaTarget_eq_ok_iff htype).mp htarget
    refine ⟨p, j, shdr, hp, hclosest, fun t ht hholds => ?_⟩
    rw [← hcancel, ← hright t ht hholds, hloc, hindex]
  · rintro ⟨q, j, shdr, hq, hclosest, hright⟩
    obtain rfl := hp.unique hq
    refine ⟨_, _, (relaTarget_eq_ok_iff htype).mpr ⟨j, shdr, hclosest, rfl, rfl⟩,
      fun t ht hholds => ?_⟩
    rw [hindex, hcancel]
    exact hright t ht hholds

end

/-! ## Two sections with entries

A shared library whose `.got` is at the same place in the file and in the guest, and whose
`.data` is not. -/

namespace TwoTargets

def sectionHeader (sh_name : String) (sh_type : U32) (sh_flags sh_addr sh_offset : U64)
    (sh_link sh_info : U32) : Elf64_Shdr :=
  { sh_name, sh_type, sh_flags, sh_addr, sh_offset, sh_size := 0x100, sh_link, sh_info,
    sh_addralign := 8 }

def headers : List Elf64_Shdr :=
  [sectionHeader "" 0 0 0 0 0 0,
   sectionHeader ".got" 1 SHF_ALLOC 0x1000 0x1000 0 0,
   sectionHeader ".data" 1 SHF_ALLOC 0x3000 0x2000 0 0,
   sectionHeader ".rela.dyn" SHT_RELA 0 0 0x2100 4 1,
   sectionHeader ".dynsym" 11 0 0 0x2200 0 0]

/-- An entry with `R_X86_64_RELATIVE`. -/
def relative (r_offset : U64) : Elf64_Rela := ⟨r_offset, 8, 0x40⟩

theorem shnum_lt_headers : headers.length < 2 ^ 16 := by
  decide

def library : ElfFile where
  e_type := ET_DYN
  e_entry := 0
  fileContent := 0x100000
  elf64Shdr := headers
  shnum_lt := shnum_lt_headers
  rela _ := [relative 0x1010, relative 0x3010]
  sym _ _ := ⟨0, 0, 0⟩
  symbolName _ _ := ""

def rs : RelaSection := ⟨4, 0, false, SectionInfo.empty⟩

def host : HostState := ⟨fun _ => 0, fun _ _ => 0, []⟩

/-- The sections `.got` and `.data`, as they are found. -/
def got : SectionInfo := library.sectionInfo 1 (headers.getD 1 default)
def data : SectionInfo := library.sectionInfo 2 (headers.getD 2 default)

theorem sectionsDisjoint : library.SectionsDisjoint := by
  have hapart : headers.Pairwise fun t u => t.sh_flags &&& SHF_ALLOC = 0 ∨
      u.sh_flags &&& SHF_ALLOC = 0 ∨ t.sh_addr.toNat + t.sh_size.toNat ≤ u.sh_addr.toNat := by
    decide
  exact hapart.imp not_holds_both

theorem relaSection_library :
    relaSection library (.userspace fun _ => 0) 3 = .ok (rs, got) := rfl

/-- The run comes behind its first entry, which is for `.got`. -/
theorem rounds_library : ∃ s, [relative 0x1010].foldlM
      (applyRela library (.userspace fun _ => 0) rs) ⟨host, got, SectionInfo.empty⟩ = .ok s ∧
    s.targetSection = got :=
  ⟨_, rfl, rfl⟩

end TwoTargets

/-- A second entry for `.got` goes to its place. -/
theorem patchesRight_same_section : ∃ s, PatchesRight TwoTargets.library s
    (TwoTargets.relative 0x1020) := by
  obtain ⟨s, hrun, -⟩ := TwoTargets.rounds_library
  refine ⟨s, (patchesRight_iff (.inr rfl) TwoTargets.relaSection_library hrun).mpr ?_⟩
  obtain ⟨p, hp⟩ := ElfFile.closestSection_eq_some_iff.mp
    (rfl : (closestSection TwoTargets.library 0x1010).1 = some 1)
  obtain ⟨shdr, hshdr⟩ := ElfFile.closestSection_eq_some_iff.mp
    (rfl : (closestSection TwoTargets.library 0x1020).1 = some 1)
  have hsame : p = shdr := Option.some.inj (hp.get.symm.trans hshdr.get)
  subst hsame
  refine ⟨p, 1, p, ⟨1, hp⟩, hshdr, ?_⟩
  obtain rfl : TwoTargets.headers.getD 1 default = p := Option.some.inj hp.get
  decide

/-- An entry for `.data` behind one for `.got` goes to the place that is as far from the start of
`.got` in the file as `r_offset` is from the address of `.data`. A first entry for the very start
of `.got` finds no section. -/
theorem patches_got_for_data :
    (∃ s, [TwoTargets.relative 0x1010].foldlM
        (applyRela TwoTargets.library (.userspace fun _ => 0) TwoTargets.rs)
        ⟨TwoTargets.host, TwoTargets.got, SectionInfo.empty⟩ = .ok s ∧
      relaTarget TwoTargets.library s.targetSection 0x3010 =
        .ok (TwoTargets.data, TwoTargets.got.index + 0x10) ∧
      ¬ PatchesRight TwoTargets.library s (TwoTargets.relative 0x3010)) ∧
    (relaTarget TwoTargets.library TwoTargets.got 0x1000 =
      .error (.internalError "no section can be the target for the relocation")) ∧
    ¬ ∀ (elf : ElfFile) (getSymbolAddress : String → U64) (relSectionID : Nat)
        (rs : RelaSection) (targetSection : SectionInfo) (host : HostState)
        (pre : List Elf64_Rela) (rel : Elf64_Rela) (s : RelaState),
      elf.e_type = ET_EXEC ∨ elf.e_type = ET_DYN → elf.SectionsDisjoint →
      relaSection elf (.userspace getSymbolAddress) relSectionID = .ok (rs, targetSection) →
      pre.foldlM (applyRela elf (.userspace getSymbolAddress) rs)
        ⟨host, targetSection, SectionInfo.empty⟩ = .ok s →
      (∃ t ∈ elf.elf64Shdr, t.Holds rel.r_offset) → PatchesRight elf s rel := by
  obtain ⟨s, hrun, htarget⟩ := TwoTargets.rounds_library
  have hloc : relaTarget TwoTargets.library s.targetSection 0x3010 =
      .ok (TwoTargets.data, TwoTargets.got.index + 0x10) := by
    rw [htarget]
    rfl
  have hwrong : ¬ PatchesRight TwoTargets.library s (TwoTargets.relative 0x3010) := by
    rintro ⟨target, locInElf, htarget', hright⟩
    have hplace := hright (TwoTargets.headers.getD 2 default) (by decide) (by decide)
    obtain ⟨-, rfl⟩ := Prod.mk.inj (Except.ok.inj (hloc.symm.trans htarget'))
    exact absurd hplace (by decide)
  refine ⟨⟨s, hrun, hloc, hwrong⟩, rfl, fun h => hwrong ?_⟩
  exact h _ _ 3 _ _ _ _ _ s (.inr rfl) TwoTargets.sectionsDisjoint
    TwoTargets.relaSection_library hrun ⟨TwoTargets.headers.getD 2 default, by decide, by decide⟩

end KernInt
