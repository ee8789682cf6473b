import KernInt.Elf.Relocation
import KernInt.Lib.Simulation
import Mathlib.Data.Set.Basic

set_option autoImplicit false

/-! # Relocations in the file content

The symbols that relocations bring up to date are in the file content that they patch:
`sym->st_value` is a word of it, and nothing keeps an entry from pointing there, for `r_offset` is
not compared with the size of the section. Here the relocations read and write the values of symbols
in the memory of the file content, and keep a list of what they have written.

Nor does anything keep them from the headers, the entries and the names. As long as none of them is
written over, and a symbol by its own entries only (`TablesKept`), the relocations do in the file
content what they do beside it (`agrees_of_tablesKept`), so that what is known of `applyRelocations`
holds there, too.
-/

namespace KernInt

open Lib

namespace ElfFile

variable (elf : ElfFile)

/-- `symBase + i` -/
def symAddress (symindex i : Nat) : U64 :=
  elf.fileContent + (elf.shdr symindex).sh_offset + BitVec.ofNat 64 (24 * i)

/-- `&sym->st_value` -/
def valueAddress (symindex i : Nat) : U64 := elf.symAddress symindex i + 8

def st_value (mem : Memory) (symindex i : Nat) : U64 := loadU64 mem (elf.valueAddress symindex i)

/-- Some entry of a section that is applied refers to the symbol. -/
def Referenced (symindex i : Nat) : Prop :=
  ∃ j < elf.getNrOfSections, (elf.shdr j).sh_info.toNat < elf.getNrOfSections ∧
    (elf.shdr (elf.shdr j).sh_info.toNat).sh_flags &&& SHF_ALLOC ≠ 0 ∧
    (elf.shdr j).sh_type = SHT_RELA ∧ (elf.shdr j).sh_link.toNat = symindex ∧
    ∃ rel ∈ elf.rela j, rel.symbol = i

end ElfFile

/-- A write to the file content, with the symbol whose `st_value` is written. -/
structure Written where
  owner : Option (Nat × Nat)
  store : Store

/-- The memory with the file content, the values that entries have computed, and what has been
written so far. -/
structure FileState where
  mem : Memory
  vals : List (Nat × Elf64_Rela × U64)
  written : List Written

/-- The state of the loop in `applyRelaOnSection`. -/
structure FileRelaState where
  file : FileState
  targetSection : SectionInfo
  symRelSectionInfo : SectionInfo

namespace FileState

def start (mem : Memory) : FileState := ⟨mem, [], []⟩

def write (file : FileState) (owner : Option (Nat × Nat)) (store : Store) : FileState :=
  { file with mem := store.apply file.mem, written := file.written ++ [⟨owner, store⟩] }

/-- An entry has given its symbol the value `st_value` and computed `val` from it. Where the symbol
keeps its value, the source does not write, and the write here changes nothing. -/
def relocated (elf : ElfFile) (file : FileState) (symindex : Nat) (rel : Elf64_Rela)
    (st_value : U64) : FileState :=
  { file.write (some (symindex, rel.symbol))
      ⟨elf.valueAddress symindex rel.symbol, 8, st_value⟩ with
    vals := file.vals ++ [(symindex, rel, st_value + rel.r_addend)] }

end FileState

/-- The loop with the values beside the memory, as they are in it. -/
def FileRelaState.tables (elf : ElfFile) (s : FileRelaState) : RelaState where
  host := ⟨s.file.mem, elf.st_value s.file.mem, s.file.vals⟩
  targetSection := s.targetSection
  symRelSectionInfo := s.symRelSectionInfo

/-! ## The functions of the file -/

namespace InPlace

variable (elf : ElfFile) (ctx : LoadContext)

/-- One round of the loop. The value of the symbol is written first, then the patch. -/
def applyRela (rs : RelaSection) (s : FileRelaState) (rel : Elf64_Rela) :
    Except (FileState × ElfError) FileRelaState :=
  match resolveRela elf ctx rs (s.tables elf) rel with
  | .error e => .error (s.file, e)
  | .ok (targetSection, locInElf, symRelSectionInfo, st_value) =>
      let val := st_value + rel.r_addend
      let locInMem := s.targetSection.memindex + rel.r_offset
      let file := s.file.relocated elf rs.symindex rel st_value
      match relaStore rs symRelSectionInfo rel.type st_value val locInElf locInMem with
      | .error e => .error (file, e)
      | .ok store => .ok ⟨file.write none store, targetSection, symRelSectionInfo⟩

def applyRelaOnSection (relSectionID : Nat) (rel : List Elf64_Rela) (file : FileState) :
    Except (FileState × ElfError) FileState :=
  match relaSection elf ctx relSectionID with
  | .error e => .error (file, e)
  | .ok (rs, targetSection) => do
      let s ← rel.foldlM (applyRela elf ctx rs)
        { file, targetSection, symRelSectionInfo := SectionInfo.empty }
      return s.file

def relocateSection (file : FileState) (i : Nat) : Except (FileState × ElfError) FileState :=
  let infosec := (elf.shdr i).sh_info.toNat
  if infosec ≥ elf.getNrOfSections then .ok file
  else if (elf.shdr infosec).sh_flags &&& SHF_ALLOC = 0 then .ok file
  else if (elf.shdr i).sh_type = SHT_REL then .error (file, .assertion)
  else if (elf.shdr i).sh_type = SHT_RELA then applyRelaOnSection elf ctx i (elf.rela i) file
  else .ok file

def applyRelocations (file : FileState) : Except (FileState × ElfError) FileState :=
  if elf.e_type = ET_REL ∨ elf.e_type = ET_DYN ∨ elf.e_type = ET_EXEC then
    (List.range elf.getNrOfSections).foldlM (relocateSection elf ctx) file
  else .ok file

/-- The state of the file in which relocations have ended, in one way or the other. -/
def finalFile (result : Except (FileState × ElfError) FileState) : FileState :=
  stoppedAt id result

end InPlace

/-! ## What is not written over -/

/-- No write reaches one of the `n` bytes from `a` on. -/
def Untouched (written : List Written) (a : U64) (n : Nat) : Prop :=
  ∀ w ∈ written, ∀ k < n, ¬ w.store.Covers (a + BitVec.ofNat 64 k)

instance (written : List Written) (a : U64) (n : Nat) : Decidable (Untouched written a n) :=
  inferInstanceAs (Decidable (∀ w ∈ written, ∀ k < n, ¬ w.store.Covers (a + BitVec.ofNat 64 k)))

/-- The header, the section headers, the entries of relocations and the strings are not written
over, and of the symbols in `S` only the values, by their own entries. -/
structure TablesKept (elf : ElfFile) (e_shoff : U64) (S : Set (Nat × Nat))
    (written : List Written) : Prop where
  header : Untouched written elf.fileContent 64
  sections : Untouched written (elf.fileContent + e_shoff) (64 * elf.getNrOfSections)
  contents : ∀ j < elf.getNrOfSections,
    (elf.shdr j).sh_type = SHT_RELA ∨ (elf.shdr j).sh_type = SHT_STRTAB →
    Untouched written (elf.fileContent + (elf.shdr j).sh_offset) (elf.shdr j).sh_size.toNat
  symbols : ∀ symindex i, (symindex, i) ∈ S →
    Untouched (written.filter fun w => w.owner ≠ some (symindex, i))
      (elf.symAddress symindex i) 24

variable {elf : ElfFile} {ctx : LoadContext} {e_shoff : U64} {S : Set (Nat × Nat)}

theorem Untouched.of_subset {written written' : List Written} {a : U64} {n : Nat}
    (h : Untouched written' a n) (hsub : ∀ w ∈ written, w ∈ written') : Untouched written a n :=
  fun w hw => h w (hsub w hw)

/-- Fewer writes reach less. -/
theorem TablesKept.of_subset {written written' : List Written}
    (h : TablesKept elf e_shoff S written') (hsub : ∀ w ∈ written, w ∈ written') :
    TablesKept elf e_shoff S written where
  header := h.header.of_subset hsub
  sections := h.sections.of_subset hsub
  contents := fun j hj htype => (h.contents j hj htype).of_subset hsub
  symbols := by
    intro symindex i hi
    refine (h.symbols symindex i hi).of_subset fun w hw => ?_
    obtain ⟨hmem, howner⟩ := List.mem_filter.mp hw
    exact List.mem_filter.mpr ⟨hsub w hmem, howner⟩

/-- The condition on a state of the file. -/
def FileState.Kept (elf : ElfFile) (e_shoff : U64) (S : Set (Nat × Nat)) (file : FileState) :
    Prop :=
  TablesKept elf e_shoff S file.written

theorem FileState.Kept.of_write {file : FileState} {owner : Option (Nat × Nat)} {store : Store}
    (h : (file.write owner store).Kept elf e_shoff S) : file.Kept elf e_shoff S :=
  TablesKept.of_subset h fun _ => List.mem_append_left _

/-- A write reaches no value of another symbol. -/
theorem FileState.Kept.not_covers {file : FileState} {owner : Option (Nat × Nat)} {store : Store}
    (h : (file.write owner store).Kept elf e_shoff S) {symindex i : Nat} (hi : (symindex, i) ∈ S)
    (howner : owner ≠ some (symindex, i)) {k : Nat} (hk : k < 8) :
    ¬ store.Covers (elf.valueAddress symindex i + BitVec.ofNat 64 k) := by
  have hmem : (⟨owner, store⟩ : Written) ∈ (file.write owner store).written.filter
      fun w => w.owner ≠ some (symindex, i) :=
    List.mem_filter.mpr ⟨List.mem_append_right _ (List.mem_singleton_self _), by simpa using howner⟩
  have hbyte := TablesKept.symbols h symindex i hi _ hmem (8 + k) (by omega)
  have haddress : elf.symAddress symindex i + BitVec.ofNat 64 (8 + k) =
      elf.valueAddress symindex i + BitVec.ofNat 64 k := by
    rw [BitVec.ofNat_add, ← BitVec.add_assoc]
    rfl
  rwa [haddress] at hbyte

/-! ## The file content and the tables beside it -/

/-- The byte is no part of the value of a symbol in `S`. -/
def BesideValues (elf : ElfFile) (S : Set (Nat × Nat)) (a : U64) : Prop :=
  ∀ symindex i, (symindex, i) ∈ S → 8 ≤ (a - elf.valueAddress symindex i).toNat

/-- The values of the symbols in `S` are those beside the memory, which is the same elsewhere. -/
structure Agrees (elf : ElfFile) (S : Set (Nat × Nat)) (file : FileState) (host : HostState) :
    Prop where
  vals : file.vals = host.vals
  st_value : ∀ symindex i, (symindex, i) ∈ S →
    elf.st_value file.mem symindex i = host.st_value symindex i
  mem : ∀ a, BesideValues elf S a → file.mem a = host.mem a

structure RelaAgrees (elf : ElfFile) (S : Set (Nat × Nat)) (s : FileRelaState) (s' : RelaState) :
    Prop where
  state : Agrees elf S s.file s'.host
  targetSection : s.targetSection = s'.targetSection
  symRelSectionInfo : s.symRelSectionInfo = s'.symRelSectionInfo

theorem Agrees.start (mem : Memory) :
    Agrees elf S (FileState.start mem) ⟨mem, elf.st_value mem, []⟩ where
  vals := rfl
  st_value := fun _ _ _ => rfl
  mem := fun _ _ => rfl

variable {file : FileState} {host : HostState} {symindex : Nat} {rel : Elf64_Rela} {value : U64}

/-- The value of a symbol is written to its place. -/
theorem Agrees.relocated (h : Agrees elf S file host) (hS : (symindex, rel.symbol) ∈ S)
    (hkept : (file.relocated elf symindex rel value).Kept elf e_shoff S) :
    Agrees elf S (file.relocated elf symindex rel value)
      (host.relocated symindex rel value host.mem) where
  vals := by
    show file.vals ++ _ = host.vals ++ _
    rw [h.vals]
  st_value := by
    intro table i hi
    by_cases hown : (table, i) = (symindex, rel.symbol)
    · cases hown
      rw [HostState.relocated_self]
      exact loadU64_apply rfl file.mem
    · have hkept : (file.write (some (symindex, rel.symbol))
          ⟨elf.valueAddress symindex rel.symbol, 8, value⟩).Kept elf e_shoff S := hkept
      have hother : elf.st_value (file.relocated elf symindex rel value).mem table i =
          elf.st_value file.mem table i :=
        loadU64_congr fun k hk => Store.apply_of_not_covers
          (hkept.not_covers hi (fun heq => hown (Option.some.inj heq).symm) hk) _
      rw [hother, h.st_value table i hi]
      by_cases htable : table = symindex
      · subst htable
        have hsymbol : i ≠ rel.symbol := fun heq => hown (by rw [heq])
        rw [HostState.relocated_other_symbol hsymbol]
      · rw [HostState.relocated_other_table htable]
  mem := by
    intro a ha
    have hslot := ha symindex rel.symbol hS
    exact (Store.apply_of_not_covers (Nat.not_lt.mpr hslot) file.mem).trans (h.mem a ha)

/-- A patch is written. -/
theorem Agrees.patched (h : Agrees elf S file host) {store : Store}
    (hkept : (file.write none store).Kept elf e_shoff S) :
    Agrees elf S (file.write none store) { host with mem := store.apply host.mem } where
  vals := h.vals
  st_value := by
    intro table i hi
    have hsame : elf.st_value (file.write none store).mem table i = elf.st_value file.mem table i :=
      loadU64_congr fun k hk => Store.apply_of_not_covers
        (hkept.not_covers hi (fun heq => nomatch heq) hk) _
    rw [hsame]
    exact h.st_value table i hi
  mem := by
    intro a ha
    show store.apply file.mem a = store.apply host.mem a
    by_cases hcovers : store.Covers a
    · rw [Store.apply_of_covers hcovers, Store.apply_of_covers hcovers]
    · rw [Store.apply_of_not_covers hcovers, Store.apply_of_not_covers hcovers]
      exact h.mem a ha

/-! ## The runs side by side -/

section

variable {rs : RelaSection} {s : FileRelaState} {s' : RelaState}

/-- An entry reads the value of its own symbol only. -/
theorem resolveRela_of_agrees (h : RelaAgrees elf S s s') (hS : (rs.symindex, rel.symbol) ∈ S) :
    resolveRela elf ctx rs (s.tables elf) rel = resolveRela elf ctx rs s' rel := by
  have hvalue : (s.tables elf).host.st_value rs.symindex rel.symbol =
      s'.host.st_value rs.symindex rel.symbol := h.state.st_value _ _ hS
  have htarget : (s.tables elf).targetSection = s'.targetSection := h.targetSection
  have hcache : (s.tables elf).symRelSectionInfo = s'.symRelSectionInfo := h.symRelSectionInfo
  unfold resolveRela
  rw [hvalue, htarget, hcache]

/-- One round. -/
theorem follows_applyRela (h : RelaAgrees elf S s s') (hS : (rs.symindex, rel.symbol) ∈ S) :
    Follows FileRelaState.file (FileState.Kept elf e_shoff S) (Agrees elf S) (RelaAgrees elf S)
      (InPlace.applyRela elf ctx rs s rel) (applyRela elf ctx rs s' rel) := by
  unfold InPlace.applyRela applyRela
  rw [resolveRela_of_agrees h hS, h.targetSection]
  cases resolveRela elf ctx rs s' rel with
  | error e => exact .error fun _ => h.state
  | ok resolved =>
      obtain ⟨targetSection, locInElf, symRelSectionInfo, st_value⟩ := resolved
      dsimp only
      cases relaStore rs symRelSectionInfo rel.type st_value (st_value + rel.r_addend) locInElf
          (s'.targetSection.memindex + rel.r_offset) with
      | error e => exact .error fun hkept => h.state.relocated hS hkept
      | ok store =>
          refine .ok fun hkept => ⟨?_, rfl, rfl⟩
          exact (h.state.relocated hS (FileState.Kept.of_write hkept)).patched hkept

theorem kept_of_applyRela
    (h : (stoppedAt FileRelaState.file (InPlace.applyRela elf ctx rs s rel)).Kept elf e_shoff S) :
    s.file.Kept elf e_shoff S := by
  unfold InPlace.applyRela at h
  split at h
  · exact h
  · dsimp only at h
    split at h
    · exact FileState.Kept.of_write h
    · exact FileState.Kept.of_write (FileState.Kept.of_write h)

end

theorem symindex_of_relaSection {relSectionID : Nat} {rs : RelaSection}
    {targetSection : SectionInfo} (h : relaSection elf ctx relSectionID = .ok (rs, targetSection)) :
    rs.symindex = (elf.shdr relSectionID).sh_link.toNat := by
  unfold relaSection at h
  dsimp only at h
  split at h
  · cases h
  · obtain ⟨_, -, h⟩ := exists_of_bind_ok h
    obtain ⟨_, -, h⟩ := exists_of_bind_ok h
    obtain ⟨_, -, h⟩ := exists_of_bind_ok h
    cases ctx with
    | kernelModule currentModule getSymbolAddress =>
        obtain ⟨_, -, h⟩ := exists_of_bind_ok h
        cases h
        rfl
    | userspace getSymbolAddress =>
        cases h
        rfl

/-- **The entries of a section** are applied in the file content as they are beside it. -/
theorem follows_applyRelaOnSection {relSectionID : Nat} {entries : List Elf64_Rela}
    (h : Agrees elf S file host)
    (hS : ∀ rel ∈ entries, ((elf.shdr relSectionID).sh_link.toNat, rel.symbol) ∈ S) :
    Follows id (FileState.Kept elf e_shoff S) (Agrees elf S) (Agrees elf S)
      (InPlace.applyRelaOnSection elf ctx relSectionID entries file)
      (applyRelaOnSection elf ctx relSectionID entries host) := by
  unfold InPlace.applyRelaOnSection applyRelaOnSection
  cases hsection : relaSection elf ctx relSectionID with
  | error e => exact .error fun _ => h
  | ok found =>
      obtain ⟨rs, targetSection⟩ := found
      have hsymindex := symindex_of_relaSection hsection
      have hloop := Follows.foldlM (p := FileRelaState.file)
        (K := FileState.Kept elf e_shoff S) (R := Agrees elf S) (Q := RelaAgrees elf S)
        (f := InPlace.applyRela elf ctx rs) (g := applyRela elf ctx rs) (l := entries)
        (a := ⟨file, targetSection, SectionInfo.empty⟩)
        (b := ⟨host, targetSection, SectionInfo.empty⟩) ⟨h, rfl, rfl⟩
        (fun rel hrel s s' hs => follows_applyRela hs (hsymindex ▸ hS rel hrel))
        (fun rel _ s hkept => kept_of_applyRela hkept)
      exact hloop.bind (fun s s' hs => .ok fun _ => hs.state) fun s hkept => hkept

/-- The entries of one section, in a file as it is at first. -/
theorem agrees_of_section {relSectionID : Nat} {entries : List Elf64_Rela} {mem : Memory}
    (hS : ∀ rel ∈ entries, ((elf.shdr relSectionID).sh_link.toNat, rel.symbol) ∈ S)
    (hkept : TablesKept elf e_shoff S (InPlace.finalFile
      (InPlace.applyRelaOnSection elf ctx relSectionID entries (.start mem))).written) :
    EndsAlike (Agrees elf S) (Agrees elf S)
      (InPlace.applyRelaOnSection elf ctx relSectionID entries (.start mem))
      (applyRelaOnSection elf ctx relSectionID entries ⟨mem, elf.st_value mem, []⟩) :=
  follows_applyRelaOnSection (.start mem) hS hkept

theorem kept_of_applyRelaOnSection {relSectionID : Nat} {entries : List Elf64_Rela}
    (h : (stoppedAt id (InPlace.applyRelaOnSection elf ctx relSectionID entries file)).Kept
      elf e_shoff S) : file.Kept elf e_shoff S := by
  unfold InPlace.applyRelaOnSection at h
  split at h
  · exact h
  · rename_i rs targetSection _
    refine Follows.back_of_foldlM (p := FileRelaState.file) (K := FileState.Kept elf e_shoff S)
      (f := InPlace.applyRela elf ctx rs) (l := entries)
      (fun rel _ s hkept => kept_of_applyRela hkept) ⟨file, targetSection, SectionInfo.empty⟩ ?_
    cases hrun : entries.foldlM (InPlace.applyRela elf ctx rs)
        ⟨file, targetSection, SectionInfo.empty⟩ with
    | ok s =>
        rw [hrun] at h
        exact h
    | error stop =>
        rw [hrun] at h
        exact h

theorem follows_relocateSection {j : Nat} (hj : j < elf.getNrOfSections)
    (h : Agrees elf S file host)
    (hS : ∀ symindex i, elf.Referenced symindex i → (symindex, i) ∈ S) :
    Follows id (FileState.Kept elf e_shoff S) (Agrees elf S) (Agrees elf S)
      (InPlace.relocateSection elf ctx file j) (relocateSection elf ctx host j) := by
  unfold InPlace.relocateSection relocateSection
  dsimp only
  split
  · exact .ok fun _ => h
  rename_i hinfo
  split
  · exact .ok fun _ => h
  rename_i halloc
  split
  · exact .error fun _ => h
  split
  · rename_i hrela
    exact follows_applyRelaOnSection h fun rel hrel =>
      hS _ _ ⟨j, hj, Nat.not_le.mp hinfo, halloc, hrela, rfl, rel, hrel, rfl⟩
  · exact .ok fun _ => h

theorem kept_of_relocateSection {j : Nat}
    (h : (stoppedAt id (InPlace.relocateSection elf ctx file j)).Kept elf e_shoff S) :
    file.Kept elf e_shoff S := by
  unfold InPlace.relocateSection at h
  dsimp only at h
  split at h
  · exact h
  split at h
  · exact h
  split at h
  · exact h
  split at h
  · exact kept_of_applyRelaOnSection h
  · exact h

/-- **In the file content and beside it relocations do the same**, as long as the tables of the file
are kept: they end in the same way, have computed the same values, and leave the symbols and the
rest of the memory alike. -/
theorem agrees_of_tablesKept (elf : ElfFile) (ctx : LoadContext) (mem : Memory)
    (hS : ∀ symindex i, elf.Referenced symindex i → (symindex, i) ∈ S)
    (hkept : TablesKept elf e_shoff S
      (InPlace.finalFile (InPlace.applyRelocations elf ctx (.start mem))).written) :
    EndsAlike (Agrees elf S) (Agrees elf S) (InPlace.applyRelocations elf ctx (.start mem))
      (applyRelocations elf ctx ⟨mem, elf.st_value mem, []⟩) := by
  have hfollows : Follows id (FileState.Kept elf e_shoff S) (Agrees elf S) (Agrees elf S)
      (InPlace.applyRelocations elf ctx (.start mem))
      (applyRelocations elf ctx ⟨mem, elf.st_value mem, []⟩) := by
    unfold InPlace.applyRelocations applyRelocations
    split
    · exact Follows.foldlM (.start mem)
        (fun j hj file host h => follows_relocateSection (List.mem_range.mp hj) h hS)
        (fun j _ file h => kept_of_relocateSection h)
    · exact .ok fun _ => .start mem
  exact hfollows hkept

/-- The states in which they end. -/
theorem Agrees.of_endsAlike {x : Except (FileState × ElfError) FileState}
    {y : Except (HostState × ElfError) HostState}
    (h : EndsAlike (Agrees elf S) (Agrees elf S) x y) :
    Agrees elf S (InPlace.finalFile x) (finalHost y) := by
  cases x with
  | ok file =>
      cases y with
      | ok host => exact h
      | error stop => exact h.elim
  | error stop =>
      cases y with
      | ok host => exact h.elim
      | error stop' => exact h.2

end KernInt
