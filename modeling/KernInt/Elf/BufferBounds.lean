import KernInt.Elf.ElfBytes

set_option autoImplicit false

/-! # Where the reads of an ELF file go

No read of the constructor or of the functions that collect dependencies and symbols is guarded by
the size of the buffer, so all of them are inside exactly if each header, name, entry and symbol
that the functions come to is (`readsInside_iff_tables`). Each function has its condition, and it
is put together from those of its reads (`Checked`).
-/

namespace KernInt

open Lib

namespace ElfBytes

variable {f : ElfBytes}

/-! ## Single reads -/

theorem checked_get {α : Type} (a : U64) (n : Nat) (value : α) :
    Checked ReadStop.Bad (f.get a n value) (f.Inside a n) value := by
  constructor
  · intro h
    exact if_pos h
  · intro h
    exact ⟨.outside, if_neg h, trivial⟩

theorem checked_read8 (a : U64) : Checked ReadStop.Bad (f.read8 a) (f.Inside a 1) (f.u8 a) :=
  checked_get a 1 _

theorem checked_read16 (a : U64) : Checked ReadStop.Bad (f.read16 a) (f.Inside a 2) (f.u16 a) :=
  checked_get a 2 _

theorem checked_read32 (a : U64) : Checked ReadStop.Bad (f.read32 a) (f.Inside a 4) (f.u32 a) :=
  checked_get a 4 _

theorem checked_read64 (a : U64) : Checked ReadStop.Bad (f.read64 a) (f.Inside a 8) (f.u64 a) :=
  checked_get a 8 _

/-- An address behind one in the buffer. -/
theorem toNat_succ {a : U64} {b : Byte} (h : f.reader a = some b) :
    (a + 1).toNat = a.toNat + 1 := by
  obtain ⟨hlt, -⟩ := List.getElem?_eq_some_iff.mp h
  have hfits := f.fits
  exact toNat_add_ofNat (k := 1) (by omega)

theorem bytesWhile_isSome_iff (fuel : Nat) (a : U64) :
    (bytesWhile f.reader (· != 0) fuel a).isSome ↔
      ∃ k, a.toNat ≤ k ∧ k < a.toNat + fuel ∧ f.content[k]? = some 0 := by
  induction fuel generalizing a with
  | zero =>
      simp only [bytesWhile, Option.isSome_none, Bool.false_eq_true, false_iff]
      rintro ⟨k, hle, hlt, -⟩
      omega
  | succ fuel ih =>
      cases hread : f.reader a with
      | none =>
          -- the buffer has ended
          simp only [bytesWhile, hread, Option.isSome_none, Bool.false_eq_true, false_iff]
          rintro ⟨k, hle, -, hk⟩
          have hend := List.getElem?_eq_none_iff.mp hread
          obtain ⟨hlt, -⟩ := List.getElem?_eq_some_iff.mp hk
          omega
      | some b =>
          have hnext := ih (a + 1)
          rw [toNat_succ hread] at hnext
          by_cases hb : b = 0
          · subst hb
            simp only [bytesWhile, hread, bne_self_eq_false, Bool.false_eq_true, if_false,
              Option.isSome_some, true_iff]
            exact ⟨a.toNat, le_refl _, by omega, hread⟩
          · simp only [bytesWhile, hread, bne_iff_ne.mpr hb, if_true, Option.isSome_map, hnext]
            constructor
            · rintro ⟨k, hle, hlt, hk⟩
              exact ⟨k, by omega, by omega, hk⟩
            · rintro ⟨k, hle, hlt, hk⟩
              -- the byte at `a` is not the NUL
              have hne : k ≠ a.toNat := by
                rintro rfl
                exact hb (Option.some.inj (hread.symm.trans hk))
              exact ⟨k, by omega, by omega, hk⟩

theorem stringBytes_isSome_iff (a : U64) : (f.stringBytes a).isSome ↔ f.Terminated a := by
  rw [stringBytes, bytesWhile_isSome_iff]
  constructor
  · rintro ⟨k, hle, -, hk⟩
    exact ⟨k, hle, hk⟩
  · rintro ⟨k, hle, hk⟩
    obtain ⟨hlt, -⟩ := List.getElem?_eq_some_iff.mp hk
    exact ⟨k, hle, by rw [size]; omega, hk⟩

instance (a : U64) : Decidable (f.Terminated a) :=
  decidable_of_iff _ (stringBytes_isSome_iff a)

theorem checked_readString (a : U64) :
    Checked ReadStop.Bad (f.readString a) (f.Terminated a) (f.string a) := by
  rw [← stringBytes_isSome_iff, readString, string]
  cases f.stringBytes a with
  | none => exact ⟨fun h => Bool.noConfusion h, fun _ => ⟨.outside, rfl, trivial⟩⟩
  | some s => exact (Checked.pure s).congr (by simp)

end ElfBytes

/-! ## The headers -/

namespace ElfBytes

variable (f : ElfBytes)

/-- The address of the name of a section. -/
def nameAt (i : Nat) : U64 :=
  f.u64 (shdrAt f.e_shoff f.e_shstrndx + 24) + (f.u32 (shdrAt f.e_shoff i)).setWidth 64

/-- What is read of a section header, and the name, is in the buffer. -/
@[mk_iff] structure SectionInside (i : Nat) : Prop where
  strtab : f.Inside (shdrAt f.e_shoff f.e_shstrndx + 24) 8
  sh_name : f.Inside (shdrAt f.e_shoff i) 4
  name : f.Terminated (f.nameAt i)
  sh_offset : f.Inside (shdrAt f.e_shoff i + 24) 8
  sh_addr : f.Inside (shdrAt f.e_shoff i + 16) 8
  sh_size : f.Inside (shdrAt f.e_shoff i + 32) 8
  sh_flags : f.Inside (shdrAt f.e_shoff i + 8) 8

instance (i : Nat) : Decidable (f.SectionInside i) :=
  decidable_of_iff _ (sectionInside_iff f i).symm

/-- The type of a program header, and the header of a segment that is loaded. -/
def SegmentInside (i : Nat) : Prop :=
  f.Inside (phdrAt f.e_phoff i) 4 ∧
    (f.u32 (phdrAt f.e_phoff i) = PT_LOAD → f.Inside (phdrAt f.e_phoff i) 56)

instance (i : Nat) : Decidable (f.SegmentInside i) := inferInstanceAs (Decidable (_ ∧ _))

/-- All that the constructor reads. -/
structure HeadersInside : Prop where
  header : 64 ≤ f.size
  sections : ∀ i < f.e_shnum, f.SectionInside i
  segments : ∀ i < f.e_phnum, f.SegmentInside i

def sectionAt (i : Nat) : SectionInfo where
  name := nameText (f.string (f.nameAt i))
  secID := BitVec.ofNat 32 i
  offset := f.u64 (shdrAt f.e_shoff i + 24)
  index := f.u64 (shdrAt f.e_shoff i + 24)
  memindex := f.u64 (shdrAt f.e_shoff i + 16)
  size := f.u64 (shdrAt f.e_shoff i + 32)
  flags := f.u64 (shdrAt f.e_shoff i + 8)

def segmentAt (i : Nat) : Option SegmentInfo :=
  if f.u32 (phdrAt f.e_phoff i) = PT_LOAD then some (f.segmentInfo (phdrAt f.e_phoff i)) else none

/-- The file as its header tables describe it. -/
def image : ElfImage where
  e_shoff := f.e_shoff
  sections := (List.range f.e_shnum).map f.sectionAt
  segments := ((List.range f.e_phnum).map f.segmentAt).reduceOption

variable {f}

theorem checked_readSection (i : Nat) :
    Checked ReadStop.Bad (f.readSection f.e_shoff f.e_shstrndx i) (f.SectionInside i)
      (f.sectionAt i) := by
  have hname : Checked ReadStop.Bad (f.sectionName f.e_shoff f.e_shstrndx i) _
      (f.string (f.nameAt i)) :=
    (checked_read64 _).bind ((checked_read32 _).bind (checked_readString _))
  have hsection : Checked ReadStop.Bad (f.readSection f.e_shoff f.e_shstrndx i) _ (f.sectionAt i) :=
    hname.bind <| (checked_read64 _).bind <| (checked_read64 _).bind <|
      (checked_read64 _).bind <| (checked_read64 _).bind (Checked.pure _)
  apply hsection.congr
  rw [sectionInside_iff]
  simp only [nameAt, and_assoc, and_true]

theorem checked_readSegment (i : Nat) :
    Checked ReadStop.Bad (f.readSegment f.e_phoff i) (f.SegmentInside i) (f.segmentAt i) := by
  have hsegment : Checked ReadStop.Bad (f.readSegment f.e_phoff i) _ (f.segmentAt i) :=
    (checked_read32 _).bind (Checked.ite ((checked_get _ 56 _).bind (Checked.pure _))
      (Checked.pure _))
  apply hsegment.congr
  simp only [SegmentInside, and_true, if_true_right]

theorem checked_construct : Checked ReadStop.Bad f.construct f.HeadersInside f.image := by
  have hsections := Checked.mapM fun i (_ : i ∈ List.range f.e_shnum) =>
    checked_readSection (f := f) i
  have hsegments := Checked.mapM fun i (_ : i ∈ List.range f.e_phnum) =>
    checked_readSegment (f := f) i
  have hconstruct : Checked ReadStop.Bad f.construct _ f.image :=
    (checked_read64 _).bind <| (checked_read64 _).bind <| (checked_read16 _).bind <|
      (checked_read16 _).bind <| hsections.bind <| (checked_read16 _).bind <|
        hsegments.bind (Checked.pure _)
  apply hconstruct.congr
  simp only [List.mem_range, and_true]
  constructor
  · rintro ⟨-, -, hheader, -, hsections, -, hsegments⟩
    exact ⟨hheader, hsections, hsegments⟩
  · rintro ⟨hheader, hsections, hsegments⟩
    -- the fields of the header are in front of its end
    have hfield : ∀ (a : U64) n, a.toNat + n ≤ 64 → f.Inside a n :=
      fun a n ha => le_trans ha hheader
    exact ⟨hfield _ 8 (by decide), hfield _ 8 (by decide), hfield _ 2 (by decide),
      hfield _ 2 (by decide), hsections, hfield _ 2 (by decide), hsegments⟩

end ElfBytes

/-! ## The entries of `.dynamic` -/

/-- The address of an entry. -/
def dynAt (entry : U64) (k : Nat) : U64 := entry + BitVec.ofNat 64 (16 * k)

theorem dynAt_zero (entry : U64) : dynAt entry 0 = entry := BitVec.add_zero entry

theorem dynAt_succ (entry : U64) (k : Nat) : dynAt entry (k + 1) = dynAt (entry + 16) k := by
  rw [dynAt, dynAt, BitVec.add_assoc, Nat.mul_add, Nat.add_comm, BitVec.ofNat_add]
  rfl

namespace ElfBytes

/-- There is an entry that ends the walk before the counter overflows, it and the ones in front of
it are in the buffer, and what is visited of those in front of it is. -/
def WalkEnds (f : ElfBytes) (ends : U64 → Prop) (visited : U64 → U64 → Prop) (left : Nat)
    (entry : U64) : Prop :=
  ∃ j < left, ends (f.u64 (dynAt entry j)) ∧ (∀ k ≤ j, f.Inside (dynAt entry k) 8) ∧
    ∀ k < j, visited (f.u64 (dynAt entry k)) (dynAt entry k)

variable {f : ElfBytes}

theorem walkEnds_succ_iff {ends : U64 → Prop} {visited : U64 → U64 → Prop} {left : Nat}
    {entry : U64} :
    f.WalkEnds ends visited (left + 1) entry ↔
      f.Inside entry 8 ∧ (ends (f.u64 entry) ∨
        visited (f.u64 entry) entry ∧ f.WalkEnds ends visited left (entry + 16)) := by
  constructor
  · rintro ⟨j, hj, hends, hinside, hvisited⟩
    have hentry := hinside 0 (Nat.zero_le j)
    rw [dynAt_zero] at hentry
    refine ⟨hentry, ?_⟩
    -- the walk ends here, or the entry is one of those in front of the end
    cases j with
    | zero => exact .inl (by rwa [dynAt_zero] at hends)
    | succ j =>
        have hfirst := hvisited 0 (Nat.succ_pos j)
        rw [dynAt_zero] at hfirst
        refine .inr ⟨hfirst, j, Nat.lt_of_succ_lt_succ hj, dynAt_succ entry j ▸ hends, ?_, ?_⟩
        · intro k hk
          exact dynAt_succ entry k ▸ hinside (k + 1) (Nat.succ_le_succ hk)
        · intro k hk
          exact dynAt_succ entry k ▸ hvisited (k + 1) (Nat.succ_lt_succ hk)
  · rintro ⟨hentry, hends | ⟨hfirst, j, hj, hends, hinside, hvisited⟩⟩
    · refine ⟨0, Nat.succ_pos left, by rwa [dynAt_zero], ?_, by simp⟩
      intro k hk
      rwa [Nat.le_zero.mp hk, dynAt_zero]
    · refine ⟨j + 1, Nat.succ_lt_succ hj, by rwa [dynAt_succ], ?_, ?_⟩
      · intro k hk
        cases k with
        | zero => rwa [dynAt_zero]
        | succ k => rw [dynAt_succ]; exact hinside k (Nat.le_of_succ_le_succ hk)
      · intro k hk
        cases k with
        | zero => rwa [dynAt_zero]
        | succ k => rw [dynAt_succ]; exact hvisited k (Nat.lt_of_succ_lt_succ hk)

/-- The walk stays inside exactly if it comes to its end inside. `visit` leaves at some tags, and
otherwise goes on behind the reads of the entry. -/
theorem tame_walkDynamic_iff {σ ρ : Type} {visit : U64 → U64 → σ → Except ReadStop (Round σ ρ)}
    {atEnd : σ → ρ} {leaves : U64 → Prop} {visited : U64 → U64 → Prop}
    (hleave : ∀ tag entry s, leaves tag → ∃ r, visit tag entry s = .ok (.leave r))
    (hgo : ∀ tag entry s, ¬ leaves tag →
      ∃ s', Checked ReadStop.Bad (visit tag entry s) (visited tag entry) (.again s'))
    (left : Nat) (entry : U64) (s : σ) :
    Tame ReadStop.Bad (f.walkDynamic visit atEnd left entry s) ↔
      f.WalkEnds (fun tag => tag = DT_NULL ∨ leaves tag) visited left entry := by
  induction left generalizing entry s with
  | zero =>
      -- the counter has overflowed
      rw [walkDynamic, tame_error_iff]
      refine iff_of_false (fun h => h trivial) ?_
      rintro ⟨j, hj, -⟩
      exact absurd hj (Nat.not_lt_zero j)
  | succ left ih =>
      rw [walkDynamic, (checked_read64 entry).tame_bind_iff, walkEnds_succ_iff]
      apply and_congr_right
      rintro -
      by_cases hnull : f.u64 entry = DT_NULL
      · rw [if_pos hnull]
        exact iff_of_true (tame_ok _) (.inl (.inl hnull))
      · rw [if_neg hnull]
        by_cases hleaves : leaves (f.u64 entry)
        · obtain ⟨r, hr⟩ := hleave (f.u64 entry) entry s hleaves
          rw [hr]
          exact iff_of_true (tame_ok r) (.inl (.inr hleaves))
        · obtain ⟨s', hs'⟩ := hgo (f.u64 entry) entry s hleaves
          have hnot : ¬ (f.u64 entry = DT_NULL ∨ leaves (f.u64 entry)) := by tauto
          rw [hs'.tame_bind_iff, or_iff_right hnot]
          exact and_congr_right fun _ => ih (entry + 16) s'

/-- The name of a dependency is terminated in the buffer. -/
def NeededInside (f : ElfBytes) (strtab tag entry : U64) : Prop :=
  tag = DT_NEEDED → f.Inside (entry + 8) 8 ∧ f.Terminated (strtab + f.u64 (entry + 8))

instance (strtab tag entry : U64) : Decidable (f.NeededInside strtab tag entry) :=
  inferInstanceAs (Decidable (_ → _))

theorem checked_visitNeeded (strtab tag entry : U64) (dependencies : List StdString) :
    ∃ dependencies', Checked ReadStop.Bad (f.visitNeeded strtab tag entry dependencies)
      (f.NeededInside strtab tag entry) (.again dependencies') := by
  by_cases htag : tag = DT_NEEDED
  · let name := f.string (strtab + f.u64 (entry + 8))
    have hpush : Checked ReadStop.Bad
        (.ok (.again (dependencies ++ [name])) : Except ReadStop (Round _ (List StdString))) True
        (.again (dependencies ++ [name])) := Checked.pure _
    refine ⟨dependencies ++ [name], ?_⟩
    rw [visitNeeded, if_pos htag]
    exact ((checked_read64 _).bind ((checked_readString _).bind hpush)).congr
      (by simp [NeededInside, htag])
  · refine ⟨dependencies, ?_⟩
    rw [visitNeeded, if_neg htag]
    exact (Checked.pure _).congr (by simp [NeededInside, htag])

theorem tame_walkNeeded_iff (strtab : U64) (left : Nat) (entry : U64)
    (dependencies : List StdString) :
    Tame ReadStop.Bad (f.walkDynamic (f.visitNeeded strtab) id left entry dependencies) ↔
      f.WalkEnds (· = DT_NULL) (f.NeededInside strtab) left entry := by
  -- no entry makes this loop leave
  have hleave : ∀ (tag entry : U64) (s : List StdString), False →
      ∃ r, f.visitNeeded strtab tag entry s = .ok (.leave r) := by simp
  rw [tame_walkDynamic_iff hleave fun tag entry s _ => checked_visitNeeded strtab tag entry s]
  simp only [or_false]

/-! ## The sections of the functions -/

/-- The files with a section `.dynamic` and a table of symbols. -/
def HasDynamic (f : ElfBytes) : Prop := isDynamicOrExecutable f.e_type = true

/-- The section of this name that the program finds. -/
def SectionNamed (f : ElfBytes) (name : String) (sI : SectionInfo) : Prop :=
  f.image.findSectionWithName name = .ok sI

instance (name : String) (sI : SectionInfo) : Decidable (f.SectionNamed name sI) :=
  inferInstanceAs (Decidable (_ = _))

theorem SectionNamed.eq {name : String} {sI sI' : SectionInfo} (h : f.SectionNamed name sI)
    (h' : f.SectionNamed name sI') : sI = sI' :=
  Except.ok.inj (h.symm.trans h')

theorem tame_findSection_bind_iff {α : Type} (image : ElfImage) (name : String)
    (g : SectionInfo → Except ReadStop α) :
    Tame ReadStop.Bad (image.findSectionWithName name >>= g) ↔
      ∀ sI, image.findSectionWithName name = .ok sI → Tame ReadStop.Bad (g sI) := by
  rw [ElfImage.findSectionWithName]
  cases image.sections.find? fun sI => sI.name = name with
  | none => exact iff_of_true (fun h => h) (by simp)
  | some sI => exact ⟨fun h sI' heq => by cases heq; exact h, fun h => h sI rfl⟩

/-- The part of a function that is only done for dynamic libraries and executables. -/
theorem tame_ifDynamic_iff {α : Type} (hheader : 64 ≤ f.size) (x : Except ReadStop α) (a : α) :
    Tame ReadStop.Bad (do
        let e_type ← f.read16 0x10
        if isDynamicOrExecutable e_type then x else return a) ↔
      (f.HasDynamic → Tame ReadStop.Bad x) := by
  have hinside : f.Inside 0x10 2 := le_trans (by decide) hheader
  rw [(checked_read16 0x10).tame_bind_iff, and_iff_right hinside]
  by_cases htype : f.HasDynamic
  · have hif : isDynamicOrExecutable (f.u16 0x10) = true := htype
    rw [if_pos hif, forall_prop_of_true htype]
  · have hif : ¬ isDynamicOrExecutable (f.u16 0x10) = true := htype
    rw [if_neg hif]
    exact iff_of_true (tame_ok a) fun h => absurd h htype

/-- All that `getDependencies` reads. -/
def DependenciesInside (f : ElfBytes) : Prop :=
  f.HasDynamic → ∀ dynamic dynstr, f.SectionNamed ".dynamic" dynamic →
    f.SectionNamed ".dynstr" dynstr →
      f.WalkEnds (· = DT_NULL) (f.NeededInside dynstr.index) (2 ^ 31) dynamic.index

theorem tame_getDependencies_iff (hheader : 64 ≤ f.size) :
    Tame ReadStop.Bad (f.getDependencies f.image) ↔ f.DependenciesInside := by
  rw [getDependencies, tame_ifDynamic_iff hheader, DependenciesInside]
  apply imp_congr_right
  rintro -
  rw [tame_findSection_bind_iff]
  constructor
  · intro h dynamic dynstr hdynamic hdynstr
    have hwalk := (tame_findSection_bind_iff _ _ _).mp (h dynamic hdynamic) dynstr hdynstr
    exact (tame_walkNeeded_iff _ _ _ _).mp hwalk
  · intro h dynamic hdynamic
    rw [tame_findSection_bind_iff]
    intro dynstr hdynstr
    exact (tame_walkNeeded_iff _ _ _ _).mpr (h dynamic dynstr hdynamic hdynstr)

/-- All that `isDynamicLibrary` reads. -/
def LibraryInside (f : ElfBytes) : Prop :=
  f.HasDynamic → ∀ dynamic, f.SectionNamed ".dynamic" dynamic →
    f.WalkEnds (fun tag => tag = DT_NULL ∨ tag = DT_SONAME) (fun _ _ => True) (2 ^ 31)
      dynamic.index

theorem tame_isDynamicLibrary_iff (hheader : 64 ≤ f.size) :
    Tame ReadStop.Bad (f.isDynamicLibrary f.image) ↔ f.LibraryInside := by
  rw [isDynamicLibrary, tame_ifDynamic_iff hheader, LibraryInside]
  apply imp_congr_right
  rintro -
  rw [tame_findSection_bind_iff]
  refine forall_congr' fun dynamic => imp_congr_right fun _ => ?_
  apply tame_walkDynamic_iff
  · intro tag entry s htag
    exact ⟨true, if_pos htag⟩
  · intro tag entry s htag
    refine ⟨(), ?_⟩
    rw [visitSoname, if_neg htag]
    exact Checked.pure _

/-! ## The symbols -/

/-- The address of an entry of a table of symbols. -/
def symAt (symtab : U64) (k : Nat) : U64 := symtab + BitVec.ofNat 64 (24 * k)

/-- What is read of a symbol, and its name, is in the buffer. -/
def EntryInside (f : ElfBytes) (strtab entry : U64) : Prop :=
  let name := strtab + (f.u32 entry).setWidth 64
  f.Inside (entry + 6) 2 ∧
    (f.u16 (entry + 6) ≠ SHN_UNDEF ∧ f.u16 (entry + 6) ≠ SHN_ABS ∧
        f.u16 (entry + 6) ≠ SHN_COMMON →
      f.Inside entry 4 ∧ f.Terminated name ∧
        (f.string name ≠ [] → f.Inside (entry + 8) 8 ∧
          (f.u64 (entry + 8) ≠ 0 → f.Inside (entry + 4) 1)))

instance (strtab entry : U64) : Decidable (f.EntryInside strtab entry) :=
  inferInstanceAs (Decidable (_ ∧ _))

theorem checked_readSymbol (strtab entry : U64) :
    ∃ symbol, Checked ReadStop.Bad (f.readSymbol strtab entry) (f.EntryInside strtab entry)
      symbol := by
  refine ⟨_, Checked.congr ((checked_read16 _).bind (Checked.ite
    ((checked_read32 _).bind ((checked_readString _).bind (Checked.ite (Checked.pure _)
      ((checked_read64 _).bind (Checked.ite (Checked.pure _)
        ((checked_read8 _).bind (Checked.pure _)))))))
    (Checked.pure _))) ?_⟩
  simp only [EntryInside, and_true, if_true_right, if_true_left]

/-- A table whose entries are inside, and which is no longer than the counter can tell. -/
def TableInside (f : ElfBytes) (symtab size strtab : U64) : Prop :=
  (size / 24).toNat < 2 ^ 32 ∧ ∀ k < (size / 24).toNat, f.EntryInside strtab (symAt symtab k)

instance (symtab size strtab : U64) : Decidable (f.TableInside symtab size strtab) :=
  inferInstanceAs (Decidable (_ ∧ _))

theorem tame_readSymbols_iff (symtab size strtab : U64) :
    Tame ReadStop.Bad (f.readSymbols symtab size strtab) ↔ f.TableInside symtab size strtab := by
  choose symbol hsymbol using fun i => checked_readSymbol (f := f) strtab (symAt symtab i)
  have hentries := Checked.mapM fun i (_ : i ∈ List.range (min (size / 24).toNat (2 ^ 32))) =>
    hsymbol i
  have htable : Tame ReadStop.Bad (f.readSymbols symtab size strtab) ↔ _ :=
    hentries.tame_bind_iff _
  rw [htable, TableInside]
  -- the counter of a longer table never comes to its end
  by_cases hlong : 2 ^ 32 ≤ (size / 24).toNat
  · rw [if_pos hlong, tame_error_iff]
    exact iff_of_false (fun h => h.2 trivial) (fun h => Nat.not_lt.mpr hlong h.1)
  · rw [if_neg hlong, Nat.min_eq_left (by omega)]
    have hret : ∀ ret, Tame ReadStop.Bad (pure ret : Except ReadStop (List RawSymbol)) := tame_ok
    simp only [List.mem_range, Nat.not_le.mp hlong, true_and, hret, and_true]

/-- The section header of this index is that of a table of symbols. -/
def IsSymtab (f : ElfBytes) (i : Nat) : Prop := f.u32 (shdrAt f.e_shoff i + 4) = SHT_SYMTAB

instance (f : ElfBytes) (i : Nat) : Decidable (f.IsSymtab i) := inferInstanceAs (Decidable (_ = _))

/-- What the search from a section on goes through is inside: the section, and if it is not the
one that is looked for, what the search goes through behind it. -/
theorem searchInside_succ_iff {found inside : Nat → Prop} {start n : Nat} :
    (∀ i, start ≤ i → i < start + (n + 1) → (∀ j, start ≤ j → j < i → ¬ found j) → inside i) ↔
      inside start ∧ (¬ found start → ∀ i, start + 1 ≤ i → i < start + 1 + n →
        (∀ j, start + 1 ≤ j → j < i → ¬ found j) → inside i) := by
  constructor
  · intro h
    refine ⟨h start (le_refl start) (by omega) (by omega), fun hstart i hle hlt hbefore => ?_⟩
    apply h i (by omega) (by omega)
    intro j hj hji
    rcases Nat.eq_or_lt_of_le hj with rfl | hlater
    · exact hstart
    · exact hbefore j hlater hji
  · rintro ⟨hstart, hrest⟩ i hle hlt hbefore
    rcases Nat.eq_or_lt_of_le hle with rfl | hlater
    · exact hstart
    · exact hrest (hbefore start (le_refl start) hlater) i hlater (by omega) fun j hj =>
        hbefore j (by omega)

/-- The types of the sections up to the first table of symbols are in the buffer. -/
theorem checked_findSymtab (start n : Nat) :
    Checked ReadStop.Bad (f.findSymtab f.image (List.range' start n))
      (∀ i, start ≤ i → i < start + n → (∀ j, start ≤ j → j < i → ¬ f.IsSymtab j) →
        f.Inside (shdrAt f.e_shoff i + 4) 4)
      ((List.range' start n).find? fun i => f.IsSymtab i) := by
  induction n generalizing start with
  | zero => exact (Checked.pure none).congr (by simp; omega)
  | succ n ih =>
      have hhead := checked_read32 (f := f) (shdrAt f.e_shoff start + 4)
      have hfind : (start :: List.range' (start + 1) n).find? (fun i => f.IsSymtab i) =
          if f.IsSymtab start then some start
            else (List.range' (start + 1) n).find? fun i => f.IsSymtab i := by
        by_cases hsym : f.IsSymtab start
        · simp [hsym]
        · simp [hsym]
      rw [List.range'_succ, hfind, searchInside_succ_iff]
      refine (hhead.bind ((Checked.pure (some start)).ite (ih (start + 1)))).congr ?_
      rw [if_true_left]
      rfl

/-- All that `getSymbols` reads. Names are in the section that the table links to; if there is no
such section, nothing more is read. -/
def SymbolsInside (f : ElfBytes) : Prop :=
  f.HasDynamic →
    (∀ i < f.e_shnum, (∀ j < i, ¬ f.IsSymtab j) → f.Inside (shdrAt f.e_shoff i + 4) 4) ∧
    ∀ i, (List.range f.e_shnum).find? (fun i => f.IsSymtab i) = some i →
      f.Inside (shdrAt f.e_shoff i + 40) 4 ∧
        ((f.u32 (shdrAt f.e_shoff i + 40)).toNat < f.e_shnum →
          f.TableInside (f.sectionAt i).index (f.sectionAt i).size
            (f.sectionAt (f.u32 (shdrAt f.e_shoff i + 40)).toNat).index)

theorem image_getElem? (i : Nat) :
    f.image.sections[i]? = if i < f.e_shnum then some (f.sectionAt i) else none := by
  rw [image, List.getElem?_map]
  by_cases hi : i < f.e_shnum
  · rw [if_pos hi, List.getElem?_range hi]
    rfl
  · rw [if_neg hi, List.getElem?_eq_none (by simpa using hi)]
    rfl

theorem tame_getSymbols_iff (hheader : 64 ≤ f.size) :
    Tame ReadStop.Bad (f.getSymbols f.image) ↔ f.SymbolsInside := by
  have hlen : f.image.sections.length = f.e_shnum := by simp [image]
  have hshoff : f.image.e_shoff = f.e_shoff := rfl
  rw [getSymbols, tame_ifDynamic_iff hheader, SymbolsInside]
  apply imp_congr_right
  rintro -
  rw [hlen, List.range_eq_range', (checked_findSymtab 0 f.e_shnum).tame_bind_iff,
    ← List.range_eq_range']
  refine and_congr (by simp) ?_
  cases hfind : (List.range f.e_shnum).find? fun i => f.IsSymtab i with
  -- the two sections are those that have been default-constructed, without content
  | none => exact iff_of_true (tame_ok _) (by simp)
  | some i =>
      have hi : i < f.e_shnum := List.mem_range.mp (List.mem_of_find?_eq_some hfind)
      simp only [Option.some.injEq, forall_eq']
      rw [(checked_read32 _).tame_bind_iff]
      apply and_congr_right
      rintro -
      rw [hshoff, image_getElem?, if_pos hi, image_getElem?]
      by_cases hlink : (f.u32 (shdrAt f.e_shoff i + 40)).toNat < f.e_shnum
      · rw [if_pos hlink, forall_prop_of_true hlink]
        exact tame_readSymbols_iff _ _ _
      · -- the exception of `findSectionByID` is caught
        rw [if_neg hlink]
        exact iff_of_true (tame_ok _) fun h => absurd h hlink

end ElfBytes

/-! ## The buffer as a whole -/

/-- No read is outside of the buffer, no loop goes on forever and no null pointer is followed, in
loading a file or a buffer and in the functions that are called on what has been loaded. -/
structure ReadsInside (src : Source) (f : ElfBytes) : Prop where
  load : Tame ReadStop.Bad (src.load f)
  getDependencies : ∀ image, src.load f = .ok image → Tame ReadStop.Bad (f.getDependencies image)
  isDynamicLibrary : ∀ image, src.load f = .ok image →
    Tame ReadStop.Bad (f.isDynamicLibrary image)
  getSymbols : ∀ image, src.load f = .ok image → Tame ReadStop.Bad (f.getSymbols image)

/-- The headers, the names, the entries and the symbols that the functions come to are inside. -/
@[mk_iff] structure ElfBytes.TablesInside (f : ElfBytes) : Prop where
  headers : f.HeadersInside
  dependencies : f.DependenciesInside
  library : f.LibraryInside
  symbols : f.SymbolsInside

/-- What is looked at of a buffer at all: a file without the magic number is closed. -/
def Source.Looks (src : Source) (f : ElfBytes) : Prop :=
  src = .file → f.content.take 4 = ELFMAG

theorem readsInside_of_error {src : Source} {f : ElfBytes} {e : ReadStop}
    (hload : src.load f = .error e) : ReadsInside src f ↔ ¬ e.Bad := by
  constructor
  · rintro ⟨h, -⟩
    rwa [hload] at h
  · intro h
    refine ⟨?_, ?_, ?_, ?_⟩
    · rwa [hload, tame_error_iff]
    all_goals
      intro image himage
      rw [hload] at himage
      cases himage

theorem readsInside_of_construct {src : Source} {f : ElfBytes}
    (hload : src.load f = f.construct) : ReadsInside src f ↔ f.TablesInside := by
  have hchecked := ElfBytes.checked_construct (f := f)
  constructor
  · rintro ⟨htame, hdependencies, hlibrary, hsymbols⟩
    rw [hload] at htame hdependencies hlibrary hsymbols
    have hheaders := hchecked.tame_iff.mp htame
    have hok := hchecked.ok hheaders
    exact ⟨hheaders,
      (ElfBytes.tame_getDependencies_iff hheaders.header).mp (hdependencies _ hok),
      (ElfBytes.tame_isDynamicLibrary_iff hheaders.header).mp (hlibrary _ hok),
      (ElfBytes.tame_getSymbols_iff hheaders.header).mp (hsymbols _ hok)⟩
  · rintro ⟨hheaders, hdependencies, hlibrary, hsymbols⟩
    have hok : src.load f = .ok f.image := hload.trans (hchecked.ok hheaders)
    refine ⟨?_, ?_, ?_, ?_⟩
    · rw [hok]
      exact tame_ok _
    all_goals
      intro image himage
      obtain rfl : f.image = image := Except.ok.inj (hok.symm.trans himage)
    · exact (ElfBytes.tame_getDependencies_iff hheaders.header).mpr hdependencies
    · exact (ElfBytes.tame_isDynamicLibrary_iff hheaders.header).mpr hlibrary
    · exact (ElfBytes.tame_getSymbols_iff hheaders.header).mpr hsymbols

/-- Of a buffer that is looked at, the class byte decides. -/
theorem load_looks {src : Source} {f : ElfBytes} (hlooks : src.Looks f) :
    ∃ e : ReadStop, (e.Bad → src = .buffer) ∧
      src.load f = f.read8 4 >>= fun elfclass =>
        if elfclass = ELFCLASS64 then f.construct else .error e := by
  cases src with
  | file => exact ⟨.exception "unsupported elfclass!\n", fun h => h.elim, if_pos (hlooks rfl)⟩
  | buffer => exact ⟨.nullDereference, fun _ => rfl, rfl⟩

/-- **All reads are inside exactly if the tables are**, of a buffer that is looked at and has the
class byte. About a buffer in memory that is of another class nothing is said. -/
theorem readsInside_iff_tables {src : Source} {f : ElfBytes}
    (hclass : src = .buffer → f.Inside 4 1 → f.u8 4 = ELFCLASS64) :
    ReadsInside src f ↔
      (src.Looks f → f.Inside 4 1 ∧ (f.u8 4 = ELFCLASS64 → f.TablesInside)) := by
  by_cases hlooks : src.Looks f
  · obtain ⟨e, he, hload⟩ := load_looks hlooks
    rw [forall_prop_of_true hlooks]
    by_cases hfirst : f.Inside 4 1
    · rw [(ElfBytes.checked_read8 4).ok hfirst] at hload
      rw [and_iff_right hfirst]
      by_cases helf : f.u8 4 = ELFCLASS64
      · rw [forall_prop_of_true helf]
        exact readsInside_of_construct (hload.trans (if_pos helf))
      · -- only `loadElfFile` gets here, and it throws
        rw [readsInside_of_error (hload.trans (if_neg helf))]
        exact iff_of_true (fun hbad => helf (hclass (he hbad) hfirst)) fun h => absurd h helf
    · obtain ⟨e', he', hbad⟩ := (ElfBytes.checked_read8 4).bad hfirst
      rw [he'] at hload
      rw [readsInside_of_error hload]
      exact iff_of_false (fun h => h hbad) fun h => hfirst h.1
  · -- a file that has another magic number
    have hload : src.load f = .error .nullResult := by
      cases src with
      | file => exact if_neg fun h => hlooks fun _ => h
      | buffer => exact absurd (fun h => by cases h) hlooks
    rw [readsInside_of_error hload]
    exact iff_of_true (fun h => h) fun h => absurd h hlooks

/-- A section header of the file below. -/
def smallShdr (sh_name sh_type sh_offset sh_size sh_link : Byte) : List Byte :=
  [sh_name, 0, 0, 0, sh_type, 0, 0, 0] ++ List.replicate 16 0 ++
    sh_offset :: List.replicate 7 0 ++ sh_size :: List.replicate 7 0 ++
    sh_link :: List.replicate 23 0

/-- A library with a dependency and a symbol, and with its section headers at the end. -/
def smallLibrary : ElfBytes where
  content := ELFMAG ++ [2] ++ List.replicate 11 0 ++ [3, 0] ++ List.replicate 22 0 ++ [144] ++
    List.replicate 19 0 ++ [3, 0, 1, 0] ++
    -- `.dynstr`, at 64
    [0, 46, 100, 121, 110, 97, 109, 105, 99, 0, 46, 100, 121, 110, 115, 116, 114, 0,
      108, 105, 98, 99, 0, 0] ++
    -- `.dynamic`, at 88, and the symbols, at 120
    1 :: List.replicate 7 0 ++ 18 :: List.replicate 7 0 ++ List.replicate 16 0 ++
    [18, 0, 0, 0, 18, 0, 1, 0] ++ 16 :: List.replicate 15 0 ++
    smallShdr 1 6 88 32 0 ++ smallShdr 10 3 64 24 0 ++ smallShdr 0 2 120 24 1
  fits := by decide +kernel

theorem smallLibrary_dynamic :
    smallLibrary.SectionNamed ".dynamic" (smallLibrary.sectionAt 0) := by decide +kernel

theorem smallLibrary_dynstr :
    smallLibrary.SectionNamed ".dynstr" (smallLibrary.sectionAt 1) := by decide +kernel

theorem smallLibrary_tables : smallLibrary.TablesInside where
  headers :=
    { header := by decide +kernel
      sections := by decide +kernel
      segments := by decide +kernel }
  dependencies := by
    intro _ dynamic dynstr hdynamic hdynstr
    obtain rfl := smallLibrary_dynamic.eq hdynamic
    obtain rfl := smallLibrary_dynstr.eq hdynstr
    exact ⟨1, by decide, by decide +kernel, by decide +kernel, by decide +kernel⟩
  library := by
    intro _ dynamic hdynamic
    obtain rfl := smallLibrary_dynamic.eq hdynamic
    exact ⟨1, by decide, by decide +kernel, by decide +kernel, by decide +kernel⟩
  symbols := by
    intro _
    refine ⟨by decide +kernel, ?_⟩
    intro i hi
    have hfind : (List.range smallLibrary.e_shnum).find? (fun i => smallLibrary.IsSymtab i) =
        some 2 := by decide +kernel
    obtain rfl := Option.some.inj (hfind.symm.trans hi)
    decide +kernel

theorem readsInside_smallLibrary :
    smallLibrary.u8 4 = ELFCLASS64 ∧ smallLibrary.TablesInside ∧
      ∀ src, ReadsInside src smallLibrary := by
  have hclass : smallLibrary.u8 4 = ELFCLASS64 := by decide +kernel
  refine ⟨hclass, smallLibrary_tables, fun src => ?_⟩
  apply (readsInside_iff_tables fun _ _ => hclass).mpr
  exact fun _ => ⟨by decide +kernel, fun _ => smallLibrary_tables⟩

/-- The section headers of this file are behind its end. -/
def strayHeaders : ElfBytes where
  content := ELFMAG ++ [2] ++ List.replicate 35 0 ++ [64] ++ List.replicate 19 0 ++ [1, 0, 0, 0]
  fits := by decide

theorem strayHeaders_outside :
    strayHeaders.content.take 4 = ELFMAG ∧ strayHeaders.u8 4 = ELFCLASS64 ∧
      Source.file.load strayHeaders = .error .outside ∧
      Source.buffer.load strayHeaders = .error .outside ∧
      ∀ src, ¬ ReadsInside src strayHeaders := by
  have hfile : Source.file.load strayHeaders = .error .outside := rfl
  have hbuffer : Source.buffer.load strayHeaders = .error .outside := rfl
  refine ⟨rfl, rfl, hfile, hbuffer, ?_⟩
  intro src
  cases src with
  | file => exact fun h => (readsInside_of_error hfile).mp h trivial
  | buffer => exact fun h => (readsInside_of_error hbuffer).mp h trivial

end KernInt
