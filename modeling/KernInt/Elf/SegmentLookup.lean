import KernInt.Elf.ElfFile
import KernInt.Lib.Overlay
import Mathlib.Data.List.Pairwise

set_option autoImplicit false

/-! # The segment of an address

`findSegmentByVaddr` returns the first segment with `segmentStart <= addr <= segmentEnd`. So the
address behind a segment counts as one of its own, and whether it is given to this segment or to
the one that starts there is up to their order. The end of a segment at the top of the address
space wraps around to 0, and nothing is found in it. The lookup is right, in every order of the
segments, at all other addresses (`segmentLookup_iff`).
-/

namespace KernInt

open Lib

/-- The address is in `[vaddr, vaddr + memsz)`. -/
def SegmentInfo.Holds (seg : SegmentInfo) (addr : U64) : Prop :=
  seg.vaddr.toNat ≤ addr.toNat ∧ addr.toNat < seg.vaddr.toNat + seg.memsz.toNat

/-- The address is the one behind the segment. -/
def SegmentInfo.EndsAt (seg : SegmentInfo) (addr : U64) : Prop :=
  seg.vaddr.toNat + seg.memsz.toNat = addr.toNat

instance (seg : SegmentInfo) (addr : U64) : Decidable (seg.EndsAt addr) :=
  inferInstanceAs (Decidable (_ = _))

/-- The test of `findSegmentByVaddr`. -/
def SegmentInfo.accepts (seg : SegmentInfo) (addr : U64) : Bool :=
  seg.vaddr ≤ addr ∧ addr ≤ seg.vaddr + seg.memsz

namespace ElfFile

variable (elf : ElfFile) (addr : U64)

/-- No address is in two segments, and no segment wraps around. -/
structure SegmentsApart : Prop where
  disjoint : elf.segments.Pairwise fun seg seg' => ∀ a, ¬ (seg.Holds a ∧ seg'.Holds a)
  no_wrap : ∀ seg ∈ elf.segments, seg.vaddr.toNat + seg.memsz.toNat ≤ 2 ^ 64

/-- The segment that holds the address is found, nothing is found if there is none, and the order
of the segments does not matter. -/
structure SegmentLookup : Prop where
  held : ∀ seg ∈ elf.segments, seg.Holds addr → elf.findSegmentByVaddr addr = .ok seg
  not_held : (∀ seg ∈ elf.segments, ¬ seg.Holds addr) →
    elf.findSegmentByVaddr addr = .error (.error "could not find segment by vaddr")
  any_order : ∀ segments : List SegmentInfo, segments.Perm elf.segments →
    { elf with segments }.findSegmentByVaddr addr = elf.findSegmentByVaddr addr

/-- No segment ends at the address, and the one that holds it ends in front of the top of the
address space. -/
def ClearOfEnds : Prop :=
  ∀ seg ∈ elf.segments, ¬ seg.EndsAt addr ∧
    (seg.Holds addr → seg.vaddr.toNat + seg.memsz.toNat < 2 ^ 64)

variable {elf} {addr} {seg : SegmentInfo}

theorem accepts_iff (hwrap : seg.vaddr.toNat + seg.memsz.toNat ≤ 2 ^ 64) :
    seg.accepts addr = true ↔
      seg.Holds addr ∧ seg.vaddr.toNat + seg.memsz.toNat < 2 ^ 64 ∨ seg.EndsAt addr := by
  have hstart := seg.vaddr.isLt
  have hsize := seg.memsz.isLt
  have haddr := addr.isLt
  simp only [SegmentInfo.accepts, SegmentInfo.Holds, SegmentInfo.EndsAt, decide_eq_true_iff,
    BitVec.le_def, BitVec.toNat_add]
  by_cases htop : seg.vaddr.toNat + seg.memsz.toNat = 2 ^ 64
  · -- the end wraps around to 0
    rw [htop, Nat.mod_self]
    omega
  · rw [Nat.mod_eq_of_lt (by omega)]
    omega

theorem findSegmentByVaddr_eq : elf.findSegmentByVaddr addr =
    match elf.segments.find? fun seg => seg.accepts addr with
    | some seg => .ok seg
    | none => .error (.error "could not find segment by vaddr") := rfl

theorem findSegmentByVaddr_with (segments : List SegmentInfo) :
    { elf with segments }.findSegmentByVaddr addr =
      match segments.find? fun seg => seg.accepts addr with
      | some seg => .ok seg
      | none => .error (.error "could not find segment by vaddr") := rfl

/-- A segment that is accepted is found if it stands in front. -/
theorem findSegmentByVaddr_of_first {segments : List SegmentInfo} (h : seg.accepts addr = true) :
    { elf with segments := seg :: segments }.findSegmentByVaddr addr = .ok seg := by
  have hfirst : (seg :: segments).find? (fun s => s.accepts addr) = some seg := by
    simp [h]
  rw [findSegmentByVaddr_with, hfirst]

/-- Away from the ends, the segments that are accepted are those that hold the address. -/
theorem ClearOfEnds.accepts_iff_holds (h : elf.ClearOfEnds addr) (hapart : elf.SegmentsApart)
    (hseg : seg ∈ elf.segments) : seg.accepts addr = true ↔ seg.Holds addr := by
  obtain ⟨hend, htop⟩ := h seg hseg
  rw [accepts_iff (hapart.no_wrap seg hseg)]
  constructor
  · rintro (hholds | hends)
    · exact hholds.1
    · exact absurd hends hend
  · intro hholds
    exact .inl ⟨hholds, htop hholds⟩

/-- Only one segment holds an address. -/
theorem SegmentsApart.unique {seg' : SegmentInfo} (h : elf.SegmentsApart)
    (hseg : seg ∈ elf.segments) (hseg' : seg' ∈ elf.segments) (hholds : seg.Holds addr)
    (hholds' : seg'.Holds addr) : seg = seg' := by
  by_contra hne
  have hsymm : Std.Symm fun seg seg' : SegmentInfo => ∀ a, ¬ (seg.Holds a ∧ seg'.Holds a) :=
    ⟨fun _ _ hno a hboth => hno a hboth.symm⟩
  exact h.disjoint.forall hseg hseg' hne addr ⟨hholds, hholds'⟩

/-- Where a segment ends, the order of the segments matters, or a segment is found that does not
hold the address. -/
theorem SegmentLookup.not_endsAt (h : elf.SegmentLookup addr) (hapart : elf.SegmentsApart)
    (hseg : seg ∈ elf.segments) : ¬ seg.EndsAt addr := by
  intro hends
  have haccepts := (accepts_iff (hapart.no_wrap seg hseg)).mpr (.inr hends)
  -- put in front, the segment is found
  obtain ⟨front, back, hsplit⟩ := List.append_of_mem hseg
  have horder := h.any_order (seg :: (front ++ back)) (by
    rw [hsplit]
    exact List.perm_middle.symm)
  rw [findSegmentByVaddr_of_first haccepts] at horder
  by_cases hheld : ∃ seg' ∈ elf.segments, seg'.Holds addr
  · obtain ⟨seg', hseg', hholds⟩ := hheld
    rw [h.held seg' hseg' hholds] at horder
    obtain rfl : seg = seg' := Except.ok.inj horder
    have hlt := hholds.2
    have heq : seg.vaddr.toNat + seg.memsz.toNat = addr.toNat := hends
    omega
  · push Not at hheld
    rw [h.not_held hheld] at horder
    cases horder

/-- A segment that is found is accepted. -/
theorem accepts_of_find (h : elf.findSegmentByVaddr addr = .ok seg) : seg.accepts addr = true := by
  rw [findSegmentByVaddr_eq] at h
  split at h
  · rename_i found hsome
    cases h
    have haccepted := List.find?_some hsome
    exact haccepted
  · cases h

theorem SegmentLookup.clearOfEnds (h : elf.SegmentLookup addr) (hapart : elf.SegmentsApart) :
    elf.ClearOfEnds addr := by
  intro seg hseg
  have hnoend := h.not_endsAt hapart hseg
  refine ⟨hnoend, fun hholds => ?_⟩
  have haccepted := accepts_of_find (h.held seg hseg hholds)
  exact (((accepts_iff (hapart.no_wrap seg hseg)).mp haccepted).resolve_right hnoend).2

theorem ClearOfEnds.segmentLookup (h : elf.ClearOfEnds addr) (hapart : elf.SegmentsApart) :
    elf.SegmentLookup addr := by
  have hone : ∀ s ∈ elf.segments, ∀ s' ∈ elf.segments, s.accepts addr = true →
      s'.accepts addr = true → s = s' := fun s hs s' hs' ha ha' =>
    hapart.unique hs hs' ((h.accepts_iff_holds hapart hs).mp ha)
      ((h.accepts_iff_holds hapart hs').mp ha')
  refine ⟨fun seg hseg hholds => ?_, fun hnone => ?_, fun segments hperm => ?_⟩
  · have haccepts := (h.accepts_iff_holds hapart hseg).mpr hholds
    rw [findSegmentByVaddr_eq]
    cases hfind : elf.segments.find? fun seg => seg.accepts addr with
    | none => exact absurd haccepts (List.find?_eq_none.mp hfind seg hseg)
    | some found =>
        have hmem := List.mem_of_find?_eq_some hfind
        have haccepted := List.find?_some hfind
        rw [hone found hmem seg hseg haccepted haccepts]
  · rw [findSegmentByVaddr_eq, List.find?_eq_none.mpr]
    intro seg hseg haccepts
    exact hnone seg hseg ((h.accepts_iff_holds hapart hseg).mp haccepts)
  · have hfind := find?_perm hperm hone
    rw [findSegmentByVaddr_with, hfind, findSegmentByVaddr_eq]

/-- **The segment of an address is found** in every order of the segments exactly if none of them
ends there, and the one that holds the address does not end at the top of the address space. -/
theorem segmentLookup_iff (hapart : elf.SegmentsApart) (addr : U64) :
    elf.SegmentLookup addr ↔ elf.ClearOfEnds addr := by
  constructor
  · intro h
    exact h.clearOfEnds hapart
  · intro h
    exact h.segmentLookup hapart

/-! ## Two segments next to each other -/

def lowSegment : SegmentInfo where
  type := PT_LOAD
  flags := PF_X ||| PF_R
  offset := 0
  vaddr := 0x1000
  filesz := 0x1000
  memsz := 0x1000

/-- Starts where `lowSegment` ends. -/
def highSegment : SegmentInfo := { lowSegment with vaddr := 0x2000 }

def twoSegments : ElfFile where
  e_type := ET_DYN
  e_entry := 0
  fileContent := 0
  elf64Shdr := []
  shnum_lt := shnum_lt_nil
  segments := [lowSegment, highSegment]
  rela _ := []
  sym _ _ := default
  symbolName _ _ := ""

theorem twoSegments_apart : twoSegments.SegmentsApart where
  disjoint := by
    have hno : ∀ a : U64, ¬ (lowSegment.Holds a ∧ highSegment.Holds a) := by
      rintro a ⟨hlow, hhigh⟩
      have hlt : a.toNat < 0x1000 + 0x1000 := hlow.2
      have hle : 0x2000 ≤ a.toNat := hhigh.1
      omega
    simpa [twoSegments] using hno
  no_wrap := by
    decide

theorem segmentLookup_lowSegment : twoSegments.SegmentLookup 0x1800 := by
  refine (segmentLookup_iff twoSegments_apart 0x1800).mpr ?_
  intro seg hseg
  obtain rfl | rfl : seg = lowSegment ∨ seg = highSegment := by
    simpa [twoSegments] using hseg
  · exact ⟨by decide, fun _ => by decide⟩
  · exact ⟨by decide, fun _ => by decide⟩

/-- The first address of `highSegment` is given to `lowSegment`. -/
theorem twoSegments_misattributed : twoSegments.SegmentsApart ∧
    highSegment ∈ twoSegments.segments ∧ highSegment.Holds 0x2000 ∧
    twoSegments.findSegmentByVaddr 0x2000 = .ok lowSegment ∧
    { twoSegments with segments := [highSegment, lowSegment] }.findSegmentByVaddr 0x2000 =
      .ok highSegment ∧
    ¬ twoSegments.SegmentLookup 0x2000 := by
  have hmem : highSegment ∈ twoSegments.segments := by decide
  have hholds : highSegment.Holds 0x2000 := ⟨by decide, by decide⟩
  refine ⟨twoSegments_apart, hmem, hholds, by decide, by decide, fun h => ?_⟩
  have hfound := h.held highSegment hmem hholds
  revert hfound
  decide

end ElfFile

end KernInt
