import KernInt.Kernel.ModuleText
import KernInt.Lib.Vector
import KernInt.Lib.Outcome
import Mathlib.Data.List.Induction
import Mathlib.Order.Bounds.Basic

set_option autoImplicit false

/-! # The read-only data of a module

`ElfModuleLoader::initData` puts the read-only sections into `roData`, one behind the other. The
mask for the alignment of a section is computed from `sh_addralign ? 0 : 1`, where the kernel has
`sh_addralign ?: 1`: with any alignment but 0 the aligned size is 0, and the number of bytes to
fill up with wraps around. So a section with an alignment can only be the first one
(`roData_aligned_iff`).
-/

namespace KernInt

open Lib

def SHF_STRINGS : U64 := 0x20

def SHT_NOTE : U32 := 7

namespace Elf64_Shdr

/-- A section that is put into `roData`. -/
def isRoData (shdr : Elf64_Shdr) : Bool :=
  if (shdr.sh_flags = SHF_ALLOC ∨ shdr.sh_flags = SHF_STRINGS) ∧ shdr.sh_type = SHT_PROGBITS ∨
      shdr.sh_flags = SHF_ALLOC ∧ shdr.sh_type = SHT_NOTE then
    !(shdr.sh_name == ".modinfo" || shdr.sh_name == "__versions" ||
      shdr.sh_name.toList.take 5 == ".init".toList)
  else false

/-- Up to where `roData` is filled up for a section. -/
def alignmentSize (shdr : Elf64_Shdr) (size : U64) : U64 :=
  let align : U64 := (if shdr.sh_addralign ≠ 0 then 0 else 1) - 1
  (size + align) &&& ~~~align

end Elf64_Shdr

section

variable (content : SectionContent)

/-- A round of the loop in `initData`, for a section header and its number. -/
def roDataRound (roData : List Byte) (s : Elf64_Shdr × Nat) : Except VectorError (List Byte) :=
  if s.1.isRoData then do
    let size := BitVec.ofNat 64 roData.length
    let roData ← insertFill roData roData.length (s.1.alignmentSize size - size).toNat 0
    insertRange roData roData.length (sectionBytes content s.2 s.1.sh_size)
  else return roData

def ElfFile.roData (elf : ElfFile) : Except VectorError (List Byte) :=
  elf.elf64Shdr.zipIdx.foldlM (roDataRound content) []

/-- A section is put at the smallest offset behind `roData` that is a multiple of its alignment,
with zeros up to it; the number of these does not wrap around. -/
def AppendedAligned (s : Elf64_Shdr × Nat) (roData roData' : List Byte) : Prop :=
  BitVec.ofNat 64 roData.length ≤ s.1.alignmentSize (BitVec.ofNat 64 roData.length) ∧
    ∃ offset, IsLeast {o | roData.length ≤ o ∧ max 1 s.1.align ∣ o} offset ∧
      roData' = roData ++ List.replicate (offset - roData.length) 0 ++
        sectionBytes content s.2 s.1.sh_size

/-- The loop does so with every section that it comes to, and it comes to all of them. -/
def RoDataAligned (elf : ElfFile) : Prop :=
  ∀ pre s post, elf.elf64Shdr.zipIdx = pre ++ s :: post → s.1.isRoData = true →
    ∃ roData roData', pre.foldlM (roDataRound content) [] = .ok roData ∧
      roDataRound content roData s = .ok roData' ∧ AppendedAligned content s roData roData'

/-- What a section adds. -/
def roBytes (s : Elf64_Shdr × Nat) : List Byte :=
  if s.1.isRoData then sectionBytes content s.2 s.1.sh_size else []

end

section

variable {content : SectionContent} {roData roData' : List Byte} {s : Elf64_Shdr × Nat}

theorem alignmentSize_of_zero {shdr : Elf64_Shdr} (h : shdr.sh_addralign = 0) (size : U64) :
    shdr.alignmentSize size = size := by
  have hmask : ~~~((1 : U64) - 1) = BitVec.allOnes 64 := by decide
  unfold Elf64_Shdr.alignmentSize
  rw [if_neg (not_not_intro h)]
  dsimp only
  rw [hmask, BitVec.and_allOnes]
  exact BitVec.add_zero size

theorem alignmentSize_of_ne_zero {shdr : Elf64_Shdr} (h : shdr.sh_addralign ≠ 0) (size : U64) :
    shdr.alignmentSize size = 0 := by
  unfold Elf64_Shdr.alignmentSize
  rw [if_pos h]
  simp

theorem toNat_length (hlen : roData.length ≤ maxSize) :
    (BitVec.ofNat 64 roData.length).toNat = roData.length := by
  have hmax : maxSize < 2 ^ 64 := by decide
  rw [BitVec.toNat_ofNat, Nat.mod_eq_of_lt (by omega)]

/-- The bytes to fill up with: none, or more than a vector can take. -/
theorem padding_le_iff (hlen : roData.length ≤ maxSize) (shdr : Elf64_Shdr) :
    (shdr.alignmentSize (BitVec.ofNat 64 roData.length) -
        BitVec.ofNat 64 roData.length).toNat ≤ maxSize - roData.length ↔
      shdr.sh_addralign = 0 ∨ roData = [] := by
  have hnum := toNat_length hlen
  have hmax : maxSize = 2 ^ 63 - 1 := rfl
  by_cases hzero : shdr.sh_addralign = 0
  · rw [alignmentSize_of_zero hzero, BitVec.sub_self]
    exact ⟨fun _ => .inl hzero, fun _ => Nat.zero_le _⟩
  · rw [alignmentSize_of_ne_zero hzero, ← List.length_eq_zero_iff]
    constructor
    · intro h
      exact .inr (by bv_omega)
    · rintro (h | h)
      · exact absurd h hzero
      · rw [h]
        exact Nat.zero_le _

theorem padding_eq_zero {shdr : Elf64_Shdr} (h : shdr.sh_addralign = 0 ∨ roData = []) :
    (shdr.alignmentSize (BitVec.ofNat 64 roData.length) -
      BitVec.ofNat 64 roData.length).toNat = 0 := by
  by_cases hzero : shdr.sh_addralign = 0
  · rw [alignmentSize_of_zero hzero, BitVec.sub_self]
    rfl
  · rw [alignmentSize_of_ne_zero hzero, h.resolve_left hzero]
    rfl

/-- **What a round does**: it adds the bytes of the section, if it has no alignment or nothing is
in front of it. -/
theorem roDataRound_eq_ok_iff (hlen : roData.length ≤ maxSize) :
    roDataRound content roData s = .ok roData' ↔
      (s.1.isRoData = true → s.1.sh_addralign = 0 ∨ roData = []) ∧
        roData.length + (roBytes content s).length ≤ maxSize ∧
        roData' = roData ++ roBytes content s := by
  unfold roDataRound roBytes
  cases hro : s.1.isRoData with
  | false =>
      simp only [Bool.false_eq_true, if_false, false_implies, true_and, List.length_nil,
        List.append_nil, Nat.add_zero]
      constructor
      · intro h
        cases h
        exact ⟨hlen, rfl⟩
      · rintro ⟨-, rfl⟩
        rfl
  | true =>
      simp only [if_true, forall_const]
      constructor
      · intro h
        obtain ⟨filled, hfill, hrange⟩ := exists_of_bind_ok h
        obtain ⟨-, hle, rfl⟩ := insertFill_eq_ok_iff.mp hfill
        have hfirst := (padding_le_iff hlen s.1).mp hle
        rw [padding_eq_zero hfirst, List.replicate_zero, insertAt_nil] at hrange
        obtain ⟨-, hbytes, rfl⟩ := insertRange_eq_ok_iff.mp hrange
        exact ⟨hfirst, by omega, insertAt_end⟩
      · rintro ⟨hfirst, hbytes, rfl⟩
        have hfill : insertFill roData roData.length
            (s.1.alignmentSize (BitVec.ofNat 64 roData.length) -
              BitVec.ofNat 64 roData.length).toNat 0 = .ok roData := by
          rw [insertFill_eq_ok_iff, padding_eq_zero hfirst, List.replicate_zero, insertAt_nil]
          exact ⟨Nat.le_refl _, Nat.zero_le _, rfl⟩
        rw [hfill]
        exact insertRange_eq_ok_iff.mpr ⟨Nat.le_refl _, by omega, insertAt_end.symm⟩

theorem foldlM_roDataRound_ok {l : List (Elf64_Shdr × Nat)}
    (h : l.foldlM (roDataRound content) [] = .ok roData) :
    roData = l.flatMap (roBytes content) ∧ roData.length ≤ maxSize := by
  induction l using List.reverseRecOn generalizing roData with
  | nil =>
      cases h
      exact ⟨rfl, Nat.zero_le _⟩
  | append_singleton l s ih =>
      obtain ⟨before, after, hbefore, hround, hend⟩ := foldlM_split_eq_ok_iff.mp h
      cases hend
      obtain ⟨hparts, hlen⟩ := ih hbefore
      obtain ⟨-, hle, rfl⟩ := (roDataRound_eq_ok_iff hlen).mp hround
      refine ⟨?_, by rw [List.length_append]; exact hle⟩
      rw [List.flatMap_append, ← hparts, List.flatMap_singleton]

theorem foldlM_roDataRound_eq {l : List (Elf64_Shdr × Nat)}
    (hfirst : ∀ pre s post, l = pre ++ s :: post → s.1.isRoData = true →
      s.1.sh_addralign = 0 ∨ pre.flatMap (roBytes content) = [])
    (hlen : (l.flatMap (roBytes content)).length ≤ maxSize) :
    l.foldlM (roDataRound content) [] = .ok (l.flatMap (roBytes content)) := by
  induction l using List.reverseRecOn with
  | nil => rfl
  | append_singleton l s ih =>
      rw [List.flatMap_append, List.flatMap_singleton, List.length_append] at hlen
      have hbefore := ih (fun pre t post hl => hfirst pre t (post ++ [s]) (by simp [hl]))
        (by omega)
      have hround : roDataRound content (l.flatMap (roBytes content)) s =
          .ok (l.flatMap (roBytes content) ++ roBytes content s) :=
        (roDataRound_eq_ok_iff (by omega)).mpr ⟨hfirst l s [] rfl, hlen, rfl⟩
      rw [List.flatMap_append, List.flatMap_singleton]
      exact foldlM_split_eq_ok_iff.mpr ⟨_, _, hbefore, hround, rfl⟩

/-! ### Sizes -/

theorem length_roBytes : (roBytes content s).length = if s.1.isRoData then s.1.size else 0 := by
  unfold roBytes
  split
  · rw [length_sectionBytes]
    rfl
  · rfl

theorem flatMap_roBytes_eq_nil_iff (content : SectionContent) {l : List (Elf64_Shdr × Nat)} :
    l.flatMap (roBytes content) = [] ↔ ∀ t ∈ l, t.1.isRoData = true → t.1.size = 0 := by
  rw [List.flatMap_eq_nil_iff]
  refine forall₂_congr fun t _ => ?_
  rw [← List.length_eq_zero_iff, length_roBytes]
  split
  · rename_i hro
    exact ⟨fun h _ => h, fun h => h hro⟩
  · rename_i hro
    exact ⟨fun _ h => absurd h hro, fun _ => rfl⟩

theorem length_flatMap_roBytes (content : SectionContent) (l : List Elf64_Shdr) (k : Nat) :
    ((l.zipIdx k).flatMap (roBytes content)).length =
      ((l.filter Elf64_Shdr.isRoData).map Elf64_Shdr.size).sum := by
  induction l generalizing k with
  | nil => rfl
  | cons shdr l ih =>
      rw [List.zipIdx_cons, List.flatMap_cons, List.length_append, ih, length_roBytes,
        List.filter_cons]
      cases hro : shdr.isRoData with
      | true => simp
      | false => simp

end

/-! ## When the data are aligned -/

section

variable {content : SectionContent} {elf : ElfFile}

/-- Nothing has to be filled up with. -/
theorem appendedAligned_of_first {s : Elf64_Shdr × Nat} {roData : List Byte}
    (h : s.1.sh_addralign = 0 ∨ roData = []) :
    AppendedAligned content s roData (roData ++ sectionBytes content s.2 s.1.sh_size) := by
  refine ⟨?_, roData.length, ⟨⟨Nat.le_refl _, ?_⟩, fun o ho => ho.1⟩, by simp⟩
  · rcases h with hzero | rfl
    · rw [alignmentSize_of_zero hzero]
      exact BitVec.le_refl _
    · exact Nat.zero_le _
  · rcases h with hzero | rfl
    · have hone : max 1 s.1.align = 1 := by
        unfold Elf64_Shdr.align
        rw [hzero]
        rfl
      rw [hone]
      exact Nat.one_dvd _
    · exact Nat.dvd_zero _

/-- What a run over the table says about a section. -/
theorem RoDataAligned.fits (h : RoDataAligned content elf) {pre post : List (Elf64_Shdr × Nat)}
    {s : Elf64_Shdr × Nat} (hsplit : elf.elf64Shdr.zipIdx = pre ++ s :: post)
    (hro : s.1.isRoData = true) :
    (s.1.sh_addralign = 0 ∨ pre.flatMap (roBytes content) = []) ∧
      ((pre ++ [s]).flatMap (roBytes content)).length ≤ maxSize := by
  obtain ⟨roData, roData', hpre, hround, -⟩ := h pre s post hsplit hro
  obtain ⟨rfl, hlen⟩ := foldlM_roDataRound_ok hpre
  obtain ⟨hfirst, hle, -⟩ := (roDataRound_eq_ok_iff hlen).mp hround
  refine ⟨hfirst hro, ?_⟩
  rw [List.flatMap_append, List.length_append, List.flatMap_singleton]
  exact hle

/-- The sections of every prefix of the table fit into a vector. -/
theorem RoDataAligned.length_le (h : RoDataAligned content elf)
    {pre post : List (Elf64_Shdr × Nat)} (hsplit : elf.elf64Shdr.zipIdx = pre ++ post) :
    (pre.flatMap (roBytes content)).length ≤ maxSize := by
  induction pre using List.reverseRecOn generalizing post with
  | nil => exact Nat.zero_le _
  | append_singleton pre s ih =>
      rw [List.append_assoc] at hsplit
      cases hro : s.1.isRoData with
      | true => exact (h.fits hsplit hro).2
      | false =>
          have hnone : roBytes content s = [] := by
            unfold roBytes
            rw [hro]
            rfl
          rw [List.flatMap_append, List.flatMap_singleton, hnone, List.append_nil]
          exact ih hsplit

/-- The loop comes to every section, and puts it where it should be. -/
theorem roDataAligned_of_fits
    (hfirst : ∀ pre s post, elf.elf64Shdr.zipIdx = pre ++ s :: post → s.1.isRoData = true →
      s.1.sh_addralign = 0 ∨ pre.flatMap (roBytes content) = [])
    (hlen : (elf.elf64Shdr.zipIdx.flatMap (roBytes content)).length ≤ maxSize) :
    RoDataAligned content elf := by
  intro pre s post hsplit hro
  rw [hsplit, List.flatMap_append, List.flatMap_cons, List.length_append,
    List.length_append] at hlen
  have hbytes : roBytes content s = sectionBytes content s.2 s.1.sh_size := if_pos hro
  have hpre : pre.foldlM (roDataRound content) [] = .ok (pre.flatMap (roBytes content)) :=
    foldlM_roDataRound_eq (fun pre' t post' hpre hro' =>
      hfirst pre' t (post' ++ s :: post) (by simp [hsplit, hpre]) hro') (by omega)
  refine ⟨_, _, hpre, (roDataRound_eq_ok_iff (by omega)).mpr
    ⟨fun _ => hfirst pre s post hsplit hro, by omega, rfl⟩, ?_⟩
  rw [hbytes]
  exact appendedAligned_of_first (hfirst pre s post hsplit hro)

/-- **When the read-only data are built as they should be**: every section has the alignment 0 or
only empty ones in front of it, and all together they fit into a vector. -/
theorem roData_aligned_iff (content : SectionContent) (elf : ElfFile) :
    RoDataAligned content elf ↔
      (∀ pre s post, elf.elf64Shdr.zipIdx = pre ++ s :: post → s.1.isRoData = true →
        s.1.sh_addralign = 0 ∨ ∀ t ∈ pre, t.1.isRoData = true → t.1.size = 0) ∧
      ((elf.elf64Shdr.filter Elf64_Shdr.isRoData).map Elf64_Shdr.size).sum ≤ maxSize := by
  rw [← length_flatMap_roBytes content elf.elf64Shdr 0]
  constructor
  · intro h
    refine ⟨fun pre s post hsplit hro => ?_, h.length_le (List.append_nil _).symm⟩
    rw [← flatMap_roBytes_eq_nil_iff content]
    exact (h.fits hsplit hro).1
  · rintro ⟨hfirst, hlen⟩
    refine roDataAligned_of_fits (fun pre s post hsplit hro => ?_) hlen
    rw [flatMap_roBytes_eq_nil_iff]
    exact hfirst pre s post hsplit hro

end

/-! ## Two sections -/

/-- The section headers of a module with a build id and constants. -/
def twoRoSections : ElfFile where
  e_type := ET_REL
  e_entry := 0
  fileContent := 0
  elf64Shdr :=
    [ default,
      { (default : Elf64_Shdr) with
        sh_name := ".note.gnu.build-id", sh_type := SHT_NOTE, sh_flags := SHF_ALLOC,
        sh_offset := 0x40, sh_size := 0x24, sh_addralign := 4 },
      { (default : Elf64_Shdr) with
        sh_name := ".rodata", sh_type := SHT_PROGBITS, sh_flags := SHF_ALLOC,
        sh_offset := 0x80, sh_size := 0x10, sh_addralign := 16 } ]
  shnum_lt := ElfFile.shnum_lt_three _ _ _
  rela _ := []
  sym _ _ := default
  symbolName _ _ := ""

/-- **The second section is not appended**: the number of bytes to fill up with wraps around. -/
theorem twoRoSections_lengthError :
    twoRoSections.roData (fun _ _ => 0) = .error .lengthError ∧
      ¬ RoDataAligned (fun _ _ => 0) twoRoSections := by
  refine ⟨rfl, fun h => ?_⟩
  obtain ⟨roData, roData', hpre, hround, -⟩ :=
    h (twoRoSections.elf64Shdr.zipIdx.take 2) (twoRoSections.shdr 2, 2) [] rfl (by decide)
  obtain rfl : List.replicate 0x24 0 = roData := Except.ok.inj hpre
  cases hround

end KernInt
