import KernInt.Elf.ElfFile
import KernInt.Lib.Memory
import KernInt.Lib.Vector
import KernInt.Lib.Outcome
import Mathlib.Algebra.GroupWithZero.Nat

set_option autoImplicit false

/-! # The data image of a process

`ElfUserspaceLoader::initData` puts as many zeros into `dataSegmentContent` as the data segment
has bytes, and inserts the sections. An insertion moves what is behind it, where an image has to
be written over, and each call puts its zeros in front of what the call before has left. Then
`isAlloc` looks at the flag for code, so that hardly any section is inserted. Where the image is
right all the same is told by `dataImage_iff`.
-/

namespace KernInt

open Lib

namespace SectionInfo

def isWritable (info : SectionInfo) : Bool := checkFlags info.flags SHF_WRITE

/-- Not `SHF_ALLOC`: the flags of `isExec` and `isAlloc` are exchanged. -/
def isAlloc (info : SectionInfo) : Bool := checkFlags info.flags SHF_EXECINSTR

/-- The section is part of the data in the memory of a process. -/
def IsData (info : SectionInfo) : Prop :=
  checkFlags info.flags SHF_WRITE = true ∧ checkFlags info.flags SHF_ALLOC = true

instance (info : SectionInfo) : Decidable info.IsData := inferInstanceAs (Decidable (_ ∧ _))

end SectionInfo

/-- The first segment that is loaded and has no code. -/
def ElfFile.findDataSegment (elf : ElfFile) : Except ElfError SegmentInfo :=
  match elf.segments.find? fun seg => seg.type = PT_LOAD ∧ checkFlags seg.flags PF_X = false with
  | some seg => .ok seg
  | none => .error (.error "could not find data segment")

inductive DataError where
  | elf (e : ElfError)
  | vector (e : VectorError)
  deriving DecidableEq

section

variable (elf : ElfFile) (seg : SegmentInfo)

/-- The bytes of a section in the file. -/
def fileBytes (mem : Memory) (info : SectionInfo) : List Byte :=
  window mem (elf.fileContent + info.offset) info.size.toNat

/-- Where a section is in the data segment. -/
def dataOffset (info : SectionInfo) : Nat := (info.memindex - seg.vaddr).toNat

/-- A round of the loop over the sections. -/
def dataRound (mem : Memory) (content : List Byte) (section' : SectionInfo) :
    Except VectorError (List Byte) :=
  if section'.isWritable && section'.isAlloc then
    let position := dataOffset seg section'
    if section'.name = ".bss" then
      -- the digit, not the byte
      insertFill content position section'.size.toNat 0x30
    else insertRange content position (fileBytes elf mem section')
  else .ok content

/-- The part of `initData` behind its tests. -/
def initSegment (mem : Memory) (dataSegmentContent : List Byte) :
    Except VectorError (List Byte) := do
  let content ← insertFill dataSegmentContent 0 seg.memsz.toNat 0
  elf.sections.foldlM (dataRound elf seg mem) content

end

def initData (name : String) (elf : ElfFile) (dataSegmentContent : List Byte) (mem : Memory) :
    Except DataError (List Byte) :=
  if name = "[vdso]" then .ok dataSegmentContent
  else
    match elf.findDataSegment with
    | .error e => .error (.elf e)
    | .ok seg =>
        -- this file does not have a data segment
        if seg.vaddr = 0 then .ok dataSegmentContent
        else
          match initSegment elf seg mem dataSegmentContent with
          | .error e => .error (.vector e)
          | .ok content => .ok content

/-- The calls for one loader; before each of them the file has been relocated anew. -/
def initDataCalls (name : String) (elf : ElfFile) (mems : List Memory) :
    Except DataError (List Byte) :=
  mems.foldlM (initData name elf) []

/-! ## What the image is to be -/

section

variable (elf : ElfFile) (seg : SegmentInfo)

/-- The data segment contains the sections with data. -/
def ContainsData : Prop :=
  ∀ s ∈ elf.sections, s.IsData → seg.vaddr.toNat ≤ s.memindex.toNat ∧
    s.memindex.toNat + s.size.toNat ≤ seg.vaddr.toNat + seg.memsz.toNat

/-- The image has the size of the segment, each section with data at its place, and zeros
everywhere else. -/
structure DataImage (mem : Memory) (image : List Byte) : Prop where
  size : image.length = seg.memsz.toNat
  placed : ∀ s ∈ elf.sections, s.IsData → s.name ≠ ".bss" → ∀ k < s.size.toNat,
    image[dataOffset seg s + k]? = (fileBytes elf mem s)[k]?
  zero : ∀ j < seg.memsz.toNat, (∀ s ∈ elf.sections, s.IsData → s.name ≠ ".bss" →
    j < dataOffset seg s ∨ dataOffset seg s + s.size.toNat ≤ j) → image[j]? = some 0

end

/-- A section that is inserted. -/
def SectionInfo.isInserted (info : SectionInfo) : Bool := info.isWritable && info.isAlloc

section

variable {elf : ElfFile} {seg : SegmentInfo} {mem : Memory} {content content' : List Byte}

/-! ## Sizes -/

theorem length_fileBytes (s : SectionInfo) : (fileBytes elf mem s).length = s.size.toNat :=
  length_window _ _ _

/-- An insertion adds the size of the section. -/
theorem dataRound_eq_ok {s : SectionInfo} (h : dataRound elf seg mem content s = .ok content') :
    content'.length = content.length + (if s.isInserted then s.size.toNat else 0) ∧
      (s.isInserted = true → dataOffset seg s ≤ content.length) := by
  unfold dataRound at h
  unfold SectionInfo.isInserted
  cases hins : s.isWritable && s.isAlloc with
  | false =>
      rw [hins] at h
      cases h
      exact ⟨rfl, fun h => by cases h⟩
  | true =>
      rw [hins, if_pos rfl] at h
      dsimp only at h
      split at h
      · obtain ⟨hpos, -, rfl⟩ := insertFill_eq_ok_iff.mp h
        rw [length_insertAt, List.length_replicate]
        exact ⟨rfl, fun _ => hpos⟩
      · obtain ⟨hpos, -, rfl⟩ := insertRange_eq_ok_iff.mp h
        rw [length_insertAt, length_fileBytes]
        exact ⟨rfl, fun _ => hpos⟩

/-- How many bytes the sections add. -/
def insertedSize (sections : List SectionInfo) : Nat :=
  ((sections.filter SectionInfo.isInserted).map fun s => s.size.toNat).sum

theorem insertedSize_cons (s : SectionInfo) (sections : List SectionInfo) :
    insertedSize (s :: sections) =
      (if s.isInserted then s.size.toNat else 0) + insertedSize sections := by
  unfold insertedSize
  rw [List.filter_cons]
  split
  · rw [List.map_cons, List.sum_cons]
  · rw [Nat.zero_add]

theorem insertedSize_eq_zero_iff {sections : List SectionInfo} :
    insertedSize sections = 0 ↔ ∀ s ∈ sections, s.isInserted = true → s.size.toNat = 0 := by
  induction sections with
  | nil => simp [insertedSize]
  | cons s sections ih =>
      rw [insertedSize_cons, Nat.add_eq_zero_iff, ih, List.forall_mem_cons]
      cases s.isInserted with
      | true => simp
      | false => simp

theorem length_sections {sections : List SectionInfo}
    (h : sections.foldlM (dataRound elf seg mem) content = .ok content') :
    content'.length = content.length + insertedSize sections := by
  induction sections generalizing content with
  | nil =>
      cases h
      rfl
  | cons s sections ih =>
      obtain ⟨next, hround, h⟩ := foldlM_cons_eq_ok_iff.mp h
      rw [ih h, (dataRound_eq_ok hround).1, insertedSize_cons, Nat.add_assoc]

theorem length_initSegment (h : initSegment elf seg mem content = .ok content') :
    content'.length = content.length + (seg.memsz.toNat + insertedSize elf.sections) := by
  obtain ⟨filled, hfill, hsections⟩ := exists_of_bind_ok h
  obtain ⟨-, -, rfl⟩ := insertFill_eq_ok_iff.mp hfill
  rw [length_sections hsections, length_insertAt, List.length_replicate, Nat.add_assoc]

/-- Every call adds the size of the segment and of the sections that are inserted. -/
theorem length_calls {mems : List Memory}
    (h : mems.foldlM (fun content mem => initSegment elf seg mem content) content = .ok content') :
    content'.length =
      content.length + mems.length * (seg.memsz.toNat + insertedSize elf.sections) := by
  induction mems generalizing content with
  | nil =>
      cases h
      simp
  | cons mem mems ih =>
      obtain ⟨next, hcall, h⟩ := foldlM_cons_eq_ok_iff.mp h
      rw [ih h, length_initSegment hcall, List.length_cons, Nat.succ_mul]
      omega

/-! ## Sections without bytes -/

theorem dataRound_of_empty {s : SectionInfo} (hempty : s.isInserted = true → s.size.toNat = 0) :
    dataRound elf seg mem content s = .ok content' ↔
      content' = content ∧ (s.isInserted = true → dataOffset seg s ≤ content.length) := by
  unfold dataRound
  unfold SectionInfo.isInserted at hempty ⊢
  cases hins : s.isWritable && s.isAlloc with
  | false =>
      simp only [Bool.false_eq_true, if_false, false_implies, and_true]
      rw [Except.ok.injEq, eq_comm]
  | true =>
      have hbytes : fileBytes elf mem s = [] := by
        rw [← List.length_eq_zero_iff, length_fileBytes, hempty hins]
      simp only [if_true, forall_const, hbytes, hempty hins]
      split
      · rw [insertFill_eq_ok_iff, List.replicate_zero, insertAt_nil]
        exact ⟨fun h => ⟨h.2.2, h.1⟩, fun h => ⟨h.2, Nat.zero_le _, h.1⟩⟩
      · rw [insertRange_eq_ok_iff, insertAt_nil]
        exact ⟨fun h => ⟨h.2.2, h.1⟩, fun h => ⟨h.2, Nat.zero_le _, h.1⟩⟩

/-- Where all sections that are inserted are empty, nothing changes. -/
theorem sections_of_empty {sections : List SectionInfo}
    (hempty : ∀ s ∈ sections, s.isInserted = true → s.size.toNat = 0) :
    sections.foldlM (dataRound elf seg mem) content = .ok content' ↔
      content' = content ∧ ∀ s ∈ sections, s.isInserted = true →
        dataOffset seg s ≤ content.length := by
  induction sections generalizing content with
  | nil =>
      show Except.ok content = _ ↔ _
      rw [Except.ok.injEq, eq_comm]
      simp
  | cons s sections ih =>
      rw [List.forall_mem_cons] at hempty ⊢
      rw [foldlM_cons_eq_ok_iff]
      constructor
      · rintro ⟨next, hround, hloop⟩
        obtain ⟨rfl, hpos⟩ := (dataRound_of_empty hempty.1).mp hround
        obtain ⟨hcontent, hrest⟩ := (ih hempty.2).mp hloop
        exact ⟨hcontent, hpos, hrest⟩
      · rintro ⟨rfl, hpos, hrest⟩
        exact ⟨content', (dataRound_of_empty hempty.1).mpr ⟨rfl, hpos⟩,
          (ih hempty.2).mpr ⟨rfl, hrest⟩⟩

/-- A call then puts the zeros of the segment in front. -/
theorem initSegment_of_empty
    (hempty : ∀ s ∈ elf.sections, s.isInserted = true → s.size.toNat = 0) :
    initSegment elf seg mem content = .ok content' ↔
      content' = List.replicate seg.memsz.toNat 0 ++ content ∧
        seg.memsz.toNat ≤ maxSize - content.length ∧
        ∀ s ∈ elf.sections, s.isInserted = true →
          dataOffset seg s ≤ seg.memsz.toNat + content.length := by
  have hlen : (List.replicate seg.memsz.toNat (0 : Byte) ++ content).length =
      seg.memsz.toNat + content.length := by
    rw [List.length_append, List.length_replicate]
  constructor
  · intro h
    obtain ⟨filled, hfill, hsections⟩ := exists_of_bind_ok h
    obtain ⟨-, hle, rfl⟩ := insertFill_eq_ok_iff.mp hfill
    rw [insertAt_zero, sections_of_empty hempty, hlen] at hsections
    exact ⟨hsections.1, hle, hsections.2⟩
  · rintro ⟨rfl, hle, hpos⟩
    have hfill : insertFill content 0 seg.memsz.toNat 0 =
        .ok (List.replicate seg.memsz.toNat 0 ++ content) :=
      insertFill_eq_ok_iff.mpr ⟨Nat.zero_le _, hle, insertAt_zero.symm⟩
    unfold initSegment
    rw [hfill]
    refine (sections_of_empty hempty).mpr ⟨rfl, ?_⟩
    rw [hlen]
    exact hpos

/-! ## Calls -/

theorem initData_eq_ok_iff {name : String} (hname : name ≠ "[vdso]")
    (hseg : elf.findDataSegment = .ok seg) (hvaddr : seg.vaddr ≠ 0) :
    initData name elf content mem = .ok content' ↔
      initSegment elf seg mem content = .ok content' := by
  unfold initData
  rw [if_neg hname, hseg]
  dsimp only
  rw [if_neg hvaddr]
  split
  · rename_i e he
    rw [he]
    exact ⟨fun h => (nomatch h), fun h => (nomatch h)⟩
  · rename_i v hv
    rw [hv, Except.ok.injEq, Except.ok.injEq]

theorem initDataCalls_eq_ok_iff {name : String} (hname : name ≠ "[vdso]")
    (hseg : elf.findDataSegment = .ok seg) (hvaddr : seg.vaddr ≠ 0) {mems : List Memory} :
    initDataCalls name elf mems = .ok content' ↔
      mems.foldlM (fun content mem => initSegment elf seg mem content) [] = .ok content' := by
  unfold initDataCalls
  generalize ([] : List Byte) = start
  induction mems generalizing start with
  | nil => exact ⟨fun h => by cases h; rfl, fun h => by cases h; rfl⟩
  | cons mem mems ih =>
      rw [foldlM_cons_eq_ok_iff, foldlM_cons_eq_ok_iff]
      refine exists_congr fun next => ?_
      rw [initData_eq_ok_iff hname hseg hvaddr, ih next]

/-- Without bytes to insert, nothing comes of any number of calls for a segment without bytes. -/
theorem calls_of_memsz_zero (hmemsz : seg.memsz.toNat = 0)
    (hempty : ∀ s ∈ elf.sections, s.isInserted = true → s.size.toNat = 0)
    (hpos : ∀ s ∈ elf.sections, s.isInserted = true → dataOffset seg s ≤ seg.memsz.toNat)
    (mems : List Memory) :
    mems.foldlM (fun content mem => initSegment elf seg mem content) [] = .ok [] := by
  induction mems with
  | nil => rfl
  | cons mem mems ih =>
      have hcall : initSegment elf seg mem [] = .ok [] := by
        rw [initSegment_of_empty hempty, hmemsz]
        refine ⟨rfl, Nat.zero_le _, fun s hs hins => ?_⟩
        exact hmemsz ▸ hpos s hs hins
      exact foldlM_cons_eq_ok_iff.mpr ⟨[], hcall, ih⟩

/-! ## The image -/

/-- Where the zeros that a call puts in front are all that the image consists of, and nothing
else is added to them. -/
structure OnlyZeros (elf : ElfFile) (seg : SegmentInfo) (before : List Memory) (mem : Memory) :
    Prop where
  once : before = [] ∨ seg.memsz.toNat = 0
  notInserted : ∀ s ∈ elf.sections, s.isInserted = true →
    s.size.toNat = 0 ∧ dataOffset seg s ≤ seg.memsz.toNat
  zeros : ∀ s ∈ elf.sections, s.IsData → s.name ≠ ".bss" → ∀ b ∈ fileBytes elf mem s, b = 0
  fits : seg.memsz.toNat ≤ maxSize

/-- A section with data ends within the segment. -/
theorem ContainsData.dataOffset_add_le (h : ContainsData elf seg) {s : SectionInfo}
    (hs : s ∈ elf.sections) (hdata : s.IsData) :
    dataOffset seg s + s.size.toNat ≤ seg.memsz.toNat := by
  obtain ⟨hle, hend⟩ := h s hs hdata
  have hoffset : dataOffset seg s = s.memindex.toNat - seg.vaddr.toNat :=
    BitVec.toNat_sub_of_le hle
  omega

/-- The zeros are the image if and only if the bytes of the sections are zeros. -/
theorem dataImage_replicate_iff (hcontains : ContainsData elf seg) :
    DataImage elf seg mem (List.replicate seg.memsz.toNat 0) ↔
      ∀ s ∈ elf.sections, s.IsData → s.name ≠ ".bss" → ∀ b ∈ fileBytes elf mem s, b = 0 := by
  have hplaced : ∀ s ∈ elf.sections, s.IsData → ∀ k < s.size.toNat,
      (List.replicate seg.memsz.toNat (0 : Byte))[dataOffset seg s + k]? = some 0 := by
    intro s hs hdata k hk
    have hend := hcontains.dataOffset_add_le hs hdata
    exact List.getElem?_replicate_of_lt (by omega)
  constructor
  · intro himage s hs hdata hname b hb
    obtain ⟨k, hk, hbyte⟩ := List.mem_iff_getElem.mp hb
    have hsize : k < s.size.toNat := (length_fileBytes s) ▸ hk
    have hfile := himage.placed s hs hdata hname k hsize
    rw [hplaced s hs hdata k hsize, List.getElem?_eq_getElem hk, hbyte] at hfile
    exact (Option.some.inj hfile).symm
  · intro hzeros
    refine ⟨List.length_replicate, fun s hs hdata hname k hk => ?_,
      fun j hj _ => List.getElem?_replicate_of_lt hj⟩
    have hlt : k < (fileBytes elf mem s).length := (length_fileBytes s).symm ▸ hk
    rw [hplaced s hs hdata k hk, List.getElem?_eq_getElem hlt,
      hzeros s hs hdata hname _ (List.getElem_mem hlt)]

/-- `initData` builds the image of the data segment exactly where zeros suffice for it. -/
theorem dataImage_iff {name : String} (hname : name ≠ "[vdso]")
    (hseg : elf.findDataSegment = .ok seg) (hvaddr : seg.vaddr ≠ 0)
    (hcontains : ContainsData elf seg) (before : List Memory) (mem : Memory) :
    (∃ image, initDataCalls name elf (before ++ [mem]) = .ok image ∧
        DataImage elf seg mem image) ↔
      OnlyZeros elf seg before mem := by
  simp only [initDataCalls_eq_ok_iff hname hseg hvaddr]
  constructor
  · rintro ⟨image, hcalls, himage⟩
    -- no byte is added by a section, nor by a second call
    have hlength := length_calls hcalls
    rw [himage.size, List.length_nil, List.length_append, List.length_singleton, Nat.zero_add,
      Nat.succ_mul] at hlength
    have hempty := insertedSize_eq_zero_iff.mp (show insertedSize elf.sections = 0 by omega)
    have honce : before = [] ∨ seg.memsz.toNat = 0 := by
      have hbefore : before.length * (seg.memsz.toNat + insertedSize elf.sections) = 0 := by omega
      rcases Nat.mul_eq_zero.mp hbefore with hnil | hmemsz
      · exact Or.inl (List.length_eq_zero_iff.mp hnil)
      · exact Or.inr (Nat.eq_zero_of_add_eq_zero hmemsz).1
    obtain ⟨first, rest, hmems⟩ := List.exists_cons_of_ne_nil (List.concat_ne_nil mem before)
    rw [hmems] at hcalls
    obtain ⟨next, hfirst, hrest⟩ := foldlM_cons_eq_ok_iff.mp hcalls
    obtain ⟨hnext, hfits, hpos⟩ := (initSegment_of_empty hempty).mp hfirst
    have hzeros : image = List.replicate seg.memsz.toNat 0 := by
      rcases honce with rfl | hmemsz
      · obtain ⟨rfl, rfl⟩ := List.cons.inj hmems
        cases hrest
        rw [hnext, List.append_nil]
      · rw [hmemsz, List.replicate_zero, ← List.length_eq_zero_iff, himage.size, hmemsz]
    rw [hzeros] at himage
    exact ⟨honce, fun s hs hins => ⟨hempty s hs hins, hpos s hs hins⟩,
      (dataImage_replicate_iff hcontains).mp himage, hfits⟩
  · intro h
    have hempty := fun s hs hins => (h.notInserted s hs hins).1
    have hpos := fun s hs hins => (h.notInserted s hs hins).2
    refine ⟨List.replicate seg.memsz.toNat 0, ?_, (dataImage_replicate_iff hcontains).mpr h.zeros⟩
    rcases h.once with rfl | hmemsz
    · have hcall : initSegment elf seg mem [] = .ok (List.replicate seg.memsz.toNat 0) :=
        (initSegment_of_empty hempty).mpr ⟨(List.append_nil _).symm, h.fits, hpos⟩
      exact foldlM_cons_eq_ok_iff.mpr ⟨_, hcall, rfl⟩
    · rw [hmemsz]
      exact calls_of_memsz_zero hmemsz hempty hpos _

end

/-- The headers of a program with `.text` at `0x400000` and 16 bytes of `.data` at `0x601008`. -/
def dataLayout : ElfFile where
  e_type := ET_EXEC
  e_entry := 0x400000
  fileContent := 0
  elf64Shdr :=
    [ default,
      { (default : Elf64_Shdr) with
        sh_name := ".text", sh_type := SHT_PROGBITS, sh_flags := SHF_ALLOC ||| SHF_EXECINSTR,
        sh_addr := 0x400000, sh_offset := 0x1000, sh_size := 0x100 },
      { (default : Elf64_Shdr) with
        sh_name := ".data", sh_type := SHT_PROGBITS, sh_flags := SHF_WRITE ||| SHF_ALLOC,
        sh_addr := 0x601008, sh_offset := 0x2008, sh_size := 0x10 } ]
  shnum_lt := ElfFile.shnum_lt_three _ _ _
  segments :=
    [ ⟨PT_LOAD, PF_R ||| PF_X, 0x1000, 0x400000, 0x100, 0x100⟩,
      ⟨PT_LOAD, PF_R ||| PF_W, 0x2000, 0x601000, 0x18, 0x20⟩ ]
  rela _ := []
  sym _ _ := default
  symbolName _ _ := ""

/-- The segment that `findDataSegment` finds in it. -/
def dataLayoutSegment : SegmentInfo := ⟨PT_LOAD, PF_R ||| PF_W, 0x2000, 0x601000, 0x18, 0x20⟩

theorem containsData_dataLayout : ContainsData dataLayout dataLayoutSegment := by
  unfold ContainsData
  decide

/-- Of data that consists of zeros, one call makes the image. -/
theorem dataImage_zeros : ∃ image,
    initDataCalls "a.out" dataLayout ([] ++ [fun _ => 0]) = .ok image ∧
      DataImage dataLayout dataLayoutSegment (fun _ => 0) image := by
  refine (dataImage_iff (by decide) rfl (by decide) containsData_dataLayout _ _).mpr ?_
  exact ⟨Or.inl rfl, by decide, by decide, by decide⟩

/-- **The data is missing** after a call, and after the next call the content has twice the size
of the segment. -/
theorem dataImage_missing :
    dataLayout.findDataSegment = .ok dataLayoutSegment ∧ dataLayoutSegment.vaddr ≠ 0 ∧
      ContainsData dataLayout dataLayoutSegment ∧
      initDataCalls "a.out" dataLayout [fun _ => 0x2a] = .ok (List.replicate 0x20 0) ∧
      ¬ DataImage dataLayout dataLayoutSegment (fun _ => 0x2a) (List.replicate 0x20 0) ∧
      initDataCalls "a.out" dataLayout [fun _ => 0x2a, fun _ => 0x2a] =
        .ok (List.replicate 0x40 0) := by
  refine ⟨rfl, by decide, containsData_dataLayout, rfl, fun h => ?_, rfl⟩
  have hbyte := h.placed _ (List.mem_of_getElem? (i := 2) rfl) (by decide) (by decide) 0 (by decide)
  revert hbyte
  decide

end KernInt
