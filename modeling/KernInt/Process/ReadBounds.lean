import KernInt.Process.CodeOffset

set_option autoImplicit false

/-! # Reads behind the end

`initText` copies the code segment in whole pages, and always one page more than the whole pages
that the segment has. The last page that it copies may lie behind what is readable: the content of
a file is mapped up to the end of its last page, and that of the vDSO is a vector.

When the code of a process differs from this copy, `displayChange` prints the bytes around the
change. It is given one size, that of the whole copy, for two buffers: the bytes that have just
been read from the guest, and the rest of the copy.
-/

namespace KernInt

open Lib

/-- The content of a file on the host, with the code segment inside of it. `vdso` tells that it is
a vector that has been read from the guest; otherwise the file is mapped. -/
structure FileContent where
  elffile : ElfFile
  size : Nat
  vdso : Bool
  size_lt : size < 2 ^ 63
  codeSegment : SegmentInfo
  findCodeSegment : elffile.findCodeSegment = .ok codeSegment
  inside : codeSegment.offset.toNat + codeSegment.filesz.toNat ≤ size

namespace FileContent

variable (f : FileContent)

/-- The number of bytes that can be read. -/
def readable : Nat :=
  if f.vdso then f.size else (f.size + 0xfff) / 0x1000 * 0x1000

/-- The offsets in the file that `initText` reads. -/
def initTextReads : List Nat :=
  (List.range f.codeSegment.pagesSize).map fun k => f.codeSegment.offset.toNat + k

variable {f}

theorem pagesSize_eq :
    f.codeSegment.pagesSize = (f.codeSegment.filesz.toNat / 0x1000 + 1) * 0x1000 := by
  have hsize := f.size_lt
  have hinside := f.inside
  have hadd : (f.codeSegment.filesz + 0x1000).toNat = f.codeSegment.filesz.toNat + 0x1000 := by
    rw [BitVec.toNat_add]
    exact Nat.mod_eq_of_lt (by simp; omega)
  rw [SegmentInfo.pagesSize, BitVec.toNat_mul, BitVec.toNat_udiv, hadd]
  simp
  omega

/-- The copy depends on these bytes of the file, and on no others. -/
theorem initText_congr {mem mem' : Memory} {loader : ElfUserspaceLoader}
    (hfile : loader.elffile = f.elffile)
    (h : ∀ k ∈ f.initTextReads, mem (f.elffile.fileContent + BitVec.ofNat 64 k) =
      mem' (f.elffile.fileContent + BitVec.ofNat 64 k)) :
    loader.initText mem = loader.initText mem' := by
  have hbytes : hostBytes mem (f.elffile.fileContent + f.codeSegment.offset)
      f.codeSegment.pagesSize = hostBytes mem' (f.elffile.fileContent + f.codeSegment.offset)
      f.codeSegment.pagesSize := by
    refine List.map_congr_left fun k hk => ?_
    have hread := h _ (List.mem_map_of_mem hk)
    rw [BitVec.ofNat_add, BitVec.ofNat_toNat, BitVec.setWidth_eq, ← BitVec.add_assoc] at hread
    exact hread
  unfold ElfUserspaceLoader.initText
  rw [hfile, f.findCodeSegment]
  dsimp only
  rw [hbytes]

theorem initTextReads_inside_iff : (∀ k ∈ f.initTextReads, k < f.readable) ↔
    f.codeSegment.offset.toNat + (f.codeSegment.filesz.toNat / 0x1000 + 1) * 0x1000 ≤
      f.readable := by
  have hsize := @pagesSize_eq f
  constructor
  · intro h
    have hlast := h (f.codeSegment.offset.toNat + (f.codeSegment.pagesSize - 1)) <| by
      refine List.mem_map_of_mem (List.mem_range.mpr ?_)
      omega
    omega
  · intro h k hk
    obtain ⟨n, hn, rfl⟩ := List.mem_map.mp hk
    have hn := List.mem_range.mp hn
    omega

end FileContent

namespace ProcessValidator

section

variable {v : ProcessValidator} {vma : VMAInfo} {loader : ElfUserspaceLoader} {name : String}
  {bytesChecked j : Nat}

/-- A mismatch that is reported lies in what has been read and in the rest of the copy. -/
theorem mismatch_inside (hbinary : v.binary vma = some loader)
    (hreport : v.validateCodePage vma = some (.mismatch name bytesChecked j)) :
    bytesChecked + j < loader.textSegmentContent.length ∧
      j < (v.codevma vma bytesChecked).length := by
  rw [validateCodePage, hbinary] at hreport
  obtain ⟨bc, -, hleave⟩ := exists_visits_leave
    (v.codeRound_decreases vma loader.textSegmentContent) 0
  rw [show loop _ _ _ 0 = _ from hreport] at hleave
  rcases codeRound_leave hleave with ⟨j', hfirst, -, heq⟩ | ⟨-, hnone⟩
  · cases heq
    obtain ⟨htext, hread, -⟩ := firstChange_eq_some hfirst
    exact ⟨htext, hread⟩
  · cases hnone

/-- An `int32_t` that a size becomes is not greater, unless it is negative. -/
theorem toInt_ofNat_le {n : Nat} (h : 0 ≤ (BitVec.ofNat 32 n).toInt) :
    (BitVec.ofNat 32 n).toInt ≤ n := by
  rw [BitVec.toInt_eq_toNat_cond, BitVec.toNat_ofNat] at h ⊢
  split
  · omega
  · rename_i hlarge
    rw [if_neg hlarge] at h
    omega

theorem display_inside_iff (hbinary : v.binary vma = some loader)
    (hreport : v.validateCodePage vma = some (.mismatch name bytesChecked j)) :
    (DisplayInside (BitVec.ofNat 32 j) (BitVec.ofNat 32 loader.textSegmentContent.length)
        (v.codevma vma bytesChecked).length ∧
      DisplayInside (BitVec.ofNat 32 j) (BitVec.ofNat 32 loader.textSegmentContent.length)
        (loader.textSegmentContent.length - bytesChecked)) ↔
    0 ≤ (BitVec.ofNat 32 j).toInt ∧ (BitVec.ofNat 32 j).toInt + 15 < 2 ^ 31 ∧
      min ((BitVec.ofNat 32 j).toInt + 15)
          (BitVec.ofNat 32 loader.textSegmentContent.length).toInt ≤
        min (v.codevma vma bytesChecked).length
          (loader.textSegmentContent.length - bytesChecked) := by
  obtain ⟨htext, hread⟩ := mismatch_inside hbinary hreport
  have hle := @toInt_ofNat_le j
  rw [displayInside_iff, displayInside_iff]
  constructor
  · rintro ⟨⟨hpos, hoverflow, -, hmem⟩, -, -, -, href⟩
    exact ⟨hpos, hoverflow, by omega⟩
  · rintro ⟨hpos, hoverflow, hblock⟩
    have hle := hle hpos
    exact ⟨⟨hpos, hoverflow, by omega, by omega⟩, hpos, hoverflow, by omega, by omega⟩

/-- **The reads of the copy and of the report are in bounds** exactly if the page that is copied
on top is readable, and the block around the change is in both buffers. -/
theorem readBounds_iff (f : FileContent) (hbinary : v.binary vma = some loader)
    (hreport : v.validateCodePage vma = some (.mismatch name bytesChecked j)) :
    ((∀ k ∈ f.initTextReads, k < f.readable) ↔
      f.codeSegment.offset.toNat + (f.codeSegment.filesz.toNat / 0x1000 + 1) * 0x1000 ≤
        f.readable) ∧
    ((DisplayInside (BitVec.ofNat 32 j) (BitVec.ofNat 32 loader.textSegmentContent.length)
        (v.codevma vma bytesChecked).length ∧
      DisplayInside (BitVec.ofNat 32 j) (BitVec.ofNat 32 loader.textSegmentContent.length)
        (loader.textSegmentContent.length - bytesChecked)) ↔
    0 ≤ (BitVec.ofNat 32 j).toInt ∧ (BitVec.ofNat 32 j).toInt + 15 < 2 ^ 31 ∧
      min ((BitVec.ofNat 32 j).toInt + 15)
          (BitVec.ofNat 32 loader.textSegmentContent.length).toInt ≤
        min (v.codevma vma bytesChecked).length
          (loader.textSegmentContent.length - bytesChecked)) :=
  ⟨FileContent.initTextReads_inside_iff, display_inside_iff hbinary hreport⟩

end

/-! ## A page of code -/

/-- A file of one page, all of it code. -/
def onePageOfCode : SegmentInfo where
  type := PT_LOAD
  flags := PF_X ||| PF_R
  offset := 0
  vaddr := 0x400000
  filesz := 0x1000
  memsz := 0x1000

def onePageFile : FileContent where
  elffile := { emptyElfFile with segments := [onePageOfCode] }
  size := 0x1000
  vdso := false
  size_lt := by decide
  codeSegment := onePageOfCode
  findCodeSegment := rfl
  inside := by decide

/-- A program whose copy has two pages. The first one can be read, and its byte at `0xfff` has
changed. -/
def lastByteChanged : ProcessValidator where
  process :=
    { name := "/bin/prog"
      mappedVMAs := []
      execLoader :=
        { name := "/bin/prog"
          textSegmentContent := List.replicate 0x2000 0x90
          hostMemory := fun _ => 0
          elffile := onePageFile.elffile }
      findLoaderByFileName := fun _ => none
      symbols := { getElfSymbolName := fun _ => "", getContainingSymbol := fun _ => 0 } }
  vmi := { readVectorFromVA := fun _ _ _ => List.replicate 0xfff 0x90 ++ [0xcc] }

theorem lastByteChanged_binary :
    lastByteChanged.binary programText = some lastByteChanged.process.execLoader :=
  if_pos (by decide)

theorem lastByteChanged_read : (lastByteChanged.codevma programText 0).length = 0x1000 := by
  show (List.replicate 0xfff (0x90 : Byte) ++ [0xcc]).length = 0x1000
  rw [List.length_append, List.length_replicate]
  rfl

theorem lastByteChanged_report :
    lastByteChanged.validateCodePage programText = some (.mismatch "/bin/prog" 0 0xfff) := by
  have hcopy : lastByteChanged.process.execLoader.textSegmentContent.length = 0x2000 :=
    List.length_replicate
  have hbytes : lastByteChanged.codevma programText 0 = List.replicate 0xfff 0x90 ++ [0xcc] := rfl
  have htext : lastByteChanged.process.execLoader.textSegmentContent =
      List.replicate 0x2000 0x90 := rfl
  have hfirst : lastByteChanged.firstChange programText
      lastByteChanged.process.execLoader.textSegmentContent 0 = some 0xfff := by
    unfold firstChange
    refine List.find?_range_eq_some.mpr ⟨?_, ?_, fun j hj => ?_⟩
    · rw [hbytes, htext, List.getElem?_append_right (by rw [List.length_replicate]),
        List.length_replicate, List.getElem?_replicate_of_lt (by decide)]
      rfl
    · rw [hcopy, lastByteChanged_read]
      exact List.mem_range.mpr (by decide)
    · rw [hbytes, htext, List.getElem?_append_left (by rw [List.length_replicate]; exact hj),
        List.getElem?_replicate_of_lt hj, List.getElem?_replicate_of_lt (by omega)]
      rfl
  rw [validateCodePage, lastByteChanged_binary]
  refine loop_of_leave _ ?_
  rw [codeRound, if_pos (by rw [hcopy]; decide), hfirst]
  rfl

/-- The page behind the file is copied, and the report reads behind the page that was read. -/
theorem onePageFile_readBehind :
    (∃ k ∈ onePageFile.initTextReads, onePageFile.readable ≤ k) ∧
    ¬ DisplayInside 0xfff 0x2000 (lastByteChanged.codevma programText 0).length := by
  refine ⟨⟨0x1000, List.mem_map.mpr ⟨0x1000, List.mem_range.mpr (by decide), rfl⟩, by decide⟩, ?_⟩
  rw [displayInside_iff, lastByteChanged_read]
  decide

theorem readBounds_onePage :
    ((∀ k ∈ onePageFile.initTextReads, k < onePageFile.readable) ↔ 0x2000 ≤ 0x1000) ∧
    ((DisplayInside 0xfff 0x2000 0x1000 ∧ DisplayInside 0xfff 0x2000 0x2000) ↔
      min ((0xfff : Int) + 15) 0x2000 ≤ min 0x1000 0x2000) := by
  have hcopy : lastByteChanged.process.execLoader.textSegmentContent.length = 0x2000 :=
    List.length_replicate
  have h := readBounds_iff onePageFile lastByteChanged_binary lastByteChanged_report
  rw [hcopy, lastByteChanged_read] at h
  refine ⟨h.1, h.2.trans ?_⟩
  decide

end ProcessValidator

end KernInt
