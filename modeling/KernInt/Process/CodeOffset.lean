import KernInt.Process.CodePage
import KernInt.Lib.Memory
import Mathlib.Data.Nat.Find

set_option autoImplicit false

/-! # Which bytes of the file are compared

`initText` copies the code segment from its offset in the file on, and `validateCodePage`
compares the first byte of that copy with the first byte of the mapping. The offset of the
mapping in the file plays no part in this. So the bytes that are compared belong together only
if the mapping starts where the segment does, or if nothing is compared at all
(`comparesMappedBytes_iff`).
-/

namespace KernInt

open Lib

/-- `n` bytes of the memory of the host. -/
def hostBytes (mem : Memory) (a : U64) (n : Nat) : List Byte :=
  (List.range n).map fun k => mem (a + BitVec.ofNat 64 k)

theorem length_hostBytes (mem : Memory) (a : U64) (n : Nat) : (hostBytes mem a n).length = n := by
  rw [hostBytes, List.length_map, List.length_range]

theorem getElem?_hostBytes (mem : Memory) (a : U64) {n k : Nat} (hk : k < n) :
    (hostBytes mem a n)[k]? = some (mem (a + BitVec.ofNat 64 k)) := by
  rw [hostBytes, List.getElem?_map, List.getElem?_range hk]
  rfl

/-- The size of the whole pages that hold a segment, and at most one more. -/
def SegmentInfo.pagesSize (seg : SegmentInfo) : Nat :=
  ((seg.filesz + 0x1000) / 0x1000 * 0x1000).toNat

namespace ElfUserspaceLoader

variable (loader : ElfUserspaceLoader)

/-- The pages of the code segment are put behind what the image holds already. -/
def initText (mem : Memory) : Except ElfError ElfUserspaceLoader :=
  match loader.elffile.findCodeSegment with
  | .error e => .error e
  | .ok textSegmentInfo =>
      let index := loader.elffile.fileContent + textSegmentInfo.offset
      .ok { loader with
        textSegmentContent := loader.textSegmentContent ++
          hostBytes mem index textSegmentInfo.pagesSize }

variable {loader}

theorem initText_eq_ok {mem : Memory} {binary : ElfUserspaceLoader}
    (h : loader.initText mem = .ok binary) (hempty : loader.textSegmentContent = []) :
    ∃ seg, loader.elffile.findCodeSegment = .ok seg ∧
      binary.textSegmentContent =
        hostBytes mem (loader.elffile.fileContent + seg.offset) seg.pagesSize := by
  unfold initText at h
  split at h
  · cases h
  · rename_i seg hseg
    refine ⟨seg, hseg, ?_⟩
    cases h
    rw [hempty, List.nil_append]

end ElfUserspaceLoader

namespace ProcessValidator

/-! ## What is compared -/

/-- The inner loop looks at the byte at offset `k` of the mapping: a read returns it, and no
byte of that read in front of it differs. -/
def ComparesAt (v : ProcessValidator) (vma : VMAInfo) (fileContent : List Byte) (k : Nat) : Prop :=
  ∃ bytesChecked j, Visits (v.codeRound vma fileContent) 0 bytesChecked ∧
    k = bytesChecked + j ∧
    j < min (fileContent.length - bytesChecked) (v.codevma vma bytesChecked).length ∧
    ∀ i < j, (v.codevma vma bytesChecked)[i]? = fileContent[bytesChecked + i]?

section

variable {v : ProcessValidator} {vma : VMAInfo} {fileContent : List Byte}

theorem firstChange_of_empty {bytesChecked : Nat} (h : v.codevma vma bytesChecked = []) :
    v.firstChange vma fileContent bytesChecked = none := by
  rw [firstChange, h, List.length_nil, Nat.min_zero, List.range_zero, List.find?_nil]

/-- As long as the reads return nothing, the loop goes on page by page. -/
theorem visits_of_empty {n : Nat} (hn : n * PAGESIZE < fileContent.length)
    (h : ∀ m < n, v.codevma vma (m * PAGESIZE) = []) :
    Visits (v.codeRound vma fileContent) 0 (n * PAGESIZE) := by
  induction n with
  | zero =>
      rw [Nat.zero_mul]
      exact .enter
  | succ n ih =>
      have hlt : n * PAGESIZE < fileContent.length :=
        Nat.lt_of_le_of_lt (Nat.mul_le_mul_right PAGESIZE (Nat.le_succ n)) hn
      have hvisit := ih hlt fun m hm => h m (by omega)
      refine .next hvisit ?_
      have hread := h n (Nat.lt_succ_self n)
      simp only [codeRound, if_pos hlt, firstChange_of_empty hread, hread, List.length_nil,
        Nat.add_zero]
      rw [Nat.succ_mul]

/-- Where no read returns anything, all heads are multiples of the page size. -/
theorem dvd_of_visits (h : ∀ n, n * PAGESIZE < fileContent.length →
    v.codevma vma (n * PAGESIZE) = []) {bytesChecked : Nat}
    (hv : Visits (v.codeRound vma fileContent) 0 bytesChecked) :
    PAGESIZE ∣ bytesChecked := by
  refine hv.invariant (fun bc => PAGESIZE ∣ bc) (Nat.dvd_zero _) fun s s' hs hround => ?_
  obtain ⟨hlt, -, rfl⟩ := codeRound_again hround
  obtain ⟨n, rfl⟩ := hs
  have hread : v.codevma vma (PAGESIZE * n) = [] := by
    rw [Nat.mul_comm]
    exact h n (by rwa [Nat.mul_comm])
  rw [hread, List.length_nil, Nat.add_zero, if_pos hlt]
  exact ⟨n + 1, rfl⟩

theorem not_comparesAt_of_empty (h : ∀ n, n * PAGESIZE < fileContent.length →
    v.codevma vma (n * PAGESIZE) = []) (k : Nat) : ¬ v.ComparesAt vma fileContent k := by
  rintro ⟨bc, j, hv, -, hj, -⟩
  obtain ⟨n, rfl⟩ := dvd_of_visits h hv
  have hread := h n (by rw [Nat.mul_comm]; omega)
  rw [Nat.mul_comm, hread, List.length_nil, Nat.min_zero] at hj
  exact Nat.not_lt_zero j hj

/-- The first read that returns something has its first byte compared. -/
theorem comparesAt_of_read {n : Nat} (hn : n * PAGESIZE < fileContent.length)
    (hread : v.codevma vma (n * PAGESIZE) ≠ [])
    (hfirst : ∀ m < n, v.codevma vma (m * PAGESIZE) = []) :
    v.ComparesAt vma fileContent (n * PAGESIZE) := by
  have hpos := List.length_pos_iff.mpr hread
  refine ⟨n * PAGESIZE, 0, visits_of_empty hn hfirst, (Nat.add_zero _).symm, by omega, ?_⟩
  intro i hi
  omega

end

/-! ## Where the compared bytes come from -/

/-- Whatever the file holds: the byte at offset `j` of the mapping is compared with the byte of
the file that lies `j` behind the offset of the mapping. `process` is any process whose loader
for the mapping, `binary`, has this file and a fresh image of its code segment. -/
def ComparesMappedBytes (vmi : VMIInstance) (vma : VMAInfo) (elf : ElfFile) : Prop :=
  ∀ (mem : Memory) (process : Process) (loader binary : ElfUserspaceLoader),
    loader.elffile = elf → loader.textSegmentContent = [] → loader.initText mem = .ok binary →
    (mk process vmi).binary vma = some binary →
    ∀ j, (mk process vmi).ComparesAt vma binary.textSegmentContent j →
      binary.textSegmentContent[j]? =
        some (mem (elf.fileContent + (vma.off * 0x1000 + BitVec.ofNat 64 j)))

/-- The read of `validateCodePage` at offset `k` of a mapping. -/
def codeRead (vmi : VMIInstance) (vma : VMAInfo) (k : Nat) : List Byte :=
  vmi.readVectorFromVA (vma.start + BitVec.ofNat 64 k)
    (vma.stop - vma.start - BitVec.ofNat 64 k) false

section

variable {vmi : VMIInstance} {vma : VMAInfo} {elf : ElfFile} {seg : SegmentInfo}

theorem ComparesAt.lt_length {v : ProcessValidator} {fileContent : List Byte} {k : Nat}
    (h : v.ComparesAt vma fileContent k) : k < fileContent.length := by
  obtain ⟨bc, j, -, rfl, hj, -⟩ := h
  omega

/-- A process whose only file is this one. -/
def processOf (vma : VMAInfo) (binary : ElfUserspaceLoader) : Process where
  name := vma.name
  mappedVMAs := [vma]
  execLoader := binary
  findLoaderByFileName := fun _ => none
  symbols := { getElfSymbolName := fun _ => "", getContainingSymbol := fun _ => 0 }

theorem binary_processOf (binary : ElfUserspaceLoader) :
    (mk (processOf vma binary) vmi).binary vma = some binary := by
  apply if_pos
  rw [List.isSuffixOf_iff_suffix]
  exact List.suffix_refl _

theorem comparesMappedBytes_of_offset (hseg : elf.findCodeSegment = .ok seg)
    (h : seg.offset = vma.off * 0x1000) : ComparesMappedBytes vmi vma elf := by
  rintro mem process loader binary rfl hempty hinit - j hj
  obtain ⟨seg', hseg', htext⟩ := ElfUserspaceLoader.initText_eq_ok hinit hempty
  rw [hseg] at hseg'
  cases hseg'
  have hlt := hj.lt_length
  rw [htext, length_hostBytes] at hlt
  rw [htext, getElem?_hostBytes mem _ hlt, h, BitVec.add_assoc]

theorem comparesMappedBytes_of_empty (hseg : elf.findCodeSegment = .ok seg)
    (h : ∀ n, n * PAGESIZE < seg.pagesSize → codeRead vmi vma (n * PAGESIZE) = []) :
    ComparesMappedBytes vmi vma elf := by
  rintro mem process loader binary rfl hempty hinit - j hj
  obtain ⟨seg', hseg', htext⟩ := ElfUserspaceLoader.initText_eq_ok hinit hempty
  rw [hseg] at hseg'
  cases hseg'
  refine absurd hj (not_comparesAt_of_empty (fun n hn => ?_) j)
  rw [htext, length_hostBytes] at hn
  exact h n hn

theorem exists_first_read {size n : Nat} (hn : n * PAGESIZE < size)
    (hread : codeRead vmi vma (n * PAGESIZE) ≠ []) :
    ∃ m, m * PAGESIZE < size ∧ codeRead vmi vma (m * PAGESIZE) ≠ [] ∧
      ∀ i < m, codeRead vmi vma (i * PAGESIZE) = [] := by
  have hex : ∃ n, codeRead vmi vma (n * PAGESIZE) ≠ [] := ⟨n, hread⟩
  refine ⟨Nat.find hex, ?_, Nat.find_spec hex, fun i hi => not_not.mp (Nat.find_min hex hi)⟩
  calc Nat.find hex * PAGESIZE
      ≤ n * PAGESIZE := Nat.mul_le_mul_right PAGESIZE (Nat.find_min' hex hread)
    _ < size := hn

/-- A file in which one byte differs from all others shows it, if this is the byte that is
compared first. -/
theorem not_comparesMappedBytes (hseg : elf.findCodeSegment = .ok seg)
    (hoff : seg.offset ≠ vma.off * 0x1000) {n : Nat} (hn : n * PAGESIZE < seg.pagesSize)
    (hread : codeRead vmi vma (n * PAGESIZE) ≠ []) : ¬ ComparesMappedBytes vmi vma elf := by
  obtain ⟨m, hm, hread, hfirst⟩ := exists_first_read hn hread
  set k := m * PAGESIZE with hk
  -- the file is zero but for the byte that the image has at `k`: its segment starts elsewhere
  -- than the mapping, so the mapped page has another byte there
  let a := elf.fileContent + seg.offset + BitVec.ofNat 64 k
  let mem : Memory := fun a' => if a' = a then 1 else 0
  let image := hostBytes mem (elf.fileContent + seg.offset) seg.pagesSize
  have himage : image[k]? = some 1 := by
    rw [getElem?_hostBytes mem _ hm]
    exact congrArg some (if_pos rfl)
  let loader : ElfUserspaceLoader :=
    { name := vma.name, textSegmentContent := [], hostMemory := fun _ => 0, elffile := elf }
  let binary : ElfUserspaceLoader := { loader with textSegmentContent := image }
  have hinit : loader.initText mem = .ok binary := by
    simp only [ElfUserspaceLoader.initText, loader, hseg, List.nil_append, binary, image]
  have hcompared : (mk (processOf vma binary) vmi).ComparesAt vma image k := by
    refine comparesAt_of_read ?_ hread hfirst
    rw [length_hostBytes]
    exact hm
  have hne : elf.fileContent + (vma.off * 0x1000 + BitVec.ofNat 64 k) ≠ a := by
    intro heq
    unfold a at heq
    rw [BitVec.add_assoc, BitVec.add_right_inj, BitVec.add_left_inj] at heq
    exact hoff heq.symm
  intro h
  have hbyte : image[k]? = some 0 := by
    rw [h mem _ loader binary rfl rfl hinit (binary_processOf binary) k hcompared]
    exact congrArg some (if_neg hne)
  rw [himage] at hbyte
  exact absurd hbyte (by decide)

/-- **The bytes that are compared belong together** exactly if the code segment has the offset
of the mapping, or no read at a page boundary of the image returns anything. -/
theorem comparesMappedBytes_iff : ComparesMappedBytes vmi vma elf ↔
    ∀ seg, elf.findCodeSegment = .ok seg → seg.offset = vma.off * 0x1000 ∨
      ∀ n, n * PAGESIZE < seg.pagesSize → codeRead vmi vma (n * PAGESIZE) = [] := by
  constructor
  · intro h seg hseg
    by_contra hno
    obtain ⟨hoff, hex⟩ := not_or.mp hno
    obtain ⟨n, hn⟩ := not_forall.mp hex
    obtain ⟨hlt, hread⟩ := Classical.not_imp.mp hn
    exact not_comparesMappedBytes hseg hoff hlt hread h
  · intro h
    cases hseg : elf.findCodeSegment with
    | error e =>
        rintro mem process loader binary rfl hempty hinit - j -
        obtain ⟨seg, hseg', -⟩ := ElfUserspaceLoader.initText_eq_ok hinit hempty
        rw [hseg] at hseg'
        cases hseg'
    | ok seg =>
        rcases h seg hseg with hoff | hread
        · exact comparesMappedBytes_of_offset hseg hoff
        · exact comparesMappedBytes_of_empty hseg hread

end

/-! ## The second page of a program -/

/-- A program with two pages of code. -/
def twoPagesOfCode : SegmentInfo where
  type := PT_LOAD
  flags := PF_X ||| PF_R
  offset := 0
  vaddr := 0x400000
  filesz := 0x1800
  memsz := 0x1800

def twoPages : ElfFile := { emptyElfFile with segments := [twoPagesOfCode] }

/-- The mapping of the second page, as it stands alone after the rights of the first one have
been changed. -/
def secondPage : VMAInfo where
  start := 0x401000
  stop := 0x402000
  ino := 7
  off := 1
  flags := 0x5
  name := "/bin/prog"
  start_lt_stop := by decide

def allMapped : VMIInstance where
  readVectorFromVA := fun _ n _ => List.replicate n.toNat 0x90

/-- The second page is compared with the first page of the file. -/
theorem validateCodePage_ignores_offset : ¬ ComparesMappedBytes allMapped secondPage twoPages := by
  have hseg : twoPages.findCodeSegment = .ok twoPagesOfCode := rfl
  refine @not_comparesMappedBytes _ _ _ _ hseg (by decide) 0 (by decide) ?_
  show List.replicate (0x1000 : U64).toNat 0x90 ≠ []
  rw [Ne, List.replicate_eq_nil_iff]
  decide

end ProcessValidator

end KernInt
