import KernInt.Elf.ElfFile
import KernInt.Lib.Bytes
import KernInt.Lib.Scan

set_option autoImplicit false

/-! # The comparison of a page of read-only data

`validateDataPage` compares a page in the range of `.rodata` with the content of the kernel file.
A difference is reported, unless the eight bytes from it on are the address of
`kvm_guest_apic_eoi_write`, which are passed over, or it lies at one of two addresses that are
written into the source, where the comparison ends.

The loop runs up to `count <= page->size` and so comes to an index behind the page, whenever it is
not left before. It is left before for a page at one of the two addresses only, or a difference
behind its end is dropped (`roDataChecked_iff`).
-/

namespace KernInt

open Lib

/-- The addresses of the pages that are expected to be zero, for the kernels 3.8 and 3.16. -/
def zeroPages : List U64 := [0xffff81aef000, 0xffff817c6000]

/-- A page that lies in the range of the kernel's read-only data, as `readVectorFromVA` has read
it. A page has one of the sizes of the hardware and starts at a multiple of it. Reads behind the
end of the two arrays return what the host has there, `hostPage` and `hostRoData`. -/
structure RoPage where
  vaddr : U64
  size : Nat
  page : List Byte
  hostPage : Nat → Byte
  roDataSection : SectionInfo
  roData : List Byte
  hostRoData : Nat → Byte
  getFunctionAddress : String → U64
  page_length : page.length = size
  size_mem : size ∈ [0x1000, 0x200000, 0x400000, 0x40000000]
  aligned : size ∣ vaddr.toNat
  inRange : contains (roDataSection.memindex &&& 0xffffffffffff) roDataSection.size vaddr = true

namespace RoPage

variable (p : RoPage)

def roDataOffset : U64 := p.roDataSection.memindex &&& 0xffffffffffff

/-- `pageInMem[i]`. -/
def pageInMem (i : Nat) : Byte := bufferOf p.page p.hostPage i

/-- `loadedPage[i]`. -/
def loadedPage (i : Nat) : Byte :=
  bufferOf p.roData p.hostRoData ((p.vaddr - p.roDataOffset).toNat + i)

def currentPtr (count : Nat) : U64 := load64 p.pageInMem count

def Differs (i : Nat) : Prop := p.loadedPage i ≠ p.pageInMem i

instance (i : Nat) : Decidable (p.Differs i) := inferInstanceAs (Decidable (¬ _ = _))

/-- The value that the guest writes over a pointer of the file. -/
def IsEoiWrite (count : Nat) : Prop :=
  p.getFunctionAddress "kvm_guest_apic_eoi_write" = p.currentPtr count

instance (count : Nat) : Decidable (p.IsEoiWrite count) := inferInstanceAs (Decidable (_ = _))

/-- One round of the loop. What it notes is the index of a difference that is reported. -/
def roStep (count : Nat) : ScanStep Nat :=
  if p.Differs count then
    if p.IsEoiWrite count then .pass 7 none
    else if BitVec.ofNat 64 count + p.vaddr ∈ zeroPages then .stop
    else .pass 0 (some count)
  else .pass 0 none

/-- `memcmp` finds no difference. -/
def Intact : Prop := ∀ i < p.size, ¬ p.Differs i

instance : Decidable p.Intact := inferInstanceAs (Decidable (∀ i < _, ¬ _))

/-- The values that `count` has in the loop. -/
def counts : List Nat := if p.Intact then [] else positions p.roStep (p.size + 1) 0

/-- The differences that are reported. -/
def reports : List Nat := p.counts.filterMap fun count => (p.roStep count).note

/-- The reads of the loop stay inside of the page, and no difference is dropped, unless the page
is expected to be zero. -/
structure Checked : Prop where
  compared_inside : ∀ count ∈ p.counts, count < p.size
  pointer_inside : ∀ count ∈ p.counts, p.Differs count → count + 8 ≤ p.size
  display_inside : ∀ count ∈ p.reports,
    DisplayInside (BitVec.ofNat 32 count) (BitVec.ofNat 32 p.size) p.size
  complete : p.vaddr ∉ zeroPages → ∀ i < p.size, p.Differs i →
    i ∈ p.reports ∨ ∃ count ∈ p.counts, p.Differs count ∧ p.IsEoiWrite count ∧
      count ≤ i ∧ i < count + 8

variable {p} {count i : Nat}

/-! ## One round -/

theorem roStep_of_same (h : ¬ p.Differs count) : p.roStep count = .pass 0 none := if_neg h

theorem roStep_of_eoiWrite (h : p.Differs count) (hptr : p.IsEoiWrite count) :
    p.roStep count = .pass 7 none := by
  rw [roStep, if_pos h, if_pos hptr]

theorem roStep_of_zeroPage (h : p.Differs count) (hptr : ¬ p.IsEoiWrite count)
    (hzero : BitVec.ofNat 64 count + p.vaddr ∈ zeroPages) : p.roStep count = .stop := by
  rw [roStep, if_pos h, if_neg hptr, if_pos hzero]

theorem roStep_of_report (h : p.Differs count) (hptr : ¬ p.IsEoiWrite count)
    (hzero : BitVec.ofNat 64 count + p.vaddr ∉ zeroPages) :
    p.roStep count = .pass 0 (some count) := by
  rw [roStep, if_pos h, if_neg hptr, if_neg hzero]

/-- A position hides others behind it in two ways. -/
theorem hides_roStep (h : Hides p.roStep count i) : count < i ∧ p.Differs count ∧
    (p.IsEoiWrite count ∧ i < count + 8 ∨
      ¬ p.IsEoiWrite count ∧ BitVec.ofNat 64 count + p.vaddr ∈ zeroPages) := by
  by_cases hdiff : p.Differs count
  · by_cases hptr : p.IsEoiWrite count
    · have hrange := (hides_of_pass (roStep_of_eoiWrite hdiff hptr)).mp h
      exact ⟨hrange.1, hdiff, .inl ⟨hptr, by omega⟩⟩
    · by_cases hzero : BitVec.ofNat 64 count + p.vaddr ∈ zeroPages
      · exact ⟨h.1, hdiff, .inr ⟨hptr, hzero⟩⟩
      · have hrange := (hides_of_pass (roStep_of_report hdiff hptr hzero)).mp h
        omega
  · have hrange := (hides_of_pass (roStep_of_same hdiff)).mp h
    omega

theorem mem_reports_iff : i ∈ p.reports ↔ i ∈ p.counts ∧ p.roStep i = .pass 0 (some i) := by
  unfold reports
  rw [List.mem_filterMap]
  constructor
  · rintro ⟨count, hcount, hnote⟩
    unfold roStep at hnote
    split at hnote
    · split at hnote
      · cases hnote
      split at hnote
      · cases hnote
      · rename_i hdiff hptr hzero
        cases hnote
        exact ⟨hcount, roStep_of_report hdiff hptr hzero⟩
    · cases hnote
  · rintro ⟨hcount, hstep⟩
    exact ⟨i, hcount, by rw [hstep]; rfl⟩

theorem counts_of_differs (h : ¬ p.Intact) : p.counts = positions p.roStep (p.size + 1) 0 :=
  if_neg h

theorem size_ge : 0x1000 ≤ p.size := by
  have hmem := p.size_mem
  simp only [List.mem_cons, List.not_mem_nil, or_false] at hmem
  omega

/-! ## Where the loop is left -/

/-- A loop that does not come to the index behind the page reads a pointer over its end, or is
left. -/
theorem exists_left_of_size_not_mem (h : ¬ p.Intact) (hsize : p.size ∉ p.counts) :
    ∃ count ∈ p.counts, p.Differs count ∧ (p.size < count + 8 ∨
      count < p.size ∧ ¬ p.IsEoiWrite count ∧ BitVec.ofNat 64 count + p.vaddr ∈ zeroPages) := by
  rw [counts_of_differs h] at hsize ⊢
  rw [mem_positions_iff] at hsize
  push Not at hsize
  obtain ⟨count, hcount, hhides⟩ := hsize (Nat.zero_le _) (Nat.lt_succ_self _)
  obtain ⟨hlt, hdiff, hkind⟩ := hides_roStep hhides
  refine ⟨count, hcount, hdiff, ?_⟩
  rcases hkind with ⟨-, hover⟩ | ⟨hptr, hzero⟩
  · exact .inl hover
  · exact .inr ⟨hlt, hptr, hzero⟩

/-- A page at one of the two addresses is small, and the loop is left at its first byte only. -/
theorem eq_zero_of_zeroPages (hpage : p.vaddr ∈ zeroPages) (hlt : count < p.size)
    (hzero : BitVec.ofNat 64 count + p.vaddr ∈ zeroPages) : count = 0 := by
  have hsize := p.size_mem
  have haligned := p.aligned
  simp only [zeroPages, List.mem_cons, List.not_mem_nil, or_false] at hpage hzero hsize
  have hsmall : p.size = 0x1000 := by
    rcases hpage with heq | heq <;> rw [heq] at haligned <;>
      rcases hsize with h | h | h | h <;> rw [h] at haligned ⊢ <;> revert haligned <;> decide
  have hbound : count < 0x1000 := by omega
  rcases hpage with heq | heq <;> rw [heq] at hzero <;> bv_omega

/-- **What the checks of the page ask for.** -/
theorem intact_or_zeroPage_of_checked (h : p.Checked) :
    p.Intact ∨ p.vaddr ∈ zeroPages ∧ p.Differs 0 ∧ ¬ p.IsEoiWrite 0 := by
  by_cases hintact : p.Intact
  · exact .inl hintact
  · right
    have hsize : p.size ∉ p.counts := fun hmem => Nat.lt_irrefl _ (h.compared_inside _ hmem)
    obtain ⟨count, hcount, hdiff, hleft⟩ := exists_left_of_size_not_mem hintact hsize
    have hinside := h.pointer_inside count hcount hdiff
    obtain hover | ⟨hlt, hptr, hzero⟩ := hleft
    · omega
    by_cases hpage : p.vaddr ∈ zeroPages
    · obtain rfl := eq_zero_of_zeroPages hpage hlt hzero
      exact ⟨hpage, hdiff, hptr⟩
    · -- the difference at which the loop is left is neither reported nor passed over
      exfalso
      rcases h.complete hpage count hlt hdiff with hreport | ⟨k, hk, hkdiff, hkptr, hle, hbehind⟩
      · have hstep := (mem_reports_iff.mp hreport).2
        rw [roStep_of_zeroPage hdiff hptr hzero] at hstep
        cases hstep
      · rw [counts_of_differs hintact] at hk hcount
        have hne : k ≠ count := fun heq => hptr (heq ▸ hkptr)
        refine (mem_positions_iff.mp hcount).2.2 k hk ?_
        rw [hides_of_pass (roStep_of_eoiWrite hkdiff hkptr)]
        omega

/-- **A page of read-only data is checked** within its bounds and completely exactly if it is as
in the file, or is one of the two that are expected to be zero and the loop is left at its first
byte. -/
theorem roDataChecked_iff :
    p.Checked ↔ p.Intact ∨ p.vaddr ∈ zeroPages ∧ p.Differs 0 ∧ ¬ p.IsEoiWrite 0 := by
  refine ⟨intact_or_zeroPage_of_checked, fun h => ?_⟩
  by_cases hintact : p.Intact
  · -- the loop is not entered
    have hcounts : p.counts = [] := if_pos hintact
    refine ⟨fun count hcount => ?_, fun count hcount => ?_, fun count hreport => ?_,
      fun _ i hi hdiff => absurd hdiff (hintact i hi)⟩
    · simp [hcounts] at hcount
    · simp [hcounts] at hcount
    · simp [reports, hcounts] at hreport
  · -- the loop is left in its first round
    obtain ⟨hpage, hdiff, hptr⟩ := h.resolve_left hintact
    have hstop : p.roStep 0 = .stop := roStep_of_zeroPage hdiff hptr (by simpa using hpage)
    have hcounts : p.counts = [0] := by
      rw [counts_of_differs hintact, positions_of_stop (Nat.succ_pos _) hstop]
    have hsize := @size_ge p
    refine ⟨fun count hcount => ?_, fun count hcount _ => ?_, fun count hreport => ?_,
      fun hno => absurd hpage hno⟩
    · rw [hcounts, List.mem_singleton] at hcount
      omega
    · rw [hcounts, List.mem_singleton] at hcount
      omega
    · simp [reports, hcounts, hstop, ScanStep.note] at hreport

/-! ## A byte that has changed -/

def changedBytes : List Byte := (List.replicate 0x1000 0).set 5 0xcc

theorem length_changedBytes : changedBytes.length = 0x1000 := by
  rw [changedBytes, List.length_set, List.length_replicate]

theorem size_mem_4K : 0x1000 ∈ [0x1000, 0x200000, 0x400000, 0x40000000] := by
  decide

/-- The first page of a kernel's `.rodata`, whose bytes are 0 in the file. In the guest, the one
at 5 has another value. -/
def changedPage : RoPage where
  vaddr := 0xffff81600000
  size := 0x1000
  page := changedBytes
  hostPage := fun _ => 0
  roDataSection := { SectionInfo.empty with memindex := 0xffffffff81600000, size := 0x1000 }
  roData := List.replicate 0x1000 0
  hostRoData := fun _ => 0
  getFunctionAddress := fun _ => 0xffffffff81050000
  page_length := length_changedBytes
  size_mem := size_mem_4K
  aligned := ⟨0xffff81600, rfl⟩
  inRange := rfl

theorem changedPage_pageInMem (i : Nat) :
    changedPage.pageInMem i = if i = 5 then 0xcc else 0 := by
  show ((List.replicate 0x1000 (0 : Byte)).set 5 0xcc).getD i 0 = _
  rw [List.getD_eq_getElem?_getD, List.getElem?_set, List.length_replicate]
  by_cases hi : i = 5
  · subst hi
    rfl
  · have hne : ¬ 5 = i := fun h => hi h.symm
    rw [if_neg hne, if_neg hi, List.getElem?_replicate]
    split <;> rfl

theorem changedPage_loadedPage (i : Nat) : changedPage.loadedPage i = 0 := by
  show (List.replicate 0x1000 (0 : Byte)).getD _ 0 = 0
  rw [List.getD_eq_getElem?_getD, List.getElem?_replicate]
  split <;> rfl

theorem changedPage_differs_iff : changedPage.Differs i ↔ i = 5 := by
  unfold Differs
  rw [changedPage_loadedPage, changedPage_pageInMem]
  by_cases hi : i = 5
  · simp [hi]
  · simp [hi]

/-- The loop goes on to the index behind the page. -/
theorem changedPage_reads_behind :
    changedPage.vaddr ∉ zeroPages ∧ 0x1000 ∈ changedPage.counts ∧ ¬ changedPage.Checked := by
  have hintact : ¬ changedPage.Intact := fun h =>
    h 5 (by decide) (changedPage_differs_iff.mpr rfl)
  have hptr : ¬ changedPage.IsEoiWrite 5 := by
    unfold IsEoiWrite currentPtr
    decide
  have hpage : changedPage.vaddr ∉ zeroPages := by decide
  have hmem : 0x1000 ∈ changedPage.counts := by
    rw [counts_of_differs hintact, mem_positions_iff]
    refine ⟨by decide, by decide, fun k _ hhides => ?_⟩
    obtain ⟨-, hdiff, hkind⟩ := hides_roStep hhides
    obtain rfl := changedPage_differs_iff.mp hdiff
    rcases hkind with ⟨hptr', -⟩ | ⟨-, hzero⟩
    · exact hptr hptr'
    · exact absurd hzero (by decide)
  refine ⟨hpage, hmem, fun h => ?_⟩
  rcases intact_or_zeroPage_of_checked h with h | h
  · exact hintact h
  · exact hpage h.1

end RoPage

end KernInt
