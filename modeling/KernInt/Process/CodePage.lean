import KernInt.Process.Process
import KernInt.Lib.Loop

set_option autoImplicit false

/-! # The comparison of the code of a process

`ProcessValidator::validateCodePage` compares an executable mapping with the text segment of
the file that is mapped there. A read returns what is mapped up to the next unmapped page; the
bytes that were read are compared, and the loop goes on one page behind them.

The loop compares exactly the mapped bytes that the mapping and the text segment share, for
every pattern of mapped pages (`validateCodePage_complete`).
-/

namespace KernInt

open Lib

structure ProcessValidator where
  process : Process
  vmi : VMIInstance

/-- What `validateCodePage` prints: the warning about a file that is not loaded, or the first
mismatch, with the offset of the read and the offset in what was read. -/
inductive TextReport where
  | notADependency (name : String)
  | mismatch (name : String) (bytesChecked j : Nat)
  deriving DecidableEq

namespace ProcessValidator

variable (v : ProcessValidator) (vma : VMAInfo)

/-- The loader to compare with: that of the executable if the name of the process ends with
the name of the mapping. -/
def binary : Option ElfUserspaceLoader :=
  if vma.name.toList.isSuffixOf v.process.name.toList then some v.process.execLoader
  else v.process.findLoaderByFileName vma.name

/-- The read at the head of the loop; the length is computed in 64 bits. -/
def codevma (bytesChecked : Nat) : List Byte :=
  v.vmi.readVectorFromVA (vma.start + BitVec.ofNat 64 bytesChecked)
    (vma.stop - vma.start - BitVec.ofNat 64 bytesChecked) false

/-- The first `j` of the inner loop at which the bytes differ. -/
def firstChange (fileContent : List Byte) (bytesChecked : Nat) : Option Nat :=
  let memContent := v.codevma vma bytesChecked
  (List.range (min (fileContent.length - bytesChecked) memContent.length)).find? fun j =>
    memContent[j]? != fileContent[bytesChecked + j]?

def codeRound (fileContent : List Byte) (bytesChecked : Nat) :
    Round Nat (Option TextReport) :=
  if bytesChecked < fileContent.length then
    match v.firstChange vma fileContent bytesChecked with
    | some j => .leave (some (.mismatch vma.name bytesChecked j))
    | none =>
        let bytesChecked' := bytesChecked + (v.codevma vma bytesChecked).length
        -- an unmapped page cannot be modified
        .again (if bytesChecked' < fileContent.length then bytesChecked' + PAGESIZE
          else bytesChecked')
  else .leave none

theorem codeRound_decreases (fileContent : List Byte) :
    Decreases (v.codeRound vma fileContent) fun bytesChecked =>
      fileContent.length - bytesChecked := by
  intro s s' h
  unfold codeRound at h
  split at h
  · split at h
    · cases h
    · simp only [Round.again.injEq] at h
      subst h
      simp only [PAGESIZE]
      split <;> omega
  · cases h

def validateCodePage : Option TextReport :=
  match v.binary vma with
  | none => some (.notADependency vma.name)
  | some binary =>
      loop (v.codeRound vma binary.textSegmentContent) _
        (v.codeRound_decreases vma binary.textSegmentContent) 0

/-- The loop compares the byte at offset `k` of the mapping. -/
def Compared (fileContent : List Byte) (k : Nat) : Prop :=
  ∃ bytesChecked, Visits (v.codeRound vma fileContent) 0 bytesChecked ∧
    bytesChecked ≤ k ∧ k < fileContent.length ∧
    k < bytesChecked + (v.codevma vma bytesChecked).length

section

variable {v vma} {fileContent : List Byte} {bytesChecked : Nat}

theorem firstChange_eq_some {j : Nat} (h : v.firstChange vma fileContent bytesChecked = some j) :
    bytesChecked + j < fileContent.length ∧ j < (v.codevma vma bytesChecked).length ∧
      (v.codevma vma bytesChecked)[j]? ≠ fileContent[bytesChecked + j]? := by
  have hmem := List.mem_range.mp (List.mem_of_find?_eq_some h)
  have hne := List.find?_some h
  refine ⟨by omega, by omega, ?_⟩
  simpa using hne

theorem firstChange_eq_none (h : v.firstChange vma fileContent bytesChecked = none) {j : Nat}
    (hj : bytesChecked + j < fileContent.length)
    (hj' : j < (v.codevma vma bytesChecked).length) :
    (v.codevma vma bytesChecked)[j]? = fileContent[bytesChecked + j]? := by
  have hall := List.find?_eq_none.mp h j (List.mem_range.mpr (by omega))
  simpa using hall

/-- A round that goes on has found no change. -/
theorem codeRound_again {s' : Nat} (h : v.codeRound vma fileContent bytesChecked = .again s') :
    bytesChecked < fileContent.length ∧ v.firstChange vma fileContent bytesChecked = none ∧
      s' = if bytesChecked + (v.codevma vma bytesChecked).length < fileContent.length then
          bytesChecked + (v.codevma vma bytesChecked).length + PAGESIZE
        else bytesChecked + (v.codevma vma bytesChecked).length := by
  unfold codeRound at h
  split at h
  · split at h
    · cases h
    · exact ⟨‹_›, ‹_›, (Round.again.inj h).symm⟩
  · cases h

/-- A round that leaves has found a change, or is behind the text segment. -/
theorem codeRound_leave {r : Option TextReport}
    (h : v.codeRound vma fileContent bytesChecked = .leave r) :
    (∃ j, v.firstChange vma fileContent bytesChecked = some j ∧ bytesChecked < fileContent.length ∧
      r = some (.mismatch vma.name bytesChecked j)) ∨
    (fileContent.length ≤ bytesChecked ∧ r = none) := by
  unfold codeRound at h
  split at h
  · split at h
    · exact .inl ⟨_, ‹_›, ‹_›, (Round.leave.inj h).symm⟩
    · cases h
  · exact .inr ⟨by omega, (Round.leave.inj h).symm⟩

end

/-! ## Mapped and unmapped pages -/

end ProcessValidator

structure VMAInfo.PageAligned (vma : VMAInfo) : Prop where
  start : PAGESIZE ∣ vma.start.toNat
  stop : PAGESIZE ∣ vma.stop.toNat

namespace VMAInfo

variable {vma : VMAInfo}

theorem PageAligned.length (ha : vma.PageAligned) : PAGESIZE ∣ vma.length := by
  have h := vma.start_add_length
  exact (Nat.dvd_add_right ha.start).mp (h ▸ ha.stop)

theorem toNat_start_add {k : Nat} (hk : k ≤ vma.length) :
    (vma.start + BitVec.ofNat 64 k).toNat = vma.start.toNat + k := by
  have h := vma.start_add_length
  have hlt := vma.stop.isLt
  rw [BitVec.toNat_add, BitVec.toNat_ofNat, Nat.mod_eq_of_lt (by omega : k < 2 ^ 64),
    Nat.mod_eq_of_lt (by omega)]

/-- The offsets of one page of the mapping are mapped all or none. -/
theorem PageAligned.mapped_congr (ha : vma.PageAligned) (g : GuestMemory) {k k' : Nat}
    (hk : k ≤ vma.length) (hk' : k' ≤ vma.length) (hpage : k / PAGESIZE = k' / PAGESIZE) :
    g.mapped (vma.start + BitVec.ofNat 64 k) = g.mapped (vma.start + BitVec.ofNat 64 k') := by
  obtain ⟨q, hq⟩ := ha.start
  unfold GuestMemory.mapped
  rw [toNat_start_add hk, toNat_start_add hk', hq,
    Nat.mul_add_div (by decide), Nat.mul_add_div (by decide), hpage]

end VMAInfo

namespace ProcessValidator

section

variable {v : ProcessValidator} {vma : VMAInfo} {g : GuestMemory}

/-- What a read inside the mapping returns: the mapped bytes from `bytesChecked` on, up to the
end of the mapping or an unmapped page. -/
theorem codevma_spec (hread : v.vmi.ReadsMapped g) (ha : vma.PageAligned) {bytesChecked : Nat}
    (hle : bytesChecked ≤ vma.length) (hdvd : PAGESIZE ∣ bytesChecked) :
    ∃ r, (v.codevma vma bytesChecked).length = r ∧ bytesChecked + r ≤ vma.length ∧
      PAGESIZE ∣ bytesChecked + r ∧
      (∀ j < r, g.mapped (vma.start + BitVec.ofNat 64 (bytesChecked + j)) = true ∧
        (v.codevma vma bytesChecked)[j]? =
          some (g.byte (vma.start + BitVec.ofNat 64 (bytesChecked + j)))) ∧
      (bytesChecked + r < vma.length →
        g.mapped (vma.start + BitVec.ofNat 64 (bytesChecked + r)) = false) := by
  have hlen : (vma.stop - vma.start - BitVec.ofNat 64 bytesChecked).toNat =
      vma.length - bytesChecked := by
    have hlt : vma.length < 2 ^ 64 := (vma.stop - vma.start).isLt
    have hmod : (BitVec.ofNat 64 bytesChecked).toNat = bytesChecked := by
      rw [BitVec.toNat_ofNat, Nat.mod_eq_of_lt (by omega)]
    rw [BitVec.toNat_sub_of_le (BitVec.le_def.mpr (by rw [hmod]; exact hle)), hmod]
    rfl
  obtain ⟨r, hr, hlength, hbytes, hstop⟩ := g.mappedPrefix_spec
    (vma.start + BitVec.ofNat 64 bytesChecked) (vma.length - bytesChecked)
  have haddr : ∀ k, vma.start + BitVec.ofNat 64 bytesChecked + BitVec.ofNat 64 k =
      vma.start + BitVec.ofNat 64 (bytesChecked + k) := by
    intro k
    rw [BitVec.add_assoc, ← BitVec.ofNat_add]
  simp only [haddr] at hbytes hstop
  have hcode : v.codevma vma bytesChecked = g.mappedPrefix
      (vma.start + BitVec.ofNat 64 bytesChecked) (vma.length - bytesChecked) := by
    rw [codevma, hread, hlen]
  rw [hcode]
  refine ⟨r, hlength, by omega, ?_, hbytes, fun h => hstop (by omega)⟩
  by_cases hend : r = vma.length - bytesChecked
  · rw [hend, Nat.add_sub_cancel' hle]
    exact ha.length
  · -- the read stops inside the mapping, so there a new page begins
    by_contra hndvd
    have hpos : r ≠ 0 := by
      rintro rfl
      exact hndvd hdvd
    have hpage : (bytesChecked + r) / PAGESIZE = (bytesChecked + (r - 1)) / PAGESIZE := by
      simp only [PAGESIZE] at hndvd ⊢
      omega
    have hmapped := (hbytes (r - 1) (by omega)).1
    rw [← ha.mapped_congr g (by omega) (by omega) hpage, hstop (by omega)] at hmapped
    cases hmapped

/-- The heads that the loop comes to are page boundaries of the mapping, and all mapped bytes
in front of them have been compared. -/
theorem codeRound_visits (hread : v.vmi.ReadsMapped g) (ha : vma.PageAligned)
    {fileContent : List Byte} (hT : PAGESIZE ∣ fileContent.length)
    (hTV : fileContent.length ≤ vma.length + PAGESIZE) {bytesChecked : Nat}
    (h : Visits (v.codeRound vma fileContent) 0 bytesChecked) :
    (bytesChecked < fileContent.length → PAGESIZE ∣ bytesChecked ∧ bytesChecked ≤ vma.length) ∧
    ∀ k < bytesChecked, k < fileContent.length → k < vma.length →
      g.mapped (vma.start + BitVec.ofNat 64 k) = true → v.Compared vma fileContent k := by
  induction h with
  | enter => exact ⟨fun _ => ⟨Nat.dvd_zero _, Nat.zero_le _⟩, fun k hk => absurd hk (by omega)⟩
  | @next bc s' hvisit hround ih =>
      obtain ⟨hlt, _, rfl⟩ := codeRound_again hround
      obtain ⟨hdvd, hle⟩ := ih.1 hlt
      obtain ⟨r, hr, hrV, hrdvd, hbytes, hstop⟩ := codevma_spec hread ha hle hdvd
      rw [hr]
      constructor
      · intro hs
        split at hs
        · rw [if_pos ‹_›]
          have hnext : PAGESIZE ∣ bc + r + PAGESIZE := Nat.dvd_add hrdvd (Nat.dvd_refl _)
          refine ⟨hnext, ?_⟩
          -- both are multiples of the page size
          have hgap : bc + r + PAGESIZE + PAGESIZE ≤ fileContent.length := by
            obtain ⟨a, ha'⟩ := hnext
            obtain ⟨b, hb⟩ := hT
            rw [ha', hb] at hs ⊢
            have := Nat.lt_of_mul_lt_mul_left hs
            calc PAGESIZE * a + PAGESIZE = PAGESIZE * (a + 1) := (Nat.mul_succ _ _).symm
              _ ≤ PAGESIZE * b := Nat.mul_le_mul_left _ this
          omega
        · omega
      · intro k hk hkT hkV hmapped
        by_cases hold : k < bc
        · exact ih.2 k hold hkT hkV hmapped
        · by_cases hread' : k < bc + r
          · exact ⟨bc, hvisit, by omega, hkT, by omega⟩
          · -- `k` is in the page that is passed over, which is not mapped
            have hpage : (bc + r) / PAGESIZE = k / PAGESIZE := by
              obtain ⟨a, ha'⟩ := hrdvd
              simp only [PAGESIZE] at hk ha' ⊢
              split at hk <;> omega
            have hunmapped := hstop (by omega)
            rw [ha.mapped_congr g (by omega) (by omega) hpage, hmapped] at hunmapped
            cases hunmapped

/-- A compared byte is a mapped byte of the mapping. -/
theorem Compared.mapped (hread : v.vmi.ReadsMapped g) (ha : vma.PageAligned)
    {fileContent : List Byte} (hT : PAGESIZE ∣ fileContent.length)
    (hTV : fileContent.length ≤ vma.length + PAGESIZE) {k : Nat}
    (h : v.Compared vma fileContent k) :
    k < vma.length ∧ g.mapped (vma.start + BitVec.ofNat 64 k) = true := by
  obtain ⟨bc, hvisit, hle, hkT, hk⟩ := h
  obtain ⟨hdvd, hbc⟩ := (codeRound_visits hread ha hT hTV hvisit).1 (by omega)
  obtain ⟨r, hr, hrV, _, hbytes, _⟩ := codevma_spec hread ha hbc hdvd
  have hmapped := (hbytes (k - bc) (by omega)).1
  rw [Nat.add_sub_cancel' hle] at hmapped
  exact ⟨by omega, hmapped⟩

/-- When the loop ends without a report, the bytes it has compared are equal. -/
theorem Compared.agrees (hread : v.vmi.ReadsMapped g) (ha : vma.PageAligned)
    {fileContent : List Byte} (hT : PAGESIZE ∣ fileContent.length)
    (hTV : fileContent.length ≤ vma.length + PAGESIZE)
    (hnone : loop (v.codeRound vma fileContent) _ (v.codeRound_decreases vma fileContent) 0 = none)
    {k : Nat} (h : v.Compared vma fileContent k) :
    some (g.byte (vma.start + BitVec.ofNat 64 k)) = fileContent[k]? := by
  obtain ⟨bc, hvisit, hle, hkT, hk⟩ := h
  obtain ⟨hdvd, hbc⟩ := (codeRound_visits hread ha hT hTV hvisit).1 (by omega)
  obtain ⟨r, hr, _, _, hbytes, _⟩ := codevma_spec hread ha hbc hdvd
  have hbyte := (hbytes (k - bc) (by omega)).2
  rw [Nat.add_sub_cancel' hle] at hbyte
  cases hround : v.codeRound vma fileContent bc with
  | leave res =>
      have hres := loop_eq_of_visits_leave (v.codeRound_decreases vma fileContent) hvisit hround
      rw [hnone] at hres
      rcases codeRound_leave hround with ⟨j, _, _, hj⟩ | ⟨hend, _⟩
      · rw [← hres] at hj
        cases hj
      · omega
  | again s' =>
      obtain ⟨_, hsame, _⟩ := codeRound_again hround
      have := firstChange_eq_none hsame (j := k - bc) (by omega) (by omega)
      rw [hbyte, Nat.add_sub_cancel' hle] at this
      exact this

theorem validateCodePage_eq_loop {loader : ElfUserspaceLoader}
    (hbinary : v.binary vma = some loader) :
    v.validateCodePage vma = loop (v.codeRound vma loader.textSegmentContent) _
      (v.codeRound_decreases vma loader.textSegmentContent) 0 := by
  rw [validateCodePage, hbinary]

/-- Where a round finds a change, a mapped byte differs from the text segment. -/
theorem differs_of_firstChange (hread : v.vmi.ReadsMapped g) (ha : vma.PageAligned)
    {fileContent : List Byte} (hT : PAGESIZE ∣ fileContent.length)
    (hTV : fileContent.length ≤ vma.length + PAGESIZE) {s j : Nat}
    (hvisit : Visits (v.codeRound vma fileContent) 0 s) (hlt : s < fileContent.length)
    (hchange : v.firstChange vma fileContent s = some j) :
    ∃ k, k < min fileContent.length vma.length ∧
      g.mapped (vma.start + BitVec.ofNat 64 k) = true ∧
      some (g.byte (vma.start + BitVec.ofNat 64 k)) ≠ fileContent[k]? := by
  obtain ⟨hjT, hj, hne⟩ := firstChange_eq_some hchange
  have hcomp : v.Compared vma fileContent (s + j) := ⟨s, hvisit, by omega, hjT, by omega⟩
  obtain ⟨hV, hm⟩ := hcomp.mapped hread ha hT hTV
  obtain ⟨hdvd, hle⟩ := (codeRound_visits hread ha hT hTV hvisit).1 hlt
  obtain ⟨r, hr, _, _, hbytes, _⟩ := codevma_spec hread ha hle hdvd
  refine ⟨s + j, by omega, hm, ?_⟩
  rwa [(hbytes j (by omega)).2] at hne

/-- A silent run has compared all bytes that are mapped. -/
theorem compared_of_silent (hread : v.vmi.ReadsMapped g) (ha : vma.PageAligned)
    {loader : ElfUserspaceLoader} (hbinary : v.binary vma = some loader)
    (hT : PAGESIZE ∣ loader.textSegmentContent.length)
    (hTV : loader.textSegmentContent.length ≤ vma.length + PAGESIZE)
    (hnone : v.validateCodePage vma = none) (k : Nat)
    (hk : k < min loader.textSegmentContent.length vma.length)
    (hkm : g.mapped (vma.start + BitVec.ofNat 64 k) = true) :
    v.Compared vma loader.textSegmentContent k := by
  obtain ⟨s, hvisit, hleave⟩ := exists_visits_leave
    (v.codeRound_decreases vma loader.textSegmentContent) 0
  rw [← validateCodePage_eq_loop hbinary, hnone] at hleave
  rcases codeRound_leave hleave with ⟨j, _, _, hj⟩ | ⟨hend, _⟩
  · cases hj
  · exact (codeRound_visits hread ha hT hTV hvisit).2 k (by omega) (by omega) (by omega) hkm

/-- **The comparison is complete**, whatever pages are mapped: every read stays inside the
mapping, a mismatch is reported exactly if some mapped byte that the mapping and the text
segment share differs, only mapped bytes are compared, and without a mismatch all of them
are. -/
theorem validateCodePage_complete (hread : v.vmi.ReadsMapped g) (ha : vma.PageAligned)
    {loader : ElfUserspaceLoader} (hbinary : v.binary vma = some loader)
    (hT : PAGESIZE ∣ loader.textSegmentContent.length)
    (hTV : loader.textSegmentContent.length ≤ vma.length + PAGESIZE) :
    (∀ bytesChecked, Visits (v.codeRound vma loader.textSegmentContent) 0 bytesChecked →
      bytesChecked < loader.textSegmentContent.length → bytesChecked ≤ vma.length) ∧
    ((∃ bytesChecked j, v.validateCodePage vma = some (.mismatch vma.name bytesChecked j)) ↔
      ∃ k, k < min loader.textSegmentContent.length vma.length ∧
        g.mapped (vma.start + BitVec.ofNat 64 k) = true ∧
        some (g.byte (vma.start + BitVec.ofNat 64 k)) ≠ loader.textSegmentContent[k]?) ∧
    (∀ k, v.Compared vma loader.textSegmentContent k →
      k < vma.length ∧ g.mapped (vma.start + BitVec.ofNat 64 k) = true) ∧
    (v.validateCodePage vma = none →
      ∀ k < min loader.textSegmentContent.length vma.length,
        g.mapped (vma.start + BitVec.ofNat 64 k) = true →
        v.Compared vma loader.textSegmentContent k) := by
  obtain ⟨s, hvisit, hleave⟩ := exists_visits_leave
    (v.codeRound_decreases vma loader.textSegmentContent) 0
  rw [← validateCodePage_eq_loop hbinary] at hleave
  refine ⟨fun bc hv hlt => ((codeRound_visits hread ha hT hTV hv).1 hlt).2, ⟨?_, ?_⟩,
    fun k hk => hk.mapped hread ha hT hTV, ?_⟩
  · rintro ⟨bc, j, hreport⟩
    rcases codeRound_leave hleave with ⟨j, hchange, hlt, _⟩ | ⟨_, hnone⟩
    · exact differs_of_firstChange hread ha hT hTV hvisit hlt hchange
    · rw [hreport] at hnone
      cases hnone
  · rintro ⟨k, hk, hkm, hne⟩
    rcases codeRound_leave hleave with ⟨j, _, _, hj⟩ | ⟨_, hnone⟩
    · exact ⟨s, j, hj⟩
    · have hcomp := compared_of_silent hread ha hbinary hT hTV hnone k hk hkm
      rw [validateCodePage_eq_loop hbinary] at hnone
      exact absurd (hcomp.agrees hread ha hT hTV hnone) hne
  · intro hnone k hk hkm
    exact compared_of_silent hread ha hbinary hT hTV hnone k hk hkm

end

/-- A file without sections. -/
def emptyElfFile : ElfFile where
  e_type := ET_DYN
  e_entry := 0
  fileContent := 0
  elf64Shdr := []
  shnum_lt := ElfFile.shnum_lt_nil
  rela := fun _ => []
  sym := fun _ _ => default
  symbolName := fun _ _ => ""

/-- Two pages of code, of which the guest has mapped the second one only, and has changed a
byte of it. -/
def secondPageMapped : GuestMemory where
  mappedPage := fun n => n == 0x401
  byte := fun a => if a = 0x401005 then 0xcc else 0x90

def changedProgram : ProcessValidator where
  process :=
    { name := "/bin/prog"
      mappedVMAs := []
      execLoader :=
        { name := "/bin/prog"
          textSegmentContent := List.replicate 0x3000 0x90
          hostMemory := fun _ => 0
          elffile := emptyElfFile }
      findLoaderByFileName := fun _ => none
      symbols := { getElfSymbolName := fun _ => "", getContainingSymbol := fun _ => 0 } }
  vmi := { readVectorFromVA := fun va n _ => secondPageMapped.mappedPrefix va n.toNat }

def programText : VMAInfo where
  start := 0x400000
  stop := 0x402000
  flags := 0x5
  name := "/bin/prog"
  start_lt_stop := by decide

theorem validateCodePage_changedProgram :
    ∃ bytesChecked j, changedProgram.validateCodePage programText =
      some (.mismatch "/bin/prog" bytesChecked j) := by
  have hlength : changedProgram.process.execLoader.textSegmentContent.length = 0x3000 :=
    List.length_replicate
  have hbinary : changedProgram.binary programText = some changedProgram.process.execLoader :=
    if_pos (by decide)
  have hcomplete := validateCodePage_complete (g := secondPageMapped) (fun _ _ => rfl)
    ⟨by decide, by decide⟩ hbinary (by rw [hlength]; decide) (by rw [hlength]; decide)
  refine hcomplete.2.1.mpr ⟨0x1005, ?_, by decide, ?_⟩
  · rw [hlength]
    decide
  · have hbyte : changedProgram.process.execLoader.textSegmentContent[0x1005]? = some 0x90 :=
      List.getElem?_replicate_of_lt (by decide)
    rw [hbyte]
    decide

end ProcessValidator

end KernInt
