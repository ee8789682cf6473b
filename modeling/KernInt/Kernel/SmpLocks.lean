import KernInt.Kernel.Altinstr
import KernInt.Kernel.CodePage

set_option autoImplicit false

/-! # Lock prefixes

`ElfKernelspaceLoader::applySmpLocks` replaces the lock prefixes that a table tells, and records
their offsets in `.text`, for `validateCodePage` to look them up. An entry tells the guest
address of a prefix by its distance. The bases of the two sections on the host and in the guest
cancel out, but the test for `.text` lets the address behind its end pass, so that the run is
what it should be if no entry tells this address (`smpLocks_iff`).
-/

namespace KernInt

open Lib

/-- SMP kernel running on a single processor. -/
def X86_FEATURE_UP : BitVec 16 := 3 * 32 + 9

/-- What `applySmpLocks` works on. -/
structure SmpState where
  mem : Memory
  smpOffsets : Finset U64

/-- A prefix is made one for the segment, or one for the lock. -/
def lockByte (x86_capability : CpuCaps) : Byte :=
  if x86_capability.has X86_FEATURE_UP then 0xf0 else 0x3e

namespace ElfKernelspaceLoader

variable (target : ElfKernelspaceLoader) (info : SectionInfo) (lock : Byte)

/-- How much further the sections are apart on the host than in the guest. -/
def lockDistance : U64 :=
  info.index - target.textSegment.index - (info.memindex - target.textSegment.memindex)

/-- The host address that the entry at `poff` tells. -/
def lockPtr (mem : Memory) (poff : U64) : U64 :=
  let offset := (target.lockDistance info).setWidth 32
  relativeTo mem poff - offset.signExtend 64

def smpRound (addSmpEntries : Bool) (s : SmpState) (poff : U64) : SmpState :=
  let ptr := target.lockPtr info s.mem poff
  if target.textSegment.containsElfAddress ptr then
    { mem := Function.update s.mem ptr lock
      smpOffsets :=
        if addSmpEntries then insert (ptr - target.textSegment.index) s.smpOffsets
        else s.smpOffsets }
  else s

def applySmpLocks (x86_capability : CpuCaps) (s : SmpState) : Except ElfError SmpState :=
  match target.elffile.findSectionWithName ".smp_locks" with
  | .error e => .error e
  | .ok info =>
      if info.index = 0 then .ok s
      else
        match target.updateSectionInfoMemAddress info with
        | .error e => .error e
        | .ok info =>
            let addSmpEntries := decide (s.smpOffsets = ∅)
            .ok ((tableEntries info 4).foldl
              (target.smpRound info (lockByte x86_capability) addSmpEntries) s)

end ElfKernelspaceLoader

/-! ## What a run is to do -/

/-- The byte at the guest address is one of the section. The distance counts, so that the section
may end where the addresses do. -/
def SectionInfo.Covers (info : SectionInfo) (a : U64) : Prop := a - info.memindex < info.size

instance (info : SectionInfo) (a : U64) : Decidable (info.Covers a) :=
  inferInstanceAs (Decidable (_ < _))

theorem SectionInfo.covers_iff {info : SectionInfo} {a : U64}
    (hguest : info.memindex.toNat + info.size.toNat ≤ 2 ^ 64) :
    info.Covers a ↔ info.memindex.toNat ≤ a.toNat ∧
      a.toNat < info.memindex.toNat + info.size.toNat := by
  unfold SectionInfo.Covers
  bv_omega

/-- Where the host has the byte at a guest address. -/
def SectionInfo.hostAddress (info : SectionInfo) (a : U64) : U64 :=
  info.index + (a - info.memindex)

/-- The guest addresses that the entries tell, each as the loop finds it. -/
def lockTargets (target : ElfKernelspaceLoader) (info : SectionInfo) (lock : Byte) :
    List U64 → Memory → List U64
  | [], _ => []
  | poff :: rest, mem =>
      linkTarget info mem poff ::
        lockTargets target info lock rest (target.smpRound info lock false ⟨mem, ∅⟩ poff).mem

/-- The offsets of the lock prefixes. -/
def lockOffsets (text : SectionInfo) (targets : List U64) : Finset U64 :=
  ((targets.filter fun a => text.Covers a).map fun a => a - text.memindex).toFinset

/-- The loop finds the entries as they were, if the memory at them is not in reach of `.text`. -/
theorem lockTargets_of_apart {target : ElfKernelspaceLoader} {info : SectionInfo} {lock : Byte}
    {entries : List U64} {mem : Memory}
    (hapart : ∀ poff ∈ entries, ∀ n < 4,
      target.textSegment.containsElfAddress (poff + BitVec.ofNat 64 n) = false)
    (mem' : Memory)
    (hmem' : ∀ poff ∈ entries, ∀ n < 4,
      mem' (poff + BitVec.ofNat 64 n) = mem (poff + BitVec.ofNat 64 n)) :
    lockTargets target info lock entries mem' = entries.map (linkTarget info mem) := by
  induction entries generalizing mem' with
  | nil => rfl
  | cons poff entries ih =>
      rw [List.forall_mem_cons] at hapart hmem'
      have hhead : linkTarget info mem' poff = linkTarget info mem poff := by
        unfold linkTarget
        rw [loadWord_congr hmem'.1]
      rw [lockTargets, List.map_cons, hhead, ih hapart.2]
      intro poff' hpoff' n hn
      rw [← hmem'.2 poff' hpoff' n hn]
      -- what is written is in reach of `.text`
      unfold ElfKernelspaceLoader.smpRound
      dsimp only
      split
      · rename_i hcontains
        refine Function.update_of_ne (fun heq => ?_) _ _
        rw [← heq, hapart.2 poff' hpoff' n hn] at hcontains
        cases hcontains
      · rfl

/-- The lock byte is put at each of the targets in `.text` and nowhere else, and the offsets of
these targets are recorded by the first run. What a run changes has then been recorded. -/
structure LocksPatched (text : SectionInfo) (targets : List U64) (lock : Byte)
    (s s' : SmpState) : Prop where
  written : ∀ a ∈ targets, text.Covers a → s'.mem (text.hostAddress a) = lock
  kept : ∀ p, (∀ a ∈ targets, text.Covers a → p ≠ text.hostAddress a) → s'.mem p = s.mem p
  recorded : s.smpOffsets = ∅ ∨ s.smpOffsets = lockOffsets text targets →
    s'.smpOffsets = lockOffsets text targets
  lookedUp : s.smpOffsets = ∅ ∨ s.smpOffsets = lockOffsets text targets →
    ∀ p, s'.mem p ≠ s.mem p → p - text.index ∈ s'.smpOffsets

/-- The offset of a lock prefix that a run has flipped is there when a page is compared. -/
theorem LocksPatched.mem_smpOffsets {text : SectionInfo} {targets : List U64} {lock : Byte}
    {s s' : SmpState} (h : LocksPatched text targets lock s s')
    (hs : s.smpOffsets = ∅ ∨ s.smpOffsets = lockOffsets text targets) {c : CodeCheck}
    (hc : c.elf.smpOffsets = s'.smpOffsets) {i : Nat}
    (hi : s'.mem (text.index + BitVec.ofNat 64 (c.pageOffset.toNat + i)) ≠
      s.mem (text.index + BitVec.ofNat 64 (c.pageOffset.toNat + i))) :
    BitVec.ofNat 64 (c.pageOffset.toNat + i) ∈ c.elf.smpOffsets := by
  have hlooked := h.lookedUp hs _ hi
  rw [BitVec.add_comm, BitVec.add_sub_cancel] at hlooked
  rw [hc]
  exact hlooked

section

variable {target : ElfKernelspaceLoader} {info : SectionInfo} {lock : Byte} {s : SmpState}
  {poff p o : U64} {addSmpEntries : Bool}

/-! ## One entry -/

/-- The bases cancel out. -/
theorem lockPtr_eq (mem : Memory)
    (hfits : -2 ^ 31 ≤ (target.lockDistance info).toInt ∧
      (target.lockDistance info).toInt < 2 ^ 31) :
    target.lockPtr info mem poff = target.textSegment.hostAddress (linkTarget info mem poff) := by
  unfold ElfKernelspaceLoader.lockPtr
  dsimp only
  rw [signExtend_setWidth_of_fits hfits]
  unfold relativeTo ElfKernelspaceLoader.lockDistance SectionInfo.hostAddress linkTarget
  grind

/-- The test for a host address, by the guest address. -/
theorem SectionInfo.containsElfAddress_hostAddress {text : SectionInfo} {a : U64}
    (hhost : text.index.toNat + text.size.toNat < 2 ^ 64) :
    text.containsElfAddress (text.hostAddress a) = true ↔ a - text.memindex ≤ text.size := by
  unfold containsElfAddress hostAddress
  rw [Bool.and_eq_true, decide_eq_true_iff, decide_eq_true_iff]
  generalize a - text.memindex = d
  bv_omega

theorem hostAddress_sub_index {text : SectionInfo} {a : U64} :
    text.hostAddress a - text.index = a - text.memindex := by
  unfold SectionInfo.hostAddress
  grind

theorem mem_lockOffsets {text : SectionInfo} {targets : List U64} :
    o ∈ lockOffsets text targets ↔
      ∃ a ∈ targets, text.Covers a ∧ o = a - text.memindex := by
  simp [lockOffsets, and_assoc, eq_comm]

/-- An address that is let pass is one of the section, unless it is the one behind its end. -/
theorem SectionInfo.covers_of_le {text : SectionInfo} {a : U64}
    (hle : a - text.memindex ≤ text.size) (hend : a ≠ text.memindex + text.size) :
    text.Covers a := by
  have hne : a - text.memindex ≠ text.size := fun h => hend (by rw [← h]; grind)
  unfold Covers
  bv_omega

/-- What an entry does to the memory does not depend on what has been recorded. -/
theorem mem_smpRound_eq (addSmpEntries : Bool) (s : SmpState) :
    (target.smpRound info lock false ⟨s.mem, ∅⟩ poff).mem =
      (target.smpRound info lock addSmpEntries s poff).mem := by
  unfold ElfKernelspaceLoader.smpRound
  dsimp only
  split
  · rfl
  · rfl

variable (hhost : target.textSegment.index.toNat + target.textSegment.size.toNat < 2 ^ 64)
  (hfits : -2 ^ 31 ≤ (target.lockDistance info).toInt ∧
    (target.lockDistance info).toInt < 2 ^ 31)

include hhost hfits

theorem mem_smpRound : (target.smpRound info lock addSmpEntries s poff).mem p =
    if linkTarget info s.mem poff - target.textSegment.memindex ≤ target.textSegment.size ∧
        p = target.textSegment.hostAddress (linkTarget info s.mem poff) then lock
    else s.mem p := by
  unfold ElfKernelspaceLoader.smpRound
  simp only [lockPtr_eq s.mem hfits, SectionInfo.containsElfAddress_hostAddress hhost]
  by_cases hin : linkTarget info s.mem poff - target.textSegment.memindex ≤
      target.textSegment.size
  · simp only [hin, if_true, true_and, Function.update_apply]
  · simp only [hin, if_false, false_and]

theorem mem_smpOffsets_smpRound :
    o ∈ (target.smpRound info lock addSmpEntries s poff).smpOffsets ↔ o ∈ s.smpOffsets ∨
      addSmpEntries = true ∧
        linkTarget info s.mem poff - target.textSegment.memindex ≤ target.textSegment.size ∧
        o = linkTarget info s.mem poff - target.textSegment.memindex := by
  unfold ElfKernelspaceLoader.smpRound
  simp only [lockPtr_eq s.mem hfits, SectionInfo.containsElfAddress_hostAddress hhost,
    hostAddress_sub_index]
  by_cases hin : linkTarget info s.mem poff - target.textSegment.memindex ≤
      target.textSegment.size
  · cases addSmpEntries with
    | true => simp only [hin, if_true, Finset.mem_insert, true_and, or_comm]
    | false => simp [hin]
  · simp only [hin, if_false, false_and, and_false, or_false]

/-! ## The loop -/

/-- Every entry with a target in `.text` or behind its end stores the byte. -/
theorem mem_smpLoop {entries : List U64} :
    (entries.foldl (target.smpRound info lock addSmpEntries) s).mem p =
      if ∃ a ∈ lockTargets target info lock entries s.mem,
          a - target.textSegment.memindex ≤ target.textSegment.size ∧
            p = target.textSegment.hostAddress a then lock
      else s.mem p := by
  induction entries generalizing s with
  | nil => simp [lockTargets]
  | cons poff entries ih =>
      rw [List.foldl_cons, ih, mem_smpRound hhost hfits, lockTargets,
        mem_smpRound_eq addSmpEntries s]
      simp only [List.exists_mem_cons_iff]
      by_cases hrest : ∃ a ∈ lockTargets target info lock entries
          (target.smpRound info lock addSmpEntries s poff).mem,
          a - target.textSegment.memindex ≤ target.textSegment.size ∧
            p = target.textSegment.hostAddress a
      · -- an entry behind this one may tell the same address
        rw [if_pos hrest, if_pos (Or.inr hrest)]
      · simp only [hrest, if_false, or_false]

theorem mem_smpOffsets_smpLoop {entries : List U64} :
    o ∈ (entries.foldl (target.smpRound info lock addSmpEntries) s).smpOffsets ↔
      o ∈ s.smpOffsets ∨ addSmpEntries = true ∧
        ∃ a ∈ lockTargets target info lock entries s.mem,
          a - target.textSegment.memindex ≤ target.textSegment.size ∧
            o = a - target.textSegment.memindex := by
  induction entries generalizing s with
  | nil => simp [lockTargets]
  | cons poff entries ih =>
      rw [List.foldl_cons, ih, mem_smpOffsets_smpRound hhost hfits, lockTargets,
        mem_smpRound_eq addSmpEntries s]
      simp only [List.exists_mem_cons_iff, or_assoc, and_or_left]

end

/-- What is let pass is what should be, if no target is the address behind the end. -/
theorem locksPatched_of_passed {text : SectionInfo} {targets : List U64} {lock : Byte}
    {s s' : SmpState}
    (hmem : ∀ p, s'.mem p =
      if ∃ a ∈ targets, a - text.memindex ≤ text.size ∧ p = text.hostAddress a then lock
      else s.mem p)
    (hoffsets : ∀ o, o ∈ s'.smpOffsets ↔ o ∈ s.smpOffsets ∨ decide (s.smpOffsets = ∅) = true ∧
      ∃ a ∈ targets, a - text.memindex ≤ text.size ∧ o = a - text.memindex)
    (hnone : ∀ a ∈ targets, a ≠ text.memindex + text.size) :
    LocksPatched text targets lock s s' := by
  have hpassed : ∀ a ∈ targets, (a - text.memindex ≤ text.size ↔ text.Covers a) := fun a ha =>
    ⟨fun hle => SectionInfo.covers_of_le hle (hnone a ha), BitVec.le_of_lt⟩
  have hkept : ∀ p, (∀ a ∈ targets, text.Covers a → p ≠ text.hostAddress a) →
      s'.mem p = s.mem p := by
    intro p hp
    rw [hmem, if_neg]
    rintro ⟨a, ha, hle, hpa⟩
    exact hp a ha ((hpassed a ha).mp hle) hpa
  have hrecorded : s.smpOffsets = ∅ ∨ s.smpOffsets = lockOffsets text targets →
      s'.smpOffsets = lockOffsets text targets := by
    intro hs
    ext o
    rw [hoffsets]
    by_cases hfirst : s.smpOffsets = ∅
    · rw [hfirst, mem_lockOffsets]
      simp only [Finset.notMem_empty, false_or, decide_true, true_and]
      exact exists_congr fun a => and_congr_right fun ha => and_congr_left' (hpassed a ha)
    · -- nothing is added
      rw [decide_eq_false hfirst, hs.resolve_left hfirst]
      simp only [Bool.false_eq_true, false_and, or_false]
  refine ⟨fun a ha hcovers => ?_, hkept, hrecorded, fun hs p hp => ?_⟩
  · rw [hmem, if_pos ⟨a, ha, (hpassed a ha).mpr hcovers, rfl⟩]
  · rw [hrecorded hs, mem_lockOffsets]
    by_contra hnot
    refine hp (hkept p fun a ha hcovers hpa => hnot ⟨a, ha, hcovers, ?_⟩)
    rw [hpa, hostAddress_sub_index]

theorem applySmpLocks_eq {target : ElfKernelspaceLoader} {found info : SectionInfo}
    (hfound : target.elffile.findSectionWithName ".smp_locks" = .ok found)
    (hindex : found.index ≠ 0) (hinfo : target.updateSectionInfoMemAddress found = .ok info)
    (x86_capability : CpuCaps) (s : SmpState) :
    target.applySmpLocks x86_capability s = .ok ((tableEntries info 4).foldl
      (target.smpRound info (lockByte x86_capability) (decide (s.smpOffsets = ∅))) s) := by
  unfold ElfKernelspaceLoader.applySmpLocks
  rw [hfound]
  dsimp only
  rw [if_neg hindex, hinfo]

/-- **The lock prefixes are patched right**, in the first run and in every later one, if and only
if no entry, when the loop comes to it, tells the address behind the end of `.text`. -/
theorem smpLocks_iff (target : ElfKernelspaceLoader) (x86_capability : CpuCaps) (mem : Memory)
    {found info : SectionInfo}
    (hfound : target.elffile.findSectionWithName ".smp_locks" = .ok found)
    (hindex : found.index ≠ 0) (hinfo : target.updateSectionInfoMemAddress found = .ok info)
    (hhost : target.textSegment.index.toNat + target.textSegment.size.toNat < 2 ^ 64)
    (hfits : -2 ^ 31 ≤ (target.lockDistance info).toInt ∧
      (target.lockDistance info).toInt < 2 ^ 31) :
    (∀ smpOffsets, ∃ s', target.applySmpLocks x86_capability ⟨mem, smpOffsets⟩ = .ok s' ∧
        LocksPatched target.textSegment
          (lockTargets target info (lockByte x86_capability) (tableEntries info 4) mem)
          (lockByte x86_capability) ⟨mem, smpOffsets⟩ s') ↔
      ∀ a ∈ lockTargets target info (lockByte x86_capability) (tableEntries info 4) mem,
        a ≠ target.textSegment.memindex + target.textSegment.size := by
  constructor
  · intro h a ha hend
    obtain ⟨s', hrun, hpatched⟩ := h ∅
    rw [applySmpLocks_eq hfound hindex hinfo] at hrun
    cases hrun
    have hdist : a - target.textSegment.memindex = target.textSegment.size := by
      rw [hend]
      grind
    -- its offset is recorded, which is not one of a byte of the section
    have hsize : target.textSegment.size ∈ lockOffsets target.textSegment
        (lockTargets target info (lockByte x86_capability) (tableEntries info 4) mem) := by
      rw [← hpatched.recorded (.inl rfl), mem_smpOffsets_smpLoop hhost hfits]
      exact .inr ⟨decide_eq_true rfl, a, ha, hdist ▸ BitVec.le_refl _, hdist.symm⟩
    rw [mem_lockOffsets] at hsize
    obtain ⟨b, -, hcovers, hb⟩ := hsize
    unfold SectionInfo.Covers at hcovers
    rw [← hb] at hcovers
    exact BitVec.lt_irrefl _ hcovers
  · intro hnone smpOffsets
    exact ⟨_, applySmpLocks_eq hfound hindex hinfo _ _, locksPatched_of_passed
      (fun _ => mem_smpLoop hhost hfits) (fun _ => mem_smpOffsets_smpLoop hhost hfits) hnone⟩

/-! ## A kernel with one lock prefix -/

/-- 32 bytes of code, with data behind them in the file, and a table with one entry. -/
def smpKernel : ElfFile where
  e_type := ET_EXEC
  e_entry := 0
  fileContent := 0x10000000
  elf64Shdr := [sectionHeader ".text" 0xffffffff81000000 0x1000 0x20,
    sectionHeader ".data" 0xffffffff81001000 0x1020 0x40,
    sectionHeader ".smp_locks" 0xffffffff81002000 0x2000 4]
  shnum_lt := ElfFile.shnum_lt_three _ _ _
  rela _ := []
  sym _ _ := default
  symbolName _ _ := ""

def smpKernelSection (i : Nat) : SectionInfo := smpKernel.sectionInfo i (smpKernel.shdr i)

def smpKernelLoader : ElfKernelspaceLoader where
  elffile := smpKernel
  textSegment := smpKernelSection 0
  currentModule := none

/-- The value of the entry, and the byte of a lock prefix everywhere else. -/
def smpKernelMemory (value : U32) : Memory := fun p =>
  (bytes32 value).getD (p - 0x10002000).toNat 0xf0

theorem smpKernel_smpLocks :
    smpKernel.findSectionWithName ".smp_locks" = .ok (smpKernelSection 2) := rfl

theorem lockTargets_smpKernel (lock : Byte) (mem : Memory) :
    lockTargets smpKernelLoader (smpKernelSection 2) lock
        (tableEntries (smpKernelSection 2) 4) mem =
      [0xffffffff81002000 + (loadWord mem 0x10002000).signExtend 64] := rfl

/-- For the prefix at offset 4 the run is right. -/
theorem smpLocks_prefix : ∃ s',
    smpKernelLoader.applySmpLocks (fun _ => 0) ⟨smpKernelMemory 0xffffe004, ∅⟩ = .ok s' ∧
      LocksPatched (smpKernelSection 0)
        (lockTargets smpKernelLoader (smpKernelSection 2) 0x3e (tableEntries (smpKernelSection 2) 4)
          (smpKernelMemory 0xffffe004))
        0x3e ⟨smpKernelMemory 0xffffe004, ∅⟩ s' :=
  (smpLocks_iff smpKernelLoader (fun _ => 0) (smpKernelMemory 0xffffe004) smpKernel_smpLocks
    (by decide) rfl (by decide) (by decide)).mpr
    (by rw [lockTargets_smpKernel, List.forall_mem_singleton]; decide) ∅

/-- **The first byte of the data is overwritten** by an entry for the end of the code, and offset
0x20 is recorded. -/
theorem smpLocks_end :
    lockTargets smpKernelLoader (smpKernelSection 2) 0x3e (tableEntries (smpKernelSection 2) 4)
        (smpKernelMemory 0xffffe020) =
        [(smpKernelSection 0).memindex + (smpKernelSection 0).size] ∧
      smpKernelMemory 0xffffe020 (smpKernelSection 1).index = 0xf0 ∧
      ∃ s', smpKernelLoader.applySmpLocks (fun _ => 0) ⟨smpKernelMemory 0xffffe020, ∅⟩ = .ok s' ∧
        s'.mem (smpKernelSection 1).index = 0x3e ∧ s'.smpOffsets = {0x20} ∧
        ¬ LocksPatched (smpKernelSection 0)
          (lockTargets smpKernelLoader (smpKernelSection 2) 0x3e
            (tableEntries (smpKernelSection 2) 4) (smpKernelMemory 0xffffe020))
          0x3e ⟨smpKernelMemory 0xffffe020, ∅⟩ s' := by
  refine ⟨by decide, by decide, _, rfl, by decide, by decide, fun h => ?_⟩
  have hkept := h.kept (smpKernelSection 1).index
    (by rw [lockTargets_smpKernel, List.forall_mem_singleton]; decide)
  revert hkept
  decide

end KernInt
