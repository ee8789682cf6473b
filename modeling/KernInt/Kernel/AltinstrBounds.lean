import KernInt.Kernel.Altinstr

set_option autoImplicit false

/-! # The buffers of `applyAltinstr`

A round of the loop in `applyAltinstr` looks up a bit in the ten words of `cpuCaps`, and puts the
replacement together in a buffer of 254 bytes. The number of the bit and the two lengths are those
of an element of the table, and none of them is checked: `cpuid` can be 320 or more, and `instrlen`
can be 255. Without these values a run stays inside of its buffers (`altinstrInside_iff`).
-/

namespace KernInt

open Lib

/-- A write that fits. -/
theorem Insnbuf.fits_of_write {insnbuf insnbuf' : Insnbuf} {k : Nat} {bs : List Byte}
    (h : insnbuf.write k bs = .ok insnbuf') : k + bs.length ≤ 254 := by
  by_contra hnot
  unfold write Buffer.put at h
  rw [dif_neg hnot] at h
  cases h

namespace ElfKernelspaceLoader

variable (target : ElfKernelspaceLoader) (pv : ParavirtState) (cpuCaps : CpuCaps)
  (altinstreplace : SectionInfo)

/-- The rounds of the loop, each with the state that it begins with. None follows a round that
fails. -/
def altinstrRounds : List U64 → AltinstrState → List (U64 × AltinstrState)
  | [], _ => []
  | p :: rest, s =>
      (p, s) ::
        match target.altinstrRound pv cpuCaps altinstreplace s p with
        | .ok s' => altinstrRounds rest s'
        | .error _ => []

/-- A round reads one of the ten words of `cpuCaps`. If the processor has the feature, all bytes
that are written are in `insnbuf`, and the last `memcpy` does not depend on what has been in
`insnbuf` before: it reads what the round has written. -/
structure InsideBuffers (s : AltinstrState) (p : U64) : Prop where
  caps : (loadAltInstr s.mem p).cpuid.toNat / 32 < 10
  writes : cpuCaps.has (loadAltInstr s.mem p).cpuid = true →
    ∃ insnbuf copy, target.alternative pv altinstreplace s p = .ok (insnbuf, copy)
  reads : cpuCaps.has (loadAltInstr s.mem p).cpuid = true →
    ∀ before insnbuf insnbuf' copy copy',
      target.alternative pv altinstreplace s p = .ok (insnbuf, copy) →
      target.alternative pv altinstreplace ⟨s.mem, before⟩ p = .ok (insnbuf', copy') →
      copy' = copy

/-- The loop runs to its end, and all its rounds are inside of the buffers. -/
def AltinstrInside (altinst : SectionInfo) (s : AltinstrState) : Prop :=
  (∃ s', target.applyAltinstr pv cpuCaps s = .ok s') ∧
    ∀ r ∈ target.altinstrRounds pv cpuCaps altinstreplace (tableEntries altinst 12) s,
      target.InsideBuffers pv cpuCaps altinstreplace r.2 r.1

end ElfKernelspaceLoader

/-- The values of an element that the buffers are large enough for. -/
structure AltInstr.Fits (a : AltInstr) (cpuCaps : CpuCaps) : Prop where
  cpuid_lt : a.cpuid.toNat < 320
  replacementlen_le : cpuCaps.has a.cpuid = true → a.replacementlen ≤ a.instrlen
  instrlen_le : cpuCaps.has a.cpuid = true → a.instrlen.toNat ≤ 254

section

variable {target : ElfKernelspaceLoader} {pv : ParavirtState} {cpuCaps : CpuCaps}
  {altinstreplace : SectionInfo} {s : AltinstrState} {p : U64}

/-! ## One element -/

/-- The correction of a call is a write that depends on its displacement only. -/
theorem fixCall_eq_write (target : ElfKernelspaceLoader) (altinstreplace : SectionInfo)
    (instr replacement : U64) : ∃ fix : U32 → U32, ∀ insnbuf : Insnbuf,
      target.fixCall altinstreplace instr replacement insnbuf =
        insnbuf.write 1 (bytes32 (fix insnbuf.displacement)) :=
  ⟨fun d => (if altinstreplace.index ≤ replacement ∧
        replacement < altinstreplace.index + altinstreplace.size then
      d - (altinstreplace.index - target.textSegment.index -
        (altinstreplace.memindex - target.textSegment.memindex)).setWidth 32
    else d) + (replacement - instr).setWidth 32, fun _ => rfl⟩

/-- The replacement, with the displacement of a call corrected, is told by the memory. -/
theorem replacement_inside (target : ElfKernelspaceLoader) (altinstreplace : SectionInfo)
    (mem : Memory) (instr replacement : U64) {len : Byte} (hlen : len.toNat ≤ 254) :
    ∃ fixed : List Byte, fixed.length = len.toNat ∧ ∀ before : Insnbuf, ∃ insnbuf₁ insnbuf₂,
      before.write 0 (window mem replacement len.toNat) = .ok insnbuf₁ ∧
      (if insnbuf₁.bytes.getD 0 0 = 0xe8 ∧ len = 5 then
        target.fixCall altinstreplace instr replacement insnbuf₁
      else pure insnbuf₁) = .ok insnbuf₂ ∧
      insnbuf₂.bytes.take len.toNat = fixed := by
  obtain ⟨fix, hfix⟩ := fixCall_eq_write target altinstreplace instr replacement
  by_cases hcall : (window mem replacement len.toNat).getD 0 0 = 0xe8 ∧ len = 5
  · -- the opcode of a call stays, and its displacement is replaced
    obtain ⟨hopcode, rfl⟩ := hcall
    have hfive : (5 : Byte).toNat = 5 := rfl
    rw [hfive] at hopcode ⊢
    refine ⟨(window mem replacement 5).take 1 ++ bytes32 (fix (loadWord mem (replacement + 1))),
      rfl, fun before => ?_⟩
    obtain ⟨insnbuf₁, rest, hwrite₁, hbytes₁⟩ := write_window mem replacement hlen before
    have hfits : 1 + (bytes32 (fix (loadWord mem (replacement + 1)))).length ≤ 254 := by
      simp [bytes32]
    obtain ⟨insnbuf₂, hwrite₂, hbytes₂⟩ := insnbuf₁.write_eq hfits
    have hfirst : insnbuf₁.bytes.getD 0 0 = 0xe8 := by
      rw [hbytes₁]
      exact hopcode
    refine ⟨insnbuf₁, insnbuf₂, hwrite₁, ?_, ?_⟩
    · rw [if_pos ⟨hfirst, rfl⟩, hfix, displacement_of_window hbytes₁]
      exact hwrite₂
    · rw [hbytes₂, hbytes₁]
      rfl
  · refine ⟨window mem replacement len.toNat, length_window _ _ _, fun before => ?_⟩
    obtain ⟨insnbuf₁, rest, hwrite₁, hbytes₁⟩ := write_window mem replacement hlen before
    refine ⟨insnbuf₁, insnbuf₁, hwrite₁, if_neg ?_, ?_⟩
    · rintro ⟨hopcode, rfl⟩
      rw [hbytes₁] at hopcode
      exact hcall ⟨hopcode, rfl⟩
    · rw [hbytes₁]
      exact List.take_left' (length_window _ _ _)

/-- What is copied to the place of the instruction, whatever has been in the buffer. -/
theorem alternative_inside (target : ElfKernelspaceLoader) (pv : ParavirtState)
    (altinstreplace : SectionInfo) (mem : Memory) (p : U64)
    (hle : (loadAltInstr mem p).replacementlen ≤ (loadAltInstr mem p).instrlen)
    (hlen : (loadAltInstr mem p).instrlen.toNat ≤ 254) :
    ∃ copy, ∀ before, ∃ insnbuf,
      target.alternative pv altinstreplace ⟨mem, before⟩ p = .ok (insnbuf, copy) := by
  have hle' : (loadAltInstr mem p).replacementlen.toNat ≤ (loadAltInstr mem p).instrlen.toNat := hle
  obtain ⟨fixed, hfixed, hput⟩ := replacement_inside target altinstreplace mem
    (target.instr mem p) (relativeTo mem (p + 4)) (Nat.le_trans hle' hlen)
  have hsub : ((loadAltInstr mem p).instrlen - (loadAltInstr mem p).replacementlen).toNat =
      (loadAltInstr mem p).instrlen.toNat - (loadAltInstr mem p).replacementlen.toNat :=
    BitVec.toNat_sub_of_le hle
  have hnops := (nopRun_addNops pv.ideal_nops
    ((loadAltInstr mem p).instrlen - (loadAltInstr mem p).replacementlen).toNat).length
  refine ⟨⟨target.instr mem p, fixed ++ addNops pv.ideal_nops
    ((loadAltInstr mem p).instrlen - (loadAltInstr mem p).replacementlen).toNat⟩, fun before => ?_⟩
  obtain ⟨insnbuf₁, insnbuf₂, hwrite₁, hfix, htake⟩ := hput before
  -- NOPs fill the rest of the instruction
  have hfits : (loadAltInstr mem p).replacementlen.toNat + (addNops pv.ideal_nops
      ((loadAltInstr mem p).instrlen - (loadAltInstr mem p).replacementlen).toNat).length ≤ 254 :=
    by omega
  obtain ⟨insnbuf₃, hwrite₃, hbytes₃⟩ := insnbuf₂.write_eq hfits
  refine ⟨insnbuf₃, ?_⟩
  have hcopy : insnbuf₃.bytes.take (loadAltInstr mem p).instrlen.toNat = fixed ++
      addNops pv.ideal_nops
        ((loadAltInstr mem p).instrlen - (loadAltInstr mem p).replacementlen).toNat := by
    rw [hbytes₃, htake]
    apply List.take_left'
    rw [List.length_append, hfixed, hnops]
    omega
  rw [alternative_eq]
  dsimp only
  rw [bind_of_ok hwrite₁, bind_of_ok hfix, bind_of_ok hwrite₃, if_neg (by omega), hcopy]

/-- What fits into the buffer. -/
theorem fits_of_alternative {insnbuf : Insnbuf} {copy : Copy}
    (h : target.alternative pv altinstreplace s p = .ok (insnbuf, copy)) :
    (loadAltInstr s.mem p).replacementlen ≤ (loadAltInstr s.mem p).instrlen ∧
      (loadAltInstr s.mem p).instrlen.toNat ≤ 254 := by
  rw [alternative_eq] at h
  obtain ⟨insnbuf₁, -, h⟩ := exists_of_bind_ok h
  obtain ⟨insnbuf₂, -, h⟩ := exists_of_bind_ok h
  obtain ⟨insnbuf₃, hwrite₃, h⟩ := exists_of_bind_ok h
  have hfits := Insnbuf.fits_of_write hwrite₃
  rw [(nopRun_addNops _ _).length] at hfits
  refine ⟨?_, ?_⟩
  · -- the difference of the lengths would be computed modulo 256
    by_contra hnot
    have hlt := BitVec.not_le.mp hnot
    bv_omega
  · by_contra hnot
    rw [if_pos (by omega)] at h
    cases h

variable (target pv cpuCaps altinstreplace) in
/-- **One round** is inside of the buffers exactly if they are large enough for the element. -/
theorem insideBuffers_iff (s : AltinstrState) (p : U64) :
    target.InsideBuffers pv cpuCaps altinstreplace s p ↔ (loadAltInstr s.mem p).Fits cpuCaps := by
  constructor
  · rintro ⟨hcaps, hwrites, -⟩
    refine ⟨by omega, fun hhas => ?_, fun hhas => ?_⟩
    · obtain ⟨insnbuf, copy, halt⟩ := hwrites hhas
      exact (fits_of_alternative halt).1
    · obtain ⟨insnbuf, copy, halt⟩ := hwrites hhas
      exact (fits_of_alternative halt).2
  · rintro ⟨hcpuid, hle, hlen⟩
    refine ⟨by omega, fun hhas => ?_, fun hhas => ?_⟩
    · obtain ⟨copy, hcopy⟩ := alternative_inside target pv altinstreplace s.mem p (hle hhas)
        (hlen hhas)
      obtain ⟨insnbuf, halt⟩ := hcopy s.insnbuf
      exact ⟨insnbuf, copy, halt⟩
    · intro before insnbuf insnbuf' copy copy' halt halt'
      obtain ⟨c, hc⟩ := alternative_inside target pv altinstreplace s.mem p (hle hhas) (hlen hhas)
      obtain ⟨b₁, hb₁⟩ := hc s.insnbuf
      obtain ⟨b₂, hb₂⟩ := hc before
      cases hb₁.symm.trans halt
      cases hb₂.symm.trans halt'
      rfl

/-! ## The loop -/

theorem altinstrRound_ok (h : (loadAltInstr s.mem p).Fits cpuCaps) :
    ∃ s', target.altinstrRound pv cpuCaps altinstreplace s p = .ok s' := by
  unfold ElfKernelspaceLoader.altinstrRound
  split
  · rename_i hhas
    obtain ⟨insnbuf, copy, halt⟩ :=
      ((insideBuffers_iff target pv cpuCaps altinstreplace s p).mpr h).writes hhas
    exact ⟨_, bind_of_ok halt _⟩
  · exact ⟨s, rfl⟩

/-- The loop runs to its end if all elements that it comes to fit. -/
theorem altinstrLoop_ok {entries : List U64} {s : AltinstrState}
    (h : ∀ r ∈ target.altinstrRounds pv cpuCaps altinstreplace entries s,
      (loadAltInstr r.2.mem r.1).Fits cpuCaps) :
    ∃ s', entries.foldlM (target.altinstrRound pv cpuCaps altinstreplace) s = .ok s' := by
  induction entries generalizing s with
  | nil => exact ⟨s, rfl⟩
  | cons p entries ih =>
      unfold ElfKernelspaceLoader.altinstrRounds at h
      rw [List.forall_mem_cons] at h
      obtain ⟨s₁, hround⟩ := altinstrRound_ok h.1
      rw [hround] at h
      obtain ⟨s', hloop⟩ := ih h.2
      exact ⟨s', foldlM_cons_eq_ok_iff.mpr ⟨s₁, hround, hloop⟩⟩

end

/-- **When a run stays inside of its buffers**: for each element, as the loop finds it, the number
of the feature is below 320, and if the processor has the feature, the replacement is not longer
than the instruction, and the instruction has at most 254 bytes. -/
theorem altinstrInside_iff (target : ElfKernelspaceLoader) (pv : ParavirtState)
    (cpuCaps : CpuCaps) (s : AltinstrState) {altinst altinstreplace : SectionInfo}
    (haltinst : target.elffile.findSectionWithName ".altinstructions" = .ok altinst)
    (hindex : altinst.index ≠ 0)
    (hreplace : target.elffile.findSectionWithName ".altinstr_replacement" >>=
      target.updateSectionInfoMemAddress = .ok altinstreplace) :
    target.AltinstrInside pv cpuCaps altinstreplace altinst s ↔
      ∀ r ∈ target.altinstrRounds pv cpuCaps altinstreplace (tableEntries altinst 12) s,
        (loadAltInstr r.2.mem r.1).Fits cpuCaps := by
  constructor
  · rintro ⟨-, hinside⟩ r hr
    exact (insideBuffers_iff target pv cpuCaps altinstreplace r.2 r.1).mp (hinside r hr)
  · intro hfits
    refine ⟨?_, fun r hr => ?_⟩
    · rw [applyAltinstr_eq haltinst hindex hreplace]
      exact altinstrLoop_ok hfits
    · exact (insideBuffers_iff target pv cpuCaps altinstreplace r.2 r.1).mpr (hfits r hr)

/-- Where no element replaces a part of the table, the loop finds the elements as they are in the
file: then the condition is one on the table. -/
theorem fits_rounds_iff_of_apart {target : ElfKernelspaceLoader} {pv : ParavirtState}
    {cpuCaps : CpuCaps} {altinstreplace : SectionInfo} {s : AltinstrState} {all entries : List U64}
    {mem : Memory} (hapart : target.TableApart mem all) (hsub : entries ⊆ all)
    (hsame : SameElements all mem s.mem) :
    (∀ r ∈ target.altinstrRounds pv cpuCaps altinstreplace entries s,
      (loadAltInstr r.2.mem r.1).Fits cpuCaps) ↔
      ∀ p ∈ entries, (loadAltInstr mem p).Fits cpuCaps := by
  induction entries generalizing s with
  | nil => simp [ElfKernelspaceLoader.altinstrRounds]
  | cons p entries ih =>
      rw [List.cons_subset] at hsub
      unfold ElfKernelspaceLoader.altinstrRounds
      rw [List.forall_mem_cons, List.forall_mem_cons, ← hsame.loadAltInstr_eq hsub.1]
      refine and_congr_right fun hfits => ?_
      obtain ⟨s₁, hround⟩ :
          ∃ s', target.altinstrRound pv cpuCaps altinstreplace s p = .ok s' :=
        altinstrRound_ok hfits
      rw [hround]
      exact ih hsub.2 (hsame.round hapart hsub.1 hround)

/-! ## A table with one element -/

/-- The memory of `kernelLayoutLoader`, with other values in the element. The replacement is
zeros. -/
def elementMemory (cpuid : BitVec 16) (instrlen replacementlen : Byte) : Memory := fun a =>
  let table : List Byte := [0x10, 0xd0, 0x31, 0xff, 0xfc, 0x0f, 0, 0, cpuid.setWidth 8,
    (cpuid >>> 8).setWidth 8, instrlen, replacementlen]
  table.getD (a - 0x110e3000).toNat 0

theorem kernelLayout_altinstr_replacement :
    (kernelLayoutLoader 0x10e3000).elffile.findSectionWithName ".altinstr_replacement" >>=
      (kernelLayoutLoader 0x10e3000).updateSectionInfoMemAddress =
        .ok (kernelLayoutSection 0x10e3000 2) := rfl

theorem kernelLayout_rounds (cpuCaps : CpuCaps) (s : AltinstrState) :
    (kernelLayoutLoader 0x10e3000).altinstrRounds interruptState cpuCaps
      (kernelLayoutSection 0x10e3000 2) (tableEntries (kernelLayoutSection 0x10e3000 1) 12) s =
      [(0x110e3000, s)] := by
  have hentries : tableEntries (kernelLayoutSection 0x10e3000 1) 12 = [0x110e3000] := by decide
  rw [hentries]
  unfold ElfKernelspaceLoader.altinstrRounds
  split
  · rfl
  · rfl

/-- An instruction of 254 bytes is replaced inside of the buffers. -/
theorem elementMemory_inside :
    (kernelLayoutLoader 0x10e3000).AltinstrInside interruptState (fun _ => 0x10000)
      (kernelLayoutSection 0x10e3000 2) (kernelLayoutSection 0x10e3000 1)
      ⟨elementMemory 0x10 254 8, zeroInsnbuf⟩ :=
  (altinstrInside_iff (kernelLayoutLoader 0x10e3000) interruptState (fun _ => 0x10000)
    ⟨elementMemory 0x10 254 8, zeroInsnbuf⟩ (kernelLayout_altinstructions _) (by decide)
    kernelLayout_altinstr_replacement).mpr
    (by
      rw [kernelLayout_rounds, List.forall_mem_singleton]
      exact ⟨by decide, fun _ => by decide, fun _ => by decide⟩)

/-- **An element that leads out of the buffers**: for the feature 320 a word behind `cpuCaps` is
read, and an instruction of 255 bytes is put together in the buffer and one byte behind it. -/
theorem elementMemory_outside :
    (loadAltInstr (elementMemory 320 8 5) 0x110e3000).replacementlen ≤
        (loadAltInstr (elementMemory 320 8 5) 0x110e3000).instrlen ∧
      ¬ (kernelLayoutLoader 0x10e3000).AltinstrInside interruptState (fun _ => 0x10000)
        (kernelLayoutSection 0x10e3000 2) (kernelLayoutSection 0x10e3000 1)
        ⟨elementMemory 320 8 5, zeroInsnbuf⟩ ∧
      (loadAltInstr (elementMemory 0x10 255 8) 0x110e3000).replacementlen ≤
        (loadAltInstr (elementMemory 0x10 255 8) 0x110e3000).instrlen ∧
      ¬ (kernelLayoutLoader 0x10e3000).AltinstrInside interruptState (fun _ => 0x10000)
        (kernelLayoutSection 0x10e3000 2) (kernelLayoutSection 0x10e3000 1)
        ⟨elementMemory 0x10 255 8, zeroInsnbuf⟩ := by
  refine ⟨by decide, ?_, by decide, ?_⟩
  · rintro ⟨-, hinside⟩
    rw [kernelLayout_rounds, List.forall_mem_singleton] at hinside
    have hcaps := hinside.caps
    revert hcaps
    decide
  · rintro ⟨-, hinside⟩
    rw [kernelLayout_rounds, List.forall_mem_singleton] at hinside
    obtain ⟨insnbuf, copy, halt⟩ := hinside.writes (by decide)
    have hlen := (fits_of_alternative halt).2
    revert hlen
    decide

end KernInt
