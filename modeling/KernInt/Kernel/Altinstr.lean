import KernInt.Kernel.ParavirtExact
import KernInt.Lib.Outcome

set_option autoImplicit false

/-! # Alternative instructions

`ElfKernelspaceLoader::applyAltinstr` replaces instructions by those for the processor at hand.
Both places are told by distances from the fields of the table in which they stand. A call is
moved with its displacement corrected, so that it keeps its target (`altinstr_call_keepsTarget`).

In the table of the kernel the distances are those of the guest. The place of the instruction is
corrected for the start of `.text` in the file only, so that it is the right one for some
layouts of the file and not for others (`instr_kernel_iff`).
-/

namespace KernInt

open Lib

/-- The 32-bit value at `p`. -/
def loadWord (mem : Memory) (p : U64) : U32 := load32 (fun k => mem (p + BitVec.ofNat 64 k)) 0

theorem loadWord_congr {mem mem' : Memory} {p : U64}
    (h : ∀ n < 4, mem' (p + BitVec.ofNat 64 n) = mem (p + BitVec.ofNat 64 n)) :
    loadWord mem' p = loadWord mem p := by
  apply load32_congr
  intro n hn
  rw [Nat.zero_add]
  exact h n hn

/-- The address that is told by its distance from the field at `p`. -/
def relativeTo (mem : Memory) (p : U64) : U64 := p + (loadWord mem p).signExtend 64

structure AltInstr where
  cpuid : BitVec 16
  instrlen : Byte
  replacementlen : Byte

/-- The last members of the element of the table at `p`, which has 12 bytes. The two distances
in front of them are read where they stand. -/
def loadAltInstr (mem : Memory) (p : U64) : AltInstr where
  cpuid := mem (p + 9) ++ mem (p + 8)
  instrlen := mem (p + 10)
  replacementlen := mem (p + 11)

/-- The words of `x86_capability`. -/
abbrev CpuCaps := Nat → U32

def CpuCaps.has (cpuCaps : CpuCaps) (cpuid : BitVec 16) : Bool :=
  (cpuCaps (cpuid.toNat / 32) >>> (cpuid.toNat % 32)) &&& 1 ≠ 0

/-- A loader of the kernel, or of the module with this entry in the list of modules. -/
structure ElfKernelspaceLoader extends ElfLoader where
  currentModule : Option ModuleInstance

/-- The displacement of a call at the beginning of the buffer. -/
def Insnbuf.displacement (insnbuf : Insnbuf) : U32 := load32 (fun k => insnbuf.bytes.getD k 0) 1

/-- The variables of the loop in `applyAltinstr`. -/
structure AltinstrState where
  mem : Memory
  insnbuf : Insnbuf

namespace ElfKernelspaceLoader

variable (target : ElfKernelspaceLoader)

/-- A section of the kernel is where the file says. -/
def updateSectionInfoMemAddress (info : SectionInfo) : Except ElfError SectionInfo :=
  match target.currentModule with
  | none => .ok info
  | some currentModule => do
      let memindex ← findMemAddressOfSegment target.elffile currentModule info
      return { info with memindex }

/-- The host address of the instruction that the element at `p` replaces. -/
def instr (mem : Memory) (p : U64) : U64 :=
  match target.currentModule with
  | none => relativeTo mem p - (target.textSegment.index - target.elffile.fileContent)
  | some _ => relativeTo mem p

/-- The displacement of a call is corrected for the way from the one place to the other: if it is
in `.altinstr_replacement`, first by the difference between host and guest. -/
def fixCall (altinstreplace : SectionInfo) (instr replacement : U64) (insnbuf : Insnbuf) :
    Except PatchError Insnbuf := do
  let text := target.textSegment
  let d := insnbuf.displacement
  let d :=
    if altinstreplace.index ≤ replacement ∧
        replacement < altinstreplace.index + altinstreplace.size then
      d - (altinstreplace.index - text.index -
        (altinstreplace.memindex - text.memindex)).setWidth 32
    else d
  insnbuf.write 1 (bytes32 (d + (replacement - instr).setWidth 32))

variable (pv : ParavirtState) (cpuCaps : CpuCaps) (altinstreplace : SectionInfo)

/-- A round of the loop for an element whose feature the processor has, up to its last `memcpy`,
which is returned. -/
def alternative (s : AltinstrState) (p : U64) : Except PatchError (Insnbuf × Copy) := do
  let a := loadAltInstr s.mem p
  let instr := target.instr s.mem p
  let replacement := relativeTo s.mem (p + 4)
  let insnbuf ← s.insnbuf.write 0 (window s.mem replacement a.replacementlen.toNat)
  let insnbuf ←
    if insnbuf.bytes.getD 0 0 = 0xe8 ∧ a.replacementlen = 5 then
      target.fixCall altinstreplace instr replacement insnbuf
    else pure insnbuf
  let insnbuf ← insnbuf.write a.replacementlen.toNat
    (addNops pv.ideal_nops (a.instrlen - a.replacementlen).toNat)
  -- the last `memcpy` reads behind the end of the buffer
  if 254 < a.instrlen.toNat then throw .bufferOverflow
  return (insnbuf, ⟨instr, insnbuf.bytes.take a.instrlen.toNat⟩)

def altinstrRound (s : AltinstrState) (p : U64) : Except PatchError AltinstrState :=
  if cpuCaps.has (loadAltInstr s.mem p).cpuid then do
    let (insnbuf, copy) ← target.alternative pv altinstreplace s p
    return { mem := copy.apply s.mem, insnbuf }
  else .ok s

def applyAltinstr (s : AltinstrState) : Except PatchError AltinstrState :=
  match target.elffile.findSectionWithName ".altinstructions" with
  | .error e => .error (.elf e)
  | .ok altinst =>
      if altinst.index = 0 then .ok s
      else
        match target.elffile.findSectionWithName ".altinstr_replacement" >>=
            target.updateSectionInfoMemAddress with
        | .error e => .error (.elf e)
        | .ok altinstreplace =>
            (tableEntries altinst 12).foldlM (target.altinstrRound pv cpuCaps altinstreplace) s

end ElfKernelspaceLoader

/-! ## Calls -/

theorem setWidth_signExtend_self (d : U32) : (d.signExtend 64).setWidth 32 = d := by
  ext i hi
  simp [BitVec.getLsbD_signExtend, hi]
  omega

theorem setWidth_add (x y : U64) : (x + y).setWidth 32 = x.setWidth 32 + y.setWidth 32 :=
  BitVec.setWidth_add x y (by decide)

theorem setWidth_sub (x y : U64) : (x - y).setWidth 32 = x.setWidth 32 - y.setWidth 32 := by
  bv_omega

/-- The lower half of the address that a call at `addr` goes to. -/
def callTarget (addr : U64) (displacement : U32) : U32 :=
  (addr + 5 + displacement.signExtend 64).setWidth 32

theorem callTarget_eq (addr : U64) (d : U32) : callTarget addr d = addr.setWidth 32 + 5 + d := by
  unfold callTarget
  rw [setWidth_add, setWidth_add, setWidth_signExtend_self]
  rfl

/-- The corrections of a displacement put the guest addresses in place of the host's. -/
theorem callTarget_corrected (ai ti am tm r o : U64) (d : U32) :
    callTarget (tm + o) (d - (ai - ti - (am - tm)).setWidth 32 +
      (ai + r - (ti + o)).setWidth 32) = callTarget (am + r) d := by
  rw [callTarget_eq, callTarget_eq]
  simp only [setWidth_sub, setWidth_add]
  grind

/-- A buffer that starts with the five bytes of a call. -/
theorem displacement_of_window {insnbuf : Insnbuf} {mem : Memory} {a : U64} {rest : List Byte}
    (h : insnbuf.bytes = window mem a 5 ++ rest) : insnbuf.displacement = loadWord mem (a + 1) := by
  have hfive : window mem a 5 = [mem (a + 0), mem (a + 1), mem (a + 2), mem (a + 3), mem (a + 4)] :=
    rfl
  unfold Insnbuf.displacement loadWord load32
  rw [h, hfive]
  simp [BitVec.add_assoc]

/-- The element at `p` replaces an instruction at offset `o` of `.text` by a call of five bytes at
offset `r` of `.altinstr_replacement`, which the host has at consecutive addresses. -/
structure ElfKernelspaceLoader.CallEntry (target : ElfKernelspaceLoader)
    (altinstreplace : SectionInfo) (mem : Memory) (p r o : U64) : Prop where
  host : altinstreplace.index.toNat + altinstreplace.size.toNat < 2 ^ 64
  inside : r < altinstreplace.size
  replacement : relativeTo mem (p + 4) = altinstreplace.index + r
  instr : target.instr mem p = target.textSegment.index + o
  call : mem (altinstreplace.index + r) = 0xe8
  replacementlen : (loadAltInstr mem p).replacementlen = 5
  instrlen_ge : 5 ≤ (loadAltInstr mem p).instrlen
  instrlen_le : (loadAltInstr mem p).instrlen ≤ 254

section

variable {target : ElfKernelspaceLoader} {pv : ParavirtState} {cpuCaps : CpuCaps}
  {altinstreplace : SectionInfo} {s : AltinstrState} {p r o : U64}

/-- The host has the section at consecutive addresses. -/
theorem inside_of_offset {info : SectionInfo} (hhost : info.index.toNat + info.size.toNat < 2 ^ 64)
    (hr : r < info.size) :
    info.index ≤ info.index + r ∧ info.index + r < info.index + info.size := by
  constructor
  · bv_omega
  · bv_omega

theorem fixCall_eq (target : ElfKernelspaceLoader) (insnbuf : Insnbuf)
    (hhost : altinstreplace.index.toNat + altinstreplace.size.toNat < 2 ^ 64)
    (hr : r < altinstreplace.size) (instr : U64) :
    ∃ insnbuf', target.fixCall altinstreplace instr (altinstreplace.index + r) insnbuf =
        .ok insnbuf' ∧
      insnbuf'.bytes = insnbuf.bytes.take 1 ++
        bytes32 (insnbuf.displacement -
            (altinstreplace.index - target.textSegment.index -
              (altinstreplace.memindex - target.textSegment.memindex)).setWidth 32 +
          (altinstreplace.index + r - instr).setWidth 32) ++ insnbuf.bytes.drop 5 := by
  unfold ElfKernelspaceLoader.fixCall
  simp only [if_pos (inside_of_offset hhost hr)]
  exact insnbuf.write_eq (k := 1) (by simp [bytes32])

/-- The call, the NOPs, and what has been in the buffer before. -/
theorem take_call {xs ys nops post : List Byte} {d : U32} {n : Nat} (hnops : nops.length = n - 5)
    (hn : 5 ≤ n) :
    ((List.take 1 (0xe8 :: xs) ++ bytes32 d ++ ys).take 5 ++ nops ++ post).take n =
      0xe8 :: bytes32 d ++ nops := by
  have hfive : (List.take 1 (0xe8 :: xs) ++ bytes32 d ++ ys).take 5 = 0xe8 :: bytes32 d := rfl
  have hcall : (0xe8 :: bytes32 d).length = 5 := rfl
  rw [hfive]
  apply List.take_left'
  rw [List.length_append, hcall, hnops]
  omega

/-- The buffer begins with the replacement. -/
theorem write_window (mem : Memory) (a : U64) {n : Nat} (hn : n ≤ 254) (before : Insnbuf) :
    ∃ insnbuf : Insnbuf, ∃ rest, before.write 0 (window mem a n) = .ok insnbuf ∧
      insnbuf.bytes = window mem a n ++ rest := by
  have hlen : (window mem a n).length = n := length_window _ _ _
  have hfits : 0 + (window mem a n).length ≤ 254 := by omega
  obtain ⟨insnbuf, hwrite, hbytes⟩ := before.write_eq hfits
  rw [List.take_zero, List.nil_append] at hbytes
  exact ⟨insnbuf, _, hwrite, hbytes⟩

/-- A round as a sequence of its writes. -/
theorem alternative_eq (target : ElfKernelspaceLoader) (pv : ParavirtState)
    (altinstreplace : SectionInfo) (s : AltinstrState) (p : U64) :
    target.alternative pv altinstreplace s p =
      let a := loadAltInstr s.mem p
      let replacement := relativeTo s.mem (p + 4)
      s.insnbuf.write 0 (window s.mem replacement a.replacementlen.toNat) >>= fun insnbuf =>
        (if insnbuf.bytes.getD 0 0 = 0xe8 ∧ a.replacementlen = 5 then
          target.fixCall altinstreplace (target.instr s.mem p) replacement insnbuf
        else pure insnbuf) >>= fun insnbuf =>
          insnbuf.write a.replacementlen.toNat
              (addNops pv.ideal_nops (a.instrlen - a.replacementlen).toNat) >>= fun insnbuf =>
            if 254 < a.instrlen.toNat then .error .bufferOverflow
            else .ok (insnbuf, ⟨target.instr s.mem p, insnbuf.bytes.take a.instrlen.toNat⟩) := by
  unfold ElfKernelspaceLoader.alternative
  dsimp only
  congr 1
  funext insnbuf
  split
  · congr 1
  · rfl

/-- The buffer behind the last `memcpy` into it, and the copy to the place of the instruction. -/
theorem alternative_call (pv : ParavirtState)
    (h : target.CallEntry altinstreplace s.mem p r o) :
    ∃ insnbuf d, target.alternative pv altinstreplace s p =
        .ok (insnbuf, ⟨target.textSegment.index + o, 0xe8 :: bytes32 d ++
          addNops pv.ideal_nops ((loadAltInstr s.mem p).instrlen.toNat - 5)⟩) ∧
      callTarget (target.textSegment.memindex + o) d = callTarget (altinstreplace.memindex + r)
        (loadWord s.mem (altinstreplace.index + r + 1)) := by
  -- the replacement is put into the buffer
  obtain ⟨insnbuf₁, rest, hwrite₁, hbytes₁⟩ :=
    write_window s.mem (altinstreplace.index + r) (by decide : 5 ≤ 254) s.insnbuf
  have hhead : insnbuf₁.bytes = 0xe8 :: insnbuf₁.bytes.drop 1 := by
    rw [hbytes₁, ← h.call]
    simp [window, List.range_succ]
  -- its displacement is replaced
  obtain ⟨insnbuf₂, hfix, hbytes₂⟩ := fixCall_eq target insnbuf₁ h.host h.inside
    (target.textSegment.index + o)
  rw [displacement_of_window hbytes₁, hhead] at hbytes₂
  have hle : (loadAltInstr s.mem p).instrlen.toNat ≤ 254 := h.instrlen_le
  have hge : 5 ≤ (loadAltInstr s.mem p).instrlen.toNat := h.instrlen_ge
  have hnops := (nopRun_addNops pv.ideal_nops
    ((loadAltInstr s.mem p).instrlen.toNat - 5)).length
  have hsub : ((loadAltInstr s.mem p).instrlen - 5).toNat =
      (loadAltInstr s.mem p).instrlen.toNat - 5 := by
    bv_omega
  -- NOPs fill the rest of the instruction
  have hfits₃ : 5 + (addNops pv.ideal_nops
      ((loadAltInstr s.mem p).instrlen.toNat - 5)).length ≤ 254 := by
    rw [hnops]
    omega
  obtain ⟨insnbuf₃, hwrite₃, hbytes₃⟩ := insnbuf₂.write_eq hfits₃
  refine ⟨insnbuf₃, _, ?_, callTarget_corrected altinstreplace.index target.textSegment.index
    altinstreplace.memindex target.textSegment.memindex r o _⟩
  have hcopy := congrArg (List.take (loadAltInstr s.mem p).instrlen.toNat) hbytes₃
  rw [hbytes₂, take_call hnops hge] at hcopy
  have hfirst : insnbuf₁.bytes.getD 0 0 = 0xe8 := by
    rw [hhead]
    rfl
  have hfive : (5 : Byte).toNat = 5 := rfl
  rw [alternative_eq]
  simp only [h.replacement, h.instr, h.replacementlen]
  rw [hfive, bind_of_ok hwrite₁, if_pos ⟨hfirst, trivial⟩, bind_of_ok hfix, hsub,
    bind_of_ok hwrite₃, if_neg (by omega), hcopy]

end

theorem altinstrRound_of_alternative {target : ElfKernelspaceLoader} {pv : ParavirtState}
    {cpuCaps : CpuCaps} {altinstreplace : SectionInfo} {s : AltinstrState} {p : U64}
    {insnbuf : Insnbuf} {copy : Copy}
    (henabled : cpuCaps.has (loadAltInstr s.mem p).cpuid = true)
    (halt : target.alternative pv altinstreplace s p = .ok (insnbuf, copy)) :
    target.altinstrRound pv cpuCaps altinstreplace s p = .ok ⟨copy.apply s.mem, insnbuf⟩ := by
  unfold ElfKernelspaceLoader.altinstrRound
  rw [if_pos henabled, halt]
  rfl

/-- The NOPs of a call fill its instruction. -/
theorem length_callBytes (ideal_nops : NopTable) (d : U32) {n : Nat} (hn : 5 ≤ n) :
    (0xe8 :: bytes32 d ++ addNops ideal_nops (n - 5)).length = n := by
  have hcall : (0xe8 :: bytes32 d).length = 5 := rfl
  rw [List.length_append, hcall, (nopRun_addNops ideal_nops (n - 5)).length]
  omega

/-- The instruction that the element at `p` replaces has a byte at `a`. -/
def ElfKernelspaceLoader.Replaces (target : ElfKernelspaceLoader) (mem : Memory) (p a : U64) :
    Prop :=
  (a - target.instr mem p).toNat < (loadAltInstr mem p).instrlen.toNat

/-- No element replaces a part of the table. -/
def ElfKernelspaceLoader.TableApart (target : ElfKernelspaceLoader) (mem : Memory)
    (entries : List U64) : Prop :=
  ∀ p ∈ entries, ∀ p' ∈ entries, ∀ n < 12, ¬ target.Replaces mem p (p' + BitVec.ofNat 64 n)

/-- The elements are as they were. -/
def SameElements (entries : List U64) (mem mem' : Memory) : Prop :=
  ∀ p ∈ entries, ∀ n < 12, mem' (p + BitVec.ofNat 64 n) = mem (p + BitVec.ofNat 64 n)

namespace SameElements

variable {entries : List U64} {mem mem' : Memory} {p : U64}

theorem loadAltInstr_eq (h : SameElements entries mem mem') (hp : p ∈ entries) :
    loadAltInstr mem' p = loadAltInstr mem p := by
  have hlow : mem' (p + 8) = mem (p + 8) := h p hp 8 (by omega)
  have hhigh : mem' (p + 9) = mem (p + 9) := h p hp 9 (by omega)
  have hinstr : mem' (p + 10) = mem (p + 10) := h p hp 10 (by omega)
  have hreplacement : mem' (p + 11) = mem (p + 11) := h p hp 11 (by omega)
  simp only [loadAltInstr, hlow, hhigh, hinstr, hreplacement]

theorem instr_eq (target : ElfKernelspaceLoader) (h : SameElements entries mem mem')
    (hp : p ∈ entries) : target.instr mem' p = target.instr mem p := by
  have hword : loadWord mem' p = loadWord mem p :=
    loadWord_congr fun n hn => h p hp n (by omega)
  simp only [ElfKernelspaceLoader.instr, relativeTo, hword]

theorem replacement_eq (h : SameElements entries mem mem') (hp : p ∈ entries) :
    relativeTo mem' (p + 4) = relativeTo mem (p + 4) := by
  have hword : loadWord mem' (p + 4) = loadWord mem (p + 4) := by
    refine loadWord_congr fun n hn => ?_
    have hsame := h p hp (4 + n) (by omega)
    rwa [BitVec.ofNat_add, ← BitVec.add_assoc] at hsame
  simp only [relativeTo, hword]

theorem replaces_iff {target : ElfKernelspaceLoader} (h : SameElements entries mem mem')
    (hp : p ∈ entries) (a : U64) : target.Replaces mem' p a ↔ target.Replaces mem p a := by
  unfold ElfKernelspaceLoader.Replaces
  rw [h.instr_eq target hp, h.loadAltInstr_eq hp]

end SameElements

section

variable {target : ElfKernelspaceLoader} {pv : ParavirtState} {cpuCaps : CpuCaps}
  {altinstreplace : SectionInfo} {s s' : AltinstrState} {p r o : U64}

/-- The last `memcpy` goes to the place of the instruction. -/
theorem copy_of_alternative {insnbuf : Insnbuf} {copy : Copy}
    (h : target.alternative pv altinstreplace s p = .ok (insnbuf, copy)) :
    copy.addr = target.instr s.mem p ∧
      copy.bytes.length ≤ (loadAltInstr s.mem p).instrlen.toNat := by
  rw [alternative_eq] at h
  obtain ⟨insnbuf₁, -, h⟩ := exists_of_bind_ok h
  obtain ⟨insnbuf₂, -, h⟩ := exists_of_bind_ok h
  obtain ⟨insnbuf₃, -, h⟩ := exists_of_bind_ok h
  split at h
  · cases h
  · cases h
    exact ⟨rfl, List.length_take_le _ _⟩

/-- A round changes nothing but the instruction that its element replaces. -/
theorem altinstrRound_frame (h : target.altinstrRound pv cpuCaps altinstreplace s p = .ok s')
    {a : U64} (ha : ¬ target.Replaces s.mem p a) : s'.mem a = s.mem a := by
  unfold ElfKernelspaceLoader.altinstrRound at h
  split at h
  · obtain ⟨⟨insnbuf, copy⟩, halt, h⟩ := exists_of_bind_ok h
    cases h
    obtain ⟨haddr, hlen⟩ := copy_of_alternative halt
    refine Copy.apply_of_not_covers (fun hcovers => ha ?_) _
    unfold Copy.Covers at hcovers
    unfold ElfKernelspaceLoader.Replaces
    rw [← haddr]
    omega
  · cases h
    rfl

theorem SameElements.round {all : List U64} {mem : Memory} (hsame : SameElements all mem s.mem)
    (hapart : target.TableApart mem all) (hp : p ∈ all)
    (h : target.altinstrRound pv cpuCaps altinstreplace s p = .ok s') :
    SameElements all mem s'.mem := by
  intro p' hp' n hn
  rw [altinstrRound_frame h fun hr => hapart p hp p' hp' n hn ((hsame.replaces_iff hp _).mp hr)]
  exact hsame p' hp' n hn

/-- The loop finds the elements as they are in the file, and changes nothing but the instructions
that they replace. -/
theorem altinstrLoop_frame {all entries : List U64} {mem : Memory}
    (hapart : target.TableApart mem all) (hsub : entries ⊆ all)
    (hsame : SameElements all mem s.mem)
    (h : entries.foldlM (target.altinstrRound pv cpuCaps altinstreplace) s = .ok s') :
    SameElements all mem s'.mem ∧
      ∀ a, (∀ p ∈ entries, ¬ target.Replaces mem p a) → s'.mem a = s.mem a := by
  induction entries generalizing s with
  | nil =>
      cases h
      exact ⟨hsame, fun _ _ => rfl⟩
  | cons p entries ih =>
      obtain ⟨s₁, hround, hloop⟩ := foldlM_cons_eq_ok_iff.mp h
      rw [List.cons_subset] at hsub
      have hframe : ∀ a, ¬ target.Replaces mem p a → s₁.mem a = s.mem a := by
        intro a ha
        exact altinstrRound_frame hround fun hr => ha ((hsame.replaces_iff hsub.1 a).mp hr)
      obtain ⟨hsame', hrest⟩ := ih hsub.2 (hsame.round hapart hsub.1 hround) hloop
      refine ⟨hsame', fun a ha => ?_⟩
      rw [List.forall_mem_cons] at ha
      rw [hrest a ha.2, hframe a ha.1]

/-- A call whose five bytes have been kept. -/
theorem call_of_bytes {mem mem' : Memory} {a : U64}
    (h : ∀ n < 5, mem' (a + BitVec.ofNat 64 n) = mem (a + BitVec.ofNat 64 n)) :
    mem' a = mem a ∧ loadWord mem' (a + 1) = loadWord mem (a + 1) := by
  constructor
  · have hzero := h 0 (by omega)
    rwa [BitVec.add_zero] at hzero
  · refine loadWord_congr fun n hn => ?_
    have hsucc := h (1 + n) (by omega)
    rwa [BitVec.ofNat_add, ← BitVec.add_assoc] at hsucc

/-- The call is there when the loop comes to its element. -/
theorem ElfKernelspaceLoader.CallEntry.of_same {all : List U64} {mem mem' : Memory}
    (h : target.CallEntry altinstreplace mem p r o) (hsame : SameElements all mem mem')
    (hp : p ∈ all) (hcall : mem' (altinstreplace.index + r) = mem (altinstreplace.index + r)) :
    target.CallEntry altinstreplace mem' p r o where
  host := h.host
  inside := h.inside
  replacement := (hsame.replacement_eq hp).trans h.replacement
  instr := (hsame.instr_eq target hp).trans h.instr
  call := hcall.trans h.call
  replacementlen := by
    rw [hsame.loadAltInstr_eq hp]
    exact h.replacementlen
  instrlen_ge := by
    rw [hsame.loadAltInstr_eq hp]
    exact h.instrlen_ge
  instrlen_le := by
    rw [hsame.loadAltInstr_eq hp]
    exact h.instrlen_le

/-- A run of the function is the loop with the section `.altinstr_replacement` of the file. -/
theorem applyAltinstr_eq {altinst : SectionInfo}
    (haltinst : target.elffile.findSectionWithName ".altinstructions" = .ok altinst)
    (hindex : altinst.index ≠ 0)
    (hreplace : target.elffile.findSectionWithName ".altinstr_replacement" >>=
      target.updateSectionInfoMemAddress = .ok altinstreplace) (s : AltinstrState) :
    target.applyAltinstr pv cpuCaps s =
      (tableEntries altinst 12).foldlM (target.altinstrRound pv cpuCaps altinstreplace) s := by
  unfold ElfKernelspaceLoader.applyAltinstr
  rw [haltinst]
  dsimp only
  rw [if_neg hindex, hreplace]

/-- **A call of the table keeps its target** in a run over the whole table. No element replaces a
part of the table or of the call in `.altinstr_replacement`, and none behind it replaces a part of
the same instruction. -/
theorem applyAltinstr_call {altinst : SectionInfo} {pre post : List U64}
    (haltinst : target.elffile.findSectionWithName ".altinstructions" = .ok altinst)
    (hindex : altinst.index ≠ 0)
    (hreplace : target.elffile.findSectionWithName ".altinstr_replacement" >>=
      target.updateSectionInfoMemAddress = .ok altinstreplace)
    (hentries : tableEntries altinst 12 = pre ++ p :: post)
    (hapart : target.TableApart s.mem (tableEntries altinst 12))
    (henabled : cpuCaps.has (loadAltInstr s.mem p).cpuid = true)
    (h : target.CallEntry altinstreplace s.mem p r o)
    (hcall : ∀ p' ∈ pre, ∀ n < 5,
      ¬ target.Replaces s.mem p' (altinstreplace.index + r + BitVec.ofNat 64 n))
    (hplace : ∀ p' ∈ post, ∀ n < (loadAltInstr s.mem p).instrlen.toNat,
      ¬ target.Replaces s.mem p' (target.textSegment.index + o + BitVec.ofNat 64 n))
    (hrun : target.applyAltinstr pv cpuCaps s = .ok s') :
    ∃ d nops, window s'.mem (target.textSegment.index + o)
          (loadAltInstr s.mem p).instrlen.toNat = 0xe8 :: bytes32 d ++ nops ∧
      callTarget (target.textSegment.memindex + o) d = callTarget (altinstreplace.memindex + r)
        (loadWord s.mem (altinstreplace.index + r + 1)) ∧
      NopRun pv.ideal_nops ((loadAltInstr s.mem p).instrlen.toNat - 5) nops := by
  have hp : p ∈ tableEntries altinst 12 := by simp [hentries]
  have hpre : pre ⊆ tableEntries altinst 12 := by simp [hentries]
  have hpost : post ⊆ tableEntries altinst 12 := by
    intro p' hp'
    simp [hentries, hp']
  rw [applyAltinstr_eq haltinst hindex hreplace, hentries] at hrun
  obtain ⟨s₁, s₂, hfront, hround, hback⟩ := foldlM_split_eq_ok_iff.mp hrun
  -- in front of the element: it and the call are as in the file
  obtain ⟨hsame₁, hframe₁⟩ := altinstrLoop_frame hapart hpre (fun _ _ _ _ => rfl) hfront
  obtain ⟨hbyte, hword⟩ := call_of_bytes fun n hn => hframe₁ _ fun p' hp' => hcall p' hp' n hn
  have hload := hsame₁.loadAltInstr_eq hp
  -- its own round
  have h₁ := h.of_same hsame₁ hp hbyte
  obtain ⟨insnbuf, d, halt, htarget⟩ := alternative_call pv h₁
  rw [hload] at halt
  rw [hword] at htarget
  let copy : Copy := ⟨target.textSegment.index + o, 0xe8 :: bytes32 d ++
    addNops pv.ideal_nops ((loadAltInstr s.mem p).instrlen.toNat - 5)⟩
  have hmem₂ : s₂ = ⟨copy.apply s₁.mem, insnbuf⟩ := Except.ok.inj
    (hround.symm.trans (altinstrRound_of_alternative (by rw [hload]; exact henabled) halt))
  -- behind it: the instruction stays
  obtain ⟨-, hframe₂⟩ := altinstrLoop_frame hapart hpost (hsame₁.round hapart hp hround) hback
  have hge : 5 ≤ (loadAltInstr s.mem p).instrlen.toNat := h.instrlen_ge
  have hlen : copy.bytes.length = (loadAltInstr s.mem p).instrlen.toNat :=
    length_callBytes _ _ hge
  have hwindow := window_apply copy s₁.mem (by omega)
  rw [hlen] at hwindow
  refine ⟨d, _, ?_, htarget, nopRun_addNops pv.ideal_nops _⟩
  refine Eq.trans (List.map_congr_left fun n hn => ?_) hwindow
  rw [hframe₂ _ fun p' hp' => hplace p' hp' n (List.mem_range.mp hn), hmem₂]

end

/-! ## The place in the kernel -/

/-- The guest address that is told by its distance from the field at `p`, in a section which the
guest has at `memindex`. -/
def linkTarget (info : SectionInfo) (mem : Memory) (p : U64) : U64 :=
  p - info.index + info.memindex + (loadWord mem p).signExtend 64

/-- **Where the instruction is looked for.** It is the place of the guest address that the
element tells if and only if the offset of `.text` in the file is the difference between the
distances of the two sections in the file and in the guest. -/
theorem instr_kernel_iff (target : ElfKernelspaceLoader) (altinst : SectionInfo) (mem : Memory)
    (p : U64) (hkernel : target.currentModule = none)
    (htext : target.elffile.findSectionWithName ".text" = .ok target.textSegment)
    (haltinst : target.elffile.findSectionWithName ".altinstructions" = .ok altinst) :
    target.instr mem p = target.textSegment.index +
        (linkTarget altinst mem p - target.textSegment.memindex) ↔
      altinst.offset - target.textSegment.offset -
        (altinst.memindex - target.textSegment.memindex) = target.textSegment.offset := by
  have htext' := ElfFile.index_of_findSectionWithName htext
  have haltinst' := ElfFile.index_of_findSectionWithName haltinst
  unfold ElfKernelspaceLoader.instr linkTarget relativeTo
  rw [hkernel, htext', haltinst']
  dsimp only
  constructor
  · intro h
    grind
  · intro h
    grind

/-! ## Two layouts -/

/-- A kernel whose table has one element, for an instruction of 8 bytes at offset 0x10 of
`.text`. -/
def kernelLayout (altinstrOffset : U64) : ElfFile where
  e_type := ET_EXEC
  e_entry := 0
  fileContent := 0x10000000
  elf64Shdr := [sectionHeader ".text" 0xffffffff81000000 0x200000 0x1000,
    sectionHeader ".altinstructions" 0xffffffff81ce3000 altinstrOffset 12,
    sectionHeader ".altinstr_replacement" 0xffffffff81ce4000 (altinstrOffset + 0x1000) 5]
  shnum_lt := ElfFile.shnum_lt_three _ _ _
  rela _ := []
  sym _ _ := default
  symbolName _ _ := ""

/-- The distances of the element are those of the guest; the replacement is a call. -/
def kernelLayoutMemory (altinstrOffset : U64) : Memory := fun a =>
  let table : List Byte := [0x10, 0xd0, 0x31, 0xff, 0xfc, 0x0f, 0, 0, 0x10, 0, 8, 5]
  let call : List Byte := [0xe8, 0, 1, 0, 0]
  let offset := a - (0x10000000 + altinstrOffset)
  table.getD offset.toNat (call.getD (offset - 0x1000).toNat 0)

def kernelLayoutLoader (altinstrOffset : U64) : ElfKernelspaceLoader where
  elffile := kernelLayout altinstrOffset
  textSegment := (kernelLayout altinstrOffset).sectionInfo 0 ((kernelLayout altinstrOffset).shdr 0)
  currentModule := none

def kernelLayoutSection (altinstrOffset : U64) (i : Nat) : SectionInfo :=
  (kernelLayout altinstrOffset).sectionInfo i ((kernelLayout altinstrOffset).shdr i)

theorem kernelLayout_text (altinstrOffset : U64) :
    (kernelLayout altinstrOffset).findSectionWithName ".text" =
      .ok (kernelLayoutLoader altinstrOffset).textSegment := rfl

theorem kernelLayout_altinstructions (altinstrOffset : U64) :
    (kernelLayout altinstrOffset).findSectionWithName ".altinstructions" =
      .ok (kernelLayoutSection altinstrOffset 1) := by
  rfl

/-- A layout with 2 MB between the segments for which the place is the right one. -/
theorem instr_kernel_gap :
    (kernelLayoutLoader 0x10e3000).instr (kernelLayoutMemory 0x10e3000) 0x110e3000 =
      (kernelLayoutLoader 0x10e3000).textSegment.index + 0x10 :=
  (instr_kernel_iff (kernelLayoutLoader 0x10e3000) (kernelLayoutSection 0x10e3000 1)
    (kernelLayoutMemory 0x10e3000) 0x110e3000 rfl (kernelLayout_text _)
    (kernelLayout_altinstructions _)).mpr (by decide)

/-- Without this gap the place is that much in front of `.text`: it is in the header of the
file. -/
theorem instr_kernel_contiguous :
    linkTarget (kernelLayoutSection 0xee3000 1) (kernelLayoutMemory 0xee3000) 0x10ee3000 =
        (kernelLayoutLoader 0xee3000).textSegment.memindex + 0x10 ∧
      (kernelLayoutLoader 0xee3000).instr (kernelLayoutMemory 0xee3000) 0x10ee3000 = 0x10000010 ∧
      (kernelLayoutLoader 0xee3000).textSegment.index + 0x10 = 0x10200010 := by
  decide

/-- The element and the replacement, in the layout with the right place. -/
theorem callEntry_gap : (kernelLayoutLoader 0x10e3000).CallEntry (kernelLayoutSection 0x10e3000 2)
    (kernelLayoutMemory 0x10e3000) 0x110e3000 0 0x10 where
  host := by decide
  inside := by decide
  replacement := by decide
  instr := by decide
  call := by decide
  replacementlen := by decide
  instrlen_ge := by decide
  instrlen_le := by decide

end KernInt
