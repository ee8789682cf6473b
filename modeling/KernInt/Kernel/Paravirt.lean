import KernInt.Elf.ElfFile
import KernInt.Kernel.Headers
import KernInt.Lib.Copies

set_option autoImplicit false

/-! # Paravirtual patches

`ParavirtPatcher` replaces the calls through the tables of operations of the kernel. A patch is
put together in a buffer, padded with NOPs and copied over the site. The bytes of a site are
found by the distance of its guest address from that of `.text`.

A memory is that of the host. The guest's tables of operations are data: the size of each, the
pointer at an offset and the offset of a member.
-/

namespace KernInt

open Lib

/-- The native instructions that a call is replaced by. -/
inductive NativeOp where
  | irq_disable
  | irq_enable
  | restore_fl
  | save_fl
  | read_cr2
  | read_cr3
  | write_cr3
  | flush_tlb_single
  | clts
  | wbinvd
  | irq_enable_sysexit
  | usergs_sysret64
  | usergs_sysret32
  | swapgs
  | mov32
  | mov64
  deriving DecidableEq

/-- The bytes between the labels `start_` and `end_` of each of them. -/
structure NativeInsns where
  insns : NativeOp → List Byte
  length_le : ∀ op, (insns op).length ≤ 255

/-- One of the tables of operations. -/
structure PvOps where
  size : U32
  memberByOffset : U32 → U64
  memberOffset : String → U32

structure ParavirtState where
  ideal_nops : NopTable
  pv_init_ops : PvOps
  pv_time_ops : PvOps
  pv_cpu_ops : PvOps
  pv_irq_ops : PvOps
  pv_apic_ops : PvOps
  pv_mmu_ops : PvOps
  pv_lock_ops : PvOps
  nopFuncAddress : U64
  ident32NopFuncAddress : U64
  ident64NopFuncAddress : U64
  pv_irq_opsOffset : U32
  pv_cpu_opsOffset : U32
  pv_mmu_opsOffset : U32

def CLBR_ANY : BitVec 16 := (1 <<< 4) - 1

inductive PatchError where
  | elf (e : ElfError)
  | assertion
  | bufferOverflow
  deriving DecidableEq

/-- The local array `insnbuf`. -/
abbrev Insnbuf := Buffer 254

/-- A write behind the end of the array is an error. -/
def Insnbuf.write (insnbuf : Insnbuf) (k : Nat) (bs : List Byte) : Except PatchError Insnbuf :=
  match insnbuf.put k bs with
  | some insnbuf => .ok insnbuf
  | none => .error .bufferOverflow

/-- The bytes that `add_nops` writes, the longest NOPs first. -/
def addNops (t : NopTable) (len : Nat) : List Byte :=
  if len = 0 then []
  else
    let noplen := min len ASM_NOP_MAX
    (t.ideal_nops noplen).take noplen ++ addNops t (len - noplen)
termination_by len
decreasing_by
  simp only [ASM_NOP_MAX]
  omega

/-! ## One patch

Each function returns the number of bytes that stay as it leaves them, with the buffer. -/

def patchNop : Byte := 0

/-- `insns` is missing where `start` is the null pointer. -/
def patchInsns (insnbuf : Insnbuf) (len : U32) (insns : Option (List Byte)) :
    Except PatchError (Byte × Insnbuf) :=
  match insns with
  | none => .ok (len.setWidth 8, insnbuf)
  | some bytes =>
      let insn_len := BitVec.ofNat 8 bytes.length
      if insn_len.setWidth 32 > len then .ok (len.setWidth 8, insnbuf)
      else do
        let insnbuf ← insnbuf.write 0 (bytes.take insn_len.toNat)
        return (insn_len, insnbuf)

/-- The distance from the end of a jump of 5 bytes at `addr` to its target. -/
def jumpDelta (target addr : U64) : U32 := (target - (addr + 5)).setWidth 32

def patchJmp (insnbuf : Insnbuf) (target addr : U64) (len : Byte) :
    Except PatchError (Byte × Insnbuf) :=
  if len < 5 then .ok (len, insnbuf)
  else do
    let insnbuf ← insnbuf.write 0 (0xe9 :: bytes32 (jumpDelta target addr))
    return (5, insnbuf)

def patchCall (insnbuf : Insnbuf) (target : U64) (tgt_clobbers : BitVec 16) (addr : U64)
    (site_clobbers : BitVec 16) (len : Byte) : Except PatchError (Byte × Insnbuf) :=
  if tgt_clobbers &&& ~~~site_clobbers ≠ 0 then .ok (len, insnbuf)
  else if len < 5 then .ok (len, insnbuf)
  else do
    let insnbuf ← insnbuf.write 0 (0xe8 :: bytes32 (jumpDelta target addr))
    return (5, insnbuf)

/-- The tables follow each other, and `type` is an offset into all of them together. -/
def callDestination : List PvOps → U32 → U64
  | [], _ => 0
  | ops :: rest, type =>
      if type < ops.size then ops.memberByOffset type else callDestination rest (type - ops.size)

namespace ParavirtState

variable (pv : ParavirtState)

def getCallDestination (type : U32) : U64 :=
  callDestination [pv.pv_init_ops, pv.pv_time_ops, pv.pv_cpu_ops, pv.pv_irq_ops, pv.pv_apic_ops,
    pv.pv_mmu_ops, pv.pv_lock_ops] type

/-- The operations that are left by a jump. -/
def requiresJump (type : U32) : Bool :=
  ["iret", "irq_enable_sysexit", "usergs_sysret32", "usergs_sysret64"].any fun x =>
    type == pv.pv_cpu_opsOffset + pv.pv_cpu_ops.memberOffset x

/-- The sites with native instructions, in the order in which they are compared. -/
def patchSites : List (U32 × NativeOp) :=
  let irq x := pv.pv_irq_opsOffset + pv.pv_irq_ops.memberOffset x
  let cpu x := pv.pv_cpu_opsOffset + pv.pv_cpu_ops.memberOffset x
  let mmu x := pv.pv_mmu_opsOffset + pv.pv_mmu_ops.memberOffset x
  [ (irq "restore_fl", .restore_fl),
    (irq "save_fl", .save_fl),
    (irq "irq_enable", .irq_enable),
    (irq "irq_disable", .irq_disable),
    (cpu "irq_enable_sysexit", .irq_enable_sysexit),
    (cpu "usergs_sysret32", .usergs_sysret32),
    (cpu "usergs_sysret64", .usergs_sysret64),
    (cpu "swapgs", .swapgs),
    (mmu "read_cr2", .read_cr2),
    (mmu "read_cr3", .read_cr3),
    (mmu "write_cr3", .write_cr3),
    (cpu "clts", .clts),
    (mmu "flush_tlb_single", .flush_tlb_single),
    (cpu "wbinvd", .wbinvd) ]

end ParavirtState

section

variable (pv : ParavirtState) (native : NativeInsns)

def paravirtPatchDefault (type : U32) (clobbers : BitVec 16) (insnbuf : Insnbuf) (addr : U64)
    (len : Byte) : Except PatchError (Byte × Insnbuf) :=
  let opfunc := pv.getCallDestination type
  if opfunc = 0 then .ok (patchNop, insnbuf)
  else if opfunc = pv.nopFuncAddress then .ok (patchNop, insnbuf)
  else if opfunc = pv.ident32NopFuncAddress then
    patchInsns insnbuf (len.setWidth 32) (some (native.insns .mov32))
  else if opfunc = pv.ident64NopFuncAddress then
    patchInsns insnbuf (len.setWidth 32) (some (native.insns .mov64))
  else if pv.requiresJump type then patchJmp insnbuf opfunc addr len
  else patchCall insnbuf opfunc CLBR_ANY addr clobbers len

def paravirtNativePatch (type : U32) (clobbers : BitVec 16) (ibuf : Insnbuf) (addr : U64)
    (len : U32) : Except PatchError (U32 × Insnbuf) := do
  let (ret, ibuf) ←
    match pv.patchSites.find? fun site => type = site.1 with
    | some site => patchInsns ibuf len (some (native.insns site.2))
    | none => paravirtPatchDefault pv native type clobbers ibuf addr (len.setWidth 8)
  return (ret.setWidth 32, ibuf)

/-! ## The table of sites -/

structure ParavirtPatchSite where
  instr : U64
  instrtype : Byte
  len : Byte
  clobbers : BitVec 16
  deriving DecidableEq

/-- The pointer at `p`. -/
def loadAddress (mem : Memory) (p : U64) : U64 := load64 (fun k => mem (p + BitVec.ofNat 64 k)) 0

/-- The element of the table at `p`, which has 16 bytes. -/
def loadSite (mem : Memory) (p : U64) : ParavirtPatchSite where
  instr := loadAddress mem p
  instrtype := mem (p + 8)
  len := mem (p + 9)
  clobbers := mem (p + 11) ++ mem (p + 10)

theorem loadAddress_congr {mem mem' : Memory} {p : U64}
    (h : ∀ k < 8, mem' (p + BitVec.ofNat 64 k) = mem (p + BitVec.ofNat 64 k)) :
    loadAddress mem' p = loadAddress mem p := by
  apply load64_congr
  intro k hk
  rw [Nat.zero_add]
  exact h k hk

theorem loadSite_congr {mem mem' : Memory} {p : U64}
    (h : ∀ k < 16, mem' (p + BitVec.ofNat 64 k) = mem (p + BitVec.ofNat 64 k)) :
    loadSite mem' p = loadSite mem p := by
  have hinstr : loadAddress mem' p = loadAddress mem p :=
    loadAddress_congr fun k hk => h k (by omega)
  have htype : mem' (p + 8) = mem (p + 8) := h 8 (by omega)
  have hlen : mem' (p + 9) = mem (p + 9) := h 9 (by omega)
  have hlow : mem' (p + 10) = mem (p + 10) := h 10 (by omega)
  have hhigh : mem' (p + 11) = mem (p + 11) := h 11 (by omega)
  simp only [loadSite, hinstr, htype, hlen, hlow, hhigh]

/-- The addresses of the elements of `stride` bytes that start in front of the end. -/
def tableEntries (info : SectionInfo) (stride : Nat) : List U64 :=
  (List.range ((info.size.toNat + stride - 1) / stride)).map fun i =>
    info.index + BitVec.ofNat 64 (stride * i)

/-- A file that is loaded, with its section `.text`. -/
structure ElfLoader where
  elffile : ElfFile
  textSegment : SectionInfo

namespace ElfLoader

variable (target : ElfLoader)

/-- The address in the file of a guest address, if that is one of `.text`. -/
def instrInElf (instr : U64) : U64 :=
  instr - target.textSegment.memindex + target.textSegment.index

/-- The variables of the loop in `applyParainstr`. -/
structure ParainstrState where
  mem : Memory
  insnbuf : Insnbuf

/-- A round of the loop up to its last `memcpy`, which is returned. -/
def patchSite (s : ParainstrState) (p : U64) : Except PatchError (Insnbuf × Copy) :=
  let site := loadSite s.mem p
  if site.len < 255 then do
    let instrInElf := target.instrInElf site.instr
    let insnbuf ← s.insnbuf.write 0 (window s.mem instrInElf site.len.toNat)
    let (used, insnbuf) ← paravirtNativePatch pv native (site.instrtype.setWidth 32 * 8)
      site.clobbers insnbuf site.instr (site.len.setWidth 32)
    let rest := (site.len.setWidth 32 - used).setWidth 8
    let insnbuf ← insnbuf.write used.toNat (addNops pv.ideal_nops rest.toNat)
    return (insnbuf, ⟨instrInElf, insnbuf.bytes.take site.len.toNat⟩)
  else .error .assertion

def parainstrRound (s : ParainstrState) (p : U64) : Except PatchError ParainstrState := do
  let (insnbuf, copy) ← target.patchSite pv native s p
  return { mem := copy.apply s.mem, insnbuf := insnbuf }

def applyParainstr (s : ParainstrState) : Except PatchError ParainstrState :=
  match target.elffile.findSectionWithName ".parainstructions" with
  | .error e => .error (.elf e)
  | .ok info =>
      if info.index = 0 then .ok s
      else (tableEntries info 16).foldlM (target.parainstrRound pv native) s

end ElfLoader

end

end KernInt
