import KernInt.Kernel.Paravirt
import Mathlib.Data.List.Forall2

set_option autoImplicit false

/-! # The tables of operations as one template

To the guest, the type of a patch site is an offset into `paravirt_patch_template`, in which the
seven tables of operations follow each other. `getCallDestination` has the tables one by one and
subtracts the size of each that the type is behind. Both are the same
(`getCallDestination_template`): every multiple of 8 is the offset of the pointer that the
template has there, and the offsets that the patcher compares are those of the members that it
names.
-/

namespace KernInt

open Lib

/-- The pointer at an offset, or 0 behind the end. -/
def pointerAt (bytes : List Byte) (k : Nat) : U64 :=
  if k < bytes.length then load64 (bufferOf bytes fun _ => 0) k else 0

theorem load64_append_left {xs ys : List Byte} {rest rest' : Nat → Byte} {k : Nat}
    (h : k + 8 ≤ xs.length) :
    load64 (bufferOf (xs ++ ys) rest) k = load64 (bufferOf xs rest') k := by
  apply load64_congr
  intro i hi
  have hlt : k + i < xs.length := by omega
  simp [bufferOf, List.getD_eq_getElem?_getD, List.getElem?_append_left hlt, hlt]

theorem load64_append_right {xs ys : List Byte} {k : Nat} (h : xs.length ≤ k) :
    load64 (bufferOf (xs ++ ys) fun _ => 0) k =
      load64 (bufferOf ys fun _ => 0) (k - xs.length) := by
  apply load64_congr
  intro i _
  have hle : xs.length ≤ k + i := by omega
  have hsub : k + i - xs.length = k - xs.length + i := by omega
  simp [bufferOf, List.getD_eq_getElem?_getD, List.getElem?_append_right hle, hsub]

theorem pointerAt_append_left {xs ys : List Byte} {k : Nat} (h : k + 8 ≤ xs.length) :
    pointerAt (xs ++ ys) k = pointerAt xs k := by
  rw [pointerAt, pointerAt, if_pos (by rw [List.length_append]; omega), if_pos (by omega),
    load64_append_left h]

theorem pointerAt_append_right {xs ys : List Byte} {k : Nat} (h : xs.length ≤ k) :
    pointerAt (xs ++ ys) k = pointerAt ys (k - xs.length) := by
  rw [pointerAt, pointerAt, load64_append_right h, List.length_append]
  by_cases hlt : k - xs.length < ys.length
  · rw [if_pos hlt, if_pos (by omega)]
  · rw [if_neg hlt, if_neg (by omega)]

/-! ## One table -/

/-- The table has this content: pointers of 8 bytes. A table that is missing has none. -/
structure PvOps.Holds (ops : PvOps) (bytes : List Byte) : Prop where
  size : bytes.length = ops.size.toNat
  pointers : 8 ∣ bytes.length
  memberByOffset : ∀ type : U32, type < ops.size → 8 ∣ type.toNat →
    ops.memberByOffset type = load64 (bufferOf bytes fun _ => 0) type.toNat

/-- The offset of the member is one of a pointer in the table. -/
def PvOps.HasMember (ops : PvOps) (x : String) : Prop :=
  ops.memberOffset x < ops.size ∧ 8 ∣ (ops.memberOffset x).toNat

/-- The pointer in the member of this name. -/
def PvOps.member (ops : PvOps) (x : String) : U64 :=
  ops.memberByOffset (ops.memberOffset x)

/-- A pointer of the table is inside it as a whole. -/
theorem PvOps.Holds.inside {ops : PvOps} {bytes : List Byte} (h : ops.Holds bytes) {type : U32}
    (hlt : type < ops.size) (halign : 8 ∣ type.toNat) : type.toNat + 8 ≤ bytes.length := by
  have hsize := h.size
  have hpointers := h.pointers
  have hlt' : type.toNat < ops.size.toNat := hlt
  omega

theorem PvOps.Holds.memberByOffset_eq {ops : PvOps} {bytes : List Byte} (h : ops.Holds bytes)
    {type : U32} (hlt : type < ops.size) (halign : 8 ∣ type.toNat) :
    ops.memberByOffset type = pointerAt bytes type.toNat := by
  have hinside := h.inside hlt halign
  rw [h.memberByOffset type hlt halign, pointerAt, if_pos (by omega)]

/-! ## All tables -/

/-- The cascade finds the pointer at the offset in all tables together. -/
theorem callDestination_eq {tables : List PvOps} {parts : List (List Byte)}
    (h : List.Forall₂ PvOps.Holds tables parts) {type : U32} (halign : 8 ∣ type.toNat) :
    callDestination tables type = pointerAt parts.flatten type.toNat := by
  induction h generalizing type with
  | nil => simp [callDestination, pointerAt]
  | @cons ops bytes tables parts hops _ ih =>
      rw [callDestination, List.flatten_cons]
      by_cases hlt : type < ops.size
      · rw [if_pos hlt, hops.memberByOffset_eq hlt halign,
          pointerAt_append_left (hops.inside hlt halign)]
      · -- the subtraction does not wrap around, and keeps the multiples of 8
        have hle : ops.size.toNat ≤ type.toNat := Nat.not_lt.mp hlt
        have hsub : (type - ops.size).toNat = type.toNat - bytes.length := by
          rw [BitVec.toNat_sub_of_le hle, hops.size]
        have halign' : 8 ∣ (type - ops.size).toNat := by
          rw [hsub]
          exact Nat.dvd_sub halign hops.pointers
        have hbehind : bytes.length ≤ type.toNat := by
          rw [hops.size]
          exact hle
        rw [if_neg hlt, ih halign', hsub, pointerAt_append_right hbehind]

/-- The pointers of one part, behind the parts in front of it. -/
theorem pointerAt_flatten {front back : List (List Byte)} {bytes : List Byte} {k : Nat}
    (h : k + 8 ≤ bytes.length) :
    pointerAt (front ++ bytes :: back).flatten (front.flatten.length + k) = pointerAt bytes k := by
  rw [List.flatten_append, pointerAt_append_right (Nat.le_add_right _ _), Nat.add_sub_cancel_left,
    List.flatten_cons, pointerAt_append_left h]

/-- A table that begins at `offset` of all tables together. -/
theorem callDestination_member {front back : List PvOps} {ops : PvOps}
    {frontParts backParts : List (List Byte)} {bytes : List Byte}
    (hfront : List.Forall₂ PvOps.Holds front frontParts) (hops : ops.Holds bytes)
    (hback : List.Forall₂ PvOps.Holds back backParts)
    (hfits : (frontParts ++ bytes :: backParts).flatten.length < 2 ^ 32) {offset : U32}
    (hoffset : offset.toNat = frontParts.flatten.length) {x : String} (hx : ops.HasMember x) :
    callDestination (front ++ ops :: back) (offset + ops.memberOffset x) = ops.member x := by
  have hinside := hops.inside hx.1 hx.2
  have hfrontAligned : 8 ∣ frontParts.flatten.length := by
    clear hoffset hfits
    induction hfront with
    | nil => simp
    | cons hpart _ ih =>
        rw [List.flatten_cons, List.length_append]
        exact Nat.dvd_add hpart.pointers ih
  -- the template fits into 32 bits, and so does every offset into it
  have hsum : (offset + ops.memberOffset x).toNat =
      frontParts.flatten.length + (ops.memberOffset x).toNat := by
    rw [BitVec.toNat_add, hoffset]
    apply Nat.mod_eq_of_lt
    rw [List.flatten_append, List.flatten_cons, List.length_append, List.length_append] at hfits
    omega
  have halign : 8 ∣ (offset + ops.memberOffset x).toNat := by
    rw [hsum]
    exact Nat.dvd_add hfrontAligned hx.2
  calc callDestination (front ++ ops :: back) (offset + ops.memberOffset x)
      = pointerAt (frontParts ++ bytes :: backParts).flatten
          (offset + ops.memberOffset x).toNat :=
        callDestination_eq (List.rel_append hfront (.cons hops hback)) halign
    _ = pointerAt bytes (ops.memberOffset x).toNat := by
        rw [hsum, pointerAt_flatten hinside]
    _ = ops.member x := (hops.memberByOffset_eq hx.1 hx.2).symm

/-- The content of `paravirt_patch_template`. -/
structure PvTemplate where
  init : List Byte
  time : List Byte
  cpu : List Byte
  irq : List Byte
  apic : List Byte
  mmu : List Byte
  lock : List Byte

namespace PvTemplate

variable (t : PvTemplate) (pv : ParavirtState)

def bytes : List Byte := t.init ++ t.time ++ t.cpu ++ t.irq ++ t.apic ++ t.mmu ++ t.lock

/-- The tables that the patcher works with are those of the template. -/
structure ContentOf : Prop where
  init : pv.pv_init_ops.Holds t.init
  time : pv.pv_time_ops.Holds t.time
  cpu : pv.pv_cpu_ops.Holds t.cpu
  irq : pv.pv_irq_ops.Holds t.irq
  apic : pv.pv_apic_ops.Holds t.apic
  mmu : pv.pv_mmu_ops.Holds t.mmu
  lock : pv.pv_lock_ops.Holds t.lock
  fits : t.bytes.length < 2 ^ 32

end PvTemplate

namespace ParavirtState

variable (pv : ParavirtState)

/-- The offsets that `updateState` has read are the sums of the sizes in front. -/
structure OffsetsAreSums : Prop where
  cpu : pv.pv_cpu_opsOffset = pv.pv_init_ops.size + pv.pv_time_ops.size
  irq : pv.pv_irq_opsOffset = pv.pv_init_ops.size + pv.pv_time_ops.size + pv.pv_cpu_ops.size
  mmu : pv.pv_mmu_opsOffset = pv.pv_init_ops.size + pv.pv_time_ops.size + pv.pv_cpu_ops.size +
    pv.pv_irq_ops.size + pv.pv_apic_ops.size

/-- The types that the patcher puts together for members are those of the members. -/
structure MembersFound : Prop where
  cpu : ∀ x, pv.pv_cpu_ops.HasMember x →
    pv.getCallDestination (pv.pv_cpu_opsOffset + pv.pv_cpu_ops.memberOffset x) =
      pv.pv_cpu_ops.member x
  irq : ∀ x, pv.pv_irq_ops.HasMember x →
    pv.getCallDestination (pv.pv_irq_opsOffset + pv.pv_irq_ops.memberOffset x) =
      pv.pv_irq_ops.member x
  mmu : ∀ x, pv.pv_mmu_ops.HasMember x →
    pv.getCallDestination (pv.pv_mmu_opsOffset + pv.pv_mmu_ops.memberOffset x) =
      pv.pv_mmu_ops.member x

variable {pv} {t : PvTemplate}

theorem membersFound (h : t.ContentOf pv) (hoffsets : pv.OffsetsAreSums) : pv.MembersFound := by
  have hfits := h.fits
  have hinit := h.init.size
  have htime := h.time.size
  have hcpu := h.cpu.size
  have hirq := h.irq.size
  have hapic := h.apic.size
  simp only [PvTemplate.bytes, List.length_append] at hfits
  have hmmuBack := List.Forall₂.cons h.lock .nil
  have happic := List.Forall₂.cons h.apic (.cons h.mmu hmmuBack)
  -- each table, with the ones in front of it and the ones behind it
  refine ⟨fun x hx => ?_, fun x hx => ?_, fun x hx => ?_⟩
  · show callDestination ([pv.pv_init_ops, pv.pv_time_ops] ++ pv.pv_cpu_ops ::
      [pv.pv_irq_ops, pv.pv_apic_ops, pv.pv_mmu_ops, pv.pv_lock_ops]) _ = _
    apply callDestination_member (.cons h.init (.cons h.time .nil)) h.cpu (.cons h.irq happic)
    · simp
      omega
    · rw [hoffsets.cpu]
      simp [BitVec.toNat_add]
      omega
    · exact hx
  · show callDestination ([pv.pv_init_ops, pv.pv_time_ops, pv.pv_cpu_ops] ++ pv.pv_irq_ops ::
      [pv.pv_apic_ops, pv.pv_mmu_ops, pv.pv_lock_ops]) _ = _
    apply callDestination_member (.cons h.init (.cons h.time (.cons h.cpu .nil))) h.irq happic
    · simp
      omega
    · rw [hoffsets.irq]
      simp [BitVec.toNat_add]
      omega
    · exact hx
  · show callDestination ([pv.pv_init_ops, pv.pv_time_ops, pv.pv_cpu_ops, pv.pv_irq_ops,
      pv.pv_apic_ops] ++ pv.pv_mmu_ops :: [pv.pv_lock_ops]) _ = _
    apply callDestination_member
      (.cons h.init (.cons h.time (.cons h.cpu (.cons h.irq (.cons h.apic .nil))))) h.mmu hmmuBack
    · simp
      omega
    · rw [hoffsets.mmu]
      simp [BitVec.toNat_add]
      omega
    · exact hx

/-- **The cascade is the template**: the pointer at an offset, and the members at the offsets that
the patcher compares. -/
theorem getCallDestination_template (h : t.ContentOf pv) :
    (∀ type : U32, 8 ∣ type.toNat → pv.getCallDestination type = pointerAt t.bytes type.toNat) ∧
    (pv.OffsetsAreSums → pv.MembersFound) := by
  refine ⟨fun type halign => ?_, membersFound h⟩
  rw [getCallDestination, callDestination_eq
    (.cons h.init (.cons h.time (.cons h.cpu (.cons h.irq (.cons h.apic (.cons h.mmu
      (.cons h.lock .nil))))))) halign]
  simp [PvTemplate.bytes]

/-- An operation that requires a jump is one of the members that are named for it. -/
theorem MembersFound.of_requiresJump (h : pv.MembersFound) {type : U32}
    (hmem : ∀ x ∈ ["iret", "irq_enable_sysexit", "usergs_sysret32", "usergs_sysret64"],
      pv.pv_cpu_ops.HasMember x) (hjump : pv.requiresJump type = true) :
    ∃ x ∈ ["iret", "irq_enable_sysexit", "usergs_sysret32", "usergs_sysret64"],
      pv.getCallDestination type = pv.pv_cpu_ops.member x := by
  obtain ⟨x, hx, heq⟩ := List.any_eq_true.mp hjump
  rw [beq_iff_eq.mp heq]
  exact ⟨x, hx, h.cpu x (hmem x hx)⟩

end ParavirtState

/-! ## A kernel without one of the tables -/

/-- The table with this content. -/
def opsOf (bytes : List Byte) (memberOffset : String → U32) : PvOps where
  size := BitVec.ofNat 32 bytes.length
  memberByOffset type := load64 (bufferOf bytes fun _ => 0) type.toNat
  memberOffset := memberOffset

theorem opsOf_holds {bytes : List Byte} (memberOffset : String → U32) (halign : 8 ∣ bytes.length)
    (hfits : bytes.length < 2 ^ 32) : (opsOf bytes memberOffset).Holds bytes where
  size := (Nat.mod_eq_of_lt hfits).symm
  pointers := halign
  memberByOffset _ _ _ := rfl

/-- Two of the tables are missing, and `pv_cpu_ops` has two members. -/
def smallTemplate : PvTemplate where
  init := []
  time := bytes64 0xffffffff81000100
  cpu := bytes64 0xffffffff81000200 ++ bytes64 0xffffffff81000300
  irq := bytes64 0xffffffff81000400
  apic := []
  mmu := bytes64 0xffffffff81000500
  lock := bytes64 0xffffffff81000600

def onlyMember (_ : String) : U32 := 0

def smallState : ParavirtState where
  ideal_nops := p6_nops
  pv_init_ops := opsOf smallTemplate.init onlyMember
  pv_time_ops := opsOf smallTemplate.time onlyMember
  pv_cpu_ops := opsOf smallTemplate.cpu fun x => if x = "iret" then 8 else 0
  pv_irq_ops := opsOf smallTemplate.irq onlyMember
  pv_apic_ops := opsOf smallTemplate.apic onlyMember
  pv_mmu_ops := opsOf smallTemplate.mmu onlyMember
  pv_lock_ops := opsOf smallTemplate.lock onlyMember
  nopFuncAddress := 0xffffffff81000700
  ident32NopFuncAddress := 0xffffffff81000710
  ident64NopFuncAddress := 0xffffffff81000720
  pv_irq_opsOffset := 24
  pv_cpu_opsOffset := 8
  pv_mmu_opsOffset := 32

theorem smallTemplate_contentOf : smallTemplate.ContentOf smallState where
  init := opsOf_holds _ (by decide) (by decide)
  time := opsOf_holds _ (by decide) (by decide)
  cpu := opsOf_holds _ (by decide) (by decide)
  irq := opsOf_holds _ (by decide) (by decide)
  apic := opsOf_holds _ (by decide) (by decide)
  mmu := opsOf_holds _ (by decide) (by decide)
  lock := opsOf_holds _ (by decide) (by decide)
  fits := by decide

theorem smallState_offsetsAreSums : smallState.OffsetsAreSums where
  cpu := by decide
  irq := by decide
  mmu := by decide

/-- The type of `iret` leads to the second pointer of `pv_cpu_ops`. -/
theorem getCallDestination_iret : smallState.getCallDestination 16 = 0xffffffff81000300 ∧
    smallState.getCallDestination (smallState.pv_cpu_opsOffset + 8) =
      smallState.pv_cpu_ops.member "iret" := by
  obtain ⟨htype, hmembers⟩ :=
    ParavirtState.getCallDestination_template smallTemplate_contentOf
  refine ⟨?_, (hmembers smallState_offsetsAreSums).cpu "iret" ⟨by decide, by decide⟩⟩
  rw [htype 16 (by decide)]
  decide

end KernInt
