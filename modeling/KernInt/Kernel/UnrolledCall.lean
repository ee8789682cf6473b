import KernInt.Kernel.CodePage
import KernInt.Kernel.Paravirt

set_option autoImplicit false

/-! # The calls of `copy_user_generic_unrolled`

The guest replaces calls of `copy_user_generic_unrolled`, and `validateCodePage` has a rule that
accepts a difference in their displacement. The displacement of a call at `i - 1` is the signed
number in the bytes `i` to `i + 3`. The rule takes the bytes `i + 1` to `i + 4`, without a sign,
and adds them behind the byte `i + 4`. So it finds a call of the function only where these bytes
happen to be the displacement less one (`unrolledCall_accepts_iff`), and no call backwards at
all (`not_unrolledCall_of_backward`).
-/

namespace KernInt

open Lib

namespace CodeCheck

variable (c : CodeCheck)

/-- Where the call at `i - 1` goes. -/
def calledAddress (i : Nat) : U64 := c.codeAddress i + 4 + (load32 c.loadedPage i).signExtend 64

/-- One of the rules in front of the rule for calls accepts the difference. -/
def acceptedBefore (i : Nat) : Bool :=
  c.hypercallPage i || c.atomicNop i || c.cutNop i || c.fixedNop i || c.isValidJmpLabel i

/-- The bytes behind the opcode at `i - 1` are such that the rule decides rightly whether it is a
call of `genericUnrolledAddress`. -/
def ReadsCall (genericUnrolledAddress : U64) (i : Nat) : Prop :=
  if c.calledAddress i = genericUnrolledAddress then
    c.acceptedBefore i = false ∧ 0 < (load32 c.loadedPage i).toInt ∧
      load32 c.loadedPage (i + 1) = load32 c.loadedPage i - 1
  else
    c.acceptedBefore i = true ∨
      c.codeAddress i + (load32 c.loadedPage (i + 1)).setWidth 64 + 5 ≠ genericUnrolledAddress

variable {c} {i : Nat}

/-- The rule for calls is the only one that adds 4 to the index. -/
theorem exemption_eq_four_iff :
    c.exemption i = some 4 ↔ c.acceptedBefore i = false ∧ c.unrolledCall i = true := by
  unfold exemption acceptedBefore
  constructor
  · intro h
    repeat' split at h
    all_goals simp_all
  · rintro ⟨hbefore, hcall⟩
    simp only [Bool.or_eq_false_iff] at hbefore
    obtain ⟨⟨⟨⟨h1, h2⟩, h3⟩, h4⟩, h5⟩ := hbefore
    simp [h1, h2, h3, h4, h5, hcall]

/-- The round at the first byte of a run passes over the displacement exactly if the rule for
calls accepts the difference. -/
theorem round_eq_four_iff (hi : i < c.size) (hd : c.Differs i) (hr : ¬ c.RunsOn i) :
    c.round i = .again (i + 4 + 1) ↔ c.exemption i = some 4 := by
  rcases c.round_cases i with ⟨h1, -⟩ | ⟨-, h2, -⟩ | ⟨-, -, -, skip, he, h3⟩ | ⟨-, -, -, hn, h4⟩
  · omega
  · exact absurd h2 (not_or.mpr ⟨not_not_intro hd, hr⟩)
  · rw [h3, he]
    constructor
    · intro h
      have := Round.again.inj h
      rw [show skip = 4 by omega]
    · intro h
      rw [Option.some.inj h]
  · rw [h4, hn]
    constructor
    · intro h
      cases h
    · intro h
      cases h

theorem unrolledCall_kernel {g : U64} (hcls : c.elf.cls = .kernel g) (hpos : 0 < i)
    (hcall : c.loadedPage (i - 1) = 0xe8) : c.unrolledCall i = true ↔
      c.codeAddress i + (load32 c.loadedPage (i + 1)).setWidth 64 + 5 = g := by
  unfold unrolledCall
  rw [hcls, hcall]
  simp only [hpos, decide_true, beq_self_eq_true, Bool.true_and, beq_iff_eq]
  exact eq_comm

/-! ## The two readings of the displacement -/

/-- A number without a sign is one below a number with a sign. -/
theorem setWidth_add_one_eq_signExtend_iff (m d : U32) :
    m.setWidth 64 + 1 = d.signExtend 64 ↔ 0 < d.toInt ∧ m = d - 1 := by
  have hd := d.isLt
  have hm := m.isLt
  have hone64 : (1 : U64).toNat = 1 := rfl
  have hone32 : (1 : U32).toNat = 1 := rfl
  cases hmsb : d.msb with
  | false =>
      have hle := BitVec.toNat_lt_of_msb_false hmsb
      rw [BitVec.signExtend_eq_setWidth_of_msb_false hmsb, BitVec.toInt_eq_toNat_of_msb hmsb]
      constructor
      · intro h
        have := congrArg BitVec.toNat h
        simp only [BitVec.toNat_add, BitVec.toNat_setWidth, hone64] at this
        constructor
        · omega
        · apply BitVec.eq_of_toNat_eq
          simp only [BitVec.toNat_sub, hone32]
          omega
      · rintro ⟨hpos, rfl⟩
        apply BitVec.eq_of_toNat_eq
        simp only [BitVec.toNat_add, BitVec.toNat_setWidth, BitVec.toNat_sub, hone64,
          hone32]
        omega
  | true =>
      have hge := BitVec.toNat_ge_of_msb_true hmsb
      constructor
      · intro h
        -- a number with its upper half all ones
        have := congrArg BitVec.toNat h
        rw [BitVec.toNat_signExtend, hmsb] at this
        simp only [BitVec.toNat_add, BitVec.toNat_setWidth, hone64, if_true] at this
        omega
      · rintro ⟨hpos, -⟩
        have := BitVec.toInt_neg_of_msb_true hmsb
        omega

/-- The two readings of the displacement lead to the same address. -/
theorem decoded_eq_calledAddress_iff :
    c.codeAddress i + (load32 c.loadedPage (i + 1)).setWidth 64 + 5 = c.calledAddress i ↔
      0 < (load32 c.loadedPage i).toInt ∧
        load32 c.loadedPage (i + 1) = load32 c.loadedPage i - 1 := by
  rw [← setWidth_add_one_eq_signExtend_iff, calledAddress]
  generalize (load32 c.loadedPage (i + 1)).setWidth 64 = m
  generalize (load32 c.loadedPage i).signExtend 64 = d
  generalize c.codeAddress i = a
  constructor
  · intro h
    grind
  · intro h
    grind

/-- **When the rule for calls decides rightly**, at the first byte of a run behind the opcode of a
call: it accepts the difference if and only if the call goes to the function, exactly under the
condition `ReadsCall`. -/
theorem unrolledCall_accepts_iff {g : U64} (hcls : c.elf.cls = .kernel g) (hi : i < c.size)
    (hd : c.Differs i) (hr : ¬ c.RunsOn i) (hpos : 0 < i) (hcall : c.loadedPage (i - 1) = 0xe8) :
    (c.round i = .again (i + 4 + 1) ↔ c.calledAddress i = g) ↔ c.ReadsCall g i := by
  rw [round_eq_four_iff hi hd hr, exemption_eq_four_iff, unrolledCall_kernel hcls hpos hcall,
    ReadsCall]
  by_cases hg : c.calledAddress i = g
  · rw [if_pos hg, ← decoded_eq_calledAddress_iff, hg]
    simp
  · rw [if_neg hg]
    simp only [hg, iff_false, not_and, ne_eq]
    cases c.acceptedBefore i with
    | true => simp
    | false => simp

/-- A call of the function from behind it is not accepted. -/
theorem not_unrolledCall_of_backward {g : U64} (hcls : c.elf.cls = .kernel g) (hpos : 0 < i)
    (hcall : c.loadedPage (i - 1) = 0xe8) (hg : c.calledAddress i = g)
    (hback : (load32 c.loadedPage i).toInt ≤ 0) : c.unrolledCall i = false := by
  rw [← Bool.not_eq_true, unrolledCall_kernel hcls hpos hcall, ← hg, decoded_eq_calledAddress_iff]
  omega

end CodeCheck

/-! ## A call forwards -/

/-- The first page of the kernel begins with a call of `copy_user_generic_unrolled`, and the guest
has another function called in its place. -/
def unrolledCaller : CodeCheck where
  elf :=
    { name := "kernel"
      memindex := 0xffffffff81000000
      textSegmentContent :=
        (0xe8 :: bytes32 (jumpDelta 0xffffffff81300000 0xffffffff81000000)) ++
          List.replicate 0xffb 0x90
      jumpEntries := fun _ => none
      smpOffsets := ∅
      cls := .kernel 0xffffffff81300000 }
  nops := p6_nops
  vaddr := 0xffff81000000
  size := 0x1000
  page :=
    (0xe8 :: bytes32 (jumpDelta 0xffffffff81300040 0xffffffff81000000)) ++
      List.replicate 0xffb 0x90
  page_length := by rw [List.length_append, List.length_replicate]; rfl
  hostReference := fun _ => 0
  hostPage := fun _ => 0

/-- The rule reads another displacement, and the call is reported. -/
theorem unrolledCaller_reported :
    unrolledCaller.Examined 1 ∧ unrolledCaller.Differs 1 ∧ ¬ unrolledCaller.RunsOn 1 ∧
      unrolledCaller.loadedPage 0 = 0xe8 ∧
      load32 unrolledCaller.loadedPage 1 = jumpDelta 0xffffffff81300000 0xffffffff81000000 ∧
      unrolledCaller.calledAddress 1 = 0xffffffff81300000 ∧
      unrolledCaller.round 1 ≠ .again (1 + 4 + 1) ∧
      unrolledCaller.validateCodePage = .ok [unrolledCaller.report 1] := by
  have h0 : unrolledCaller.round 0 = .again 1 := by decide
  have h1 : unrolledCaller.round 1 = .leave [unrolledCaller.report 1] := by decide +kernel
  refine ⟨.next .enter h0, by decide, by decide, by decide, by decide, by decide, ?_, ?_⟩
  · rw [h1]
    exact fun h => by cases h
  · refine unrolledCaller.validateCodePage_eq_ok_iff.mpr ⟨?_, ?_⟩
    · have hoff : unrolledCaller.pageOffset.toNat = 0 := by decide
      rw [CodeCheck.Loaded, hoff]
      exact Nat.zero_le _
    · rw [CodeCheck.changes, loop_of_again _ h0, loop_of_leave _ h1]

theorem unrolledCaller_accepts_iff :
    (unrolledCaller.round 1 = .again (1 + 4 + 1) ↔
      unrolledCaller.calledAddress 1 = 0xffffffff81300000) ↔
      unrolledCaller.ReadsCall 0xffffffff81300000 1 :=
  CodeCheck.unrolledCall_accepts_iff rfl
    (by decide)
    (by decide)
    (by decide)
    (by decide)
    (by decide)

end KernInt
