import KernInt.Kernel.CodePageTiling
import Mathlib.Tactic.IntervalCases

set_option autoImplicit false

/-! # What a silent comparison of a code page guarantees

`Intended` collects the differences that the comparison means to allow. A silent run would
be sound if every differing byte were intended. It is not sound: a byte outside every
intended window stays unreported when it is hidden. The byte before it differs, or it is among the
bytes that are passed over behind an accepted difference, or the rule for the calls of
`copy_user_generic_unrolled` takes something else for such a call. `codePageSound_iff` says exactly
when this does no harm, in terms of the tiling of the two pages.
-/

namespace KernInt

open Lib

namespace CodeCheck

variable (c : CodeCheck)

/-- The differences the comparison means to allow, at byte `i`. -/
inductive Intended (i : Nat) : Prop
  | hypercall (h : c.hypercallPage i = true)
  | atomicNop (w : Nat) (hl : memeq c.loadedPage w (c.nops.ideal_nops 5) = true)
      (hm : memeq c.pageInMem w (c.nops.ideal_nops 9) = true) (hw : w ≤ i) (hi : i < w + 5)
  | fixedNop (w : Nat) (h : c.fixedNop w = true) (hw : w ≤ i) (hi : i < w + 5)
  | cutNop (h : c.cutNop i = true)
  | jmpLabel (w : Nat) (h : c.isValidJmpLabel w = true) (hw : w ≤ i) (hi : i < w + 5)
  /-- One of the four displacement bytes of a call, at `a`, of `copy_user_generic_unrolled`. -/
  | unrolledCall (a : Nat) (target : U64) (hk : c.elf.cls = .kernel target)
      (hop : c.loadedPage a = 0xe8)
      (ht : c.codeAddress a + 5 + (load32 c.loadedPage (a + 1)).signExtend 64 = target)
      (ha : a < i) (hi : i ≤ a + 4)
  | smpLock (h : c.smpLock i = true)
  | zeroJump (w : Nat) (h : c.zeroJump w = true) (hw : w ≤ i) (hi : i < w + 5)

/-- A silent comparison means that every differing byte is intended. -/
def CodePageSound : Prop :=
  c.validateCodePage = .ok [] → ∀ i, i < c.size → c.Differs i → c.Intended i

/-- A byte that no rule is asked about, or only the one for calls. -/
def HiddenIn (F : Set Nat) (i : Nat) : Prop :=
  c.RunsOn i ∨ c.PassedOver F i ∨ c.unrolledCall i = true

/-! ## The rules are sound, except the one for calls -/

theorem exemption_intended {i skip : Nat} (h : c.exemption i = some skip) :
    c.Intended i ∨ c.unrolledCall i = true := by
  unfold exemption at h
  split at h
  · rename_i hr
    exact .inl (.hypercall hr)
  split at h
  · rename_i hr
    simp only [atomicNop, Bool.and_eq_true, decide_eq_true_eq] at hr
    exact .inl (.atomicNop (i - 2) hr.1.2 hr.2 (by omega) (by omega))
  split at h
  · rename_i hr
    exact .inl (.cutNop hr)
  split at h
  · rename_i hr
    exact .inl (.fixedNop i hr (Nat.le_refl i) (by omega))
  split at h
  · rename_i hr
    exact .inl (.jmpLabel i hr (Nat.le_refl i) (by omega))
  split at h
  · rename_i hr
    exact .inr hr
  split at h
  · rename_i hr
    exact .inl (.smpLock hr)
  split at h
  · rename_i hr
    exact .inl (.zeroJump i hr (Nat.le_refl i) (by omega))
  · cases h

/-- An accepted difference is intended, unless it is taken for a call. -/
theorem intended_of_accepts {i : Nat} (h : c.Accepts i) (hcall : c.unrolledCall i ≠ true) :
    c.Intended i :=
  (c.exemption_intended (exemption_eq_some_iff.mpr ⟨h, rfl⟩)).resolve_right hcall

/-! ## Soundness -/

variable {c} in
/-- In a page with a tiling, a differing byte that is not hidden is intended. -/
theorem Tiling.intended {F : Set Nat} (ht : c.Tiling F) {i : Nat} (hi : i < c.size)
    (hd : c.Differs i) (hh : ¬ c.HiddenIn F i) : c.Intended i := by
  simp only [HiddenIn, not_or] at hh
  obtain ⟨hr, hp, hcall⟩ := hh
  have hF : i ∈ F := by
    by_contra hout
    exact hp (ht.covers i ⟨hi, hd, hr⟩ hout)
  exact c.intended_of_accepts (ht.accepts i hF) hcall

/-- A differing byte that is not intended, and hidden in no tiling, makes the comparison report. -/
theorem changes_ne_nil {i : Nat} (hi : i < c.size) (hd : c.Differs i) (hn : ¬ c.Intended i)
    (hh : ∀ F, c.Tiling F → ¬ c.HiddenIn F i) : c.changes ≠ [] := by
  intro hnil
  have ht := tiling_met hnil
  exact hn (ht.intended hi hd (hh _ ht))

/-- **Exactly when a silent comparison is sound**: if the beginnings of the runs of differing bytes
can be tiled, then every differing byte that is hidden there is intended. -/
theorem codePageSound_iff :
    c.CodePageSound ↔
      (c.Loaded → ∀ F, c.Tiling F → ∀ i, i < c.size → c.Differs i → c.HiddenIn F i →
        c.Intended i) := by
  constructor
  · intro hs hloaded F ht i hi hd _
    have hnil : c.changes = [] := c.changes_eq_nil_iff_tiling.mpr ⟨F, ht⟩
    exact hs (c.validateCodePage_eq_ok_iff.mpr ⟨hloaded, hnil⟩) i hi hd
  · intro hcond hok i hi hd
    obtain ⟨hloaded, hnil⟩ := c.validateCodePage_eq_ok_iff.mp hok
    have ht := tiling_met hnil
    by_cases hh : c.HiddenIn c.met i
    · exact hcond hloaded _ ht i hi hd hh
    · exact ht.intended hi hd hh

end CodeCheck

/-! ## Code behind a lock prefix -/

/-- A module page whose first instruction carries a recorded lock prefix. The guest has
switched the prefix off, which is allowed, and has put an `int3` (`cc`) behind it. -/
def int3BehindLock : CodeCheck where
  elf :=
    { name := "module"
      memindex := 0xffffffffa0000000
      textSegmentContent := [0xf0, 0x90] ++ List.replicate 0xffe 0x90
      jumpEntries := fun _ => none
      smpOffsets := {0}
      cls := .module }
  nops := k8_nops
  vaddr := 0xffffa0000000
  size := 0x1000
  page := [0x3e, 0xcc] ++ List.replicate 0xffe 0x90
  page_length := by rw [List.length_append, List.length_replicate]; rfl
  hostReference := fun _ => 0
  hostPage := fun _ => 0

/-- Behind its first two bytes the page is the reference. -/
theorem int3BehindLock_agrees (k : Nat) (h2 : 2 ≤ k) (hk : k < 0x1000) :
    ¬ int3BehindLock.Differs k := by
  have hoff : int3BehindLock.pageOffset.toNat = 0 := by decide
  intro hd
  apply hd
  rw [CodeCheck.loadedPage, CodeCheck.pageInMem, hoff, Nat.zero_add]
  exact (bufferOf_append_replicate _ h2 hk).trans (bufferOf_append_replicate _ h2 hk).symm

/-- The `int3` is not one of the intended differences. -/
theorem int3BehindLock_not_intended : ¬ int3BehindLock.Intended 1 := by
  intro h
  cases h with
  | hypercall h => exact absurd h (by decide)
  | atomicNop w hl _ hw =>
      interval_cases w <;> exact absurd hl (by decide)
  | fixedNop w h hw =>
      interval_cases w <;> exact absurd h (by decide)
  | cutNop h => exact absurd h (by decide)
  | jmpLabel w h hw => cases h
  | unrolledCall a target hk => cases hk
  | smpLock h => exact absurd h (by decide)
  | zeroJump w h hw =>
      interval_cases w <;> exact absurd h (by decide)

/-- **The `int3` is not reported**: the comparison is silent and yet not sound. -/
theorem int3BehindLock_unsound : ¬ int3BehindLock.CodePageSound := by
  have hoff : int3BehindLock.pageOffset.toNat = 0 := by decide
  have hloaded : int3BehindLock.Loaded := by
    rw [CodeCheck.Loaded, hoff]
    exact Nat.zero_le _
  have hsilent : int3BehindLock.changes = [] := by
    have h0 : int3BehindLock.round 0 = .again 1 := by decide
    have h1 : int3BehindLock.round 1 = .again 2 := by decide
    rw [CodeCheck.changes, loop_of_again _ h0, loop_of_again _ h1]
    exact int3BehindLock.loop_of_agree 2 int3BehindLock_agrees
  intro hs
  have hok := int3BehindLock.validateCodePage_eq_ok_iff.mpr ⟨hloaded, hsilent⟩
  exact int3BehindLock_not_intended (hs hok 1 (by decide) (by decide))

end KernInt
