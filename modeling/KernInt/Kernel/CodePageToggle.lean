import KernInt.Kernel.CodePageTiling
import Mathlib.Tactic.IntervalCases

set_option autoImplicit false

/-! # Run-time toggles of kernel code

The running kernel rewrites the sites of its jump labels and switches lock prefixes on and
off. `GuestToggle` says that a guest page arises from the reference page in this way. The
comparison should stay silent on every such page. It does if the runs of bytes that the toggle
changes can be tiled: a run that begins at a `Stray` byte, one inside a rewritten site other than
the first byte of a site that lies in the page as a whole, has to be passed over behind another one
or to be taken by some rule (`validateCodePage_toggle_iff`).
-/

namespace KernInt

open Lib

/-- What the kernel writes to the site of a jump label with displacement `d`. -/
inductive JumpLabelState (nops : NopTable) (d : U32) : List Byte → Prop
  | nop : JumpLabelState nops d (nops.ideal_nops 5)
  | atomicNop : JumpLabelState nops d (nops.ideal_nops 9)
  | jump : JumpLabelState nops d (0xe9 :: bytes32 d)

theorem JumpLabelState.length {nops : NopTable} {d : U32} {bs : List Byte}
    (h : JumpLabelState nops d bs) : bs.length = 5 := by
  cases h with
  | nop => exact nops.length_five
  | atomicNop => exact nops.length_nine
  | jump => rfl

namespace CodeCheck

variable (c : CodeCheck)

/-- The code address `p` bytes behind the beginning of the page; the site of a jump label may
begin before the page. -/
def siteAddress (p : Int) : U64 :=
  c.elf.memindex + c.pageOffset.setWidth 64 + BitVec.ofInt 64 p

/-- The guest page is the reference page with some jump labels rewritten and some lock
prefixes flipped. The sites are pairwise disjoint. -/
structure GuestToggle where
  /-- The bytes written to the site at `p`, if it is rewritten. -/
  rewritten : Int → Option (List Byte)
  /-- The lock prefix at `i` is flipped. -/
  flipped : Nat → Bool
  recorded : ∀ p bs, rewritten p = some bs →
    ∃ d, c.elf.jumpEntries (c.siteAddress p) = some d ∧ JumpLabelState c.nops d bs
  site_bytes : ∀ (p : Int) (bs : List Byte) (i k : Nat), rewritten p = some bs → i < c.size →
    k < 5 → (i : Int) = p + k → some (c.pageInMem i) = bs[k]?
  lock_offset : ∀ i, i < c.size → flipped i = true →
    BitVec.ofNat 64 (c.pageOffset.toNat + i) ∈ c.elf.smpOffsets
  lock_byte : ∀ i, i < c.size → flipped i = true →
    (c.loadedPage i = 0x3e ∧ c.pageInMem i = 0xf0) ∨
    (c.loadedPage i = 0xf0 ∧ c.pageInMem i = 0x3e)
  sites_disjoint : ∀ p q bs bs', rewritten p = some bs → rewritten q = some bs' → p < q →
    p + 5 ≤ q
  lock_disjoint : ∀ p bs i, rewritten p = some bs → flipped i = true →
    (i : Int) < p ∨ p + 5 ≤ i
  elsewhere : ∀ i, i < c.size → flipped i = false →
    (∀ p bs, rewritten p = some bs → (i : Int) < p ∨ p + 5 ≤ i) →
    c.pageInMem i = c.loadedPage i

variable {c}

namespace GuestToggle

variable (t : c.GuestToggle)

/-- A byte of a rewritten site, other than the first byte of a site that ends in the page;
or a lock prefix at an offset of 4 GiB or more, which the 32-bit offset of the source misses. -/
def Stray (i : Nat) : Prop :=
  (∃ p bs, t.rewritten p = some bs ∧ p ≤ i ∧ (i : Int) < p + 5 ∧
    (p < i ∨ (c.size : Int) < p + 5)) ∨
  (t.flipped i = true ∧ 2 ^ 32 ≤ c.pageOffset.toNat + i)

theorem siteAddress_natCast (i : Nat) : c.siteAddress (i : Int) = c.codeAddress i := by
  rw [siteAddress, codeAddress, BitVec.ofInt_natCast]

/-- The first byte of a rewritten site that lies in the page is a valid jump label. -/
theorem isValidJmpLabel_of_rewritten {i : Nat} {bs : List Byte}
    (hr : t.rewritten (i : Int) = some bs) (hi : i + 5 ≤ c.size) :
    c.isValidJmpLabel i = true := by
  obtain ⟨d, hd, hbs⟩ := t.recorded i bs hr
  rw [siteAddress_natCast] at hd
  have hbyte : ∀ k, (hk : k < bs.length) → c.pageInMem (i + k) = bs[k] := by
    intro k hk
    have hk5 : k < 5 := by rw [← hbs.length]; exact hk
    have := t.site_bytes i bs (i + k) k hr (by omega) hk5 (by push_cast; rfl)
    rw [List.getElem?_eq_getElem hk] at this
    exact Option.some.inj this
  simp only [isValidJmpLabel, hd, Bool.or_eq_true, Bool.and_eq_true, beq_iff_eq]
  cases hbs with
  | nop => exact .inl (.inl ((memeq_iff _ _ _).mpr hbyte))
  | atomicNop => exact .inl (.inr ((memeq_iff _ _ _).mpr hbyte))
  | jump =>
      refine .inr ⟨hbyte 0 (by simp), (load32_of_bytes32 fun k hk => ?_).symm⟩
      have := hbyte (k + 1) (Nat.succ_lt_succ hk)
      rw [show i + 1 + k = i + (k + 1) by omega]
      exact this

/-- A flipped lock prefix below 4 GiB is accepted. -/
theorem smpLock_of_flipped {i : Nat} (hi : i < c.size) (hf : t.flipped i = true)
    (hlt : c.pageOffset.toNat + i < 2 ^ 32) : c.smpLock i = true := by
  have hoff : (BitVec.ofNat 32 i + c.pageOffset).setWidth 64 =
      BitVec.ofNat 64 (c.pageOffset.toNat + i) := by
    apply BitVec.eq_of_toNat_eq
    simp only [BitVec.toNat_setWidth, BitVec.toNat_add, BitVec.toNat_ofNat]
    omega
  simp only [smpLock, Bool.and_eq_true, Bool.or_eq_true, beq_iff_eq, decide_eq_true_eq]
  exact ⟨t.lock_byte i hi hf, hoff ▸ t.lock_offset i hi hf⟩

/-- The toggle changes the byte at `i`: it flips a lock prefix there, or it writes another byte
there than the one of the reference. -/
def Changed (i : Nat) : Prop :=
  t.flipped i = true ∨
    ∃ (p : Int) (bs : List Byte) (k : Nat) (b : Byte), t.rewritten p = some bs ∧
      (i : Int) = p + k ∧ bs[k]? = some b ∧ b ≠ c.loadedPage i

/-- A run of changed bytes begins at `i`. -/
def Begins (i : Nat) : Prop := i < c.size ∧ t.Changed i ∧ ¬ (0 < i ∧ t.Changed (i - 1))

/-- Beginnings of runs of changed bytes, the stray ones taken by some rule, whose tiles of the bytes
passed over do not reach each other, and contain all other beginnings. -/
structure Tiling (F : Set Nat) : Prop where
  begins : ∀ i ∈ F, t.Begins i
  known : ∀ i ∈ F, t.Stray i → c.Accepts i
  apart : ∀ i ∈ F, ¬ c.PassedOver F i
  covers : ∀ i, t.Begins i → i ∉ F → c.PassedOver F i

/-- The bytes that differ are those that the toggle changes. -/
theorem differs_iff_changed {i : Nat} (hi : i < c.size) : c.Differs i ↔ t.Changed i := by
  constructor
  · intro hd
    by_contra hnot
    simp only [Changed, not_or, not_exists, not_and] at hnot
    obtain ⟨hf, hsite⟩ := hnot
    refine hd (t.elsewhere i hi (Bool.eq_false_iff.mpr hf) fun p bs hp => ?_).symm
    by_contra hin
    push Not at hin
    obtain ⟨d, -, hbs⟩ := t.recorded p bs hp
    obtain ⟨k, hk⟩ : ∃ k : Nat, (i : Int) = p + k := ⟨(i - p).toNat, by omega⟩
    have hbyte := t.site_bytes p bs i k hp hi (by omega) hk
    exact hsite p bs k _ hp hk hbyte.symm (Ne.symm hd)
  · rintro (hf | ⟨p, bs, k, b, hp, hk, hb, hne⟩) heq
    · rcases t.lock_byte i hi hf with ⟨h1, h2⟩ | ⟨h1, h2⟩ <;>
        exact absurd (h1.symm.trans (heq.trans h2)) (by decide)
    · obtain ⟨d, -, hbs⟩ := t.recorded p bs hp
      have hk5 : k < 5 := by
        rw [← hbs.length]
        exact (List.getElem?_eq_some_iff.mp hb).1
      have hbyte := t.site_bytes p bs i k hp hi hk5 hk
      rw [hb] at hbyte
      exact hne ((Option.some.inj hbyte).symm.trans heq.symm)

theorem begins_iff {i : Nat} : t.Begins i ↔ c.Begins i := by
  constructor
  · rintro ⟨hi, hd, hr⟩
    exact ⟨hi, (t.differs_iff_changed hi).mpr hd, fun h =>
      hr ⟨h.1, (t.differs_iff_changed (by omega)).mp h.2⟩⟩
  · rintro ⟨hi, hd, hr⟩
    exact ⟨hi, (t.differs_iff_changed hi).mp hd, fun h =>
      hr ⟨h.1, (t.differs_iff_changed (by omega)).mpr h.2⟩⟩

/-- A change that is not stray is accepted. -/
theorem accepts_of_not_stray {i : Nat} (hi : i < c.size) (hd : t.Changed i) (hs : ¬ t.Stray i) :
    c.Accepts i := by
  simp only [Stray, not_or, not_exists, not_and] at hs
  obtain ⟨hsite, hlock⟩ := hs
  rcases hd with hf | ⟨p, bs, k, b, hp, hk, hb, -⟩
  · have := t.smpLock_of_flipped hi hf (by have := hlock hf; omega)
    simp only [Accepts, this, true_or, or_true]
  · obtain ⟨d, -, hbs⟩ := t.recorded p bs hp
    have hk5 : k < 5 := by
      rw [← hbs.length]
      exact (List.getElem?_eq_some_iff.mp hb).1
    -- only the first byte of a site that ends in the page is not stray
    have hcut := hsite p bs hp (by omega) (by omega)
    have hpi : p = (i : Int) := by omega
    subst hpi
    have := t.isValidJmpLabel_of_rewritten hp (by omega)
    simp only [Accepts, this, true_or, or_true]

theorem tiling_iff {F : Set Nat} : t.Tiling F ↔ c.Tiling F := by
  constructor
  · intro ht
    exact
      { begins := fun i hi => t.begins_iff.mp (ht.begins i hi)
        accepts := fun i hi => by
          by_cases hs : t.Stray i
          · exact ht.known i hi hs
          · exact t.accepts_of_not_stray (ht.begins i hi).1 (ht.begins i hi).2.1 hs
        apart := ht.apart
        covers := fun i hb => ht.covers i (t.begins_iff.mpr hb) }
  · intro ht
    exact
      { begins := fun i hi => t.begins_iff.mpr (ht.begins i hi)
        known := fun i hi _ => ht.accepts i hi
        apart := ht.apart
        covers := fun i hb => ht.covers i (t.begins_iff.mp hb) }

/-- **Exactly when the comparison stays silent on run-time toggles**: the runs of changed bytes can
be tiled. -/
theorem validateCodePage_toggle_iff :
    (∀ reports, c.validateCodePage = .ok reports → reports = []) ↔
      (c.Loaded → ∃ F, t.Tiling F) := by
  constructor
  · intro h hloaded
    have hnil := h _ (c.validateCodePage_eq_ok_iff.mpr ⟨hloaded, rfl⟩)
    obtain ⟨F, ht⟩ := c.changes_eq_nil_iff_tiling.mp hnil
    exact ⟨F, t.tiling_iff.mpr ht⟩
  · intro h reports hok
    obtain ⟨hloaded, rfl⟩ := c.validateCodePage_eq_ok_iff.mp hok
    obtain ⟨F, ht⟩ := h hloaded
    exact c.changes_eq_nil_iff_tiling.mpr ⟨F, t.tiling_iff.mp ht⟩

end GuestToggle

end CodeCheck

/-! ## Two adjacent jump labels -/

/-- A module page that begins with two disabled jump labels, one right behind the other. The
guest has enabled both; the displacement of the second has the low byte `66`. -/
def adjacentLabels : CodeCheck where
  elf :=
    { name := "module"
      memindex := 0xffffffffa0000000
      textSegmentContent :=
        [0x66, 0x66, 0x90, 0x66, 0x90, 0x66, 0x66, 0x90, 0x66, 0x90] ++ List.replicate 0xff6 0x90
      jumpEntries := fun a =>
        if a = 0xffffffffa0000000 then some 0x100
        else if a = 0xffffffffa0000005 then some 0x166 else none
      smpOffsets := ∅
      cls := .module }
  nops := k8_nops
  vaddr := 0xffffa0000000
  size := 0x1000
  page :=
    [0xe9, 0x00, 0x01, 0x00, 0x00, 0xe9, 0x66, 0x01, 0x00, 0x00] ++ List.replicate 0xff6 0x90
  page_length := by rw [List.length_append, List.length_replicate]; rfl
  hostReference := fun _ => 0
  hostPage := fun _ => 0

theorem adjacentLabels_rest (i : Nat) (h10 : 10 ≤ i) (hi : i < 0x1000) :
    adjacentLabels.pageInMem i = adjacentLabels.loadedPage i := by
  have hoff : adjacentLabels.pageOffset.toNat = 0 := by decide
  rw [CodeCheck.loadedPage, CodeCheck.pageInMem, hoff, Nat.zero_add]
  exact (bufferOf_append_replicate _ h10 hi).trans (bufferOf_append_replicate _ h10 hi).symm

/-- The page arises from the reference by enabling the two labels. -/
def adjacentLabelsToggle : adjacentLabels.GuestToggle where
  rewritten := fun p =>
    if p = 0 then some [0xe9, 0x00, 0x01, 0x00, 0x00]
    else if p = 5 then some [0xe9, 0x66, 0x01, 0x00, 0x00] else none
  flipped := fun _ => false
  recorded := by
    intro p bs h
    split at h
    · subst p
      cases h
      exact ⟨0x100, by decide, .jump⟩
    · split at h
      · subst p
        cases h
        exact ⟨0x166, by decide, .jump⟩
      · cases h
  site_bytes := by
    intro p bs i k h _ hk hp
    split at h
    · subst p
      cases h
      obtain rfl : i = k := by omega
      interval_cases i <;> decide
    · split at h
      · subst p
        cases h
        obtain rfl : i = 5 + k := by omega
        interval_cases k <;> decide
      · cases h
  lock_offset := by
    intro i _ h
    cases h
  lock_byte := by
    intro i _ h
    cases h
  sites_disjoint := by
    intro p q bs bs' hp hq hlt
    split at hp
    · split at hq
      · omega
      · split at hq
        · omega
        · cases hq
    · split at hp
      · split at hq
        · omega
        · split at hq
          · omega
          · cases hq
      · cases hp
  lock_disjoint := by
    intro p bs i _ h
    cases h
  elsewhere := by
    intro i hi _ h
    have h0 := h 0 [0xe9, 0x00, 0x01, 0x00, 0x00] rfl
    have h5 := h 5 [0xe9, 0x66, 0x01, 0x00, 0x00] rfl
    exact adjacentLabels_rest i (by omega) hi

/-- **A false alarm**: after the first label the index skips the first byte of the second one,
so the comparison comes to the second label in its middle and reports it. -/
theorem adjacentLabels_reported :
    ∃ (_ : adjacentLabels.GuestToggle) (reports : List CodeReport),
      adjacentLabels.validateCodePage = .ok reports ∧ reports ≠ [] := by
  have hoff : adjacentLabels.pageOffset.toNat = 0 := by decide
  have hloaded : adjacentLabels.Loaded := by
    rw [CodeCheck.Loaded, hoff]
    exact Nat.zero_le _
  have h0 : adjacentLabels.round 0 = .again 6 := by decide
  have h6 : adjacentLabels.round 6 = .again 7 := by decide
  have h7 : adjacentLabels.round 7 = .leave [adjacentLabels.report 7] := by decide
  have hchanges : adjacentLabels.changes = [adjacentLabels.report 7] := by
    rw [CodeCheck.changes, loop_of_again _ h0, loop_of_again _ h6, loop_of_leave _ h7]
  exact ⟨adjacentLabelsToggle, _,
    adjacentLabels.validateCodePage_eq_ok_iff.mpr ⟨hloaded, hchanges⟩, List.cons_ne_nil _ _⟩

end KernInt
