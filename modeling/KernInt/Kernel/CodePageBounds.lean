import KernInt.Kernel.Attribution
import KernInt.Kernel.CodePage

set_option autoImplicit false

/-! # What the comparison of a code page reads

A round of `validateCodePage` reads single bytes around its index and windows of five bytes, of
which `memcmp` asks for all five, or of four bytes, which are copied. `reads` lists them in the
order of the source, as far as the round gets. The guard of the loop is about the index only, so
that a window may go past the end of the guest page or of the reference image. It does at a first
byte of a run among the last bytes, unless a rule ends the round before (`readsInside_iff`); and
as long as it does not, what is behind the ends has no influence (`validateCodePage_rest`).
-/

namespace KernInt

open Lib

/-- Consecutive bytes that are read from one of the two arrays of `validateCodePage`. -/
inductive CodeRead where
  | loadedPage (start count : Nat)
  | pageInMem (start count : Nat)

/-- `dynamic_cast<ElfModuleLoader *>` -/
def LoaderClass.isModule : LoaderClass → Bool
  | .kernel _ => false
  | .module => true

namespace CodeCheck

variable (c : CodeCheck)

/-! ## The reads of a round -/

/-- `memcmp` of a window of the reference with a NOP or a jump, and, if it is the same, of the
window of the page. -/
def comparedReads (k : Nat) (bs : List Byte) : List CodeRead :=
  .loadedPage k 5 :: if memeq c.loadedPage k bs then [.pageInMem k 5] else []

def atomicNopReads (i : Nat) : List CodeRead :=
  if 1 < i then c.comparedReads (i - 2) (c.nops.ideal_nops 5) else []

def fixedNopReads (i : Nat) : List CodeRead := c.comparedReads i [0x0f, 0x1f, 0x44, 0x00, 0x00]

def isValidJmpLabelReads (i : Nat) : List CodeRead :=
  match c.elf.jumpEntries (c.codeAddress i) with
  | none => []
  | some _ => [.pageInMem i 5, .pageInMem i 5, .pageInMem (i + 1) 4, .pageInMem i 1]

/-- The displacement in the guest page is copied for a module, and not used. -/
def unrolledCallReads (i : Nat) : List CodeRead :=
  if 0 < i then
    .loadedPage (i - 1) 1 ::
      if c.loadedPage (i - 1) = 0xe8 then
        .loadedPage (i + 1) 4 :: if c.elf.cls.isModule then [.pageInMem (i + 1) 4] else []
      else []
  else []

def zeroJumpReads (i : Nat) : List CodeRead := c.comparedReads i [0xe9, 0x00, 0x00, 0x00, 0x00]

/-- `loadedPage[i]` and `pageInMem[i]`. -/
def bytesAt (i : Nat) : List CodeRead := [.loadedPage i 1, .pageInMem i 1]

/-- The rules read in their order, up to the one that accepts the difference. -/
def ruleReads (i : Nat) : List CodeRead :=
  if c.hypercallPage i then []
  else c.atomicNopReads i ++
    if c.atomicNop i then []
    else (if i ≤ 1 then bytesAt i else []) ++
      if c.cutNop i then []
      else c.fixedNopReads i ++
        if c.fixedNop i then []
        else c.isValidJmpLabelReads i ++
          if c.isValidJmpLabel i then []
          else c.unrolledCallReads i ++
            if c.unrolledCall i then []
            else bytesAt i ++
              if c.smpLock i then [] else c.zeroJumpReads i

/-- What the round at `i` reads. -/
def reads (i : Nat) : List CodeRead :=
  bytesAt i ++
    if c.Differs i then
      (if 0 < i then bytesAt (i - 1) else []) ++ if c.RunsOn i then [] else c.ruleReads i
    else []

/-! ## The ends of the arrays -/

/-- The bytes of the reference image from the beginning of the page on. -/
def imageLeft : Nat := c.elf.textSegmentContent.length - c.pageOffset.toNat

def Inside : CodeRead → Prop
  | .loadedPage start count =>
      c.pageOffset.toNat + start + count ≤ c.elf.textSegmentContent.length
  | .pageInMem start count => start + count ≤ c.page.length

/-- No round of the comparison reads behind the end of an array. -/
def ReadsInside : Prop := ∀ i, i < c.size → c.Examined i → ∀ r ∈ c.reads i, c.Inside r

/-- Five bytes of the guest page from `i` on are asked for: the reference has one of the two
instructions there, or a jump label is recorded, or a module has a call in front of it. -/
def asksPage (i : Nat) : Bool :=
  memeq c.loadedPage i [0x0f, 0x1f, 0x44, 0x00, 0x00] ||
    (c.elf.jumpEntries (c.codeAddress i)).isSome ||
    (0 < i && c.loadedPage (i - 1) == 0xe8 && c.elf.cls.isModule) ||
    (!c.unrolledCall i && memeq c.loadedPage i [0xe9, 0x00, 0x00, 0x00, 0x00])

/-- The first byte of a run at `i` is far enough from the ends for the rules that are tried. -/
structure RulesFit (i : Nat) : Prop where
  /-- the window around the first byte -/
  around : 1 < i →
    i + 3 ≤ c.imageLeft ∧ (memeq c.loadedPage (i - 2) (c.nops.ideal_nops 5) → i + 3 ≤ c.size)
  /-- the windows from the first byte on -/
  ahead : c.atomicNop i = false → c.cutNop i = false →
    i + 5 ≤ c.imageLeft ∧ (c.asksPage i → i + 5 ≤ c.size)

variable {c} {i : Nat}

theorem inside_loadedPage_iff {start count : Nat} (hcount : 0 < count) :
    c.Inside (.loadedPage start count) ↔ start + count ≤ c.imageLeft := by
  show c.pageOffset.toNat + start + count ≤ _ ↔ _
  unfold imageLeft
  omega

theorem inside_pageInMem_iff {start count : Nat} :
    c.Inside (.pageInMem start count) ↔ start + count ≤ c.size := by
  show start + count ≤ c.page.length ↔ _
  rw [c.page_length]

theorem inside_bytesAt_iff :
    (∀ r ∈ bytesAt i, c.Inside r) ↔ i + 1 ≤ c.imageLeft ∧ i + 1 ≤ c.size := by
  simp [bytesAt, inside_loadedPage_iff, inside_pageInMem_iff]

theorem inside_comparedReads_iff {k : Nat} {bs : List Byte} :
    (∀ r ∈ c.comparedReads k bs, c.Inside r) ↔
      k + 5 ≤ c.imageLeft ∧ (memeq c.loadedPage k bs → k + 5 ≤ c.size) := by
  unfold comparedReads
  by_cases h : memeq c.loadedPage k bs = true
  · simp [h, inside_loadedPage_iff, inside_pageInMem_iff]
  · simp [h, inside_loadedPage_iff]

theorem inside_atomicNopReads_iff :
    (∀ r ∈ c.atomicNopReads i, c.Inside r) ↔ (1 < i → i + 3 ≤ c.imageLeft ∧
      (memeq c.loadedPage (i - 2) (c.nops.ideal_nops 5) → i + 3 ≤ c.size)) := by
  unfold atomicNopReads
  by_cases hi : 1 < i
  · have hback : i - 2 + 5 = i + 3 := by omega
    rw [if_pos hi, inside_comparedReads_iff, hback]
    simp only [hi, forall_const]
  · rw [if_neg hi]
    simp [hi]

theorem inside_isValidJmpLabelReads_iff :
    (∀ r ∈ c.isValidJmpLabelReads i, c.Inside r) ↔
      ((c.elf.jumpEntries (c.codeAddress i)).isSome → i + 5 ≤ c.size) := by
  unfold isValidJmpLabelReads
  cases c.elf.jumpEntries (c.codeAddress i) with
  | none => simp
  | some destination =>
      simp only [List.forall_mem_cons, inside_pageInMem_iff, List.not_mem_nil, false_imp_iff,
        implies_true, and_true, Option.isSome_some, true_imp_iff]
      omega

/-- In a module the displacement is read in both arrays. -/
theorem inside_unrolledCallReads_iff (hi : i < c.imageLeft) :
    (∀ r ∈ c.unrolledCallReads i, c.Inside r) ↔
      (0 < i → c.loadedPage (i - 1) = 0xe8 →
        i + 5 ≤ c.imageLeft ∧ (c.elf.cls.isModule → i + 5 ≤ c.size)) := by
  unfold unrolledCallReads
  by_cases hpos : 0 < i
  · by_cases hcall : c.loadedPage (i - 1) = 0xe8
    · rw [if_pos hpos, if_pos hcall]
      cases c.elf.cls.isModule with
      | true =>
          simp only [List.forall_mem_cons, List.not_mem_nil, false_imp_iff, implies_true,
            and_true, inside_loadedPage_iff, inside_pageInMem_iff, Nat.zero_lt_succ, hpos, hcall,
            true_imp_iff, if_true]
          omega
      | false =>
          simp only [List.forall_mem_cons, List.not_mem_nil, false_imp_iff, implies_true,
            and_true, inside_loadedPage_iff, Nat.zero_lt_succ, hpos, hcall, true_imp_iff,
            Bool.false_eq_true, if_false]
          omega
    · rw [if_pos hpos, if_neg hcall]
      simp only [List.forall_mem_cons, List.not_mem_nil, false_imp_iff, implies_true, and_true,
        inside_loadedPage_iff, Nat.zero_lt_succ, hcall, iff_true]
      omega
  · rw [if_neg hpos]
    simp [hpos]

/-- A rule that accepts keeps the later ones from reading. -/
theorem forall_mem_append_unless {α : Type} {P : α → Prop} {l l' : List α} {accepts : Bool} :
    (∀ r ∈ l ++ if accepts then [] else l', P r) ↔
      (∀ r ∈ l, P r) ∧ (accepts = false → ∀ r ∈ l', P r) := by
  rw [List.forall_mem_append]
  cases accepts with
  | true => simp
  | false => simp

theorem isSome_of_isValidJmpLabel (h : c.isValidJmpLabel i = true) :
    (c.elf.jumpEntries (c.codeAddress i)).isSome = true := by
  unfold isValidJmpLabel at h
  split at h
  · cases h
  · rename_i heq
    rw [heq]
    rfl

/-- No jump begins with a lock prefix. -/
theorem smpLock_of_zeroJump (h : memeq c.loadedPage i [0xe9, 0x00, 0x00, 0x00, 0x00] = true) :
    c.smpLock i = false := by
  have hbyte : c.loadedPage i = 0xe9 := (memeq_iff _ _ _).mp h 0 (Nat.zero_lt_succ _)
  unfold smpLock
  rw [hbyte]
  simp

theorem inside_ruleReads_iff (hpage : c.hypercallPage i = false) (hi : i < c.size)
    (hleft : i < c.imageLeft) : (∀ r ∈ c.ruleReads i, c.Inside r) ↔ c.RulesFit i := by
  have hfixed : c.fixedNop i = true → memeq c.loadedPage i [0x0f, 0x1f, 0x44, 0x00, 0x00] = true :=
    fun h => (Bool.and_eq_true_iff.mp h).1
  have hbytes : ∀ r ∈ bytesAt i, c.Inside r := inside_bytesAt_iff.mpr ⟨hleft, hi⟩
  have hcut : ∀ r ∈ if i ≤ 1 then bytesAt i else [], c.Inside r := by
    split
    · exact hbytes
    · simp
  unfold ruleReads
  rw [hpage, if_neg Bool.false_ne_true]
  simp only [forall_mem_append_unless, fixedNopReads, zeroJumpReads, inside_atomicNopReads_iff,
    inside_comparedReads_iff, inside_isValidJmpLabelReads_iff, inside_unrolledCallReads_iff hleft,
    iff_true_intro hbytes, iff_true_intro hcut, true_and]
  constructor
  · rintro ⟨haround, hrest⟩
    refine ⟨haround, fun hatomic hcut => ?_⟩
    obtain ⟨⟨hahead, hwindow⟩, hlabels⟩ := hrest hatomic hcut
    refine ⟨hahead, fun hasks => ?_⟩
    simp only [asksPage, Bool.or_eq_true, Bool.and_eq_true, decide_eq_true_eq, beq_iff_eq,
      Bool.not_eq_true'] at hasks
    -- the window of an earlier rule is the same
    by_contra hsize
    have hf : c.fixedNop i = false := by
      rw [← Bool.not_eq_true]
      exact fun h => hsize (hwindow (hfixed h))
    obtain ⟨hlabel, hcalls⟩ := hlabels hf
    have hl : c.isValidJmpLabel i = false := by
      rw [← Bool.not_eq_true]
      exact fun h => hsize (hlabel (isSome_of_isValidJmpLabel h))
    obtain ⟨hcall, hjumps⟩ := hcalls hl
    rcases hasks with ((hm | hm) | ⟨⟨hpos, he8⟩, hmodule⟩) | ⟨hu, hm⟩
    · exact hsize (hwindow hm)
    · exact hsize (hlabel hm)
    · exact hsize ((hcall hpos he8).2 hmodule)
    · exact hsize ((hjumps hu (smpLock_of_zeroJump hm)).2 hm)
  · rintro ⟨haround, hrest⟩
    refine ⟨haround, fun hatomic hcut => ?_⟩
    obtain ⟨hahead, hasks⟩ := hrest hatomic hcut
    simp only [asksPage, Bool.or_eq_true, Bool.and_eq_true, decide_eq_true_eq, beq_iff_eq,
      Bool.not_eq_true'] at hasks
    refine ⟨⟨hahead, fun hm => hasks (.inl (.inl (.inl hm)))⟩, fun _ => ?_⟩
    refine ⟨fun hm => hasks (.inl (.inl (.inr hm))), fun _ => ?_⟩
    refine ⟨fun hpos he8 => ⟨hahead, fun hm => ?_⟩, fun hu _ => ?_⟩
    · exact hasks (.inl (.inr ⟨⟨hpos, he8⟩, hm⟩))
    · exact ⟨hahead, fun hm => hasks (.inr ⟨hu, hm⟩)⟩

theorem inside_reads_iff (hi : i < c.size) :
    (∀ r ∈ c.reads i, c.Inside r) ↔ i < c.imageLeft ∧
      (c.Differs i → ¬ c.RunsOn i → c.hypercallPage i = false → c.RulesFit i) := by
  unfold reads
  rw [List.forall_mem_append, inside_bytesAt_iff]
  constructor
  · rintro ⟨⟨hleft, -⟩, hrest⟩
    refine ⟨hleft, fun hd hr hpage => ?_⟩
    rw [if_pos hd, if_neg hr, List.forall_mem_append] at hrest
    exact (inside_ruleReads_iff hpage hi hleft).mp hrest.2
  · rintro ⟨hleft, hfit⟩
    refine ⟨⟨hleft, hi⟩, ?_⟩
    split
    · rename_i hd
      rw [List.forall_mem_append]
      constructor
      · split
        · exact inside_bytesAt_iff.mpr ⟨by omega, by omega⟩
        · simp
      · split
        · simp
        · rename_i hr
          cases hpage : c.hypercallPage i with
          | true => simp [ruleReads, hpage]
          | false => exact (inside_ruleReads_iff hpage hi hleft).mpr (hfit hd hr hpage)
    · simp

/-- **When the comparison stays inside the two arrays**: the reference image reaches every index
that the loop comes to, and the first byte of each run is far enough from the ends for the rules
that are tried on it. -/
theorem readsInside_iff : c.ReadsInside ↔ ∀ i, i < c.size → c.Examined i →
    i < c.imageLeft ∧
      (c.Differs i → ¬ c.RunsOn i → c.hypercallPage i = false → c.RulesFit i) := by
  constructor
  · intro h i hi hv
    exact (inside_reads_iff hi).mp (h i hi hv)
  · intro h i hi hv
    exact (inside_reads_iff hi).mpr (h i hi hv)

/-! ## Behind the ends

What the model leaves out of `reads` would show here: the rounds do not depend on what the host
has behind the arrays. -/

/-- The same comparison with other bytes behind the arrays. -/
def withRest (c : CodeCheck) (hostReference hostPage : Nat → Byte) : CodeCheck :=
  { c with hostReference, hostPage }

section

variable {hostReference hostPage : Nat → Byte}

theorem bufferOf_rest {content : List Byte} {rest rest' : Nat → Byte} {k : Nat}
    (h : k < content.length) : bufferOf content rest' k = bufferOf content rest k := by
  simp [bufferOf, h]

theorem loadedPage_withRest {k n : Nat} (h : c.Inside (.loadedPage k n)) {j : Nat} (hj : j < n) :
    (c.withRest hostReference hostPage).loadedPage (k + j) = c.loadedPage (k + j) := by
  have hin : c.pageOffset.toNat + k + n ≤ c.elf.textSegmentContent.length := h
  have hlt : c.pageOffset.toNat + (k + j) < c.elf.textSegmentContent.length := by omega
  exact bufferOf_rest hlt

theorem pageInMem_withRest {k n : Nat} (h : c.Inside (.pageInMem k n)) {j : Nat} (hj : j < n) :
    (c.withRest hostReference hostPage).pageInMem (k + j) = c.pageInMem (k + j) := by
  have hin : k + n ≤ c.page.length := h
  have hlt : k + j < c.page.length := by omega
  exact bufferOf_rest hlt

theorem bytesAt_withRest (h : ∀ r ∈ bytesAt i, c.Inside r) :
    (c.withRest hostReference hostPage).loadedPage i = c.loadedPage i ∧
      (c.withRest hostReference hostPage).pageInMem i = c.pageInMem i := by
  obtain ⟨hloaded, hpage, -⟩ : c.Inside (.loadedPage i 1) ∧ c.Inside (.pageInMem i 1) ∧ True := by
    simpa [bytesAt] using h
  exact ⟨loadedPage_withRest hloaded Nat.one_pos, pageInMem_withRest hpage Nat.one_pos⟩

theorem memeq_loadedPage_withRest {k : Nat} {bs : List Byte} (hbs : bs.length = 5)
    (h : c.Inside (.loadedPage k 5)) :
    memeq (c.withRest hostReference hostPage).loadedPage k bs = memeq c.loadedPage k bs := by
  apply memeq_congr
  intro j hj
  exact loadedPage_withRest h (by omega)

theorem memeq_pageInMem_withRest {k : Nat} {bs : List Byte} (hbs : bs.length = 5)
    (h : c.Inside (.pageInMem k 5)) :
    memeq (c.withRest hostReference hostPage).pageInMem k bs = memeq c.pageInMem k bs := by
  apply memeq_congr
  intro j hj
  exact pageInMem_withRest h (by omega)

/-- The window of the page counts only where the window of the reference is the same. -/
theorem compared_withRest {k : Nat} {bs bs' : List Byte} (hbs : bs.length = 5)
    (hbs' : bs'.length = 5) (h : ∀ r ∈ c.comparedReads k bs, c.Inside r) :
    (memeq (c.withRest hostReference hostPage).loadedPage k bs &&
        memeq (c.withRest hostReference hostPage).pageInMem k bs') =
      (memeq c.loadedPage k bs && memeq c.pageInMem k bs') := by
  unfold comparedReads at h
  rw [List.forall_mem_cons] at h
  rw [memeq_loadedPage_withRest hbs h.1]
  cases hm : memeq c.loadedPage k bs with
  | false => rfl
  | true =>
      rw [hm, if_pos rfl, List.forall_mem_singleton] at h
      rw [memeq_pageInMem_withRest hbs' h.2]

theorem atomicNop_withRest (h : ∀ r ∈ c.atomicNopReads i, c.Inside r) :
    (c.withRest hostReference hostPage).atomicNop i = c.atomicNop i := by
  unfold atomicNopReads at h
  unfold atomicNop
  by_cases hi : 1 < i
  · rw [if_pos hi] at h
    simp only [hi, decide_true, Bool.true_and]
    exact compared_withRest c.nops.length_five c.nops.length_nine h
  · simp [hi]

theorem cutNop_withRest (h : ∀ r ∈ if i ≤ 1 then bytesAt i else [], c.Inside r) :
    (c.withRest hostReference hostPage).cutNop i = c.cutNop i := by
  unfold cutNop
  by_cases hi : i ≤ 1
  · rw [if_pos hi] at h
    rw [(bytesAt_withRest h).1, (bytesAt_withRest h).2]
  · simp [hi]

theorem isValidJmpLabel_withRest (h : ∀ r ∈ c.isValidJmpLabelReads i, c.Inside r) :
    (c.withRest hostReference hostPage).isValidJmpLabel i = c.isValidJmpLabel i := by
  unfold isValidJmpLabelReads at h
  have hentries : (c.withRest hostReference hostPage).elf.jumpEntries
      ((c.withRest hostReference hostPage).codeAddress i) =
      c.elf.jumpEntries (c.codeAddress i) := rfl
  unfold isValidJmpLabel
  rw [hentries]
  cases he : c.elf.jumpEntries (c.codeAddress i) with
  | none => rfl
  | some destination =>
      rw [he] at h
      simp only [List.forall_mem_cons] at h
      obtain ⟨hnop, -, hdest, hopcode, -⟩ := h
      have hbyte : (c.withRest hostReference hostPage).pageInMem i = c.pageInMem i :=
        pageInMem_withRest hopcode Nat.one_pos
      have hload : load32 (c.withRest hostReference hostPage).pageInMem (i + 1) =
          load32 c.pageInMem (i + 1) :=
        load32_congr fun j hj => pageInMem_withRest hdest hj
      have hnops : (c.withRest hostReference hostPage).nops = c.nops := rfl
      simp only [hnops, hbyte, hload, memeq_pageInMem_withRest c.nops.length_five hnop,
        memeq_pageInMem_withRest c.nops.length_nine hnop]

theorem unrolledCall_withRest (h : ∀ r ∈ c.unrolledCallReads i, c.Inside r) :
    (c.withRest hostReference hostPage).unrolledCall i = c.unrolledCall i := by
  unfold unrolledCallReads at h
  have hcls : (c.withRest hostReference hostPage).elf.cls = c.elf.cls := rfl
  have haddress : (c.withRest hostReference hostPage).codeAddress i = c.codeAddress i := rfl
  unfold unrolledCall
  rw [hcls, haddress]
  by_cases hi : 0 < i
  · rw [if_pos hi, List.forall_mem_cons] at h
    have hbyte : (c.withRest hostReference hostPage).loadedPage (i - 1) = c.loadedPage (i - 1) :=
      loadedPage_withRest h.1 Nat.one_pos
    rw [hbyte]
    by_cases he8 : c.loadedPage (i - 1) = 0xe8
    · rw [if_pos he8, List.forall_mem_cons] at h
      have hload : load32 (c.withRest hostReference hostPage).loadedPage (i + 1) =
          load32 c.loadedPage (i + 1) :=
        load32_congr fun j hj => loadedPage_withRest h.2.1 hj
      rw [hload]
    · rw [beq_false_of_ne he8, Bool.and_false, Bool.false_and, Bool.false_and]
  · simp [hi]

theorem smpLock_withRest (h : ∀ r ∈ bytesAt i, c.Inside r) :
    (c.withRest hostReference hostPage).smpLock i = c.smpLock i := by
  have hoffset : (c.withRest hostReference hostPage).pageOffset = c.pageOffset := rfl
  have hsmp : (c.withRest hostReference hostPage).elf.smpOffsets = c.elf.smpOffsets := rfl
  unfold smpLock
  rw [hoffset, hsmp, (bytesAt_withRest h).1, (bytesAt_withRest h).2]

theorem ite_congr_unless {α : Type} {accepts accepts' : Bool} {x y y' : α}
    (haccepts : accepts' = accepts) (hrest : accepts = false → y' = y) :
    (if accepts' then x else y') = if accepts then x else y := by
  rw [haccepts]
  cases accepts with
  | true => rfl
  | false => exact hrest rfl

/-- The rules, as far as they are tried, decide in the same way. -/
theorem exemption_withRest (h : ∀ r ∈ c.ruleReads i, c.Inside r) :
    (c.withRest hostReference hostPage).exemption i = c.exemption i := by
  unfold ruleReads at h
  unfold exemption
  refine ite_congr_unless rfl fun hpage => ?_
  rw [hpage, if_neg Bool.false_ne_true] at h
  replace h := forall_mem_append_unless.mp h
  refine ite_congr_unless (atomicNop_withRest h.1) fun hatomic => ?_
  replace h := forall_mem_append_unless.mp (h.2 hatomic)
  refine ite_congr_unless (cutNop_withRest h.1) fun hcut => ?_
  replace h := forall_mem_append_unless.mp (h.2 hcut)
  refine ite_congr_unless (compared_withRest rfl rfl h.1) fun hfixed => ?_
  replace h := forall_mem_append_unless.mp (h.2 hfixed)
  refine ite_congr_unless (isValidJmpLabel_withRest h.1) fun hlabel => ?_
  replace h := forall_mem_append_unless.mp (h.2 hlabel)
  refine ite_congr_unless (unrolledCall_withRest h.1) fun hcall => ?_
  replace h := forall_mem_append_unless.mp (h.2 hcall)
  refine ite_congr_unless (smpLock_withRest h.1) fun hsmp => ?_
  exact ite_congr_unless (compared_withRest rfl c.nops.length_nine (h.2 hsmp)) fun _ => rfl

theorem round_withRest (h : i < c.size → ∀ r ∈ c.reads i, c.Inside r) :
    (c.withRest hostReference hostPage).round i = c.round i := by
  have hsize : (c.withRest hostReference hostPage).size = c.size := rfl
  unfold round
  rw [hsize]
  by_cases hi : i < c.size
  · replace h := h hi
    unfold reads at h
    rw [List.forall_mem_append] at h
    obtain ⟨hbytes, h⟩ := h
    rw [if_pos hi, if_pos hi, (bytesAt_withRest hbytes).1, (bytesAt_withRest hbytes).2]
    by_cases hd : c.loadedPage i = c.pageInMem i
    · rw [if_pos hd, if_pos hd]
    · rw [if_pos (show c.Differs i from hd), List.forall_mem_append] at h
      obtain ⟨hback, h⟩ := h
      have hruns : (0 < i ∧ (c.withRest hostReference hostPage).loadedPage (i - 1) ≠
          (c.withRest hostReference hostPage).pageInMem (i - 1)) ↔
          0 < i ∧ c.loadedPage (i - 1) ≠ c.pageInMem (i - 1) := by
        apply and_congr_right
        intro hpos
        rw [if_pos hpos] at hback
        rw [(bytesAt_withRest hback).1, (bytesAt_withRest hback).2]
      rw [if_neg hd, if_neg hd]
      by_cases hr : 0 < i ∧ c.loadedPage (i - 1) ≠ c.pageInMem (i - 1)
      · rw [if_pos (hruns.mpr hr), if_pos hr]
      · rw [if_neg (show ¬ c.RunsOn i from hr)] at h
        rw [if_neg fun h' => hr (hruns.mp h'), if_neg hr, exemption_withRest h]
        rfl
  · rw [if_neg hi, if_neg hi]

/-- **Inside the arrays the comparison depends on their bytes only.** -/
theorem validateCodePage_withRest (h : c.ReadsInside) (hostReference hostPage : Nat → Byte) :
    (c.withRest hostReference hostPage).validateCodePage = c.validateCodePage := by
  have hchanges : (c.withRest hostReference hostPage).changes = c.changes :=
    loop_congr c.round_decreases _ fun i hv => round_withRest fun hi => h i hi hv
  have helf : (c.withRest hostReference hostPage).elf = c.elf := rfl
  have hoffset : (c.withRest hostReference hostPage).pageOffset = c.pageOffset := rfl
  unfold validateCodePage
  rw [hchanges, helf, hoffset]

end

/-! ## Filled images -/

/-- The fill at the end of `initText`, up to the next multiple of the granule: `0x200000` for the
kernel and `0x1000` for a module. -/
def fill (content : List Byte) (granule : Nat) : List Byte :=
  content ++ List.replicate (granule - content.length % granule) 0

theorem length_fill {content : List Byte} {granule : Nat} (h : 0 < granule) :
    granule ∣ (fill content granule).length ∧ content.length < (fill content granule).length := by
  have hmod := Nat.mod_lt content.length h
  have hdiv := Nat.div_add_mod content.length granule
  rw [fill, List.length_append, List.length_replicate]
  constructor
  · refine ⟨content.length / granule + 1, ?_⟩
    rw [Nat.mul_succ]
    omega
  · omega

/-- A page is behind the beginning of the text segment to which its address belongs, and not
behind the end. -/
theorem pageDistance_le {text : SectionInfo} (htext : text.memindex = c.elf.memindex)
    (hhigh : 0xffff000000000000 ≤ text.memindex.toNat) (hvaddr : c.vaddr.toNat < 2 ^ 48)
    (h : text.containsMemAddress (kernelAddress c.vaddr) = true) :
    c.pageDistance.toNat ≤ text.size.toNat := by
  obtain ⟨hle, hge⟩ := SectionInfo.containsMemAddress_iff.mp h
  have hlow : (c.elf.memindex &&& 0xffffffffffff).toNat = c.elf.memindex.toNat % 2 ^ 48 := by
    rw [BitVec.toNat_and]
    exact Nat.and_two_pow_sub_one_eq_mod _ 48
  have hdisjoint : c.vaddr &&& 0xffff000000000000 = 0 := by
    apply BitVec.eq_of_getLsbD_eq
    intro j hj
    rw [BitVec.getLsbD_and]
    by_cases hj48 : j < 48
    · have hmask : ∀ j : Fin 48, (0xffff000000000000 : U64).getLsbD j = false := by decide
      rw [hmask ⟨j, hj48⟩]
      simp
    · have hbit : c.vaddr.getLsbD j = false := by
        apply Nat.testBit_lt_two_pow
        exact Nat.lt_of_lt_of_le hvaddr (Nat.pow_le_pow_right (by decide) (by omega))
      rw [hbit]
      simp
  have haddress : kernelAddress c.vaddr = c.vaddr + 0xffff000000000000 :=
    (BitVec.add_eq_or_of_and_eq_zero _ _ hdisjoint).symm
  have htop : (0xffff000000000000 : U64).toNat = 0xffff000000000000 := rfl
  have hmem := text.memindex.isLt
  have hsize := text.size.isLt
  rw [haddress, BitVec.le_def, BitVec.toNat_add, htop] at hle
  rw [haddress, BitVec.le_def, BitVec.toNat_add, BitVec.toNat_add, htop] at hge
  rw [pageDistance, BitVec.toNat_sub, hlow, ← htext]
  omega

/-- **A page of a filled image** is in the image as a whole. -/
theorem size_le_imageLeft {content : List Byte} {granule : Nat} (hgranule : 0 < granule)
    (hcontent : c.elf.textSegmentContent = fill content granule) (hpages : c.size ∣ granule)
    (hword : c.size ∣ 2 ^ 32) (haligned : c.size ∣ c.pageDistance.toNat)
    (hdistance : c.pageDistance.toNat ≤ content.length) : c.size ≤ c.imageLeft := by
  obtain ⟨hdvd, hlt⟩ := @length_fill content granule hgranule
  have hoffset : c.pageOffset.toNat = c.pageDistance.toNat % 2 ^ 32 := BitVec.toNat_setWidth ..
  have hoffset_dvd : c.size ∣ c.pageOffset.toNat := by
    rw [hoffset]
    exact (Nat.dvd_mod_iff hword).mpr haligned
  have hoffset_le : c.pageOffset.toNat ≤ c.pageDistance.toNat := by
    rw [hoffset]
    exact Nat.mod_le _ _
  have hleft : c.size ∣ c.imageLeft := by
    rw [imageLeft, hcontent]
    exact Nat.dvd_sub (Nat.dvd_trans hpages hdvd) hoffset_dvd
  apply Nat.le_of_dvd _ hleft
  rw [imageLeft, hcontent]
  omega

/-- In a page of such an image only the windows of a first byte of a run can leave the arrays,
and only among the last four bytes. -/
theorem readsInside_of_size_le_imageLeft (hleft : c.size ≤ c.imageLeft)
    (h : ∀ i, c.size < i + 5 → i < c.size → c.Examined i → c.Differs i → ¬ c.RunsOn i →
      c.hypercallPage i = false → c.RulesFit i) : c.ReadsInside := by
  intro i hi hv
  refine (inside_reads_iff hi).mpr ⟨by omega, fun hd hr hpage => ?_⟩
  by_cases hlast : c.size < i + 5
  · exact h i hlast hi hv hd hr hpage
  · exact ⟨fun _ => ⟨by omega, fun _ => by omega⟩, fun _ _ => ⟨by omega, fun _ => by omega⟩⟩

end CodeCheck

/-! ## The last byte of a page -/

/-- A module whose text is one byte short of a page, which `initText` fills up. In the guest the
last byte of the page is another one. -/
def lastByte : CodeCheck where
  elf :=
    { name := "module"
      memindex := 0xffffffffa0000000
      textSegmentContent := CodeCheck.fill (List.replicate 0xfff 0x90) 0x1000
      jumpEntries := fun _ => none
      smpOffsets := ∅
      cls := .module }
  nops := k8_nops
  vaddr := 0xffffa0000000
  size := 0x1000
  page := List.replicate 0xfff 0x90 ++ [0xcc]
  page_length := by rw [List.length_append, List.length_replicate]; rfl
  hostReference := fun _ => 0
  hostPage := fun _ => 0

theorem bufferOf_replicate_append {n k : Nat} {b : Byte} {post : List Byte} {rest : Nat → Byte}
    (h : k < n) : bufferOf (List.replicate n b ++ post) rest k = b := by
  simp [bufferOf, List.getElem?_append, h]

theorem bufferOf_replicate_last {n : Nat} {b b' : Byte} {rest : Nat → Byte} :
    bufferOf (List.replicate n b ++ [b']) rest n = b' := by
  simp [bufferOf]

theorem lastByte_fill : lastByte.elf.textSegmentContent = List.replicate 0xfff 0x90 ++ [0] := by
  show List.replicate 0xfff 0x90 ++ List.replicate _ 0 = _
  rw [List.length_replicate]
  rfl

theorem lastByte_loadedPage (i : Nat) :
    lastByte.loadedPage i = bufferOf (List.replicate 0xfff 0x90 ++ [0]) (fun _ => 0) i := by
  have hoff : lastByte.pageOffset.toNat = 0 := by decide
  rw [CodeCheck.loadedPage, lastByte_fill, hoff, Nat.zero_add]
  rfl

theorem lastByte_agrees {i : Nat} (hi : i < 0xfff) :
    lastByte.loadedPage i = lastByte.pageInMem i := by
  rw [lastByte_loadedPage, bufferOf_replicate_append hi]
  exact (bufferOf_replicate_append hi).symm

theorem lastByte_differs : lastByte.Differs 0xfff := by
  have hpage : lastByte.pageInMem 0xfff = 0xcc := bufferOf_replicate_last
  rw [CodeCheck.Differs, lastByte_loadedPage, bufferOf_replicate_last, hpage]
  decide

theorem lastByte_examined {i : Nat} (hi : i ≤ 0xfff) : lastByte.Examined i := by
  induction i with
  | zero => exact .enter
  | succ i ih =>
      refine .next (ih (by omega)) ?_
      have hsize : i < lastByte.size := by
        show i < 0x1000
        omega
      rw [CodeCheck.round, if_pos hsize, if_pos (lastByte_agrees hi)]

/-- **A read behind the image**: the page is filled and begins where the text does, and the
window of `fixedNop` begins at the last byte of the image. -/
theorem lastByte_not_readsInside :
    lastByte.elf.textSegmentContent.length = 0x1000 ∧
      lastByte.pageDistance = 0 ∧ lastByte.size = 0x1000 ∧ ¬ lastByte.ReadsInside := by
  have hlength : lastByte.elf.textSegmentContent.length = 0x1000 := by
    rw [lastByte_fill, List.length_append, List.length_replicate]
    rfl
  refine ⟨hlength, by decide, rfl, fun h => ?_⟩
  have hleft : lastByte.imageLeft = 0x1000 := by
    rw [CodeCheck.imageLeft, hlength]
    rfl
  have hruns : ¬ lastByte.RunsOn 0xfff := fun hr => hr.2 (lastByte_agrees (by decide))
  have hin := h 0xfff (by decide) (lastByte_examined (by decide))
  have hfit := (CodeCheck.inside_reads_iff (by decide)).mp hin
  have haround := ((hfit.2 lastByte_differs hruns (by decide)).around (by decide)).1
  rw [hleft] at haround
  omega

end KernInt
