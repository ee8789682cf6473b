import KernInt.Kernel.ParavirtExact

set_option autoImplicit false

/-! # Which bytes the patchers write

`applyParainstr` and `applyMcount` turn each guest address of a table into an address on the
host by its distance from `.text`, without a test whether it is one of `.text`. The byte that is
written for a guest address is the one that stands for it only if its section is as far from
`.text` on the host as in the guest (`patchers_touch_addressed_iff`).
-/

namespace KernInt

open Lib

/-- The sections that an image has, each with its guest address and the host address of its
bytes, and a table with elements of `stride` bytes that stands apart from them. -/
structure CodeImage (stride : Nat) where
  sections : List SectionInfo
  table : SectionInfo
  apart : ∀ s ∈ sections, ∀ p ∈ tableEntries table stride, ∀ k < stride,
    s.size.toNat ≤ (p + BitVec.ofNat 64 k - s.index).toNat

namespace CodeImage

variable {stride : Nat} (image : CodeImage stride)

/-- The host address `h` has the byte of the guest address `a`. -/
def Represents (a h : U64) : Prop :=
  ∃ s ∈ image.sections, (a - s.memindex).toNat < s.size.toNat ∧ h = a - s.memindex + s.index

/-- The guest address is one of a section that is as far from `.text` on the host as in the
guest. -/
def Beside (textSegment : SectionInfo) (a : U64) : Prop :=
  ∃ s ∈ image.sections, (a - s.memindex).toNat < s.size.toNat ∧
    s.index - s.memindex = textSegment.index - textSegment.memindex

def InTable (h : U64) : Prop :=
  ∃ p ∈ tableEntries image.table stride, ∃ k < stride, h = p + BitVec.ofNat 64 k

variable {image}

theorem Represents.not_inTable {a h : U64} (hrep : image.Represents a h) : ¬ image.InTable h := by
  rintro ⟨p, hp, k, hk, rfl⟩
  obtain ⟨s, hs, hlt, heq⟩ := hrep
  have hge := image.apart s hs p hp k hk
  rw [heq, BitVec.add_sub_cancel] at hge
  omega

/-- The address that is computed by the distance from `.text` is the right one for such
sections, and for no others. -/
theorem represents_iff_beside {textSegment : SectionInfo} {a : U64} :
    image.Represents a (a - textSegment.memindex + textSegment.index) ↔
      image.Beside textSegment a := by
  constructor
  · rintro ⟨s, hs, hlt, heq⟩
    exact ⟨s, hs, hlt, by grind⟩
  · rintro ⟨s, hs, hlt, heq⟩
    exact ⟨s, hs, hlt, by grind⟩

end CodeImage

/-! ## The calls of mcount -/

/-- The NOPs that `applyMcount` writes for the element of the table at `p`; `data` is the address
of `textSegmentContent`. -/
def mcountCopy (pv : ParavirtState) (textSegment : SectionInfo) (data : U64) (p : U64)
    (mem : Memory) : Copy where
  addr := data + (loadAddress mem p - textSegment.memindex)
  bytes := addNops pv.ideal_nops 5

def applyMcount (pv : ParavirtState) (textSegment : SectionInfo) (data : U64) (info : SectionInfo)
    (mem : Memory) : Memory :=
  runCopies (mcountCopy pv textSegment data) (tableEntries info 8) mem

/-! ## What is written -/

section

variable (pv : ParavirtState) (native : NativeInsns)

/-- Each byte that a round of the loop in `applyParainstr` writes for a guest address of its
site stands for that address. -/
def ParainstrTouchesAddressed (target : ElfLoader) (image : CodeImage 16)
    (s₀ : ElfLoader.ParainstrState) : Prop :=
  ∀ pre p post s insnbuf copy, tableEntries image.table 16 = pre ++ p :: post →
    pre.foldlM (target.parainstrRound pv native) s₀ = .ok s →
    target.patchSite pv native s p = .ok (insnbuf, copy) → ∀ k < copy.bytes.length,
      image.Represents ((loadSite s.mem p).instr + BitVec.ofNat 64 k)
        (copy.addr + BitVec.ofNat 64 k)

/-- The same of the loop in `applyMcount`. -/
def McountTouchesAddressed (textSegment : SectionInfo) (data : U64) (image : CodeImage 8)
    (mem₀ : Memory) : Prop :=
  ∀ pre p post mem, tableEntries image.table 8 = pre ++ p :: post →
    runCopies (mcountCopy pv textSegment data) pre mem₀ = mem →
    ∀ k < (mcountCopy pv textSegment data p mem).bytes.length,
      image.Represents (loadAddress mem p + BitVec.ofNat 64 k)
        ((mcountCopy pv textSegment data p mem).addr + BitVec.ofNat 64 k)

/-! ## The sites -/

section

variable {target : ElfLoader} {image : CodeImage 16}

/-- The loop ends here with a failed assertion. -/
def impossibleLength (mem : Memory) (p : U64) : Bool := !decide ((loadSite mem p).len < 255)

/-- Each byte of the site is written where it belongs. -/
def SiteInPlace (target : ElfLoader) (image : CodeImage 16) (mem : Memory) (p : U64) : Prop :=
  ∀ k < (loadSite mem p).len.toNat,
    image.Represents ((loadSite mem p).instr + BitVec.ofNat 64 k)
      (target.instrInElf (loadSite mem p).instr + BitVec.ofNat 64 k)

theorem siteInPlace_iff {mem : Memory} {p : U64} :
    SiteInPlace target image mem p ↔ ∀ k < (loadSite mem p).len.toNat,
      image.Beside target.textSegment ((loadSite mem p).instr + BitVec.ofNat 64 k) := by
  apply forall₂_congr
  intro k _
  rw [← CodeImage.represents_iff_beside]
  have hadd : target.instrInElf (loadSite mem p).instr + BitVec.ofNat 64 k =
      (loadSite mem p).instr + BitVec.ofNat 64 k - target.textSegment.memindex +
        target.textSegment.index := by
    unfold ElfLoader.instrInElf
    grind
  rw [hadd]

theorem lt_of_not_impossibleLength {mem : Memory} {p : U64} (h : impossibleLength mem p = false) :
    (loadSite mem p).len < 255 := by
  simpa [impossibleLength] using h

theorem siteInPlace_leaves_table {mem : Memory} {p a : U64} (h : SiteInPlace target image mem p)
    (ha : (target.siteCopy pv native p mem).Covers a) : ¬ image.InTable a := by
  have hlen := target.length_siteCopy pv native mem p
  obtain ⟨k, hk, rfl⟩ := (Copy.covers_iff (by omega)).mp ha
  rw [hlen] at hk
  exact (h k hk).not_inTable

theorem parainstrRound_eq (s : ElfLoader.ParainstrState) (p : U64)
    (h : impossibleLength s.mem p = false) : ∃ s', target.parainstrRound pv native s p = .ok s' ∧
      s'.mem = (target.siteCopy pv native p s.mem).apply s.mem := by
  obtain ⟨b, hpatch⟩ := target.patchSite_eq pv native s p (lt_of_not_impossibleLength h)
  refine ⟨{ mem := (target.siteCopy pv native p s.mem).apply s.mem, insnbuf := b }, ?_, rfl⟩
  rw [ElfLoader.parainstrRound, hpatch]
  rfl

theorem patchSite_of_impossibleLength (s : ElfLoader.ParainstrState) (p : U64)
    (h : impossibleLength s.mem p = true) : target.patchSite pv native s p = .error .assertion := by
  have hlen : ¬ (loadSite s.mem p).len < 255 := by
    simpa [impossibleLength] using h
  rw [ElfLoader.patchSite]
  exact if_neg hlen

theorem parainstrTouchesAddressed_iff (s₀ : ElfLoader.ParainstrState) :
    ParainstrTouchesAddressed pv native target image s₀ ↔
      ∀ p ∈ (tableEntries image.table 16).takeWhile fun p => !impossibleLength s₀.mem p,
        SiteInPlace target image s₀.mem p := by
  have hstop : ∀ (s : ElfLoader.ParainstrState) p, impossibleLength s.mem p = true →
      ∃ e, target.parainstrRound pv native s p = .error e := by
    intro s p h
    refine ⟨.assertion, ?_⟩
    rw [ElfLoader.parainstrRound, patchSite_of_impossibleLength pv native s p h]
    rfl
  -- both predicates read nothing but the table, which good copies leave as it was
  have hfix : ∀ mem', (∀ a, image.InTable a → mem' a = s₀.mem a) →
      ∀ p ∈ tableEntries image.table 16, impossibleLength mem' p = impossibleLength s₀.mem p ∧
        (SiteInPlace target image mem' p ↔ SiteInPlace target image s₀.mem p) := by
    intro mem' hagree p hp
    have hsite : loadSite mem' p = loadSite s₀.mem p :=
      loadSite_congr fun k hk => hagree _ ⟨p, hp, k, hk, rfl⟩
    unfold impossibleLength SiteInPlace
    rw [hsite]
    exact ⟨rfl, Iff.rfl⟩
  rw [← copiesGood_iff (parainstrRound_eq pv native) hstop
    (fun _ _ h _ => siteInPlace_leaves_table pv native h) hfix s₀ fun _ _ => rfl]
  constructor
  · intro h pre p post s hl hrun hlen
    obtain ⟨b, hpatch⟩ := target.patchSite_eq pv native s p (lt_of_not_impossibleLength hlen)
    have hcopy := h pre p post s b _ hl hrun hpatch
    rw [ElfLoader.length_siteCopy] at hcopy
    exact hcopy
  · intro h pre p post s insnbuf copy hl hrun hpatch
    have hlen : impossibleLength s.mem p = false := by
      by_contra hne
      rw [Bool.not_eq_false] at hne
      rw [patchSite_of_impossibleLength pv native s p hne] at hpatch
      cases hpatch
    obtain ⟨b, hok⟩ := target.patchSite_eq pv native s p (lt_of_not_impossibleLength hlen)
    rw [hok] at hpatch
    cases hpatch
    rw [ElfLoader.length_siteCopy]
    exact h pre p post s hl hrun hlen

end

/-! ## The calls -/

section

variable {textSegment : SectionInfo} {data : U64} {image : CodeImage 8}

/-- `.text` in the image that starts at `data`. -/
def textAt (textSegment : SectionInfo) (data : U64) : SectionInfo :=
  { textSegment with index := data }

/-- Each of the 5 bytes is written where it belongs. -/
def CallInPlace (textSegment : SectionInfo) (data : U64) (image : CodeImage 8) (mem : Memory)
    (p : U64) : Prop :=
  ∀ k < 5, image.Represents (loadAddress mem p + BitVec.ofNat 64 k)
    (data + (loadAddress mem p - textSegment.memindex) + BitVec.ofNat 64 k)

theorem callInPlace_iff {mem : Memory} {p : U64} :
    CallInPlace textSegment data image mem p ↔
      ∀ k < 5, image.Beside (textAt textSegment data) (loadAddress mem p + BitVec.ofNat 64 k) := by
  apply forall₂_congr
  intro k _
  rw [← CodeImage.represents_iff_beside]
  have hadd : data + (loadAddress mem p - textSegment.memindex) + BitVec.ofNat 64 k =
      loadAddress mem p + BitVec.ofNat 64 k - (textAt textSegment data).memindex +
        (textAt textSegment data).index := by
    unfold textAt
    grind
  rw [hadd]

variable (textSegment data) in
theorem length_mcountCopy (p : U64) (mem : Memory) :
    (mcountCopy pv textSegment data p mem).bytes.length = 5 :=
  (nopRun_addNops pv.ideal_nops 5).length

theorem mcountCopy_leaves_table {mem : Memory} {p a : U64}
    (h : CallInPlace textSegment data image mem p)
    (ha : (mcountCopy pv textSegment data p mem).Covers a) : ¬ image.InTable a := by
  have hlen := length_mcountCopy pv textSegment data p mem
  obtain ⟨k, hk, rfl⟩ := (Copy.covers_iff (by omega)).mp ha
  rw [hlen] at hk
  exact (h k hk).not_inTable

theorem loadAddress_of_agrees {mem mem' : Memory}
    (h : ∀ a, image.InTable a → mem' a = mem a) {p : U64} (hp : p ∈ tableEntries image.table 8) :
    loadAddress mem' p = loadAddress mem p :=
  loadAddress_congr fun k hk => h _ ⟨p, hp, k, hk, rfl⟩

theorem mcountTouchesAddressed_iff (mem₀ : Memory) :
    McountTouchesAddressed pv textSegment data image mem₀ ↔
      ∀ p ∈ tableEntries image.table 8, CallInPlace textSegment data image mem₀ p := by
  have hfix : ∀ mem, (∀ a, image.InTable a → mem a = mem₀ a) → ∀ p ∈ tableEntries image.table 8,
      (CallInPlace textSegment data image mem p ↔ CallInPlace textSegment data image mem₀ p) := by
    intro mem hagree p hp
    unfold CallInPlace
    rw [loadAddress_of_agrees hagree hp]
  rw [← copiesGood_iff_of_total (fun _ _ h _ => mcountCopy_leaves_table pv h) hfix]
  constructor
  · intro h pre p post hl
    have hcopy := h pre p post _ hl rfl
    rw [length_mcountCopy] at hcopy
    exact hcopy
  · intro h pre p post mem hl hmem
    subst hmem
    rw [length_mcountCopy]
    exact h pre p post hl

/-- Then the whole loop changes only bytes that stand for one of the addresses. -/
theorem applyMcount_of_not_represents {mem : Memory} {a : U64}
    (h : ∀ p ∈ tableEntries image.table 8, CallInPlace textSegment data image mem p)
    (ha : ∀ p ∈ tableEntries image.table 8, ∀ k < 5,
      ¬ image.Represents (loadAddress mem p + BitVec.ofNat 64 k) a) :
    applyMcount pv textSegment data image.table mem a = mem a := by
  have hreads : ∀ p ∈ tableEntries image.table 8, ∀ mem', (∀ a, image.InTable a → mem' a = mem a) →
      mcountCopy pv textSegment data p mem' = mcountCopy pv textSegment data p mem := by
    intro p hp mem' hagree
    rw [mcountCopy, loadAddress_of_agrees hagree hp]
    rfl
  have hpair : (tableEntries image.table 8).Pairwise fun p _ => ∀ a,
      (mcountCopy pv textSegment data p mem).Covers a → ¬ image.InTable a :=
    List.pairwise_of_forall_mem_list fun p hp _ _ _ hc => mcountCopy_leaves_table pv (h p hp) hc
  rw [applyMcount, runCopies_of_independent hreads hpair]
  apply runCopies_of_untouched
  intro p hp hcovers
  have hlen := length_mcountCopy pv textSegment data p mem
  obtain ⟨k, hk, rfl⟩ := (Copy.covers_iff (by omega)).mp hcovers
  rw [hlen] at hk
  exact ha p hp k hk (h p hp k hk)

end

/-- **The patchers write the bytes that stand for the addressed code if all of it is in sections
that are as far from `.text` in the image as in the guest**, and only then. Sites behind one
with an impossible length do not count. -/
theorem patchers_touch_addressed_iff (target : ElfLoader) (file : CodeImage 16)
    (s₀ : ElfLoader.ParainstrState) (data : U64) (content : CodeImage 8) (mem₀ : Memory) :
    (ParainstrTouchesAddressed pv native target file s₀ ↔
      ∀ p ∈ (tableEntries file.table 16).takeWhile fun p => !impossibleLength s₀.mem p,
        ∀ k < (loadSite s₀.mem p).len.toNat,
          file.Beside target.textSegment ((loadSite s₀.mem p).instr + BitVec.ofNat 64 k)) ∧
    (McountTouchesAddressed pv target.textSegment data content mem₀ ↔
      ∀ p ∈ tableEntries content.table 8, ∀ k < 5,
        content.Beside (textAt target.textSegment data)
          (loadAddress mem₀ p + BitVec.ofNat 64 k)) := by
  constructor
  · rw [parainstrTouchesAddressed_iff]
    exact forall₂_congr fun p _ => siteInPlace_iff
  · rw [mcountTouchesAddressed_iff]
    exact forall₂_congr fun p _ => callInPlace_iff

end

/-! ## A site in `.init.text` -/

/-- `.init.text` stands 0x2000 bytes behind `.text` in the file, and 0xe00000 in the guest. -/
def initSiteFile : ElfFile where
  e_type := ET_EXEC
  e_entry := 0
  fileContent := 0x10000
  elf64Shdr := [sectionHeader ".text" 0xffffffff81000000 0x1000 32,
    sectionHeader ".parainstructions" 0xffffffff82000000 0x2000 16,
    sectionHeader ".init.text" 0xffffffff81e00000 0x3000 32]
  shnum_lt := by decide
  rela := fun _ => []
  sym := fun _ _ => default
  symbolName := fun _ _ => ""

def initSiteKernel : ElfLoader where
  elffile := initSiteFile
  textSegment := initSiteFile.sectionInfo 0 (initSiteFile.shdr 0)

def initSiteTable : List Byte :=
  [0x00, 0x00, 0xe0, 0x81, 0xff, 0xff, 0xff, 0xff, 0x1a, 7, 1, 0, 0, 0, 0, 0]

def initSiteState : ElfLoader.ParainstrState where
  mem := fun a => initSiteTable.getD (a - 0x12000).toNat 0
  insnbuf := zeroInsnbuf

def initSiteImage : CodeImage 16 where
  sections := [initSiteFile.sectionInfo 0 (initSiteFile.shdr 0),
    initSiteFile.sectionInfo 2 (initSiteFile.shdr 2)]
  table := initSiteFile.sectionInfo 1 (initSiteFile.shdr 1)
  apart := by
    intro s hs p hp k hk
    have hentries : tableEntries (initSiteFile.sectionInfo 1 (initSiteFile.shdr 1)) 16 =
        [0x12000] := by decide
    rw [hentries, List.mem_singleton] at hp
    subst hp
    simp only [List.mem_cons, List.not_mem_nil, or_false] at hs
    rcases hs with rfl | rfl
    · show 32 ≤ (0x12000 + BitVec.ofNat 64 k - 0x11000 : U64).toNat
      bv_omega
    · show 32 ≤ (0x12000 + BitVec.ofNat 64 k - 0x13000 : U64).toNat
      bv_omega

/-- The patch is written far behind the end of the file. -/
theorem init_text_site_misplaced :
    initSiteKernel.instrInElf 0xffffffff81e00000 = 0xe11000 ∧
      ¬ ParainstrTouchesAddressed interruptState interruptInsns initSiteKernel initSiteImage
        initSiteState := by
  refine ⟨by decide, fun h => ?_⟩
  have hentries : tableEntries initSiteImage.table 16 = [0x12000] := by decide
  have hsite : loadSite initSiteState.mem 0x12000 = ⟨0xffffffff81e00000, 0x1a, 7, 1⟩ := by decide
  have hmem : (0x12000 : U64) ∈ (tableEntries initSiteImage.table 16).takeWhile fun p =>
      !impossibleLength initSiteState.mem p := by
    have hpossible : (!impossibleLength initSiteState.mem 0x12000) = true := by
      rw [impossibleLength, hsite]
      decide
    rw [hentries, List.takeWhile_eq_self_iff.mpr]
    · exact List.mem_cons_self
    · intro p hp
      rw [List.mem_singleton.mp hp]
      exact hpossible
  have hplace := (parainstrTouchesAddressed_iff interruptState interruptInsns
    initSiteState).mp h _ hmem 0
  rw [hsite] at hplace
  obtain ⟨s, hs, hlt, heq⟩ := hplace (by decide)
  simp only [initSiteImage, List.mem_cons, List.not_mem_nil, or_false] at hs
  rcases hs with rfl | rfl
  · exact absurd hlt (by decide)
  · exact absurd heq (by decide)

end KernInt
