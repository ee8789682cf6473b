import KernInt.Kernel.Paravirt

set_option autoImplicit false

/-! # The bytes of a patched site

A patch is never longer than its site, so the number of NOPs behind it does not wrap around and
no write leaves the buffer (`patchSite_eq`). Sites in `.text` that do not overlap are each
replaced by their patch and NOPs, and nothing else changes (`applyParainstr_exact`).
-/

namespace KernInt

open Lib

/-! ## What a site is replaced by -/

inductive Patch where
  | native (insns : List Byte)
  | jmp (target : U64)
  | call (target : U64)
  | nothing
  | original
  deriving DecidableEq

/-- The bytes of a patch for a site at `addr` with the bytes `orig`. -/
def Patch.bytes (addr : U64) (orig : List Byte) : Patch → List Byte
  | native insns => insns
  | jmp target => 0xe9 :: bytes32 (jumpDelta target addr)
  | call target => 0xe8 :: bytes32 (jumpDelta target addr)
  | nothing => []
  | original => orig

/-- Native instructions, if the site has room for them. -/
def fittingPatch (len : Byte) (insns : List Byte) : Patch :=
  if insns.length ≤ len.toNat then .native insns else .original

section

variable (pv : ParavirtState) (native : NativeInsns)

/-- The patch for an operation without native instructions. -/
def defaultPatch (type : U32) (clobbers : BitVec 16) (len : Byte) : Patch :=
  let opfunc := pv.getCallDestination type
  if opfunc = 0 ∨ opfunc = pv.nopFuncAddress then .nothing
  else if opfunc = pv.ident32NopFuncAddress then fittingPatch len (native.insns .mov32)
  else if opfunc = pv.ident64NopFuncAddress then fittingPatch len (native.insns .mov64)
  else if len < 5 then .original
  else if pv.requiresJump type then .jmp opfunc
  else if CLBR_ANY &&& ~~~clobbers ≠ 0 then .original
  else .call opfunc

def chosenPatch (type : U32) (clobbers : BitVec 16) (len : Byte) : Patch :=
  match pv.patchSites.find? fun site => type = site.1 with
  | some site => fittingPatch len (native.insns site.2)
  | none => defaultPatch pv native type clobbers len

/-- The patch for a site of the table. -/
def ParavirtPatchSite.patch (site : ParavirtPatchSite) : Patch :=
  chosenPatch pv native (site.instrtype.setWidth 32 * 8) site.clobbers site.len

end

/-- Bytes that are NOPs of the table one behind the other, `n` bytes in all. -/
inductive NopRun (t : NopTable) : Nat → List Byte → Prop
  | nil : NopRun t 0 []
  | cons {n m : Nat} {bs : List Byte} (h1 : 1 ≤ n) (h2 : n ≤ ASM_NOP_MAX) (rest : NopRun t m bs) :
      NopRun t (n + m) (t.ideal_nops n ++ bs)

theorem NopRun.length {t : NopTable} {n : Nat} {bs : List Byte} (h : NopRun t n bs) :
    bs.length = n := by
  induction h with
  | nil => rfl
  | cons h1 h2 rest ih => rw [List.length_append, t.length_nop _ h1 h2, ih]

theorem nopRun_addNops (t : NopTable) (len : Nat) : NopRun t len (addNops t len) := by
  induction len using Nat.strongRecOn with
  | ind len ih =>
      rw [addNops]
      split
      · rename_i hzero
        rw [hzero]
        exact .nil
      · rename_i hne
        have h1 : 1 ≤ min len ASM_NOP_MAX := by
          simp only [ASM_NOP_MAX]
          omega
        have h2 : min len ASM_NOP_MAX ≤ ASM_NOP_MAX := Nat.min_le_right _ _
        have hsum : len = min len ASM_NOP_MAX + (len - min len ASM_NOP_MAX) := by omega
        have hlen := t.length_nop _ h1 h2
        show NopRun t len ((t.ideal_nops (min len ASM_NOP_MAX)).take (min len ASM_NOP_MAX) ++
          addNops t (len - min len ASM_NOP_MAX))
        rw [List.take_of_length_le (Nat.le_of_eq hlen)]
        have hrun := NopRun.cons h1 h2 (ih (len - min len ASM_NOP_MAX) (by omega))
        rw [← hsum] at hrun
        exact hrun

/-! ## What is in memory behind a copy -/

theorem window_congr {mem mem' : Memory} {a : U64} {n : Nat} (hn : n ≤ 2 ^ 64)
    (h : ∀ b, (b - a).toNat < n → mem' b = mem b) : window mem' a n = window mem a n := by
  apply List.map_congr_left
  intro k hk
  apply h
  have hlt := List.mem_range.mp hk
  rw [toNat_add_sub a (by omega)]
  exact hlt

theorem window_eq {mem : Memory} {a : U64} {n : Nat} {bs : List Byte} (hn : bs.length = n)
    (h : ∀ k < n, bs[k]? = some (mem (a + BitVec.ofNat 64 k))) : window mem a n = bs := by
  apply List.ext_getElem?
  intro k
  rcases Nat.lt_or_ge k n with hk | hk
  · rw [h k hk, window, List.getElem?_map, List.getElem?_range hk]
    rfl
  · rw [List.getElem?_eq_none (by rw [length_window]; exact hk),
      List.getElem?_eq_none (by rw [hn]; exact hk)]

/-- What is copied to an address is then found there. -/
theorem window_apply (c : Copy) (mem : Memory) (h : c.bytes.length < 2 ^ 64) :
    window (c.apply mem) c.addr c.bytes.length = c.bytes := by
  apply window_eq rfl
  intro k hk
  have hdist : (c.addr + BitVec.ofNat 64 k - c.addr).toNat = k := toNat_add_sub c.addr (by omega)
  have hcovers : c.Covers (c.addr + BitVec.ofNat 64 k) := by
    unfold Copy.Covers
    rw [hdist]
    exact hk
  rw [Copy.apply_of_covers hcovers, hdist]

/-! ## The buffer -/

/-- A function has put `bs` at the beginning of the buffer and returned its length. -/
def Leaves (insnbuf : Insnbuf) (bs : List Byte) (result : Except PatchError (Byte × Insnbuf)) :
    Prop :=
  ∃ insnbuf', result = .ok (BitVec.ofNat 8 bs.length, insnbuf') ∧
    insnbuf'.bytes = bs ++ insnbuf.bytes.drop bs.length

theorem Insnbuf.write_eq (insnbuf : Insnbuf) {k : Nat} {bs : List Byte} (h : k + bs.length ≤ 254) :
    ∃ insnbuf', insnbuf.write k bs = .ok insnbuf' ∧
      insnbuf'.bytes = insnbuf.bytes.take k ++ bs ++ insnbuf.bytes.drop (k + bs.length) := by
  obtain ⟨insnbuf', hput, hbytes⟩ := Buffer.put_eq_some insnbuf h
  refine ⟨insnbuf', ?_, hbytes⟩
  rw [write, hput]

section

variable {insnbuf : Insnbuf} {len : Byte}

theorem length_take_insnbuf (hlen : len.toNat < 255) :
    (insnbuf.bytes.take len.toNat).length = len.toNat := by
  rw [List.length_take, insnbuf.length_bytes]
  omega

/-- A function that returns `len` at once leaves the original bytes. -/
theorem leaves_original (hlen : len.toNat < 255) :
    Leaves insnbuf (insnbuf.bytes.take len.toNat) (.ok (len, insnbuf)) := by
  refine ⟨insnbuf, ?_, ?_⟩
  · rw [length_take_insnbuf hlen, BitVec.ofNat_toNat, BitVec.setWidth_eq]
  · rw [length_take_insnbuf hlen, List.take_append_drop]

theorem leaves_write {bs : List Byte} {n : Byte} (hn : n = BitVec.ofNat 8 bs.length)
    (hbs : bs.length ≤ 254) :
    Leaves insnbuf bs (do
      let insnbuf ← insnbuf.write 0 bs
      return (n, insnbuf)) := by
  have hfits : 0 + bs.length ≤ 254 := by omega
  obtain ⟨insnbuf', hwrite, hbytes⟩ := insnbuf.write_eq hfits
  refine ⟨insnbuf', ?_, ?_⟩
  · rw [hwrite, hn]
    rfl
  · rw [hbytes, List.take_zero, List.nil_append, Nat.zero_add]

theorem setWidth_back (len : Byte) : (len.setWidth 32).setWidth 8 = len := by
  apply BitVec.eq_of_toNat_eq
  rw [BitVec.toNat_setWidth, BitVec.toNat_setWidth]
  omega

/-- A jump and a call have 5 bytes. -/
theorem length_jump (opcode : Byte) (v : U32) : (opcode :: bytes32 v).length = 5 := rfl

variable (insnbuf) (addr : U64)

theorem patchInsns_leaves (hlen : len.toNat < 255) {insns : List Byte}
    (hinsns : insns.length ≤ 255) :
    Leaves insnbuf ((fittingPatch len insns).bytes addr (insnbuf.bytes.take len.toNat))
      (patchInsns insnbuf (len.setWidth 32) (some insns)) := by
  have hinsn_len : (BitVec.ofNat 8 insns.length).toNat = insns.length := by
    rw [BitVec.toNat_ofNat]
    omega
  have hcmp : (BitVec.ofNat 8 insns.length).setWidth 32 > len.setWidth 32 ↔
      ¬ insns.length ≤ len.toNat := by
    show len.setWidth 32 < (BitVec.ofNat 8 insns.length).setWidth 32 ↔ _
    rw [BitVec.lt_def, BitVec.toNat_setWidth_of_le (by omega),
      BitVec.toNat_setWidth_of_le (by omega), hinsn_len, Nat.not_le]
  unfold patchInsns fittingPatch
  by_cases hfits : insns.length ≤ len.toNat
  · simp only [if_pos hfits, if_neg (fun h => hcmp.mp h hfits), hinsn_len, List.take_length]
    have hle : insns.length ≤ 254 := by omega
    exact leaves_write rfl hle
  · simp only [if_neg hfits, if_pos (hcmp.mpr hfits), setWidth_back]
    exact leaves_original hlen

theorem five_le_of_not_lt (h : ¬ len < 5) : 5 ≤ len.toNat := by
  rw [BitVec.lt_def] at h
  exact Nat.le_of_not_lt h

theorem patchJmp_leaves (hlen : len.toNat < 255) (target : U64) :
    Leaves insnbuf ((if len < 5 then .original else .jmp target : Patch).bytes addr
      (insnbuf.bytes.take len.toNat)) (patchJmp insnbuf target addr len) := by
  unfold patchJmp
  by_cases hshort : len < 5
  · rw [if_pos hshort, if_pos hshort]
    exact leaves_original hlen
  · have hle := length_jump 0xe9 (jumpDelta target addr)
    rw [if_neg hshort, if_neg hshort]
    show Leaves insnbuf (0xe9 :: bytes32 (jumpDelta target addr)) _
    exact leaves_write rfl (by omega)

theorem patchCall_leaves (hlen : len.toNat < 255) (target : U64) (clobbers : BitVec 16) :
    Leaves insnbuf ((if len < 5 then .original
        else if CLBR_ANY &&& ~~~clobbers ≠ 0 then .original else .call target : Patch).bytes addr
      (insnbuf.bytes.take len.toNat))
      (patchCall insnbuf target CLBR_ANY addr clobbers len) := by
  unfold patchCall
  by_cases hshort : len < 5
  · simp only [if_pos hshort]
    split
    · exact leaves_original hlen
    · exact leaves_original hlen
  · simp only [if_neg hshort]
    split
    · exact leaves_original hlen
    · have hle := length_jump 0xe8 (jumpDelta target addr)
      show Leaves insnbuf (0xe8 :: bytes32 (jumpDelta target addr)) _
      exact leaves_write rfl (by omega)

variable (pv : ParavirtState) (native : NativeInsns) (type : U32) (clobbers : BitVec 16)

theorem paravirtPatchDefault_leaves (hlen : len.toNat < 255) :
    Leaves insnbuf ((defaultPatch pv native type clobbers len).bytes addr
        (insnbuf.bytes.take len.toNat))
      (paravirtPatchDefault pv native type clobbers insnbuf addr len) := by
  have hnothing : Leaves insnbuf [] (.ok (patchNop, insnbuf)) := ⟨insnbuf, rfl, rfl⟩
  unfold defaultPatch paravirtPatchDefault
  dsimp only
  by_cases hzero : pv.getCallDestination type = 0
  · rw [if_pos hzero, if_pos (.inl hzero)]
    exact hnothing
  · by_cases hnop : pv.getCallDestination type = pv.nopFuncAddress
    · rw [if_neg hzero, if_pos hnop, if_pos (.inr hnop)]
      exact hnothing
    · rw [if_neg hzero, if_neg hnop, if_neg (not_or.mpr ⟨hzero, hnop⟩)]
      by_cases h32 : pv.getCallDestination type = pv.ident32NopFuncAddress
      · rw [if_pos h32, if_pos h32]
        exact patchInsns_leaves insnbuf addr hlen (native.length_le _)
      · rw [if_neg h32, if_neg h32]
        by_cases h64 : pv.getCallDestination type = pv.ident64NopFuncAddress
        · rw [if_pos h64, if_pos h64]
          exact patchInsns_leaves insnbuf addr hlen (native.length_le _)
        · rw [if_neg h64, if_neg h64]
          by_cases hjump : pv.requiresJump type = true
          · rw [if_pos hjump, if_pos hjump]
            exact patchJmp_leaves insnbuf addr hlen _
          · rw [if_neg hjump, if_neg hjump]
            exact patchCall_leaves insnbuf addr hlen _ clobbers

/-- **Each patch function leaves the chosen patch** at the beginning of the buffer. -/
theorem paravirtNativePatch_eq (hlen : len.toNat < 255) :
    ∃ insnbuf', paravirtNativePatch pv native type clobbers insnbuf addr (len.setWidth 32) =
        .ok ((BitVec.ofNat 8 ((chosenPatch pv native type clobbers len).bytes addr
          (insnbuf.bytes.take len.toNat)).length).setWidth 32, insnbuf') ∧
      insnbuf'.bytes = (chosenPatch pv native type clobbers len).bytes addr
          (insnbuf.bytes.take len.toNat) ++
        insnbuf.bytes.drop ((chosenPatch pv native type clobbers len).bytes addr
          (insnbuf.bytes.take len.toNat)).length := by
  unfold chosenPatch paravirtNativePatch
  cases hfind : pv.patchSites.find? (fun site => type = site.1) with
  | some site =>
      obtain ⟨insnbuf', hres, hbytes⟩ := patchInsns_leaves insnbuf addr hlen
        (native.length_le site.2)
      refine ⟨insnbuf', ?_, hbytes⟩
      simp only [hres]
      rfl
  | none =>
      obtain ⟨insnbuf', hres, hbytes⟩ := paravirtPatchDefault_leaves insnbuf addr pv native
        type clobbers hlen
      refine ⟨insnbuf', ?_, hbytes⟩
      simp only [setWidth_back, hres]
      rfl

/-! ## A site -/

/-- The number of bytes that a patch function returns does not wrap around. -/
theorem toNat_used {n : Nat} (hn : n < 255) : ((BitVec.ofNat 8 n).setWidth 32).toNat = n := by
  rw [BitVec.toNat_setWidth, BitVec.toNat_ofNat]
  omega

/-- Nor does the number of bytes that are left. -/
theorem toNat_rest (hlen : len.toNat < 255) {n : Nat} (hn : n ≤ len.toNat) :
    ((len.setWidth 32 - (BitVec.ofNat 8 n).setWidth 32).setWidth 8).toNat = len.toNat - n := by
  rw [BitVec.toNat_setWidth, BitVec.toNat_sub, toNat_used (by omega), BitVec.toNat_setWidth]
  omega

theorem fittingPatch_length_le (insns orig : List Byte) (horig : orig.length = len.toNat) :
    ((fittingPatch len insns).bytes addr orig).length ≤ len.toNat := by
  unfold fittingPatch
  split
  · rename_i hfits
    exact hfits
  · exact Nat.le_of_eq horig

/-- **No patch is longer than its site.** -/
theorem chosenPatch_length_le {orig : List Byte} (horig : orig.length = len.toNat) :
    ((chosenPatch pv native type clobbers len).bytes addr orig).length ≤ len.toNat := by
  unfold chosenPatch
  split
  · exact fittingPatch_length_le addr _ orig horig
  · unfold defaultPatch
    dsimp only
    split
    · exact Nat.zero_le _
    split
    · exact fittingPatch_length_le addr _ orig horig
    split
    · exact fittingPatch_length_le addr _ orig horig
    split
    · exact Nat.le_of_eq horig
    rename_i hshort
    have hfive := five_le_of_not_lt hshort
    split
    · exact hfive
    split
    · exact Nat.le_of_eq horig
    · exact hfive

end

section

variable (pv : ParavirtState) (native : NativeInsns)

/-- The bytes of the patch for a site that has the bytes `orig`. -/
def ParavirtPatchSite.patchBytes (site : ParavirtPatchSite) (orig : List Byte) : List Byte :=
  (site.patch pv native).bytes site.instr orig

/-- The patch, and NOPs up to the end of the site. -/
def ParavirtPatchSite.patched (site : ParavirtPatchSite) (orig : List Byte) : List Byte :=
  site.patchBytes pv native orig ++
    addNops pv.ideal_nops (site.len.toNat - (site.patchBytes pv native orig).length)

namespace ElfLoader

variable (target : ElfLoader)

/-- The bytes of a site before it is patched. -/
def original (mem : Memory) (p : U64) : List Byte :=
  window mem (target.instrInElf (loadSite mem p).instr) (loadSite mem p).len.toNat

/-- What a round of the loop puts at the site. -/
def siteCopy (p : U64) (mem : Memory) : Copy where
  addr := target.instrInElf (loadSite mem p).instr
  bytes := (loadSite mem p).patched pv native (target.original mem p)

variable {pv native target}

theorem length_patched {site : ParavirtPatchSite} {orig : List Byte}
    (horig : orig.length = site.len.toNat) :
    (site.patched pv native orig).length = site.len.toNat := by
  have hle : (site.patchBytes pv native orig).length ≤ site.len.toNat :=
    chosenPatch_length_le _ pv native _ _ horig
  rw [ParavirtPatchSite.patched, List.length_append, (nopRun_addNops _ _).length]
  omega

variable (pv native target) in
theorem length_siteCopy (mem : Memory) (p : U64) :
    (target.siteCopy pv native p mem).bytes.length = (loadSite mem p).len.toNat :=
  length_patched (length_window _ _ _)

variable (pv native target) in
/-- **The padding fills the site up**, and the buffer is large enough. -/
theorem patchSite_eq (s : ParainstrState) (p : U64) (hlen : (loadSite s.mem p).len < 255) :
    ∃ insnbuf, target.patchSite pv native s p =
      .ok (insnbuf, target.siteCopy pv native p s.mem) := by
  let site := loadSite s.mem p
  let orig := target.original s.mem p
  let patch := site.patchBytes pv native orig
  have hlt : site.len.toNat < 255 := hlen
  have horig : orig.length = site.len.toNat := length_window _ _ _
  have hpatch : patch.length ≤ site.len.toNat := chosenPatch_length_le _ pv native _ _ horig
  -- the original bytes are put into the buffer
  have hfits : 0 + orig.length ≤ 254 := by omega
  obtain ⟨b1, hb1, hbytes1⟩ := s.insnbuf.write_eq hfits
  have htake1 : b1.bytes.take site.len.toNat = orig := by
    rw [hbytes1, List.take_zero, List.nil_append, ← horig, List.take_left]
  -- then the patch is
  obtain ⟨b2, hb2, hbytes2⟩ := paravirtNativePatch_eq b1 site.instr pv native
    (site.instrtype.setWidth 32 * 8) site.clobbers hlt
  rw [htake1] at hb2 hbytes2
  -- and NOPs behind it
  have hnops := (nopRun_addNops pv.ideal_nops (site.len.toNat - patch.length)).length
  have hfits2 : patch.length +
      (addNops pv.ideal_nops (site.len.toNat - patch.length)).length ≤ 254 := by omega
  obtain ⟨b3, hb3, hbytes3⟩ := b2.write_eq hfits2
  have htake3 : b3.bytes.take site.len.toNat = site.patched pv native orig := by
    have htake2 : b2.bytes.take patch.length = patch := by
      rw [hbytes2]
      exact List.take_left
    have hlenp : (site.patched pv native orig).length = site.len.toNat := length_patched horig
    rw [hbytes3, htake2]
    show (site.patched pv native orig ++ _).take site.len.toNat = _
    rw [List.take_append_of_le_length (Nat.le_of_eq hlenp.symm),
      List.take_of_length_le (Nat.le_of_eq hlenp)]
  refine ⟨b3, ?_⟩
  have h1 : s.insnbuf.write 0 (window s.mem (target.instrInElf (loadSite s.mem p).instr)
      (loadSite s.mem p).len.toNat) = .ok b1 := hb1
  have h2 : paravirtNativePatch pv native ((loadSite s.mem p).instrtype.setWidth 32 * 8)
      (loadSite s.mem p).clobbers b1 (loadSite s.mem p).instr ((loadSite s.mem p).len.setWidth 32) =
      .ok ((BitVec.ofNat 8 patch.length).setWidth 32, b2) := hb2
  have h3 : b2.write ((BitVec.ofNat 8 patch.length).setWidth 32).toNat
      (addNops pv.ideal_nops (((loadSite s.mem p).len.setWidth 32 -
        (BitVec.ofNat 8 patch.length).setWidth 32).setWidth 8).toNat) = .ok b3 := by
    rw [toNat_used (by omega), toNat_rest hlt hpatch]
    exact hb3
  unfold patchSite
  simp only [if_pos hlen, h1, h2, h3, bind, Except.bind]
  show Except.ok (b3, Copy.mk _ (b3.bytes.take site.len.toNat)) = _
  rw [htake3]
  rfl

/-! ## All sites -/

/-- The host addresses of a site. -/
def SiteCovers (target : ElfLoader) (mem : Memory) (p a : U64) : Prop :=
  (a - target.instrInElf (loadSite mem p).instr).toNat < (loadSite mem p).len.toNat

/-- What a round reads: its element of the table, and the site. -/
def siteReads (target : ElfLoader) (mem : Memory) (p a : U64) : Prop :=
  (∃ k < 16, a = p + BitVec.ofNat 64 k) ∨ target.SiteCovers mem p a

theorem siteCopy_congr {mem mem' : Memory} {p : U64}
    (h : ∀ a, target.siteReads mem p a → mem' a = mem a) :
    target.siteCopy pv native p mem' = target.siteCopy pv native p mem := by
  have hsite : loadSite mem' p = loadSite mem p :=
    loadSite_congr fun k hk => h _ (.inl ⟨k, hk, rfl⟩)
  have horig : target.original mem' p = target.original mem p := by
    rw [original, hsite]
    exact window_congr (by omega) fun b hb => h b (.inr hb)
  rw [siteCopy, hsite, horig]
  rfl

theorem covers_siteCopy_iff {mem : Memory} {p a : U64} :
    (target.siteCopy pv native p mem).Covers a ↔ target.SiteCovers mem p a := by
  unfold Copy.Covers
  rw [length_siteCopy]
  rfl

/-- The table of sites: its sites are in `.text`, they do not overlap and have a length that is
possible. The table itself is in a section of its own. -/
structure SitesInText (target : ElfLoader) (mem : Memory) (table : SectionInfo) : Prop where
  found : target.elffile.findSectionWithName ".parainstructions" = .ok table
  index_ne : table.index ≠ 0
  outside : ∀ p ∈ tableEntries table 16, ∀ k < 16,
    target.textSegment.size.toNat ≤ (p + BitVec.ofNat 64 k - target.textSegment.index).toNat
  in_text : ∀ p ∈ tableEntries table 16, ∀ k < (loadSite mem p).len.toNat,
    ((loadSite mem p).instr + BitVec.ofNat 64 k - target.textSegment.memindex).toNat <
      target.textSegment.size.toNat
  disjoint : (tableEntries table 16).Pairwise fun p q => ∀ a,
    (a - (loadSite mem p).instr).toNat < (loadSite mem p).len.toNat →
      ¬ (a - (loadSite mem q).instr).toNat < (loadSite mem q).len.toNat
  possible : ∀ p ∈ tableEntries table 16, (loadSite mem p).len < 255

/-- The distance of a host address from a site is that of the guest address. -/
theorem sub_instrInElf (target : ElfLoader) (instr a : U64) :
    a - target.instrInElf instr =
      (a - target.textSegment.index + target.textSegment.memindex) - instr := by
  unfold instrInElf
  grind

theorem SitesInText.sub_index_lt {mem : Memory} {table : SectionInfo}
    (h : target.SitesInText mem table) {p a : U64} (hp : p ∈ tableEntries table 16)
    (ha : target.SiteCovers mem p a) :
    (a - target.textSegment.index).toNat < target.textSegment.size.toNat := by
  have hin := h.in_text p hp _ ha
  rw [BitVec.ofNat_toNat, BitVec.setWidth_eq] at hin
  have heq : a - target.textSegment.index = (loadSite mem p).instr +
      (a - target.instrInElf (loadSite mem p).instr) - target.textSegment.memindex := by
    unfold instrInElf
    grind
  rw [heq]
  exact hin

variable (pv native) in
/-- No round reads what an earlier one has written. -/
theorem SitesInText.independent {mem : Memory} {table : SectionInfo}
    (h : target.SitesInText mem table) : (tableEntries table 16).Pairwise fun p q =>
      ∀ a, (target.siteCopy pv native p mem).Covers a → ¬ target.siteReads mem q a := by
  refine h.disjoint.imp_of_mem ?_
  intro p q hp hq hdisj a hcovers hreads
  rw [covers_siteCopy_iff] at hcovers
  rcases hreads with ⟨k, hk, rfl⟩ | hsite
  · have hlt := h.sub_index_lt hp hcovers
    have hge := h.outside q hq k hk
    omega
  · unfold SiteCovers at hcovers hsite
    rw [sub_instrInElf] at hcovers hsite
    exact hdisj _ hcovers hsite

/-- The site holds the chosen patch and behind it as many NOPs as the number of bytes that
`paravirtNativePatch` returns leaves free. -/
def Patched (pv : ParavirtState) (native : NativeInsns) (target : ElfLoader)
    (mem mem' : Memory) (p : U64) : Prop :=
  let site := loadSite mem p
  let orig := target.original mem p
  ∀ ibuf : Insnbuf, ibuf.bytes.take site.len.toNat = orig →
    ∃ used ibuf' nops, paravirtNativePatch pv native (site.instrtype.setWidth 32 * 8)
        site.clobbers ibuf site.instr (site.len.setWidth 32) = .ok (used, ibuf') ∧
      used.toNat ≤ site.len.toNat ∧ used.toNat = (site.patchBytes pv native orig).length ∧
      NopRun pv.ideal_nops (site.len.toNat - used.toNat) nops ∧
      window mem' (target.instrInElf site.instr) site.len.toNat =
        site.patchBytes pv native orig ++ nops

theorem patched_of_window {mem mem' : Memory} {p : U64} (hlen : (loadSite mem p).len < 255)
    (h : window mem' (target.instrInElf (loadSite mem p).instr) (loadSite mem p).len.toNat =
      (loadSite mem p).patched pv native (target.original mem p)) :
    Patched pv native target mem mem' p := by
  intro ibuf hibuf
  let site := loadSite mem p
  let orig := target.original mem p
  have hlt : site.len.toNat < 255 := hlen
  have horig : orig.length = site.len.toNat := length_window _ _ _
  have hpatch : (site.patchBytes pv native orig).length ≤ site.len.toNat :=
    chosenPatch_length_le _ pv native _ _ horig
  obtain ⟨ibuf', hres, -⟩ := paravirtNativePatch_eq ibuf site.instr pv native
    (site.instrtype.setWidth 32 * 8) site.clobbers hlt
  rw [hibuf] at hres
  have hused : ((BitVec.ofNat 8 (site.patchBytes pv native orig).length).setWidth 32).toNat =
      (site.patchBytes pv native orig).length := toNat_used (by omega)
  refine ⟨_, ibuf', _, hres, Nat.le_trans (Nat.le_of_eq hused) hpatch, hused, ?_, h⟩
  rw [← hused]
  exact nopRun_addNops _ _

variable (pv native) in
/-- The loop makes the copies that the table at the beginning tells. -/
theorem applyParainstr_eq {mem : Memory} {table : SectionInfo}
    (h : target.SitesInText mem table) (insnbuf : Insnbuf) :
    ∃ s, target.applyParainstr pv native { mem := mem, insnbuf := insnbuf } = .ok s ∧
      s.mem =
        runCopies (fun p _ => target.siteCopy pv native p mem) (tableEntries table 16) mem := by
  have hreads : ∀ p ∈ tableEntries table 16, ∀ mem',
      (∀ a, target.siteReads mem p a → mem' a = mem a) →
        target.siteCopy pv native p mem' = target.siteCopy pv native p mem :=
    fun p _ mem' hmem' => siteCopy_congr hmem'
  have hpair := h.independent pv native
  -- each round finds its element of the table as it was
  have hrun : ∃ s, (tableEntries table 16).foldlM (target.parainstrRound pv native)
        { mem := mem, insnbuf := insnbuf } = .ok s ∧
      s.mem = runCopies (target.siteCopy pv native) (tableEntries table 16) mem := by
    apply foldlM_eq_runCopies
    intro pre p post hl s hs
    rw [hl] at hreads hpair
    have hsite : loadSite s.mem p = loadSite mem p := by
      apply loadSite_congr
      intro k hk
      rw [hs]
      exact runCopies_agrees (fun q hq => hreads q (List.mem_append_left _ hq)) hpair
        (.inl ⟨k, hk, rfl⟩)
    have hlen : (loadSite s.mem p).len < 255 := by
      rw [hsite]
      exact h.possible p (by rw [hl]; simp)
    obtain ⟨b, hpatch⟩ := target.patchSite_eq pv native s p hlen
    refine ⟨{ mem := (target.siteCopy pv native p s.mem).apply s.mem, insnbuf := b }, ?_, rfl⟩
    rw [parainstrRound, hpatch]
    rfl
  obtain ⟨s, hfold, hmem⟩ := hrun
  rw [runCopies_of_independent hreads hpair] at hmem
  refine ⟨s, ?_, hmem⟩
  unfold applyParainstr
  simp only [h.found, if_neg h.index_ne]
  exact hfold

/-- Of these copies each one stays. -/
theorem window_of_runCopies {mem : Memory} {table : SectionInfo} (h : target.SitesInText mem table)
    {p : U64} (hp : p ∈ tableEntries table 16) :
    window (runCopies (fun p _ => target.siteCopy pv native p mem) (tableEntries table 16) mem)
        (target.instrInElf (loadSite mem p).instr) (loadSite mem p).len.toNat =
      (target.siteCopy pv native p mem).bytes := by
  have hdisj : (tableEntries table 16).Pairwise fun p q => ∀ a,
      (target.siteCopy pv native p mem).Covers a → ¬ (target.siteCopy pv native q mem).Covers a :=
    (h.independent pv native).imp fun hpq a hcovers hq =>
      hpq a hcovers (.inr (covers_siteCopy_iff.mp hq))
  apply window_eq (target.length_siteCopy pv native mem p)
  intro k hk
  have hdist : (_ - (target.siteCopy pv native p mem).addr).toNat = k :=
    toNat_add_sub (target.siteCopy pv native p mem).addr (by omega)
  have hcovers : (target.siteCopy pv native p mem).Covers
      (target.instrInElf (loadSite mem p).instr + BitVec.ofNat 64 k) := by
    rw [covers_siteCopy_iff]
    show (_ + BitVec.ofNat 64 k - _).toNat < _
    exact Nat.lt_of_le_of_lt (Nat.le_of_eq hdist) hk
  rw [runCopies_of_mem hp hdisj hcovers mem]
  exact congrArg (fun n => (target.siteCopy pv native p mem).bytes[n]?) hdist.symm

end ElfLoader

end

/-- **Paravirtual patching is exact.** -/
theorem ElfLoader.applyParainstr_exact (pv : ParavirtState) (native : NativeInsns)
    (target : ElfLoader) (mem : Memory) (insnbuf : Insnbuf) (table : SectionInfo)
    (h : target.SitesInText mem table) :
    ∃ s, target.applyParainstr pv native { mem := mem, insnbuf := insnbuf } = .ok s ∧
      (∀ p ∈ tableEntries table 16, Patched pv native target mem s.mem p) ∧
      ∀ a, (∀ p ∈ tableEntries table 16, ¬ target.SiteCovers mem p a) → s.mem a = mem a := by
  obtain ⟨s, hok, hmem⟩ := applyParainstr_eq pv native h insnbuf
  refine ⟨s, hok, ?_, ?_⟩
  · intro p hp
    apply patched_of_window (h.possible p hp)
    rw [hmem]
    exact window_of_runCopies h hp
  · intro a ha
    rw [hmem]
    exact runCopies_of_untouched (fun p hp hcovers => ha p hp (covers_siteCopy_iff.mp hcovers)) mem

/-! ## A table with two sites -/

/-- `cli` and `sti` have one byte; the others are left out here. -/
def interruptInsns : NativeInsns where
  insns
    | .irq_disable => [0xfa]
    | .irq_enable => [0xfb]
    | _ => []
  length_le := by
    intro op
    cases op <;> decide

def interruptOps : PvOps where
  size := 0x40
  memberByOffset := fun _ => 0xffffffff81000100
  memberOffset
    | "irq_disable" => 0x10
    | "irq_enable" => 0x18
    | _ => 0x38

def interruptState : ParavirtState where
  ideal_nops := p6_nops
  pv_init_ops := interruptOps
  pv_time_ops := interruptOps
  pv_cpu_ops := interruptOps
  pv_irq_ops := interruptOps
  pv_apic_ops := interruptOps
  pv_mmu_ops := interruptOps
  pv_lock_ops := interruptOps
  nopFuncAddress := 0xffffffff81000200
  ident32NopFuncAddress := 0xffffffff81000210
  ident64NopFuncAddress := 0xffffffff81000220
  pv_irq_opsOffset := 0xc0
  pv_cpu_opsOffset := 0x80
  pv_mmu_opsOffset := 0x140

def sectionHeader (sh_name : String) (sh_addr sh_offset sh_size : U64) : Elf64_Shdr where
  sh_name := sh_name
  sh_type := 1
  sh_flags := SHF_ALLOC
  sh_addr := sh_addr
  sh_offset := sh_offset
  sh_size := sh_size
  sh_link := 0
  sh_info := 0
  sh_addralign := 16

/-- A kernel with 32 bytes of code, and the table behind them. -/
def twoSiteFile : ElfFile where
  e_type := ET_EXEC
  e_entry := 0
  fileContent := 0x10000
  elf64Shdr := [sectionHeader ".text" 0xffffffff81000000 0x1000 32,
    sectionHeader ".parainstructions" 0xffffffff82000000 0x2000 32]
  shnum_lt := by decide
  rela := fun _ => []
  sym := fun _ _ => default
  symbolName := fun _ _ => ""

def twoSiteKernel : ElfLoader where
  elffile := twoSiteFile
  textSegment := twoSiteFile.sectionInfo 0 (twoSiteFile.shdr 0)

/-- Two calls of 7 bytes, for `irq_disable` and for `irq_enable`. -/
def twoSiteTable : List Byte :=
  [0x00, 0x00, 0x00, 0x81, 0xff, 0xff, 0xff, 0xff, 0x1a, 7, 1, 0, 0, 0, 0, 0,
   0x10, 0x00, 0x00, 0x81, 0xff, 0xff, 0xff, 0xff, 0x1b, 7, 1, 0, 0, 0, 0, 0]

def twoSiteMemory : Memory := fun a => twoSiteTable.getD (a - 0x12000).toNat 0

def twoSiteInfo : SectionInfo := twoSiteFile.sectionInfo 1 (twoSiteFile.shdr 1)

theorem twoSite_sitesInText : twoSiteKernel.SitesInText twoSiteMemory twoSiteInfo := by
  have hentries : tableEntries twoSiteInfo 16 = [0x12000, 0x12010] := by decide
  have h1 : loadSite twoSiteMemory 0x12000 = ⟨0xffffffff81000000, 0x1a, 7, 1⟩ := by decide
  have h2 : loadSite twoSiteMemory 0x12010 = ⟨0xffffffff81000010, 0x1b, 7, 1⟩ := by decide
  have hmem : ∀ p ∈ tableEntries twoSiteInfo 16, p = 0x12000 ∨ p = 0x12010 := by
    rw [hentries]
    simp
  refine ⟨by decide, by decide, ?_, ?_, ?_, ?_⟩
  · intro p hp k hk
    show 32 ≤ (p + BitVec.ofNat 64 k - 0x11000).toNat
    rcases hmem p hp with rfl | rfl
    · bv_omega
    · bv_omega
  · intro p hp k hk
    show (_ + BitVec.ofNat 64 k - 0xffffffff81000000).toNat < 32
    rcases hmem p hp with rfl | rfl
    · rw [h1] at hk ⊢
      have hlt : k < 7 := hk
      bv_omega
    · rw [h2] at hk ⊢
      have hlt : k < 7 := hk
      bv_omega
  · rw [hentries]
    simp only [List.pairwise_cons, List.mem_singleton, forall_eq, h1, h2]
    refine ⟨?_, by simp⟩
    intro a ha hb
    have ha' : (a - 0xffffffff81000000).toNat < 7 := ha
    have hb' : (a - 0xffffffff81000010).toNat < 7 := hb
    bv_omega
  · intro p hp
    rcases hmem p hp with rfl | rfl
    · rw [h1]
      decide
    · rw [h2]
      decide

def zeroInsnbuf : Insnbuf where
  bytes := List.replicate 254 0
  length_bytes := by rw [List.length_replicate]

/-- Both sites are patched. -/
theorem twoSite_applyParainstr :
    ∃ s, twoSiteKernel.applyParainstr interruptState interruptInsns
        { mem := twoSiteMemory, insnbuf := zeroInsnbuf } = .ok s ∧
      (∀ p ∈ tableEntries twoSiteInfo 16,
        twoSiteKernel.Patched interruptState interruptInsns twoSiteMemory s.mem p) ∧
      ∀ a, (∀ p ∈ tableEntries twoSiteInfo 16, ¬ twoSiteKernel.SiteCovers twoSiteMemory p a) →
        s.mem a = twoSiteMemory a :=
  twoSiteKernel.applyParainstr_exact interruptState interruptInsns twoSiteMemory zeroInsnbuf
    twoSiteInfo twoSite_sitesInText

end KernInt
