import KernInt.Elf.ElfFile
import KernInt.Lib.Layout

set_option autoImplicit false

/-! # The code of a module and its layout in the guest

`initText` puts the section `.text` in front and the other sections with code behind it, without
any room between them. The guest places each section at the next multiple of its alignment. The
bytes stand at the same distances from `.text` only if no section with code precedes it and no
section behind it needs room in front (`matchesGuest_iff`).
-/

namespace KernInt

open Lib

/-- The bytes of the sections after the relocations and the patches: `content i k` is the one at
`sh_offset + k` of the section with number `i`. -/
abbrev SectionContent := Nat → Nat → Byte

def sectionBytes (content : SectionContent) (i : Nat) (sh_size : U64) : List Byte :=
  (List.range sh_size.toNat).map (content i)

namespace Elf64_Shdr

/-- A section that is put behind `.text`. -/
def isInserted (shdr : Elf64_Shdr) : Bool :=
  if shdr.sh_name = ".text" ∨ shdr.sh_name = ".init.text" then false
  else shdr.sh_flags == SHF_ALLOC ||| SHF_EXECINSTR

/-- A section with code that the guest keeps after the initialization. -/
def isGuestCode (shdr : Elf64_Shdr) : Bool :=
  checkFlags shdr.sh_flags SHF_ALLOC && checkFlags shdr.sh_flags SHF_EXECINSTR &&
    shdr.sh_name ≠ ".init.text"

def size (shdr : Elf64_Shdr) : Nat := shdr.sh_size.toNat

def align (shdr : Elf64_Shdr) : Nat := shdr.sh_addralign.toNat

end Elf64_Shdr

/-- The loop over the section headers, from number `i` on. -/
def insertedBytes (content : SectionContent) : Nat → List Elf64_Shdr → List Byte
  | _, [] => []
  | i, shdr :: rest =>
      (if shdr.isInserted then sectionBytes content i shdr.sh_size else []) ++
        insertedBytes content (i + 1) rest

namespace ElfFile

variable (elf : ElfFile)

/-- The image that `initText` builds; zeros fill up the last page. -/
def textSegmentContent (content : SectionContent) : Except ElfError (List Byte) :=
  match elf.findSectionWithName ".text" with
  | .error e => .error e
  | .ok textSegment =>
      let image := sectionBytes content textSegment.secID.toNat textSegment.size ++
        insertedBytes content 0 elf.elf64Shdr
      let fill := 0x1000 - image.length % 0x1000
      .ok (image ++ List.replicate fill 0)

/-- The guest address of the section with number `i`, if the code of the module starts at
`core`. -/
def guestAddr (core i : Nat) : Nat :=
  alignUp (elf.shdr i).align
    (placeEnd Elf64_Shdr.size Elf64_Shdr.align core
      ((elf.elf64Shdr.take i).filter Elf64_Shdr.isGuestCode))

end ElfFile

/-- The file of a module, with its section headers around those of `.text`. -/
structure ModuleFile where
  elf : ElfFile
  before : List Elf64_Shdr
  text : Elf64_Shdr
  after : List Elf64_Shdr
  shdr_eq : elf.elf64Shdr = before ++ text :: after
  name_of_before : ∀ shdr ∈ before, shdr.sh_name ≠ ".text"
  text_name : text.sh_name = ".text"
  text_code : text.isGuestCode = true

/-- The sections that have to be in the image. -/
def Elf64_Shdr.InImage (shdr : Elf64_Shdr) : Prop :=
  shdr.sh_flags = SHF_ALLOC ||| SHF_EXECINSTR ∧ shdr.sh_name ≠ ".init.text"

namespace ModuleFile

variable (m : ModuleFile)

/-- The image has each byte of the code as far from its first byte as the guest has it from
`.text`. -/
def MatchesGuest (core : Nat) : Prop :=
  ∀ content image i shdr, m.elf.textSegmentContent content = .ok image →
    m.elf.elf64Shdr[i]? = some shdr → shdr.InImage → ∀ k < shdr.size,
      ∃ j, m.elf.guestAddr core m.before.length + j = m.elf.guestAddr core i + k ∧
        image[j]? = some (content i k)

/-- The guest address behind `.text`. -/
def textEnd (core : Nat) : Nat := m.elf.guestAddr core m.before.length + m.text.size

/-- Nothing is in front of `.text`. Behind it, up to each section that is not empty, the code
follows without any room, and none of it is left out of the image. -/
structure Gapless (core : Nat) : Prop where
  before : ∀ shdr ∈ m.before, shdr.InImage → shdr.size = 0
  seamless : ∀ pre shdr post, m.after = pre ++ shdr :: post → shdr.InImage → 0 < shdr.size →
    Seamless Elf64_Shdr.size Elf64_Shdr.align (m.textEnd core)
      ((pre ++ [shdr]).filter Elf64_Shdr.isGuestCode)
  inserted : ∀ pre shdr post, m.after = pre ++ shdr :: post → shdr.InImage → 0 < shdr.size →
    ∀ s ∈ pre ++ [shdr], s.isGuestCode = true → s.isInserted = true ∨ s.size = 0

end ModuleFile

/-! ## The sections -/

namespace Elf64_Shdr

variable {shdr : Elf64_Shdr}

theorem isInserted_iff :
    shdr.isInserted = true ↔ shdr.InImage ∧ shdr.sh_name ≠ ".text" := by
  unfold isInserted InImage
  by_cases htext : shdr.sh_name = ".text"
  · simp [htext]
  · by_cases hinit : shdr.sh_name = ".init.text"
    · simp [hinit]
    · simp [htext, hinit]

theorem isGuestCode_of_inImage (h : shdr.InImage) : shdr.isGuestCode = true := by
  unfold isGuestCode
  rw [h.1]
  simp only [Bool.and_eq_true, decide_eq_true_eq]
  exact ⟨⟨by decide, by decide⟩, h.2⟩

theorem isGuestCode_of_isInserted (shdr : Elf64_Shdr) (h : shdr.isInserted = true) :
    shdr.isGuestCode = true :=
  isGuestCode_of_inImage (isInserted_iff.mp h).1

end Elf64_Shdr

/-! ## The bytes of the image -/

section

variable {content : SectionContent}

theorem length_sectionBytes (i : Nat) (sh_size : U64) :
    (sectionBytes content i sh_size).length = sh_size.toNat := by
  rw [sectionBytes, List.length_map, List.length_range]

theorem getElem?_sectionBytes (i : Nat) {sh_size : U64} {k : Nat} (hk : k < sh_size.toNat) :
    (sectionBytes content i sh_size)[k]? = some (content i k) := by
  rw [sectionBytes, List.getElem?_map, List.getElem?_range hk]
  rfl

theorem exists_of_mem_sectionBytes {i : Nat} {sh_size : U64} {b : Byte}
    (h : b ∈ sectionBytes content i sh_size) : ∃ k, b = content i k := by
  obtain ⟨k, -, hk⟩ := List.mem_map.mp h
  exact ⟨k, hk.symm⟩

theorem insertedBytes_append (i : Nat) (l l' : List Elf64_Shdr) :
    insertedBytes content i (l ++ l') =
      insertedBytes content i l ++ insertedBytes content (i + l.length) l' := by
  induction l generalizing i with
  | nil => rfl
  | cons shdr l ih =>
      rw [List.cons_append, insertedBytes, insertedBytes, ih, List.append_assoc,
        List.length_cons, Nat.add_right_comm, Nat.add_assoc i]

theorem length_insertedBytes (i : Nat) (l : List Elf64_Shdr) :
    (insertedBytes content i l).length =
      ((l.filter Elf64_Shdr.isInserted).map Elf64_Shdr.size).sum := by
  induction l generalizing i with
  | nil => rfl
  | cons shdr l ih =>
      rw [insertedBytes, List.length_append, ih]
      cases h : shdr.isInserted with
      | true => simp [h, length_sectionBytes, Elf64_Shdr.size]
      | false => simp [h]

theorem exists_of_mem_insertedBytes {i : Nat} {l : List Elf64_Shdr} {b : Byte}
    (h : b ∈ insertedBytes content i l) :
    ∃ i' k, i ≤ i' ∧ i' < i + l.length ∧ b = content i' k := by
  induction l generalizing i with
  | nil => cases h
  | cons shdr l ih =>
      rw [insertedBytes, List.mem_append] at h
      rw [List.length_cons]
      rcases h with h | h
      · split at h
        · obtain ⟨k, hk⟩ := exists_of_mem_sectionBytes h
          exact ⟨i, k, Nat.le_refl i, by omega, hk⟩
        · cases h
      · obtain ⟨i', k, hle, hlt, hk⟩ := ih h
        exact ⟨i', k, by omega, by omega, hk⟩

end

/-! ## The section headers -/

section

variable {elf : ElfFile} {pre post : List Elf64_Shdr} {shdr : Elf64_Shdr}

theorem getElem?_of_split (h : elf.elf64Shdr = pre ++ shdr :: post) :
    elf.elf64Shdr[pre.length]? = some shdr := by
  rw [h, List.getElem?_append_right (Nat.le_refl _), Nat.sub_self]
  rfl

/-- The guest has placed the code in front of a section before it. -/
theorem guestAddr_of_split (core : Nat) (h : elf.elf64Shdr = pre ++ shdr :: post) :
    elf.guestAddr core pre.length = alignUp shdr.align
      (placeEnd Elf64_Shdr.size Elf64_Shdr.align core (pre.filter Elf64_Shdr.isGuestCode)) := by
  have htake : elf.elf64Shdr.take pre.length = pre := by
    rw [h, List.take_left]
  have hshdr : elf.shdr pre.length = shdr := by
    rw [ElfFile.shdr, List.getD_eq_getElem?_getD, getElem?_of_split h, Option.getD_some]
  rw [ElfFile.guestAddr, htake, hshdr]

end

namespace ModuleFile

variable {m : ModuleFile} {content : SectionContent}

/-- The bytes in front of the filling. -/
def image (m : ModuleFile) (content : SectionContent) : List Byte :=
  sectionBytes content m.before.length m.text.sh_size ++
    insertedBytes content 0 m.elf.elf64Shdr

theorem find_text :
    m.elf.findSectionWithName ".text" = .ok (m.elf.sectionInfo m.before.length m.text) := by
  have hfind : m.elf.sections.find? (fun sI => sI.name = ".text") =
      some (m.elf.sectionInfo m.before.length m.text) := by
    rw [ElfFile.sections, m.shdr_eq, List.mapIdx_append, List.find?_append, List.mapIdx_cons,
      Nat.zero_add, List.find?_cons_of_pos (by simp [ElfFile.sectionInfo, m.text_name])]
    have hbefore : (m.before.mapIdx m.elf.sectionInfo).find? (fun sI => sI.name = ".text") =
        none := by
      rw [List.find?_eq_none]
      intro sI hsI
      obtain ⟨i, hi, rfl⟩ := List.mem_mapIdx.mp hsI
      rw [decide_eq_true_eq]
      exact m.name_of_before _ (List.getElem_mem hi)
    rw [hbefore, Option.none_or]
  rw [ElfFile.findSectionWithName, hfind]

theorem before_length_lt : m.before.length < 2 ^ 16 := by
  have h := m.elf.shnum_lt
  rw [m.shdr_eq, List.length_append, List.length_cons] at h
  omega

theorem textSegmentContent_eq : m.elf.textSegmentContent content =
    .ok (m.image content ++ List.replicate (0x1000 - (m.image content).length % 0x1000) 0) := by
  have hid : (m.elf.sectionInfo m.before.length m.text).secID.toNat = m.before.length := by
    show m.before.length % 2 ^ 32 = m.before.length
    have h := m.before_length_lt
    omega
  simp only [ElfFile.textSegmentContent, find_text, hid]
  rfl

/-! ## Sections behind `.text` -/

variable {pre post : List Elf64_Shdr} {shdr : Elf64_Shdr}

/-- The bytes in front of those of a section. -/
def front (m : ModuleFile) (content : SectionContent) (pre : List Elf64_Shdr) : List Byte :=
  sectionBytes content m.before.length m.text.sh_size ++ insertedBytes content 0 m.before ++
    insertedBytes content (m.before.length + 1) pre

theorem length_front : (m.front content pre).length =
    m.text.size + ((m.before.filter Elf64_Shdr.isInserted).map Elf64_Shdr.size).sum +
      ((pre.filter Elf64_Shdr.isInserted).map Elf64_Shdr.size).sum := by
  rw [front, List.length_append, List.length_append, length_sectionBytes,
    length_insertedBytes, length_insertedBytes]
  rfl

/-- The number of a section behind `.text`. -/
def numberOf (m : ModuleFile) (pre : List Elf64_Shdr) : Nat := m.before.length + 1 + pre.length

theorem split_numberOf (h : m.after = pre ++ shdr :: post) :
    m.elf.elf64Shdr = (m.before ++ m.text :: pre) ++ shdr :: post ∧
      (m.before ++ m.text :: pre).length = m.numberOf pre := by
  constructor
  · rw [m.shdr_eq, h, List.append_assoc, List.cons_append]
  · rw [List.length_append, List.length_cons, numberOf]
    omega

theorem getElem?_numberOf (h : m.after = pre ++ shdr :: post) :
    m.elf.elf64Shdr[m.numberOf pre]? = some shdr := by
  obtain ⟨hsplit, hlen⟩ := split_numberOf h
  rw [← hlen]
  exact getElem?_of_split hsplit

/-- Each section header behind that of `.text` splits the list there. -/
theorem exists_split_after {i : Nat} (hi : m.before.length < i)
    (hget : m.elf.elf64Shdr[i]? = some shdr) :
    ∃ pre post, m.after = pre ++ shdr :: post ∧ i = m.numberOf pre := by
  have hlt := (List.getElem?_eq_some_iff.mp hget).1
  rw [m.shdr_eq, List.length_append, List.length_cons] at hlt
  obtain ⟨n, rfl⟩ := Nat.exists_eq_add_of_lt hi
  have hn : n < m.after.length := by omega
  have hafter : m.after = m.after.take n ++ m.after[n] :: m.after.drop (n + 1) := by
    rw [← List.drop_eq_getElem_cons hn, List.take_append_drop]
  have hnumber : m.before.length + n + 1 = m.numberOf (m.after.take n) := by
    rw [numberOf, List.length_take_of_le (Nat.le_of_lt hn)]
    omega
  rw [hnumber, getElem?_numberOf hafter] at hget
  rw [Option.some.inj hget] at hafter
  exact ⟨_, _, hafter, hnumber⟩

theorem image_eq (h : m.after = pre ++ shdr :: post) :
    m.image content = m.front content pre ++
      ((if shdr.isInserted then sectionBytes content (m.numberOf pre) shdr.sh_size else []) ++
        insertedBytes content (m.numberOf pre + 1) post) := by
  have htext : m.text.isInserted = false := by
    rw [Elf64_Shdr.isInserted, if_pos (.inl m.text_name)]
  rw [image, front, m.shdr_eq, h, insertedBytes_append, insertedBytes, htext,
    insertedBytes_append, insertedBytes, Nat.zero_add, numberOf]
  simp only [Bool.false_eq_true, if_false, List.nil_append, List.append_assoc]

/-- The guest's code in front of a section behind `.text` ends with what follows `.text`. -/
theorem guestAddr_numberOf (core : Nat) (h : m.after = pre ++ shdr :: post) :
    m.elf.guestAddr core (m.numberOf pre) = alignUp shdr.align
      (placeEnd Elf64_Shdr.size Elf64_Shdr.align (m.textEnd core)
        (pre.filter Elf64_Shdr.isGuestCode)) := by
  obtain ⟨hsplit, hlen⟩ := split_numberOf h
  rw [← hlen, guestAddr_of_split core hsplit, List.filter_append,
    List.filter_cons_of_pos m.text_code, placeEnd_append, textEnd,
    guestAddr_of_split core m.shdr_eq]
  rfl

/-! ## The two layouts -/

theorem sum_inserted_before (h : ∀ shdr ∈ m.before, shdr.InImage → shdr.size = 0) :
    ((m.before.filter Elf64_Shdr.isInserted).map Elf64_Shdr.size).sum = 0 := by
  rw [List.sum_eq_zero_iff_forall_eq_nat]
  intro n hn
  obtain ⟨s, hs, rfl⟩ := List.mem_map.mp hn
  rw [List.mem_filter, Elf64_Shdr.isInserted_iff] at hs
  exact h s hs.1 hs.2.1

variable (content) in
/-- Without room between them the sections in front are as long as in the guest. -/
theorem guestAddr_eq_of_gapless {core : Nat} (h : m.Gapless core)
    (hafter : m.after = pre ++ shdr :: post) (hin : shdr.InImage) (hsize : 0 < shdr.size) :
    m.elf.guestAddr core (m.numberOf pre) =
      m.elf.guestAddr core m.before.length + (m.front content pre).length := by
  have hseamless := h.seamless pre shdr post hafter hin hsize
  have hinserted := h.inserted pre shdr post hafter hin hsize
  have hcode := Elf64_Shdr.isGuestCode_of_inImage hin
  have hpre := (sum_filter_eq_iff (l := pre) Elf64_Shdr.isGuestCode_of_isInserted).mpr
    fun s hs hg => hinserted s (List.mem_append_left _ hs) hg
  have hend := placeEnd_eq_iff.mpr hseamless
  rw [List.filter_append, List.filter_cons_of_pos hcode, List.filter_nil, placeEnd_append,
    List.map_append, List.sum_append, hpre] at hend
  simp only [placeEnd, List.map_cons, List.map_nil, List.sum_cons, List.sum_nil] at hend
  rw [guestAddr_numberOf core hafter, length_front, sum_inserted_before h.before]
  unfold textEnd at hend ⊢
  omega

theorem isInserted_of_gapless {core : Nat} (h : m.Gapless core)
    (hafter : m.after = pre ++ shdr :: post) (hin : shdr.InImage) (hsize : 0 < shdr.size) :
    shdr.isInserted = true := by
  have hcode := Elf64_Shdr.isGuestCode_of_inImage hin
  rcases h.inserted pre shdr post hafter hin hsize shdr (by simp) hcode with hins | hzero
  · exact hins
  · omega

theorem matchesGuest_of_gapless {core : Nat} (h : m.Gapless core) : m.MatchesGuest core := by
  intro content image i shdr himage hget hin k hk
  rw [textSegmentContent_eq] at himage
  cases himage
  rcases Nat.lt_trichotomy i m.before.length with hlt | heq | hgt
  · -- in front of `.text` there is nothing
    rw [m.shdr_eq, List.getElem?_append_left hlt] at hget
    have hzero := h.before shdr (List.mem_of_getElem? hget) hin
    omega
  · -- the image begins with `.text`
    subst heq
    rw [getElem?_of_split m.shdr_eq] at hget
    cases hget
    refine ⟨k, rfl, ?_⟩
    have hlen : k < (sectionBytes content m.before.length m.text.sh_size).length := by
      rw [length_sectionBytes]
      exact hk
    rw [image, List.append_assoc, List.getElem?_append_left hlen]
    exact getElem?_sectionBytes _ hk
  · -- behind it, the bytes in front are as many as in the guest
    obtain ⟨pre, post, hafter, rfl⟩ := exists_split_after hgt hget
    have hpos : 0 < shdr.size := by omega
    have hlen : k < (sectionBytes content (m.numberOf pre) shdr.sh_size).length := by
      rw [length_sectionBytes]
      exact hk
    refine ⟨(m.front content pre).length + k, ?_, ?_⟩
    · rw [guestAddr_eq_of_gapless content h hafter hin hpos]
      omega
    · rw [image_eq hafter, if_pos (isInserted_of_gapless h hafter hin hpos), List.append_assoc,
        List.getElem?_append_right (Nat.le_add_right _ _), Nat.add_sub_cancel_left,
        List.append_assoc, List.getElem?_append_left hlen]
      exact getElem?_sectionBytes _ hk

/-- Only the first byte of the section with number `i` is not zero. -/
def marked (i : Nat) : SectionContent := fun i' k => if i' = i ∧ k = 0 then 1 else 0

theorem marked_ne_one {i i' k : Nat} (h : i' ≠ i) : marked i i' k ≠ 1 := by
  rw [marked, if_neg fun hi => h hi.1]
  decide

theorem one_not_mem_front : 1 ∉ m.front (marked (m.numberOf pre)) pre := by
  intro hone
  rw [front, List.mem_append, List.mem_append] at hone
  rcases hone with (htext | hbefore) | hpre
  · obtain ⟨k, hk⟩ := exists_of_mem_sectionBytes htext
    exact marked_ne_one (by unfold numberOf; omega) hk.symm
  · obtain ⟨i, k, -, hlt, hk⟩ := exists_of_mem_insertedBytes hbefore
    exact marked_ne_one (by unfold numberOf; omega) hk.symm
  · obtain ⟨i, k, -, hlt, hk⟩ := exists_of_mem_insertedBytes hpre
    exact marked_ne_one (by unfold numberOf; omega) hk.symm

/-- Where the image has the marked byte, it has the section. -/
theorem eq_of_marked {fill j : Nat} (h : m.after = pre ++ shdr :: post)
    (hj : (m.image (marked (m.numberOf pre)) ++ List.replicate fill 0)[j]? = some 1) :
    shdr.isInserted = true ∧ j = (m.front (marked (m.numberOf pre)) pre).length := by
  rw [image_eq h, List.append_assoc, List.append_assoc] at hj
  -- the mark is in the section's own bytes: not in front of them, not behind, not in the fill
  rcases Nat.lt_or_ge j (m.front (marked (m.numberOf pre)) pre).length with hlt | hge
  · rw [List.getElem?_append_left hlt] at hj
    exact absurd (List.mem_of_getElem? hj) one_not_mem_front
  · rw [List.getElem?_append_right hge] at hj
    have hrest : (1 : Byte) ∉ insertedBytes (marked (m.numberOf pre)) (m.numberOf pre + 1) post ++
        List.replicate fill 0 := by
      intro hone
      rcases List.mem_append.mp hone with hpost | hfill
      · obtain ⟨i, k, hle, -, hk⟩ := exists_of_mem_insertedBytes hpost
        exact marked_ne_one (by omega) hk.symm
      · exact absurd (List.eq_of_mem_replicate hfill) (by decide)
    split at hj
    · rename_i hinserted
      rcases Nat.lt_or_ge (j - (m.front (marked (m.numberOf pre)) pre).length)
        (sectionBytes (marked (m.numberOf pre)) (m.numberOf pre) shdr.sh_size).length with hk | hk
      · rw [List.getElem?_append_left hk] at hj
        rw [length_sectionBytes] at hk
        rw [getElem?_sectionBytes _ hk] at hj
        refine ⟨hinserted, ?_⟩
        by_contra hne
        have hzero : marked (m.numberOf pre) (m.numberOf pre)
            (j - (m.front (marked (m.numberOf pre)) pre).length) = 0 :=
          if_neg fun hmark => by omega
        rw [hzero] at hj
        exact absurd hj (by decide)
      · rw [List.getElem?_append_right hk] at hj
        exact absurd (List.mem_of_getElem? hj) hrest
    · rw [List.nil_append] at hj
      exact absurd (List.mem_of_getElem? hj) hrest

theorem split_before (h : m.before = pre ++ shdr :: post) :
    m.elf.elf64Shdr = pre ++ shdr :: (post ++ m.text :: m.after) := by
  rw [m.shdr_eq, h, List.append_assoc, List.cons_append]

/-- The code in front of `.text` has lower guest addresses. -/
theorem guestAddr_before_lt (core : Nat) (h : m.before = pre ++ shdr :: post)
    (hin : shdr.InImage) (hsize : 0 < shdr.size) :
    m.elf.guestAddr core pre.length < m.elf.guestAddr core m.before.length := by
  have hcode := Elf64_Shdr.isGuestCode_of_inImage hin
  have hsplit := split_before h
  have hend := add_sum_le_placeEnd Elf64_Shdr.size Elf64_Shdr.align
    (m.elf.guestAddr core pre.length + shdr.size) (post.filter Elf64_Shdr.isGuestCode)
  have hplace : placeEnd Elf64_Shdr.size Elf64_Shdr.align core
      (m.before.filter Elf64_Shdr.isGuestCode) =
        placeEnd Elf64_Shdr.size Elf64_Shdr.align
          (m.elf.guestAddr core pre.length + shdr.size) (post.filter Elf64_Shdr.isGuestCode) := by
    rw [h, List.filter_append, List.filter_cons_of_pos hcode, placeEnd_append, placeEnd,
      guestAddr_of_split core hsplit]
  calc m.elf.guestAddr core pre.length
      < m.elf.guestAddr core pre.length + shdr.size := Nat.lt_add_of_pos_right hsize
    _ ≤ placeEnd Elf64_Shdr.size Elf64_Shdr.align core
          (m.before.filter Elf64_Shdr.isGuestCode) := by omega
    _ ≤ m.elf.guestAddr core m.before.length := by
        rw [guestAddr_of_split core m.shdr_eq]
        exact le_alignUp _ _

/-- A section that stands where the guest has it follows what is in front of it at once. -/
theorem guestAddr_of_matchesGuest {core : Nat} (h : m.MatchesGuest core)
    (hafter : m.after = pre ++ shdr :: post) (hin : shdr.InImage) (hsize : 0 < shdr.size) :
    shdr.isInserted = true ∧ m.elf.guestAddr core (m.numberOf pre) =
      m.elf.guestAddr core m.before.length +
        (m.front (marked (m.numberOf pre)) pre).length := by
  obtain ⟨j, hj, hbyte⟩ := h (marked (m.numberOf pre)) _ (m.numberOf pre) shdr
    textSegmentContent_eq (getElem?_numberOf hafter) hin 0 hsize
  have hone : marked (m.numberOf pre) (m.numberOf pre) 0 = 1 := if_pos ⟨rfl, rfl⟩
  rw [hone] at hbyte
  rw [Nat.add_zero] at hj
  obtain ⟨hinserted, heq⟩ := eq_of_marked hafter hbyte
  rw [heq] at hj
  exact ⟨hinserted, hj.symm⟩

/-- A section in front of `.text` has nothing that the image could hold. -/
theorem before_empty_of_matchesGuest {core : Nat} (h : m.MatchesGuest core) :
    ∀ shdr ∈ m.before, shdr.InImage → shdr.size = 0 := by
  intro shdr hmem hin
  by_contra hne
  have hpos := Nat.pos_of_ne_zero hne
  obtain ⟨pre, post, heq⟩ := List.append_of_mem hmem
  obtain ⟨j, hj, -⟩ := h (marked 0) _ pre.length shdr textSegmentContent_eq
    (getElem?_of_split (split_before heq)) hin 0 hpos
  have hlt := guestAddr_before_lt core heq hin hpos
  omega

/-- The end of the code up to a section is as far as the sizes in the image say, so that there
is no room in front of it, and nothing is left out. -/
theorem seamless_of_matchesGuest {core : Nat} (h : m.MatchesGuest core)
    (hafter : m.after = pre ++ shdr :: post) (hin : shdr.InImage) (hsize : 0 < shdr.size) :
    Seamless Elf64_Shdr.size Elf64_Shdr.align (m.textEnd core)
        ((pre ++ [shdr]).filter Elf64_Shdr.isGuestCode) ∧
      ∀ s ∈ pre ++ [shdr], s.isGuestCode = true → s.isInserted = true ∨ s.size = 0 := by
  obtain ⟨hinserted, haddr⟩ := guestAddr_of_matchesGuest h hafter hin hsize
  have hcode := Elf64_Shdr.isGuestCode_of_inImage hin
  rw [guestAddr_numberOf core hafter, length_front,
    sum_inserted_before (before_empty_of_matchesGuest h)] at haddr
  have hle := sum_filter_le Elf64_Shdr.size Elf64_Shdr.isGuestCode_of_isInserted pre
  have hroom := add_sum_le_placeEnd Elf64_Shdr.size Elf64_Shdr.align (m.textEnd core)
    (pre.filter Elf64_Shdr.isGuestCode)
  have hstart := le_alignUp shdr.align (placeEnd Elf64_Shdr.size Elf64_Shdr.align
    (m.textEnd core) (pre.filter Elf64_Shdr.isGuestCode))
  have htextEnd : m.textEnd core = m.elf.guestAddr core m.before.length + m.text.size := rfl
  constructor
  · rw [← placeEnd_eq_iff, List.filter_append, List.filter_cons_of_pos hcode, List.filter_nil,
      placeEnd_append, List.map_append, List.sum_append]
    simp only [placeEnd, List.map_cons, List.map_nil, List.sum_cons, List.sum_nil]
    omega
  · have hsum : ((pre.filter Elf64_Shdr.isGuestCode).map Elf64_Shdr.size).sum =
        ((pre.filter Elf64_Shdr.isInserted).map Elf64_Shdr.size).sum := by omega
    intro s hs hg
    rcases List.mem_append.mp hs with hs | hs
    · exact (sum_filter_eq_iff Elf64_Shdr.isGuestCode_of_isInserted).mp hsum s hs hg
    · rw [List.mem_singleton.mp hs]
      exact .inl hinserted

theorem gapless_of_matchesGuest {core : Nat} (h : m.MatchesGuest core) : m.Gapless core where
  before := before_empty_of_matchesGuest h
  seamless := fun _ _ _ hafter hin hsize => (seamless_of_matchesGuest h hafter hin hsize).1
  inserted := fun _ _ _ hafter hin hsize => (seamless_of_matchesGuest h hafter hin hsize).2

/-- **The image has the layout of the guest if no room is left between the sections**, and only
then. -/
theorem matchesGuest_iff (m : ModuleFile) (core : Nat) : m.MatchesGuest core ↔ m.Gapless core :=
  ⟨gapless_of_matchesGuest, matchesGuest_of_gapless⟩

end ModuleFile

def codeHeader (sh_name : String) (sh_offset sh_size : U64) : Elf64_Shdr where
  sh_name := sh_name
  sh_type := 1
  sh_flags := SHF_ALLOC ||| SHF_EXECINSTR
  sh_addr := 0
  sh_offset := sh_offset
  sh_size := sh_size
  sh_link := 0
  sh_info := 0
  sh_addralign := 16

/-- A module whose section `.text` is 5 bytes long, and whose next section is to start at a
multiple of 16. -/
def unlikelyModule : ModuleFile where
  elf :=
    { e_type := ET_REL
      e_entry := 0
      fileContent := 0
      elf64Shdr := [default, codeHeader ".text" 0x40 5, codeHeader ".text.unlikely" 0x50 3]
      shnum_lt := by decide
      rela := fun _ => []
      sym := fun _ _ => default
      symbolName := fun _ _ => "" }
  before := [default]
  text := codeHeader ".text" 0x40 5
  after := [codeHeader ".text.unlikely" 0x50 3]
  shdr_eq := rfl
  name_of_before := by decide
  text_name := rfl
  text_code := by decide

/-- The guest leaves 11 bytes free that the image does not have. -/
theorem module_text_alignment_lost :
    unlikelyModule.elf.guestAddr 0xffffffffa0000000 1 = 0xffffffffa0000000 ∧
      unlikelyModule.elf.guestAddr 0xffffffffa0000000 2 = 0xffffffffa0000010 ∧
      ¬ unlikelyModule.MatchesGuest 0xffffffffa0000000 := by
  refine ⟨by decide, by decide, fun h => ?_⟩
  have hin : (codeHeader ".text.unlikely" 0x50 3).InImage := ⟨rfl, by decide⟩
  have hseamless := (ModuleFile.gapless_of_matchesGuest h).seamless [] _ [] rfl hin (by decide)
  have haligned := hseamless.1
  exact absurd haligned (by decide)

end KernInt
