import KernInt.Kernel.JumpEntries
import KernInt.Kernel.PatchFrame
import KernInt.Kernel.SmpLocks
import KernInt.Lib.Vector

set_option autoImplicit false

/-! # The code of the kernel

`ElfKernelLoader::initText` patches the file in memory (alternatives, calls of the hypervisor,
lock prefixes), copies `.text`, `.notes` and `__ex_table` from there, with zeros between them so
that they keep their distances, and patches the copy (calls of mcount, jump labels). Zeros fill
up the last large page.

Each byte of the result is one of a jump label, or a NOP for a call of mcount, or the byte of the
patched file that is as far from `.text`, or zero (`initText_exact`).
-/

namespace KernInt

open Lib

/-- What ends `initText`. -/
inductive InitError where
  | patch (e : PatchError)
  | vector (e : VectorError)
  deriving DecidableEq

def orPatch {α : Type} (x : Except PatchError α) : Except InitError α := x.mapError .patch

def orElf {α : Type} (x : Except ElfError α) : Except InitError α := x.mapError (.patch ∘ .elf)

theorem orPatch_ok {α : Type} {x : Except PatchError α} {a : α} (h : x = .ok a) :
    orPatch x = .ok a := by
  rw [h]
  rfl

theorem orElf_ok {α : Type} {x : Except ElfError α} {a : α} (h : x = .ok a) :
    orElf x = .ok a := by
  rw [h]
  rfl

/-- What `initText` works on: the file and the host's memory with it, the two arrays `insnbuf`,
which are not initialized, what the guest says, and the address that `textSegmentContent` gets. -/
structure KernelFile where
  elffile : ElfFile
  mem : Memory
  altinstrInsnbuf : Insnbuf
  parainstrInsnbuf : Insnbuf
  x86_capability : CpuCaps
  pvpatcher : ParavirtState
  native : NativeInsns
  systemMap : String → U64
  guest : GuestJumps
  data : U64

theorem JumpLabels.none_together : (∅ : JumpMap) = ∅ → (∅ : Finset U64) = ∅ := fun _ => rfl

/-- Before the first jump label is recorded. -/
def JumpLabels.empty : JumpLabels := ⟨∅, ∅, JumpLabels.none_together⟩

/-- The members that `initText` has set, and the file as it has been patched. -/
structure KernelText where
  textSegment : SectionInfo
  mem : Memory
  smpOffsets : Finset U64
  textSegmentContent : TextContent textSegment
  jumpTable : JumpTable
  labels : JumpLabels

namespace TextContent

variable {text : SectionInfo}

theorem size_le_append (content : TextContent text) (bs : List Byte) :
    text.size.toNat ≤ (content.bytes ++ bs).length := by
  rw [List.length_append]
  exact Nat.le_add_right_of_le content.size_le

theorem size_le_window (mem : Memory) {data : U64} {n : Nat} (h : text.size.toNat ≤ n) :
    text.size.toNat ≤ (window mem data n).length := by
  rw [length_window]
  exact h

/-- Insertion at the end. -/
def append (content : TextContent text) (bs : List Byte) : Except InitError (TextContent text) :=
  if maxSize - content.bytes.length < bs.length then .error (.vector .lengthError)
  else .ok ⟨content.bytes ++ bs, content.size_le_append bs⟩

/-- The bytes of `.text`, put into the empty vector. -/
def ofSection (mem : Memory) (text : SectionInfo) : Except InitError (TextContent text) :=
  if maxSize < text.size.toNat then .error (.vector .lengthError)
  else .ok ⟨window mem text.index text.size.toNat, size_le_window mem (Nat.le_refl _)⟩

/-- The content as the host's memory has it at `data`. -/
def reload (content : TextContent text) (mem : Memory) (data : U64) : TextContent text where
  bytes := window mem data content.bytes.length
  size_le := size_le_window mem content.size_le

end TextContent

/-- The distance of a section from `.text` on the host. -/
def SectionInfo.distance (info text : SectionInfo) : U64 := info.index - text.index

namespace KernelFile

variable (file : KernelFile)

/-- A section is put at its distance from `.text`, behind zeros. -/
def insertSection (mem : Memory) {text : SectionInfo} (sectionName : String)
    (content : TextContent text) : Except InitError (TextContent text) := do
  let info ← orElf (file.elffile.findSectionWithName sectionName)
  let offset := info.distance text
  let content ← content.append
    (List.replicate (offset - BitVec.ofNat 64 content.bytes.length).toNat 0)
  content.append (window mem info.index info.size.toNat)

/-- The image before the copy is patched. -/
def assemble (mem : Memory) (text : SectionInfo) : Except InitError (TextContent text) := do
  let content ← TextContent.ofSection mem text
  let content ← file.insertSection mem ".notes" content
  file.insertSection mem "__ex_table" content

/-- The table between two symbols, at the place of a section of the file. -/
def tableAt (info : SectionInfo) (start stop : U64) : SectionInfo :=
  let tableOffset := -info.memindex + info.index
  { info with
    index := start + tableOffset
    size := stop + tableOffset - (start + tableOffset) }

/-- The table of the calls of mcount. -/
def mcountTable (initText : SectionInfo) : SectionInfo :=
  tableAt initText (file.systemMap "__start_mcount_loc") (file.systemMap "__stop_mcount_loc")

def jumpInfo (data : SectionInfo) : SectionInfo :=
  tableAt data (file.systemMap "__start___jump_table") (file.systemMap "__stop___jump_table")

/-- The loop over `jumpTable` reads behind its end if it has a part of an element. -/
def wholeTable (bytes : List Byte) : Except InitError JumpTable :=
  if h : bytes.length % 24 = 0 then .ok ⟨bytes, h⟩ else .error (.patch .bufferOverflow)

def readJumpTable (mem : Memory) (info : SectionInfo) : Except InitError JumpTable :=
  if info.index = 0 then wholeTable []
  else if maxSize < info.size.toNat then .error (.vector .lengthError)
  else wholeTable (window mem info.index info.size.toNat)

def numberOfEntries : U32 :=
  ((file.systemMap "__stop___jump_table" - file.systemMap "__start___jump_table") / 24).setWidth 32

/-- The calls of mcount in the content, which is at `data`. -/
def mcountMemory (mem : Memory) {text : SectionInfo} (info : SectionInfo)
    (content : TextContent text) : Memory :=
  applyMcount file.pvpatcher text file.data info ((Copy.mk file.data content.bytes).apply mem)

/-- The loader, as soon as it has found `.text`. -/
def loader (text : SectionInfo) : ElfKernelspaceLoader := ⟨⟨file.elffile, text⟩, none⟩

/-- The patches of the file, in its memory. -/
def patchFile (text : SectionInfo) : Except InitError SmpState := do
  let target := file.loader text
  let s ← orPatch (target.applyAltinstr file.pvpatcher file.x86_capability
    ⟨file.mem, file.altinstrInsnbuf⟩)
  let s ← orPatch (target.applyParainstr file.pvpatcher file.native ⟨s.mem, file.parainstrInsnbuf⟩)
  orElf (target.applySmpLocks file.x86_capability ⟨s.mem, ∅⟩)

/-- The patches of the copy. -/
def patchContent (mem : Memory) {text : SectionInfo} (content : TextContent text) :
    Except InitError (JumpTable × JumpState text) := do
  let initText ← orElf (file.elffile.findSectionWithName ".init.text")
  let mem := file.mcountMemory mem (file.mcountTable initText) content
  let content := content.reload mem file.data
  let info ← orElf (file.elffile.findSectionWithName ".data")
  let jumpTable ← readJumpTable mem (file.jumpInfo info)
  let jumps ← orPatch ((file.loader text).applyJumpEntries file.pvpatcher.ideal_nops jumpTable
    file.guest (file.systemMap "__start___jump_table") file.numberOfEntries
    ⟨content, JumpLabels.empty⟩)
  return (jumpTable, jumps)

def initText : Except InitError KernelText := do
  let textSegment ← orElf (file.elffile.findSectionWithName ".text")
  if file.systemMap "copy_user_generic_unrolled" = 0 then throw (.patch .assertion)
  let patched ← file.patchFile textSegment
  let content ← file.assemble patched.mem textSegment
  let (jumpTable, jumps) ← file.patchContent patched.mem content
  let fill := 0x200000 - jumps.textSegmentContent.bytes.length % 0x200000
  let textSegmentContent ← jumps.textSegmentContent.append (List.replicate fill 0)
  return ⟨textSegment, patched.mem, patched.smpOffsets, textSegmentContent, jumpTable, jumps.labels⟩

end KernelFile

/-! ## The image before it is patched -/

/-- The sections that the image is made of. -/
structure ImageSections where
  text : SectionInfo
  notes : SectionInfo
  exTable : SectionInfo

namespace ImageSections

variable (sections : ImageSections)

/-- The distances of the sections from `.text`, and the end of the last one. -/
def notesStart : Nat := (sections.notes.distance sections.text).toNat

def exTableStart : Nat := (sections.exTable.distance sections.text).toNat

def stop : Nat := sections.exTableStart + sections.exTable.size.toNat

/-- The distance is one of a byte of a section. -/
def InSection (j : Nat) : Prop :=
  j < sections.text.size.toNat ∨
    (sections.notesStart ≤ j ∧ j < sections.notesStart + sections.notes.size.toNat) ∨
    (sections.exTableStart ≤ j ∧ j < sections.stop)

instance (j : Nat) : Decidable (sections.InSection j) := inferInstanceAs (Decidable (_ ∨ _))

/-- The byte of the file that is as far from `.text`, or zero. -/
def byteAt (mem : Memory) (j : Nat) : Byte :=
  if sections.InSection j then mem (sections.text.index + BitVec.ofNat 64 j) else 0

/-- The sections come one after the other, and a vector can hold them and a large page. -/
structure InOrder : Prop where
  notes : sections.text.size.toNat ≤ sections.notesStart
  exTable : sections.notesStart + sections.notes.size.toNat ≤ sections.exTableStart
  stop : sections.stop + 0x200000 ≤ maxSize

end ImageSections

theorem map_range_add {α : Type} (f : Nat → α) (a b : Nat) :
    (List.range (a + b)).map f = (List.range a).map f ++ (List.range b).map fun k => f (a + k) := by
  rw [List.range_add, List.map_append, List.map_map]
  rfl

theorem map_range_of_zero {f : Nat → Byte} {n : Nat} (h : ∀ k < n, f k = 0) :
    (List.range n).map f = List.replicate n 0 := by
  rw [List.eq_replicate_iff, List.length_map, List.length_range]
  refine ⟨rfl, fun b hb => ?_⟩
  obtain ⟨k, hk, rfl⟩ := List.mem_map.mp hb
  exact h k (List.mem_range.mp hk)

/-- Such an image in its parts. -/
theorem ImageSections.map_byteAt {sections : ImageSections} (mem : Memory)
    (horder : sections.InOrder) :
    (List.range sections.stop).map (sections.byteAt mem) =
      window mem sections.text.index sections.text.size.toNat ++
        List.replicate (sections.notesStart - sections.text.size.toNat) 0 ++
        ((List.range sections.notes.size.toNat).map fun k =>
          mem (sections.text.index + BitVec.ofNat 64 (sections.notesStart + k))) ++
        List.replicate
          (sections.exTableStart - (sections.notesStart + sections.notes.size.toNat)) 0 ++
        ((List.range sections.exTable.size.toNat).map fun k =>
          mem (sections.text.index + BitVec.ofNat 64 (sections.exTableStart + k))) := by
  obtain ⟨hn, hx, -⟩ := horder
  have hstop : sections.stop = sections.text.size.toNat +
      (sections.notesStart - sections.text.size.toNat) + sections.notes.size.toNat +
      (sections.exTableStart - (sections.notesStart + sections.notes.size.toNat)) +
      sections.exTable.size.toNat := by
    unfold stop
    omega
  have hin : ∀ j, sections.InSection j →
      sections.byteAt mem j = mem (sections.text.index + BitVec.ofNat 64 j) := fun j hj => if_pos hj
  have hout : ∀ j, ¬ sections.InSection j → sections.byteAt mem j = 0 := fun j hj => if_neg hj
  have hend : sections.stop = sections.exTableStart + sections.exTable.size.toNat := rfl
  rw [hstop, map_range_add, map_range_add, map_range_add, map_range_add]
  congr 1
  · congr 1
    · congr 1
      · congr 1
        · exact List.map_congr_left fun k hk => hin k (.inl (List.mem_range.mp hk))
        · refine map_range_of_zero fun k hk => hout _ ?_
          unfold InSection
          omega
      · refine List.map_congr_left fun k hk => ?_
        have hlt := List.mem_range.mp hk
        have hplace : sections.text.size.toNat +
            (sections.notesStart - sections.text.size.toNat) + k = sections.notesStart + k := by
          omega
        rw [hplace]
        exact hin _ (.inr (.inl ⟨Nat.le_add_right _ _, by omega⟩))
    · refine map_range_of_zero fun k hk => hout _ ?_
      unfold InSection
      omega
  · refine List.map_congr_left fun k hk => ?_
    have hlt := List.mem_range.mp hk
    have hplace : sections.text.size.toNat +
        (sections.notesStart - sections.text.size.toNat) + sections.notes.size.toNat +
          (sections.exTableStart - (sections.notesStart + sections.notes.size.toNat)) + k =
        sections.exTableStart + k := by
      omega
    rw [hplace]
    exact hin _ (.inr (.inr ⟨Nat.le_add_right _ _, by omega⟩))

theorem TextContent.append_eq {text : SectionInfo} (content : TextContent text) {bs : List Byte}
    (h : content.bytes.length + bs.length ≤ maxSize) :
    content.append bs = .ok ⟨content.bytes ++ bs, content.size_le_append bs⟩ :=
  if_neg (by omega)

theorem window_of_distance (mem : Memory) (info text : SectionInfo) (n : Nat) :
    window mem info.index n = (List.range n).map fun k =>
      mem (text.index + BitVec.ofNat 64 ((info.distance text).toNat + k)) := by
  apply List.map_congr_left
  intro k _
  have hsum : BitVec.ofNat 64 ((info.distance text).toNat + k) =
      info.distance text + BitVec.ofNat 64 k := by
    rw [BitVec.ofNat_add, BitVec.ofNat_toNat, BitVec.setWidth_eq]
  rw [hsum, SectionInfo.distance]
  congr 1
  rw [← BitVec.add_assoc, BitVec.add_comm text.index, BitVec.sub_add_cancel]

namespace KernelFile

variable {file : KernelFile} (mem : Memory)

/-- A section in front of which there is room is put where it belongs. -/
theorem insertSection_eq {text info : SectionInfo} {sectionName : String}
    (content : TextContent text) (hfind : file.elffile.findSectionWithName sectionName = .ok info)
    (hle : content.bytes.length ≤ (info.distance text).toNat)
    (hmax : (info.distance text).toNat + info.size.toNat ≤ maxSize) :
    ∃ content', file.insertSection mem sectionName content = .ok content' ∧
      content'.bytes = content.bytes ++
        List.replicate ((info.distance text).toNat - content.bytes.length) 0 ++
        window mem info.index info.size.toNat := by
  have hlt := (info.distance text).isLt
  have hfill : (info.distance text - BitVec.ofNat 64 content.bytes.length).toNat =
      (info.distance text).toNat - content.bytes.length := by
    rw [BitVec.toNat_sub_of_le]
    · rw [BitVec.toNat_ofNat, Nat.mod_eq_of_lt (by omega)]
    · rw [BitVec.le_def, BitVec.toNat_ofNat, Nat.mod_eq_of_lt (by omega)]
      exact hle
  have hzeros : content.bytes.length +
      (List.replicate ((info.distance text).toNat - content.bytes.length) (0 : Byte)).length ≤
        maxSize := by
    rw [List.length_replicate]
    omega
  have hbytes : (content.bytes ++ List.replicate
      ((info.distance text).toNat - content.bytes.length) (0 : Byte)).length +
        (window mem info.index info.size.toNat).length ≤ maxSize := by
    rw [List.length_append, List.length_replicate, length_window]
    omega
  refine ⟨⟨content.bytes ++ List.replicate
    ((info.distance text).toNat - content.bytes.length) 0 ++
      window mem info.index info.size.toNat, TextContent.size_le_append
        ⟨content.bytes ++ List.replicate ((info.distance text).toNat - content.bytes.length) 0,
          content.size_le_append _⟩ _⟩, ?_, rfl⟩
  rw [insertSection, bind_of_ok (orElf_ok hfind)]
  simp only [hfill]
  rw [bind_of_ok (content.append_eq hzeros)]
  exact TextContent.append_eq _ hbytes

/-- The image that is put together has each section at its distance, and zeros between them. -/
theorem assemble_eq {sections : ImageSections}
    (hnotes : file.elffile.findSectionWithName ".notes" = .ok sections.notes)
    (hexTable : file.elffile.findSectionWithName "__ex_table" = .ok sections.exTable)
    (horder : sections.InOrder) :
    ∃ content, file.assemble mem sections.text = .ok content ∧
      content.bytes = (List.range sections.stop).map (sections.byteAt mem) := by
  obtain ⟨hn, hx, hstop⟩ := horder
  have hmax : sections.exTableStart + sections.exTable.size.toNat ≤ maxSize := by
    have hdef : sections.stop = sections.exTableStart + sections.exTable.size.toNat := rfl
    omega
  have htext : TextContent.ofSection mem sections.text =
      .ok ⟨window mem sections.text.index sections.text.size.toNat,
        TextContent.size_le_window mem (Nat.le_refl _)⟩ := if_neg (by omega)
  obtain ⟨content₁, h₁, hbytes₁⟩ := insertSection_eq mem
    ⟨window mem sections.text.index sections.text.size.toNat,
      TextContent.size_le_window mem (Nat.le_refl _)⟩ hnotes
    (by rw [length_window]; exact hn) (Nat.le_trans hx (Nat.le_trans (Nat.le_add_right _ _) hmax))
  have hlen₁ : content₁.bytes.length = sections.notesStart + sections.notes.size.toNat := by
    rw [hbytes₁]
    simp only [List.length_append, length_window, List.length_replicate]
    show _ + (sections.notesStart - _) + _ = _
    omega
  obtain ⟨content₂, h₂, hbytes₂⟩ := insertSection_eq mem content₁ hexTable
    (by rw [hlen₁]; exact hx) hmax
  refine ⟨content₂, ?_, ?_⟩
  · rw [assemble, bind_of_ok htext, bind_of_ok h₁]
    exact h₂
  · rw [hbytes₂, hlen₁, hbytes₁, length_window, ImageSections.map_byteAt mem ⟨hn, hx, hstop⟩,
      window_of_distance mem sections.notes sections.text,
      window_of_distance mem sections.exTable sections.text]
    rfl

end KernelFile

/-! ## The calls of mcount -/

/-- The place in the content of the call that the element at `p` tells. -/
def callOffset (text : SectionInfo) (mem : Memory) (p : U64) : Nat :=
  (loadAddress mem p - text.memindex).toNat

/-- The table is not in the content, which has `n` bytes; all calls are there, and none reaches
into another one. -/
structure McountInPlace (text : SectionInfo) (data : U64) (info : SectionInfo) (mem : Memory)
    (n : Nat) : Prop where
  table : ∀ p ∈ tableEntries info 8, ∀ k < 8, n ≤ (p + BitVec.ofNat 64 k - data).toNat
  inside : ∀ p ∈ tableEntries info 8, callOffset text mem p + 5 ≤ n
  apart : (tableEntries info 8).Pairwise fun p q =>
    callOffset text mem p + 5 ≤ callOffset text mem q ∨
      callOffset text mem q + 5 ≤ callOffset text mem p

theorem addNops_five (t : NopTable) : addNops t 5 = t.ideal_nops 5 := by
  rw [addNops, if_neg (by decide)]
  show (t.ideal_nops 5).take 5 ++ addNops t 0 = t.ideal_nops 5
  rw [addNops, if_pos rfl, List.append_nil, List.take_of_length_le (Nat.le_of_eq t.length_five)]

section

variable {pv : ParavirtState} {text info : SectionInfo} {data : U64} {mem : Memory}
  {bytes : List Byte}

theorem loadAddress_of_content (h : McountInPlace text data info mem bytes.length) {p : U64}
    (hp : p ∈ tableEntries info 8) :
    loadAddress ((Copy.mk data bytes).apply mem) p = loadAddress mem p := by
  refine loadAddress_congr fun k hk => Copy.apply_of_not_covers ?_ _
  show ¬ (p + BitVec.ofNat 64 k - data).toNat < bytes.length
  have hle := h.table p hp k hk
  omega

/-- The five bytes that are written for an element. -/
theorem mcountCopy_covers_iff {base : Memory} {p a : U64} {n : Nat}
    (hinside : callOffset text base p + 5 ≤ n) (hn : n ≤ 2 ^ 64) :
    (mcountCopy pv text data p base).Covers a ↔
      callOffset text base p ≤ (a - data).toNat ∧
        (a - data).toNat < callOffset text base p + 5 := by
  have hlen := length_mcountCopy pv text data p base
  unfold callOffset at *
  unfold Copy.Covers
  rw [hlen]
  show (a - (data + (loadAddress base p - text.memindex))).toNat < 5 ↔ _
  generalize loadAddress base p - text.memindex = off at *
  have hsub : a - (data + off) = a - data - off := by grind
  rw [hsub]
  generalize a - data = x
  rw [BitVec.toNat_sub]
  have hx := x.isLt
  omega

theorem mcountCopy_of_agrees {base : Memory} {p : U64} (h : loadAddress base p = loadAddress mem p) :
    mcountCopy pv text data p base = mcountCopy pv text data p mem := by
  rw [mcountCopy, mcountCopy, h]

/-- No call writes into the table, so all of them can be taken from the memory at the
beginning. -/
theorem applyMcount_eq (h : McountInPlace text data info mem bytes.length)
    (hn : bytes.length ≤ 2 ^ 64) :
    applyMcount pv text data info ((Copy.mk data bytes).apply mem) =
      runCopies (fun p _ => mcountCopy pv text data p mem) (tableEntries info 8)
        ((Copy.mk data bytes).apply mem) := by
  have hbase : ∀ p ∈ tableEntries info 8,
      mcountCopy pv text data p ((Copy.mk data bytes).apply mem) =
        mcountCopy pv text data p mem := fun p hp =>
    mcountCopy_of_agrees (loadAddress_of_content h hp)
  have hreads : ∀ p ∈ tableEntries info 8, ∀ mem',
      (∀ a, (∃ k < 8, a = p + BitVec.ofNat 64 k) →
        mem' a = (Copy.mk data bytes).apply mem a) →
      mcountCopy pv text data p mem' =
        mcountCopy pv text data p ((Copy.mk data bytes).apply mem) := fun p _ mem' hagree =>
    mcountCopy_of_agrees (loadAddress_congr fun k hk => hagree _ ⟨k, hk, rfl⟩)
  have hpair : (tableEntries info 8).Pairwise fun p q => ∀ a,
      (mcountCopy pv text data p ((Copy.mk data bytes).apply mem)).Covers a →
        ¬ ∃ k < 8, a = q + BitVec.ofNat 64 k := by
    refine List.pairwise_of_forall_mem_list fun p hp q hq a hcovers => ?_
    rintro ⟨k, hk, rfl⟩
    rw [hbase p hp, mcountCopy_covers_iff (h.inside p hp) hn] at hcovers
    have htable := h.table q hq k hk
    have hinside := h.inside p hp
    omega
  rw [applyMcount, runCopies_of_independent hreads hpair]
  exact List.foldl_ext _ _ _ fun m p hp => congrArg (fun c : Copy => c.apply m) (hbase p hp)

/-- Outside of the content nothing changes. -/
theorem applyMcount_outside (h : McountInPlace text data info mem bytes.length)
    (hn : bytes.length ≤ 2 ^ 64) {a : U64} (ha : bytes.length ≤ (a - data).toNat) :
    applyMcount pv text data info ((Copy.mk data bytes).apply mem) a = mem a := by
  rw [applyMcount_eq h hn, runCopies_of_untouched]
  · refine Copy.apply_of_not_covers ?_ _
    show ¬ (a - data).toNat < bytes.length
    omega
  · intro p hp hcovers
    rw [mcountCopy_covers_iff (h.inside p hp) hn] at hcovers
    have hinside := h.inside p hp
    omega

/-- A byte of the content at which no call is stays. -/
theorem applyMcount_kept (h : McountInPlace text data info mem bytes.length)
    (hn : bytes.length ≤ 2 ^ 64) {j : Nat} (hj : j < bytes.length)
    (hout : ∀ p ∈ tableEntries info 8,
      j < callOffset text mem p ∨ callOffset text mem p + 5 ≤ j) :
    some (applyMcount pv text data info ((Copy.mk data bytes).apply mem)
      (data + BitVec.ofNat 64 j)) = bytes[j]? := by
  have hdist : (data + BitVec.ofNat 64 j - data).toNat = j := toNat_add_sub data (by omega)
  rw [applyMcount_eq h hn, runCopies_of_untouched]
  · have hcovers : (Copy.mk data bytes).Covers (data + BitVec.ofNat 64 j) := by
      show (data + BitVec.ofNat 64 j - data).toNat < bytes.length
      rw [hdist]
      exact hj
    rw [Copy.apply_of_covers hcovers, hdist]
  · intro p hp hcovers
    rw [mcountCopy_covers_iff (h.inside p hp) hn, hdist] at hcovers
    have hsite := hout p hp
    omega

/-- At each call there is a NOP. -/
theorem applyMcount_site (h : McountInPlace text data info mem bytes.length)
    (hn : bytes.length ≤ 2 ^ 64) {p : U64} (hp : p ∈ tableEntries info 8) {k : Nat} (hk : k < 5) :
    some (applyMcount pv text data info ((Copy.mk data bytes).apply mem)
      (data + BitVec.ofNat 64 (callOffset text mem p + k))) = (pv.ideal_nops.ideal_nops 5)[k]? := by
  have hinside := h.inside p hp
  have hdist : (data + BitVec.ofNat 64 (callOffset text mem p + k) - data).toNat =
      callOffset text mem p + k := toNat_add_sub data (by omega)
  have hcovers : (mcountCopy pv text data p mem).Covers
      (data + BitVec.ofNat 64 (callOffset text mem p + k)) := by
    rw [mcountCopy_covers_iff hinside hn, hdist]
    omega
  have hpair : (tableEntries info 8).Pairwise fun p q => ∀ a,
      (mcountCopy pv text data p mem).Covers a → ¬ (mcountCopy pv text data q mem).Covers a := by
    refine h.apart.imp_of_mem fun {p q} hp hq hapart a hpa hqa => ?_
    rw [mcountCopy_covers_iff (h.inside p hp) hn] at hpa
    rw [mcountCopy_covers_iff (h.inside q hq) hn] at hqa
    omega
  rw [applyMcount_eq h hn, runCopies_of_mem hp hpair hcovers]
  have hplace : (data + BitVec.ofNat 64 (callOffset text mem p + k) -
      (mcountCopy pv text data p mem).addr).toNat = k := by
    show (data + BitVec.ofNat 64 (callOffset text mem p + k) -
      (data + (loadAddress mem p - text.memindex))).toNat = k
    rw [callOffset, BitVec.ofNat_add, BitVec.ofNat_toNat, BitVec.setWidth_eq, ← BitVec.add_assoc]
    exact toNat_add_sub _ (by omega)
  rw [hplace, ← addNops_five]
  rfl

end

/-! ## The whole image -/

/-- What the file of a kernel is made of, as far as `initText` reads it. -/
structure KernelParts where
  sections : ImageSections
  initText : SectionInfo
  data : SectionInfo
  patched : SmpState
  jumpTable : JumpTable

/-- The sections are there and in order, the file can be patched, and the two tables are in
place: they are not in the content, and the guest has the jump labels of the file. -/
structure KernelFile.Sound (file : KernelFile) (parts : KernelParts) : Prop where
  find_text : file.elffile.findSectionWithName ".text" = .ok parts.sections.text
  find_notes : file.elffile.findSectionWithName ".notes" = .ok parts.sections.notes
  find_exTable : file.elffile.findSectionWithName "__ex_table" = .ok parts.sections.exTable
  find_initText : file.elffile.findSectionWithName ".init.text" = .ok parts.initText
  find_data : file.elffile.findSectionWithName ".data" = .ok parts.data
  unrolled : file.systemMap "copy_user_generic_unrolled" ≠ 0
  patched : file.patchFile parts.sections.text = .ok parts.patched
  inOrder : parts.sections.InOrder
  mcount : McountInPlace parts.sections.text file.data (file.mcountTable parts.initText)
    parts.patched.mem parts.sections.stop
  jumpTable : KernelFile.readJumpTable parts.patched.mem (file.jumpInfo parts.data) =
    .ok parts.jumpTable
  jumpTable_apart : ∀ k < (file.jumpInfo parts.data).size.toNat, parts.sections.stop ≤
    ((file.jumpInfo parts.data).index + BitVec.ofNat 64 k - file.data).toNat
  guest : ∃ table : List JumpEntry, table.Perm parts.jumpTable.entries ∧
    file.guest.Holds (file.systemMap "__start___jump_table") file.numberOfEntries table
  jumps : (file.loader parts.sections.text).JumpsApart parts.jumpTable

/-- What the image is to be: the jump labels as their keys are, NOPs for the calls of mcount, and
else the bytes of the patched file at their distances from `.text`, up to the end of a large
page. -/
structure KernelFile.ImageOf (file : KernelFile) (parts : KernelParts) (bytes : List Byte) :
    Prop where
  length : bytes.length = parts.sections.stop + (0x200000 - parts.sections.stop % 0x200000)
  jump : ∀ e ∈ parts.jumpTable.entries, parts.sections.text.HasSite e →
    (bytes.drop ((file.loader parts.sections.text).patchOffset e).toNat).take 5 =
      if file.guest.enabled e.key ≠ 0 then 0xe9 :: bytes32 e.destination
      else file.pvpatcher.ideal_nops.ideal_nops 5
  mcount : ∀ p ∈ tableEntries (file.mcountTable parts.initText) 8, ∀ k < 5,
    (∀ e ∈ parts.jumpTable.entries, parts.sections.text.HasSite e →
      callOffset parts.sections.text parts.patched.mem p + k <
          ((file.loader parts.sections.text).patchOffset e).toNat ∨
        ((file.loader parts.sections.text).patchOffset e).toNat + 5 ≤
          callOffset parts.sections.text parts.patched.mem p + k) →
    bytes[callOffset parts.sections.text parts.patched.mem p + k]? =
      (file.pvpatcher.ideal_nops.ideal_nops 5)[k]?
  file : ∀ j < parts.sections.stop,
    (∀ e ∈ parts.jumpTable.entries, parts.sections.text.HasSite e →
      j < ((file.loader parts.sections.text).patchOffset e).toNat ∨
        ((file.loader parts.sections.text).patchOffset e).toNat + 5 ≤ j) →
    (∀ p ∈ tableEntries (file.mcountTable parts.initText) 8,
      j < callOffset parts.sections.text parts.patched.mem p ∨
        callOffset parts.sections.text parts.patched.mem p + 5 ≤ j) →
    bytes[j]? = some (parts.sections.byteAt parts.patched.mem j)
  fill : ∀ j, parts.sections.stop ≤ j → j < bytes.length → bytes[j]? = some 0

section

variable {file : KernelFile} {parts : KernelParts}

/-- The jump table is read as it is in the patched file. -/
theorem KernelFile.Sound.readJumpTable_eq (h : file.Sound parts)
    {content : TextContent parts.sections.text}
    (hbytes : content.bytes.length = parts.sections.stop) :
    KernelFile.readJumpTable
        (file.mcountMemory parts.patched.mem (file.mcountTable parts.initText) content)
        (file.jumpInfo parts.data) = .ok parts.jumpTable := by
  have hmax : maxSize ≤ 2 ^ 64 := by decide
  have hstop := h.inOrder.stop
  have hmcount : McountInPlace parts.sections.text file.data (file.mcountTable parts.initText)
      parts.patched.mem content.bytes.length := by
    rw [hbytes]
    exact h.mcount
  have hwindow : window
      (file.mcountMemory parts.patched.mem (file.mcountTable parts.initText) content)
        (file.jumpInfo parts.data).index (file.jumpInfo parts.data).size.toNat =
      window parts.patched.mem (file.jumpInfo parts.data).index
        (file.jumpInfo parts.data).size.toNat := by
    apply List.map_congr_left
    intro k hk
    refine applyMcount_outside hmcount (by omega) ?_
    rw [hbytes]
    exact h.jumpTable_apart k (List.mem_range.mp hk)
  rw [← h.jumpTable, KernelFile.readJumpTable, KernelFile.readJumpTable, hwindow]

/-- The content when the jump labels are applied. -/
def KernelFile.beforeJumps (file : KernelFile) (parts : KernelParts)
    (content : TextContent parts.sections.text) :
    JumpState (file.loader parts.sections.text).textSegment :=
  ⟨content.reload
    (file.mcountMemory parts.patched.mem (file.mcountTable parts.initText) content) file.data,
    JumpLabels.empty⟩

/-- The copy is patched as it is to be. -/
theorem KernelFile.Sound.patchContent_eq (h : file.Sound parts)
    {content : TextContent parts.sections.text}
    (hbytes : content.bytes.length = parts.sections.stop) :
    ∃ jumps, file.patchContent parts.patched.mem content = .ok (parts.jumpTable, jumps) ∧
      (file.loader parts.sections.text).JumpsApplied file.pvpatcher.ideal_nops parts.jumpTable
        file.guest.enabled (file.beforeJumps parts content) jumps := by
  obtain ⟨table, hperm, hguest⟩ := h.guest
  obtain ⟨jumps, hloop, happlied⟩ := jumpsApplied_of_perm (s := file.beforeJumps parts content)
    file.pvpatcher.ideal_nops file.guest.enabled rfl h.jumps hperm
  refine ⟨jumps, ?_, happlied⟩
  have happly := applyJumpEntries_eq (s := file.beforeJumps parts content)
    file.pvpatcher.ideal_nops file.guest rfl rfl h.jumps hperm hguest
  rw [KernelFile.patchContent, bind_of_ok (orElf_ok h.find_initText)]
  simp only []
  rw [bind_of_ok (orElf_ok h.find_data), bind_of_ok (h.readJumpTable_eq hbytes)]
  exact bind_of_ok (orPatch_ok (happly.trans hloop)) _

/-- A byte of the content when the jump labels are applied. -/
theorem KernelFile.getElem?_beforeJumps {content : TextContent parts.sections.text} {j : Nat}
    (hj : j < content.bytes.length) :
    (file.beforeJumps parts content).textSegmentContent.bytes[j]? =
      some (applyMcount file.pvpatcher parts.sections.text file.data
        (file.mcountTable parts.initText)
        ((Copy.mk file.data content.bytes).apply parts.patched.mem)
        (file.data + BitVec.ofNat 64 j)) := by
  show (window _ file.data content.bytes.length)[j]? = _
  rw [window, List.getElem?_map, List.getElem?_range hj]
  rfl

/-- What the patches of the copy make of it is the image without the zeros at the end. -/
theorem KernelFile.Sound.imageOf (h : file.Sound parts)
    {content : TextContent parts.sections.text}
    (hbytes : content.bytes =
      (List.range parts.sections.stop).map (parts.sections.byteAt parts.patched.mem))
    {jumps : JumpState (file.loader parts.sections.text).textSegment}
    (happlied : (file.loader parts.sections.text).JumpsApplied file.pvpatcher.ideal_nops
      parts.jumpTable file.guest.enabled (file.beforeJumps parts content) jumps) :
    jumps.textSegmentContent.bytes.length = parts.sections.stop ∧
      file.ImageOf parts (jumps.textSegmentContent.bytes ++
        List.replicate (0x200000 - parts.sections.stop % 0x200000) 0) := by
  have hlength : content.bytes.length = parts.sections.stop := by
    rw [hbytes, List.length_map, List.length_range]
  have hmcount : McountInPlace parts.sections.text file.data (file.mcountTable parts.initText)
      parts.patched.mem content.bytes.length := by
    rw [hlength]
    exact h.mcount
  have hfits : content.bytes.length ≤ 2 ^ 64 := by
    have hmax : maxSize ≤ 2 ^ 64 := by decide
    have hstop := h.inOrder.stop
    omega
  have hstop : jumps.textSegmentContent.bytes.length = parts.sections.stop := by
    rw [happlied.length, ← hlength]
    exact length_window _ _ _
  have hfront : ∀ j < parts.sections.stop, (jumps.textSegmentContent.bytes ++
      List.replicate (0x200000 - parts.sections.stop % 0x200000) 0)[j]? =
        jumps.textSegmentContent.bytes[j]? := fun j hj =>
    List.getElem?_append_left (by omega)
  refine ⟨hstop, ?_, ?_, ?_, ?_, ?_⟩
  · rw [List.length_append, List.length_replicate, hstop]
  · intro e he hsite
    have hplace : ((file.loader parts.sections.text).patchOffset e).toNat + 5 ≤
        jumps.textSegmentContent.bytes.length := patchOffset_fits (s := jumps) hsite
    rw [List.drop_append_of_le_length (by omega), List.take_append_of_le_length]
    · exact happlied.site e he hsite
    · rw [List.length_drop]
      omega
  · intro p hp k hk hout
    have hinside := h.mcount.inside p hp
    rw [hfront _ (by omega), happlied.kept _ hout, KernelFile.getElem?_beforeJumps (by omega)]
    exact applyMcount_site hmcount hfits hp hk
  · intro j hj hjumps hcalls
    rw [hfront j hj, happlied.kept j hjumps, KernelFile.getElem?_beforeJumps (by omega),
      applyMcount_kept hmcount hfits (by omega) hcalls, hbytes, List.getElem?_map,
      List.getElem?_range hj]
    rfl
  · intro j hj hlt
    rw [List.length_append, List.length_replicate] at hlt
    rw [List.getElem?_append_right (by omega), List.getElem?_replicate, if_pos (by omega)]

end

/-- **The code of the kernel.** If the sections stand one after the other and the tables are in
place, `initText` gives the image: a jump label has the jump or the NOP that its key asks for, a
call of mcount is a NOP, and every other byte is the one of the patched file that is as far from
`.text`, or zero between the sections and at the end. -/
theorem KernelFile.initText_exact (file : KernelFile) (parts : KernelParts)
    (h : file.Sound parts) :
    ∃ k, file.initText = .ok k ∧ k.textSegment = parts.sections.text ∧
      k.mem = parts.patched.mem ∧ k.smpOffsets = parts.patched.smpOffsets ∧
      file.ImageOf parts k.textSegmentContent.bytes := by
  obtain ⟨content, hassemble, hbytes⟩ :=
    KernelFile.assemble_eq parts.patched.mem h.find_notes h.find_exTable h.inOrder
  have hlength : content.bytes.length = parts.sections.stop := by
    rw [hbytes, List.length_map, List.length_range]
  obtain ⟨jumps, hpatch, happlied⟩ := h.patchContent_eq hlength
  obtain ⟨hstop, himage⟩ := h.imageOf hbytes happlied
  have hfill : jumps.textSegmentContent.bytes.length +
      (List.replicate (0x200000 - parts.sections.stop % 0x200000) (0 : Byte)).length ≤
        maxSize := by
    have hmax := h.inOrder.stop
    rw [List.length_replicate, hstop]
    omega
  refine ⟨⟨parts.sections.text, parts.patched.mem, parts.patched.smpOffsets,
    ⟨jumps.textSegmentContent.bytes ++
        List.replicate (0x200000 - parts.sections.stop % 0x200000) 0,
      jumps.textSegmentContent.size_le_append _⟩, parts.jumpTable, jumps.labels⟩,
    ?_, rfl, rfl, rfl, himage⟩
  rw [KernelFile.initText, bind_of_ok (orElf_ok h.find_text), if_neg h.unrolled]
  simp only []
  rw [bind_of_ok h.patched, bind_of_ok hassemble, bind_of_ok hpatch]
  simp only [hstop]
  rw [bind_of_ok (TextContent.append_eq _ hfill)]
  rfl

/-! ## A small kernel -/

/-- `.text` of 32 bytes, `.notes` of 4 and `__ex_table` of 8, with gaps between them; the other
tables of patches have no elements. -/
def smallHeaders : List Elf64_Shdr :=
  [sectionHeader ".text" 0xffffffff81000000 0x1000 0x20,
    sectionHeader ".notes" 0xffffffff81000024 0x1024 4,
    sectionHeader "__ex_table" 0xffffffff81000030 0x1030 8,
    sectionHeader ".init.text" 0xffffffff81002000 0x2000 0x40,
    sectionHeader ".data" 0xffffffff81003000 0x3000 0x40,
    sectionHeader ".altinstructions" 0xffffffff81004000 0x4000 0,
    sectionHeader ".altinstr_replacement" 0xffffffff81005000 0x5000 0,
    sectionHeader ".parainstructions" 0xffffffff81006000 0x6000 0,
    sectionHeader ".smp_locks" 0xffffffff81007000 0x7000 0]

theorem smallHeaders_length : smallHeaders.length < 2 ^ 16 := by
  show 9 < 2 ^ 16
  decide

def smallKernelElf : ElfFile where
  e_type := ET_EXEC
  e_entry := 0
  fileContent := 0x10000000
  elf64Shdr := smallHeaders
  shnum_lt := smallHeaders_length
  rela _ := []
  sym _ _ := default
  symbolName _ _ := ""

def smallJump : JumpEntry := ⟨0xffffffff81000010, 0xffffffff81000018, 0xffffffff81c00000⟩

/-- There is a call of mcount at offset 4 of `.text`, and a jump label at offset 16. -/
def smallKernelFile : KernelFile where
  elffile := smallKernelElf
  mem a := (bytes64 0xffffffff81000004).getD (a - 0x10002100).toNat
    (smallJump.bytes.getD (a - 0x10003100).toNat 0x90)
  altinstrInsnbuf := zeroInsnbuf
  parainstrInsnbuf := zeroInsnbuf
  x86_capability _ := 0
  pvpatcher := interruptState
  native := interruptInsns
  systemMap name :=
    if name = "__start_mcount_loc" then 0xffffffff81002100
    else if name = "__stop_mcount_loc" then 0xffffffff81002108
    else if name = "__start___jump_table" then 0xffffffff81003100
    else if name = "__stop___jump_table" then 0xffffffff81003118
    else 0xffffffff81000000
  guest := ⟨fun _ => smallJump.code, fun _ => smallJump.key, fun _ => 1⟩
  data := 0x20000000

def smallSection (i : Nat) : SectionInfo := smallKernelElf.sectionInfo i (smallKernelElf.shdr i)

def smallParts : KernelParts where
  sections := ⟨smallSection 0, smallSection 1, smallSection 2⟩
  initText := smallSection 3
  data := smallSection 4
  patched := ⟨smallKernelFile.mem, ∅⟩
  jumpTable := JumpTable.ofEntries [smallJump]

theorem smallKernel_mcountTable :
    tableEntries (smallKernelFile.mcountTable smallParts.initText) 8 = [0x10002100] := by
  decide

theorem smallKernel_callOffset :
    callOffset smallParts.sections.text smallParts.patched.mem 0x10002100 = 4 := by
  decide

theorem smallKernel_stop : smallParts.sections.stop = 0x38 := by
  decide

theorem smallKernel_jumpTable :
    KernelFile.readJumpTable smallParts.patched.mem (smallKernelFile.jumpInfo smallParts.data) =
      .ok smallParts.jumpTable := by
  rfl

theorem smallKernel_sound : smallKernelFile.Sound smallParts where
  find_text := rfl
  find_notes := rfl
  find_exTable := rfl
  find_initText := rfl
  find_data := rfl
  unrolled := by decide
  patched := rfl
  inOrder := ⟨by decide, by decide, by decide⟩
  mcount := by
    constructor
    · rw [smallKernel_mcountTable]
      intro p hp k hk
      rw [List.mem_singleton] at hp
      subst hp
      have hdata : smallKernelFile.data = 0x20000000 := rfl
      rw [smallKernel_stop, hdata]
      bv_omega
    · rw [smallKernel_mcountTable]
      intro p hp
      rw [List.mem_singleton] at hp
      subst hp
      rw [smallKernel_callOffset]
      decide
    · rw [smallKernel_mcountTable]
      exact List.pairwise_singleton _ _
  jumpTable := smallKernel_jumpTable
  jumpTable_apart := by
    intro k hk
    have hsize : (smallKernelFile.jumpInfo smallParts.data).size.toNat = 24 := by decide
    have hindex : (smallKernelFile.jumpInfo smallParts.data).index = 0x10003100 := by decide
    have hdata : smallKernelFile.data = 0x20000000 := rfl
    rw [hsize] at hk
    rw [smallKernel_stop, hindex, hdata]
    bv_omega
  guest := by
    refine ⟨[smallJump], ?_, ?_⟩
    · show [smallJump].Perm (JumpTable.ofEntries [smallJump]).entries
      rw [JumpTable.entries_ofEntries]
    · unfold GuestJumps.Holds
      decide
  jumps := by
    constructor
    · show ((JumpTable.ofEntries [smallJump]).entries.map JumpEntry.code).Nodup
      rw [JumpTable.entries_ofEntries]
      decide
    · show ∀ e ∈ (JumpTable.ofEntries [smallJump]).entries, _
      rw [JumpTable.entries_ofEntries]
      decide
    · show ∀ e ∈ (JumpTable.ofEntries [smallJump]).entries,
        ∀ e' ∈ (JumpTable.ofEntries [smallJump]).entries, _
      rw [JumpTable.entries_ofEntries]
      decide

/-- Its image: the jump is enabled, the call is a NOP, and there are zeros behind `.text`. -/
theorem initText_exact_small :
    ∃ k, smallKernelFile.initText = .ok k ∧ k.textSegment = smallParts.sections.text ∧
      k.mem = smallParts.patched.mem ∧ k.smpOffsets = smallParts.patched.smpOffsets ∧
      smallKernelFile.ImageOf smallParts k.textSegmentContent.bytes :=
  smallKernelFile.initText_exact smallParts smallKernel_sound

end KernInt
