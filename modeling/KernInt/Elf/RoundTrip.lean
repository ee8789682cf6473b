import KernInt.Elf.Encoding
import Mathlib.Data.List.ReduceOption

set_option autoImplicit false

/-! # Reading a library back

The file of a library is read back as its description (`load_bytes`): the sections with their
names, places and contents, the segments that are loaded, the dependencies in their order, and the
symbols. The parts of the file are found from its beginning: the header gives the places of the two
tables, the last section header the place of the names.
-/

namespace KernInt

open Lib

namespace LibraryFile

variable {d : LibraryFile}

theorem reads_bytes : Reads d.bytes.reader 0 d.encode := reads_content d.encode_lt

theorem reads_header : Reads d.bytes.reader 0 d.headerFields.flatten :=
  reads_bytes.left.left.left

theorem length_header : d.headerFields.flatten.length = 64 := rfl

theorem length_phdr (p : Elf64_Phdr) : p.fields.flatten.length = 56 := rfl

theorem length_shdr (i : Nat) (s : NamedSection) : (d.shdrBytes i s).length = 64 := rfl

theorem length_phdrs : (d.segments.map fun p => p.fields.flatten).flatten.length =
    56 * d.segments.length := by
  have hlen : ∀ b ∈ d.segments.map (fun p => p.fields.flatten), b.length = 56 := by
    intro b hb
    obtain ⟨p, -, rfl⟩ := List.mem_map.mp hb
    exact length_phdr p
  rw [length_flatten_eq, blockStart_of_length hlen (le_refl _), List.length_map]

theorem length_shdr_of_mem {b : List Byte} (hb : b ∈ d.sections.mapIdx d.shdrBytes) :
    b.length = 64 := by
  obtain ⟨i, hi, rfl⟩ := List.mem_mapIdx.mp hb
  exact length_shdr i _

theorem length_shdrs :
    (d.sections.mapIdx d.shdrBytes).flatten.length = 64 * d.sections.length := by
  rw [length_flatten_eq, blockStart_of_length (fun b => length_shdr_of_mem) (le_refl _),
    List.length_mapIdx]

theorem reads_phdr {i : Nat} (hi : i < d.segments.length) :
    Reads d.bytes.reader (phdrAt 64 i) d.segments[i].fields.flatten :=
  Reads.record length_phdr reads_bytes.left.left.right hi

theorem reads_shdr {i : Nat} (hi : i < d.sections.length) :
    Reads d.bytes.reader (shdrAt (BitVec.ofNat 64 d.shdrsStart) i)
      (d.shdrBytes i d.sections[i]) := by
  have hshdrs := (d.reads_bytes).left.right
  rw [List.length_append, length_header, length_phdrs] at hshdrs
  have hshdr := hshdrs.block (i := i) (by simpa using hi)
  rw [blockStart_of_length (fun b => length_shdr_of_mem) (by simpa using Nat.le_of_lt hi),
    List.getElem_mapIdx] at hshdr
  simpa [shdrAt, LibraryParts.shdrsStart] using hshdr

/-- Each section has its content at its place. -/
theorem reads_section {i : Nat} (hi : i < d.sections.length) :
    Reads d.bytes.reader (BitVec.ofNat 64 (d.contentStart i)) d.sections[i].content := by
  have hcontents := (d.reads_bytes).right
  rw [List.length_append, List.length_append, length_header, length_phdrs, length_shdrs]
    at hcontents
  have hcontent := hcontents.block (i := i) (by simpa using hi)
  rw [LibraryParts.contentStart, LibraryParts.shdrsStart, BitVec.ofNat_add]
  simpa using hcontent

/-- A field of the header, whose place is the length of those in front of it. -/
theorem reads_headerField {k n : Nat} {bs : List Byte} (hbs : d.headerFields[k]? = some bs)
    (hn : ([16, 2, 2, 4, 8, 8, 8, 4, 2, 2, 2, 2, 2, 2].take k).sum = n) :
    Reads d.bytes.reader (BitVec.ofNat 64 n) bs := by
  have hlengths : d.headerFields.map List.length =
      [16, 2, 2, 4, 8, 8, 8, 4, 2, 2, 2, 2, 2, 2] := rfl
  have hstart : blockStart d.headerFields k = n := by
    rw [blockStart, List.map_take, hlengths, hn]
  have hfield := (d.reads_header).field hbs hstart
  simpa using hfield

theorem toNat_ofNat16 {n : Nat} (hn : n < 2 ^ 16) : (BitVec.ofNat 16 n).toNat = n := by
  rw [BitVec.toNat_ofNat]
  exact Nat.mod_eq_of_lt hn

theorem e_type_bytes : d.bytes.e_type = d.e_type :=
  ElfBytes.u16_of_reads (reads_headerField (k := 1) rfl rfl)

theorem e_phoff_bytes : d.bytes.e_phoff = 64 :=
  ElfBytes.u64_of_reads (reads_headerField (k := 5) rfl rfl)

theorem e_shoff_bytes : d.bytes.e_shoff = BitVec.ofNat 64 d.shdrsStart :=
  ElfBytes.u64_of_reads (reads_headerField (k := 6) rfl rfl)

theorem e_phnum_bytes : d.bytes.e_phnum = d.segments.length := by
  have hnum : d.bytes.u16 0x38 = BitVec.ofNat 16 d.segments.length :=
    ElfBytes.u16_of_reads (reads_headerField (k := 10) rfl rfl)
  rw [ElfBytes.e_phnum, hnum, toNat_ofNat16 d.segments_lt]

theorem e_shnum_bytes : d.bytes.e_shnum = d.sections.length := by
  have hnum : d.bytes.u16 0x3c = BitVec.ofNat 16 d.sections.length :=
    ElfBytes.u16_of_reads (reads_headerField (k := 12) rfl rfl)
  rw [ElfBytes.e_shnum, hnum, toNat_ofNat16 d.sections_lt]

theorem length_namedSections : d.namedSections.length < d.sections.length := by
  rw [LibraryParts.sections, List.length_append]
  exact Nat.lt_succ_self _

theorem e_shstrndx_bytes : d.bytes.e_shstrndx = d.namedSections.length := by
  have hnum : d.bytes.u16 0x3e = BitVec.ofNat 16 d.namedSections.length :=
    ElfBytes.u16_of_reads (reads_headerField (k := 13) rfl rfl)
  have hlt := Nat.lt_trans d.length_namedSections d.sections_lt
  rw [ElfBytes.e_shstrndx, hnum, toNat_ofNat16 hlt]

/-! ## Sections -/

theorem sectionNames_eq : d.sectionNames = d.sections.map (·.name) := by
  rw [LibraryParts.sections, List.map_append]
  rfl

theorem length_sectionNames : d.sectionNames.length = d.sections.length := by
  rw [sectionNames_eq, List.length_map]

theorem nulFree_name {s : NamedSection} (hs : s ∈ d.sections) : NulFree s.name := by
  have hall : ∀ s ∈ d.sections, NulFree s.name := by
    simp only [LibraryParts.sections, LibraryParts.namedSections, List.cons_append,
      List.forall_mem_cons, List.forall_mem_append, LibraryParts.tableSection]
    refine ⟨by decide, by decide, by decide, by decide, d.others_ok, by decide, by simp⟩
  exact hall s hs

/-- What is read of a section header of the file. -/
structure ShdrFields (f : ElfBytes) (a : U64) (s : NamedSection) (sh_name : U32)
    (sh_offset : U64) : Prop where
  inside : f.Inside a 64
  sh_name : f.u32 a = sh_name
  sh_type : f.u32 (a + 4) = s.sh_type
  sh_flags : f.u64 (a + 8) = s.sh_flags
  sh_addr : f.u64 (a + 16) = s.sh_addr
  sh_offset : f.u64 (a + 24) = sh_offset
  sh_size : f.u64 (a + 32) = s.sh_size
  sh_link : f.u32 (a + 40) = s.sh_link

theorem shdrFields_of_reads {f : ElfBytes} {a : U64} {s : NamedSection} {sh_name : U32}
    {sh_offset : U64} (h : Reads f.reader a (s.fields sh_name sh_offset).flatten) :
    ShdrFields f a s sh_name sh_offset where
  inside := ElfBytes.inside_of_reads h (by show 0 < 64; decide)
  sh_name := by
    have hname := h.field (k := 0) (n := 0) rfl rfl
    rw [BitVec.add_zero] at hname
    exact ElfBytes.u32_of_reads hname
  sh_type := ElfBytes.u32_of_reads (h.field (k := 1) rfl rfl)
  sh_flags := ElfBytes.u64_of_reads (h.field (k := 2) rfl rfl)
  sh_addr := ElfBytes.u64_of_reads (h.field (k := 3) rfl rfl)
  sh_offset := ElfBytes.u64_of_reads (h.field (k := 4) rfl rfl)
  sh_size := ElfBytes.u64_of_reads (h.field (k := 5) rfl rfl)
  sh_link := ElfBytes.u32_of_reads (h.field (k := 6) rfl rfl)

theorem shdr_fields {i : Nat} (hi : i < d.sections.length) :
    ShdrFields d.bytes (shdrAt d.bytes.e_shoff i) d.sections[i]
      (BitVec.ofNat 32 (nulStart d.sectionNames i)) (BitVec.ofNat 64 (d.contentStart i)) := by
  rw [d.e_shoff_bytes]
  exact shdrFields_of_reads (reads_shdr hi)

/-- The name of a section is where its header and the one of `.shstrtab` say. -/
theorem reads_name {i : Nat} (hi : i < d.sections.length) :
    Reads d.bytes.reader (d.bytes.nameAt i) (d.sections[i].name ++ [0]) := by
  have hn := d.length_namedSections
  have hnames : d.sections[d.namedSections.length].content = nulBlock d.sectionNames := by
    simp [LibraryParts.sections, LibraryParts.tableSection]
  have hblock := reads_section hn
  rw [hnames] at hblock
  have hi' : i < d.sectionNames.length := by rwa [length_sectionNames]
  have hname := hblock.nulString hi'
  have hlt := Nat.lt_of_lt_of_le (nulStart_lt hi') d.names_le
  have hat : d.bytes.nameAt i = BitVec.ofNat 64 (d.contentStart d.namedSections.length) +
      BitVec.ofNat 64 (nulStart d.sectionNames i) := by
    rw [ElfBytes.nameAt, d.e_shstrndx_bytes, (shdr_fields hn).sh_offset,
      (shdr_fields hi).sh_name, setWidth_ofNat hlt]
  rw [hat]
  simpa [sectionNames_eq] using hname

theorem sectionInside {i : Nat} (hi : i < d.sections.length) : d.bytes.SectionInside i := by
  have hn : d.bytes.e_shstrndx < d.sections.length := by
    rw [d.e_shstrndx_bytes]
    exact d.length_namedSections
  have hinside := (shdr_fields hi).inside
  have hname := ElfBytes.string_of_reads (reads_name hi) (nulFree_name (List.getElem_mem hi))
  exact {
    strtab := (shdr_fields hn).inside.part (k := 24) (by decide)
    sh_name := by simpa using hinside.part (k := 0) (n := 4) (by decide)
    name := hname.2
    sh_offset := hinside.part (k := 24) (by decide)
    sh_addr := hinside.part (k := 16) (by decide)
    sh_size := hinside.part (k := 32) (by decide)
    sh_flags := hinside.part (k := 8) (by decide) }

/-- The section that is saved is the one that has been put into the file. -/
theorem sectionAt_bytes {i : Nat} (hi : i < d.sections.length) :
    d.bytes.sectionAt i = d.sectionInfo i d.sections[i] := by
  have hname := ElfBytes.string_of_reads (reads_name hi) (nulFree_name (List.getElem_mem hi))
  have hfields := shdr_fields hi
  rw [ElfBytes.sectionAt, hname.1, hfields.sh_offset, hfields.sh_addr, hfields.sh_size,
    hfields.sh_flags]
  rfl

/-! ## Segments and the image -/

theorem segmentInfo_of_reads {f : ElfBytes} {a : U64} {p : Elf64_Phdr}
    (h : Reads f.reader a p.fields.flatten) : f.segmentInfo a = p.segmentInfo := by
  have htype : f.u32 a = p.p_type := by
    have htype := h.field (k := 0) (n := 0) rfl rfl
    rw [BitVec.add_zero] at htype
    exact ElfBytes.u32_of_reads htype
  have hflags : f.u32 (a + 4) = p.p_flags := ElfBytes.u32_of_reads (h.field (k := 1) rfl rfl)
  have hoffset : f.u64 (a + 8) = p.p_offset := ElfBytes.u64_of_reads (h.field (k := 2) rfl rfl)
  have hvaddr : f.u64 (a + 16) = p.p_vaddr := ElfBytes.u64_of_reads (h.field (k := 3) rfl rfl)
  have hfilesz : f.u64 (a + 32) = p.p_filesz := ElfBytes.u64_of_reads (h.field (k := 5) rfl rfl)
  have hmemsz : f.u64 (a + 40) = p.p_memsz := ElfBytes.u64_of_reads (h.field (k := 6) rfl rfl)
  rw [ElfBytes.segmentInfo, htype, hflags, hoffset, hvaddr, hfilesz, hmemsz]
  rfl

theorem segmentInside {i : Nat} (hi : i < d.segments.length) : d.bytes.SegmentInside i := by
  have hinside : d.bytes.Inside (phdrAt d.bytes.e_phoff i) 56 := by
    rw [d.e_phoff_bytes]
    exact ElfBytes.inside_of_reads (reads_phdr hi) (by show 0 < 56; decide)
  exact ⟨by simpa using hinside.part (k := 0) (n := 4) (by decide), fun _ => hinside⟩

theorem segmentAt_bytes {i : Nat} (hi : i < d.segments.length) :
    d.bytes.segmentAt i = if d.segments[i].p_type = PT_LOAD then some d.segments[i].segmentInfo
      else none := by
  have hseg : d.bytes.segmentInfo (phdrAt d.bytes.e_phoff i) = d.segments[i].segmentInfo := by
    rw [d.e_phoff_bytes]
    exact segmentInfo_of_reads (reads_phdr hi)
  have htype : d.bytes.u32 (phdrAt d.bytes.e_phoff i) = d.segments[i].p_type :=
    congrArg SegmentInfo.type hseg
  rw [ElfBytes.segmentAt, htype, hseg]

theorem length_encode : 64 ≤ d.encode.length := by
  rw [LibraryParts.encode, List.length_append, List.length_append, List.length_append,
    length_header]
  omega

theorem headersInside : d.bytes.HeadersInside where
  header := length_encode
  sections := by
    intro i hi
    rw [d.e_shnum_bytes] at hi
    exact sectionInside hi
  segments := by
    intro i hi
    rw [d.e_phnum_bytes] at hi
    exact segmentInside hi

/-- The segments that are loaded are saved. -/
theorem reduceOption_segments (segments : List Elf64_Phdr) :
    (segments.map fun p => if p.p_type = PT_LOAD then some p.segmentInfo else none).reduceOption =
      (segments.filter fun p => p.p_type = PT_LOAD).map (·.segmentInfo) := by
  induction segments with
  | nil => rfl
  | cons p segments ih =>
      by_cases hload : p.p_type = PT_LOAD
      · simp [hload, List.reduceOption_cons_of_some, ih]
      · simp [hload, List.reduceOption_cons_of_none, ih]

theorem image_bytes : d.bytes.image = d.image := by
  have hsections : (List.range d.sections.length).map d.bytes.sectionAt =
      d.sections.mapIdx d.sectionInfo := by
    apply List.ext_getElem
    · simp
    · intro i h1 h2
      rw [List.getElem_map, List.getElem_range, List.getElem_mapIdx]
      exact sectionAt_bytes (by simpa using h1)
  have hsegments : (List.range d.segments.length).map d.bytes.segmentAt =
      d.segments.map fun p => if p.p_type = PT_LOAD then some p.segmentInfo else none := by
    apply List.ext_getElem
    · simp
    · intro i h1 h2
      rw [List.getElem_map, List.getElem_range, List.getElem_map]
      exact segmentAt_bytes (by simpa using h1)
  rw [ElfBytes.image, d.e_shoff_bytes, d.e_shnum_bytes,
    d.e_phnum_bytes, hsections, hsegments, reduceOption_segments]
  rfl

theorem read8_class : d.bytes.read8 4 = .ok ELFCLASS64 := by
  have hinside : d.bytes.Inside 4 1 := Nat.le_trans (by decide) (d.length_encode)
  have hlen : 4 < d.headerFields.flatten.length := by
    rw [length_header]
    decide
  have hvalue : d.bytes.u8 4 = ELFCLASS64 := ElfBytes.mem_of_reads (d.reads_header) hlen
  rw [(ElfBytes.checked_read8 4).ok hinside, hvalue]

/-- The file is recognized, from a disk and from memory. -/
theorem load_eq_image (src : Source) : src.load d.bytes = .ok d.image := by
  have hmag : d.bytes.content.take 4 = ELFMAG := rfl
  have hlooks : src.Looks d.bytes := fun _ => hmag
  obtain ⟨e, -, hload⟩ := load_looks hlooks
  rw [hload, d.read8_class, bind_of_ok rfl, if_pos rfl,
    ElfBytes.checked_construct.ok headersInside, image_bytes]

/-! ## Dependencies and symbols -/

theorem four_lt_sections : 4 < d.sections.length := by
  rw [LibraryParts.sections, LibraryParts.namedSections, List.length_append]
  simp only [List.length_cons, List.length_nil]
  omega

theorem getElem?_image {i : Nat} {s : NamedSection} (h : d.sections[i]? = some s) :
    d.image.sections[i]? = some (d.sectionInfo i s) := by
  show (d.sections.mapIdx d.sectionInfo)[i]? = _
  rw [List.getElem?_mapIdx, h, Option.map_some]

/-- The sections of these names are those in front. -/
theorem findSection_dynamic : d.image.findSectionWithName ".dynamic" =
    .ok (d.sectionInfo 0 (LibraryParts.tableSection LibraryParts.dynamicName SHT_DYNAMIC 1
      (dynamicBytes d.dynamic))) := by
  have hname : nameText LibraryParts.dynamicName = ".dynamic" := by decide
  have hfind : (d.sections.mapIdx d.sectionInfo).find? (fun sI => sI.name = ".dynamic") =
      some (d.sectionInfo 0 (LibraryParts.tableSection LibraryParts.dynamicName SHT_DYNAMIC 1
        (dynamicBytes d.dynamic))) := by
    rw [LibraryParts.sections, LibraryParts.namedSections, List.cons_append, List.mapIdx_cons]
    exact List.find?_cons_of_pos (decide_eq_true hname)
  rw [ElfImage.findSectionWithName, image, hfind]

theorem findSection_dynstr : d.image.findSectionWithName ".dynstr" =
    .ok (d.sectionInfo 1 (LibraryParts.tableSection LibraryParts.dynstrName SHT_STRTAB 0
      (nulBlock (d.dynamic.map (·.name))))) := by
  have hname : nameText LibraryParts.dynstrName = ".dynstr" := by decide
  have hfirst : ¬ nameText LibraryParts.dynamicName = ".dynstr" := by decide
  have hfind : (d.sections.mapIdx d.sectionInfo).find? (fun sI => sI.name = ".dynstr") =
      some (d.sectionInfo 1 (LibraryParts.tableSection LibraryParts.dynstrName SHT_STRTAB 0
        (nulBlock (d.dynamic.map (·.name))))) := by
    rw [LibraryParts.sections, LibraryParts.namedSections, List.cons_append, List.cons_append,
      List.mapIdx_cons, List.mapIdx_cons]
    have hne : ¬ decide (nameText LibraryParts.dynamicName = ".dynstr") = true := fun h =>
      hfirst (of_decide_eq_true h)
    rw [List.find?_cons_of_neg (by exact hne)]
    exact List.find?_cons_of_pos (decide_eq_true hname)
  rw [ElfImage.findSectionWithName, image, hfind]

theorem reads_sectionAt {i : Nat} {s : NamedSection} (h : d.sections[i]? = some s) :
    Reads d.bytes.reader (d.sectionInfo i s).index s.content := by
  obtain ⟨hi, rfl⟩ := List.getElem?_eq_some_iff.mp h
  exact reads_section hi

theorem dynamicTable : DynamicTable d.bytes (BitVec.ofNat 64 (d.contentStart 1))
    (BitVec.ofNat 64 (d.contentStart 0)) d.dynamic :=
  dynamicTable_of_reads (reads_sectionAt (i := 0) rfl) (reads_sectionAt (i := 1) rfl) d.dynamic_ok

theorem read16_type : d.bytes.read16 0x10 = .ok d.e_type := by
  have hinside : d.bytes.Inside 0x10 2 := Nat.le_trans (by decide) (d.length_encode)
  rw [(ElfBytes.checked_read16 0x10).ok hinside]
  exact congrArg _ d.e_type_bytes

theorem getDependencies_bytes : d.bytes.getDependencies d.image =
    .ok (if ElfBytes.isDynamicOrExecutable d.e_type then d.dynamic.filterMap (·.dependency) else []) := by
  rw [ElfBytes.getDependencies, d.read16_type, bind_of_ok rfl]
  split
  · rw [findSection_dynamic, bind_of_ok rfl, findSection_dynstr, bind_of_ok rfl]
    exact walkDynamic_needed d.dynamicTable d.dynamic_ok d.dynamic_lt []
  · rfl

theorem isDynamicLibrary_bytes : d.bytes.isDynamicLibrary d.image =
    .ok (ElfBytes.isDynamicOrExecutable d.e_type && d.dynamic.any (·.isSoname)) := by
  rw [ElfBytes.isDynamicLibrary, d.read16_type, bind_of_ok rfl]
  cases hdyn : ElfBytes.isDynamicOrExecutable d.e_type with
  | true =>
      rw [if_pos rfl, findSection_dynamic, bind_of_ok rfl, Bool.true_and]
      exact walkDynamic_soname d.dynamicTable d.dynamic_ok d.dynamic_lt
  | false => rfl

theorem shdrFields_of_getElem? {i : Nat} {s : NamedSection} (h : d.sections[i]? = some s) :
    ShdrFields d.bytes (shdrAt d.bytes.e_shoff i) s
      (BitVec.ofNat 32 (nulStart d.sectionNames i)) (BitVec.ofNat 64 (d.contentStart i)) := by
  obtain ⟨hi, rfl⟩ := List.getElem?_eq_some_iff.mp h
  exact shdr_fields hi

/-- The table of symbols is the third section. -/
theorem findSymtab_bytes :
    d.bytes.findSymtab d.image (List.range d.image.sections.length) = .ok (some 2) := by
  have hn := d.four_lt_sections
  have hnum : d.bytes.e_shnum = d.sections.length := d.e_shnum_bytes
  have hfind : (List.range d.sections.length).find? (fun i => d.bytes.IsSymtab i) = some 2 := by
    rw [List.find?_range_eq_some]
    have hsymtab : d.bytes.IsSymtab 2 := (shdrFields_of_getElem? (i := 2) rfl).sh_type
    refine ⟨decide_eq_true hsymtab, List.mem_range.mpr (by omega), ?_⟩
    intro j hj
    have hother : ¬ d.bytes.IsSymtab j := by
      obtain rfl | rfl : j = 0 ∨ j = 1 := by omega
      · rw [ElfBytes.IsSymtab, (shdrFields_of_getElem? (i := 0) rfl).sh_type]
        show SHT_DYNAMIC ≠ SHT_SYMTAB
        decide
      · rw [ElfBytes.IsSymtab, (shdrFields_of_getElem? (i := 1) rfl).sh_type]
        show SHT_STRTAB ≠ SHT_SYMTAB
        decide
    rw [decide_eq_false hother]
    rfl
  have hinside : ∀ i, 0 ≤ i → i < 0 + d.sections.length →
      (∀ j, 0 ≤ j → j < i → ¬ d.bytes.IsSymtab j) →
        d.bytes.Inside (shdrAt d.bytes.e_shoff i + 4) 4 := fun i _ hi _ =>
    (shdr_fields (by omega)).inside.part (k := 4) (by decide)
  have hlen : d.image.sections.length = d.sections.length := List.length_mapIdx
  rw [← image_bytes, image_bytes, hlen, List.range_eq_range', ← image_bytes,
    (ElfBytes.checked_findSymtab 0 _).ok hinside, ← List.range_eq_range', hfind]

theorem getSymbols_bytes : d.bytes.getSymbols d.image =
    .ok (if ElfBytes.isDynamicOrExecutable d.e_type then d.symbols.filterMap (·.raw) else []) := by
  rw [ElfBytes.getSymbols, d.read16_type, bind_of_ok rfl]
  cases hdyn : ElfBytes.isDynamicOrExecutable d.e_type with
  | false => rfl
  | true =>
      have hsymtab := shdrFields_of_getElem? (d := d) (i := 2) rfl
      have hlink : d.bytes.read32 (shdrAt d.image.e_shoff 2 + 40) = .ok 3 := by
        have hshoff : d.image.e_shoff = d.bytes.e_shoff := d.e_shoff_bytes.symm
        have hinside : d.bytes.Inside (shdrAt d.bytes.e_shoff 2 + 40) 4 :=
          hsymtab.inside.part (k := 40) (by decide)
        rw [hshoff, (ElfBytes.checked_read32 _).ok hinside, hsymtab.sh_link]
        rfl
      have hsize : ((BitVec.ofNat 64 (symbolBytes d.symbols).length) / 24).toNat =
          d.symbols.length := by
        have hlt := d.symbols_lt
        rw [length_symbolBytes, BitVec.toNat_udiv, BitVec.toNat_ofNat,
          Nat.mod_eq_of_lt (by omega)]
        exact Nat.mul_div_cancel_left _ (by decide)
      rw [if_pos rfl, findSymtab_bytes, bind_of_ok rfl]
      have hstrtab := getElem?_image (d := d) (i := (3 : U32).toNat) rfl
      dsimp only
      rw [hlink, bind_of_ok rfl, getElem?_image (i := 2) rfl, hstrtab]
      exact readSymbols_table (reads_sectionAt (i := 2) rfl) (reads_sectionAt (i := 3) rfl)
        d.strtab_le d.symbols_ok hsize d.symbols_lt

/-- **A library is read back as it has been put together**: its sections with their names and
contents, the segments that are loaded, its dependencies in their order, whether it has a name of
its own, and its symbols. -/
theorem load_bytes (d : LibraryFile) (src : Source) :
    src.load d.bytes = .ok d.image ∧
      (∀ i s, d.sections[i]? = some s →
        d.image.sections[i]? = some (d.sectionInfo i s) ∧
          Reads d.bytes.reader (d.sectionInfo i s).index s.content) ∧
      d.bytes.getDependencies d.image =
        .ok (if ElfBytes.isDynamicOrExecutable d.e_type then
          d.dynamic.filterMap (·.dependency) else []) ∧
      d.bytes.isDynamicLibrary d.image =
        .ok (ElfBytes.isDynamicOrExecutable d.e_type && d.dynamic.any (·.isSoname)) ∧
      d.bytes.getSymbols d.image =
        .ok (if ElfBytes.isDynamicOrExecutable d.e_type then
          d.symbols.filterMap (·.raw) else []) :=
  ⟨load_eq_image src, fun _ _ h => ⟨getElem?_image h, reads_sectionAt h⟩, getDependencies_bytes,
    isDynamicLibrary_bytes, getSymbols_bytes⟩

/-- A library that needs another one and has a function. -/
def sample : LibraryFile where
  e_type := ET_DYN
  e_machine := 62
  e_entry := 0x1000
  e_flags := 0
  segments := [⟨PT_LOAD, PF_X ||| PF_R, 0, 0x1000, 0x1000, 0x100, 0x100, 0x1000⟩]
  dynamic := [.needed [97], .soname [98], .needed [99]]
  symbols := [⟨[102], 18, 0, 4, 0x1010, 8⟩, ⟨[103], 18, 0, SHN_UNDEF, 0, 0⟩]
  others := [⟨[46, 116], SHT_PROGBITS, SHF_ALLOC, 0x1000, 4, 0, 0, 16, 0, [144, 144, 144, 195]⟩]
  segments_lt := by decide
  sections_lt := by decide
  dynamic_lt := by decide
  symbols_lt := by decide
  names_le := by decide
  strtab_le := by decide
  encode_lt := by decide +kernel
  dynamic_ok := by decide
  symbols_ok := by decide
  others_ok := by decide

example : sample.dynamic.filterMap (·.dependency) = [[97], [99]] ∧
    sample.symbols.filterMap (·.raw) = [⟨[102], 0x1010, 18, 4⟩] := by decide

end LibraryFile

end KernInt
