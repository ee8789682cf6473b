import KernInt.Elf.FileBytes
import KernInt.Lib.Blocks

set_option autoImplicit false

/-! # A library as bytes

A library is described by its program headers, the entries of `.dynamic`, its symbols and further
sections. Its file (`LibraryParts.encode`) has the header, the program headers and the section
headers in front, and then the contents of the sections, the one with their names at the end. The
entries of `.dynamic` and the symbols are read wherever their bytes are, with the names that stand
in a block of strings somewhere else (`walkDynamic_needed`, `readSymbols_table`).
-/

namespace KernInt

open Lib

def SHT_DYNAMIC : U32 := 6

/-! ## Fields that are read -/

namespace ElfBytes

variable {f : ElfBytes} {a : U64}

/-- Bytes that are read are in the buffer one behind the other. -/
theorem getElem?_of_reads {bs : List Byte} (h : Reads f.reader a bs) {k : Nat}
    (hk : k < bs.length) : f.content[a.toNat + k]? = some bs[k] := by
  induction bs generalizing a k with
  | nil => simp at hk
  | cons b bs ih =>
      rw [reads_cons] at h
      cases k with
      | zero => exact h.1
      | succ k =>
          have hrest := ih h.2 (k := k) (by simpa using hk)
          rw [toNat_succ h.1] at hrest
          rw [← Nat.add_assoc, Nat.add_right_comm]
          exact hrest

theorem mem_of_reads {bs : List Byte} (h : Reads f.reader a bs) {k : Nat} (hk : k < bs.length) :
    f.mem (a.toNat + k) = bs[k] := by
  rw [mem, bufferOf, List.getD_eq_getElem?_getD, getElem?_of_reads h hk, Option.getD_some]

theorem inside_of_reads {bs : List Byte} (h : Reads f.reader a bs) (hbs : 0 < bs.length) :
    f.Inside a bs.length := by
  have hlast := getElem?_of_reads h (k := bs.length - 1) (by omega)
  have hlt := (List.getElem?_eq_some_iff.mp hlast).1
  rw [Inside, size]
  omega

theorem u8_of_reads {v : Byte} (h : Reads f.reader a [v]) : f.u8 a = v :=
  mem_of_reads h (k := 0) (by simp)

theorem u16_of_reads {v : BitVec 16} (h : Reads f.reader a (bytes16 v)) : f.u16 a = v := by
  have h0 : f.mem a.toNat = v.extractLsb' 0 8 := mem_of_reads h (k := 0) (by simp)
  have h1 : f.mem (a.toNat + 1) = v.extractLsb' 8 8 := mem_of_reads h (k := 1) (by simp)
  rw [u16, h0, h1]
  apply BitVec.eq_of_getLsbD_eq
  intro j hj
  rw [BitVec.getLsbD_append, BitVec.getLsbD_extractLsb', BitVec.getLsbD_extractLsb']
  by_cases h8 : j < 8
  · simp [h8]
  · have hlt : j - 8 < 8 := by omega
    simp [h8, hlt, Nat.add_sub_cancel' (Nat.not_lt.mp h8)]

theorem u32_of_reads {v : U32} (h : Reads f.reader a (bytes32 v)) : f.u32 a = v :=
  load32_of_bytes32 fun _ hk => mem_of_reads h hk

theorem u64_of_reads {v : U64} (h : Reads f.reader a (bytes64 v)) : f.u64 a = v := by
  apply load64_of_bytes64
  intro k hk
  have hlen : k < (bytes64 v).length := by simpa using hk
  rw [mem_of_reads h hlen, List.getElem?_eq_getElem hlen]

/-- A part of a region. -/
theorem Inside.part {m k n : Nat} (h : f.Inside a m) (hk : k + n ≤ m) :
    f.Inside (a + BitVec.ofNat 64 k) n := by
  have hfits := f.fits
  rw [Inside, size] at h
  rw [Inside, size, toNat_add_ofNat (by omega)]
  omega

/-- A string with its NUL. -/
theorem string_of_reads {s : StdString} (h : Reads f.reader a (s ++ [0])) (hs : NulFree s) :
    f.string a = s ∧ f.Terminated a := by
  have hnul := getElem?_of_reads h (k := s.length) (by simp)
  have hlt := (List.getElem?_eq_some_iff.mp hnul).1
  have hne : ∀ x ∈ s, (x != 0) = true := by
    intro x hx
    rw [bne_iff_ne]
    rintro rfl
    exact hs hx
  have hbytes : f.stringBytes a = some s :=
    bytesWhile_eq h hne (by simp) (by rw [size]; omega)
  refine ⟨by rw [string, hbytes, Option.getD_some], ?_⟩
  rw [← stringBytes_isSome_iff, hbytes]
  rfl

end ElfBytes

/-- An offset that fits into 32 bits. -/
theorem setWidth_ofNat {n : Nat} (h : n < 2 ^ 32) :
    (BitVec.ofNat 32 n).setWidth 64 = BitVec.ofNat 64 n := by
  apply BitVec.eq_of_toNat_eq
  rw [BitVec.toNat_setWidth, BitVec.toNat_ofNat, BitVec.toNat_ofNat, Nat.mod_eq_of_lt h]

/-! ## Parts of a file -/

/-- A program header. -/
structure Elf64_Phdr where
  p_type : U32
  p_flags : U32
  p_offset : U64
  p_vaddr : U64
  p_paddr : U64
  p_filesz : U64
  p_memsz : U64
  p_align : U64

def Elf64_Phdr.fields (p : Elf64_Phdr) : List (List Byte) :=
  [bytes32 p.p_type, bytes32 p.p_flags, bytes64 p.p_offset, bytes64 p.p_vaddr, bytes64 p.p_paddr,
    bytes64 p.p_filesz, bytes64 p.p_memsz, bytes64 p.p_align]

def Elf64_Phdr.segmentInfo (p : Elf64_Phdr) : SegmentInfo where
  type := p.p_type
  flags := p.p_flags
  offset := p.p_offset
  vaddr := p.p_vaddr
  filesz := p.p_filesz
  memsz := p.p_memsz

/-- A section with its name and its content. Its size may be another one than that of its content,
as that of `.bss` is. -/
structure NamedSection where
  name : StdString
  sh_type : U32
  sh_flags : U64
  sh_addr : U64
  sh_size : U64
  sh_link : U32
  sh_info : U32
  sh_addralign : U64
  sh_entsize : U64
  content : List Byte

/-- The header of a section, for a name and a content at these places. -/
def NamedSection.fields (s : NamedSection) (sh_name : U32) (sh_offset : U64) : List (List Byte) :=
  [bytes32 sh_name, bytes32 s.sh_type, bytes64 s.sh_flags, bytes64 s.sh_addr, bytes64 sh_offset,
    bytes64 s.sh_size, bytes32 s.sh_link, bytes32 s.sh_info, bytes64 s.sh_addralign,
    bytes64 s.sh_entsize]

/-- An entry of `.dynamic`, with its name where it has one. -/
inductive DynamicEntry where
  | needed (name : StdString)
  | soname (name : StdString)
  | other (d_tag d_val : U64)

namespace DynamicEntry

/-- The string of the entry in `.dynstr`. -/
def name : DynamicEntry → StdString
  | needed name => name
  | soname name => name
  | other _ _ => []

def d_tag : DynamicEntry → U64
  | needed _ => DT_NEEDED
  | soname _ => DT_SONAME
  | other d_tag _ => d_tag

/-- The value of an entry whose string is at this place. -/
def d_val (strOffset : U64) : DynamicEntry → U64
  | needed _ => strOffset
  | soname _ => strOffset
  | other _ d_val => d_val

def fields (entry : DynamicEntry) (strOffset : U64) : List (List Byte) :=
  [bytes64 entry.d_tag, bytes64 (entry.d_val strOffset)]

/-- Another entry is none that the program looks for. -/
def Ok : DynamicEntry → Prop
  | needed name => NulFree name
  | soname name => NulFree name
  | other d_tag _ => d_tag ≠ DT_NULL ∧ d_tag ≠ DT_NEEDED ∧ d_tag ≠ DT_SONAME

instance (entry : DynamicEntry) : Decidable entry.Ok :=
  match entry with
  | needed name => inferInstanceAs (Decidable (NulFree name))
  | soname name => inferInstanceAs (Decidable (NulFree name))
  | other _ _ => inferInstanceAs (Decidable (_ ∧ _ ∧ _))

/-- The name of a dependency. -/
def dependency : DynamicEntry → Option StdString
  | needed name => some name
  | _ => none

def isSoname : DynamicEntry → Bool
  | soname _ => true
  | _ => false

end DynamicEntry

/-- A symbol with its name. -/
structure NamedSymbol where
  name : StdString
  st_info : Byte
  st_other : Byte
  st_shndx : BitVec 16
  st_value : U64
  st_size : U64

namespace NamedSymbol

def fields (sym : NamedSymbol) (st_name : U32) : List (List Byte) :=
  [bytes32 st_name, [sym.st_info], [sym.st_other], bytes16 sym.st_shndx, bytes64 sym.st_value,
    bytes64 sym.st_size]

/-- A symbol of a section with a name and a value is returned. -/
def raw (sym : NamedSymbol) : Option RawSymbol :=
  if sym.st_shndx ≠ SHN_UNDEF ∧ sym.st_shndx ≠ SHN_ABS ∧ sym.st_shndx ≠ SHN_COMMON then
    if sym.name = [] then none
    else if sym.st_value = 0 then none
    else some ⟨sym.name, sym.st_value, sym.st_info, sym.st_shndx⟩
  else none

end NamedSymbol

/-- The entries of `.dynamic`, and the one behind them. -/
def dynamicBytes (entries : List DynamicEntry) : List Byte :=
  ((entries.mapIdx fun i entry =>
      (entry.fields (BitVec.ofNat 64 (nulStart (entries.map (·.name)) i))).flatten) ++
    [(DynamicEntry.fields (.other DT_NULL 0) 0).flatten]).flatten

def symbolBytes (symbols : List NamedSymbol) : List Byte :=
  (symbols.mapIdx fun i sym =>
    (sym.fields (BitVec.ofNat 32 (nulStart (symbols.map (·.name)) i))).flatten).flatten

/-! ## Walking over the entries -/

section

variable {f : ElfBytes} {strtab : U64}

/-- What is read of an entry, with the string of a dependency. -/
structure EntryAt (f : ElfBytes) (strtab a : U64) (entry : DynamicEntry) : Prop where
  inside : f.Inside a 16
  tag : f.u64 a = entry.d_tag
  string : ∀ name, entry = .needed name →
    f.string (strtab + f.u64 (a + 8)) = name ∧ f.Terminated (strtab + f.u64 (a + 8))

/-- The entries, and the end behind them. -/
structure DynamicTable (f : ElfBytes) (strtab a : U64) (entries : List DynamicEntry) : Prop where
  entry : ∀ i, (hi : i < entries.length) → EntryAt f strtab (dynAt a i) entries[i]
  last : f.Inside (dynAt a entries.length) 8
  tag : f.u64 (dynAt a entries.length) = DT_NULL

theorem DynamicTable.head {a : U64} {entry : DynamicEntry} {entries : List DynamicEntry}
    (h : DynamicTable f strtab a (entry :: entries)) : EntryAt f strtab a entry := by
  have hentry := h.entry 0 (by simp)
  rwa [dynAt_zero] at hentry

theorem DynamicTable.tail {a : U64} {entry : DynamicEntry} {entries : List DynamicEntry}
    (h : DynamicTable f strtab a (entry :: entries)) :
    DynamicTable f strtab (a + 16) entries where
  entry := by
    intro i hi
    have hentry := h.entry (i + 1) (by simpa using hi)
    rwa [dynAt_succ] at hentry
  last := by
    have hlast := h.last
    rwa [List.length_cons, dynAt_succ] at hlast
  tag := by
    have htag := h.tag
    rwa [List.length_cons, dynAt_succ] at htag

theorem DynamicEntry.Ok.tag_ne_null {entry : DynamicEntry} (h : entry.Ok) :
    entry.d_tag ≠ DT_NULL := by
  cases entry with
  | needed name => show DT_NEEDED ≠ DT_NULL; decide
  | soname name => show DT_SONAME ≠ DT_NULL; decide
  | other d_tag d_val => exact h.1

theorem entryAt_of_reads {a : U64} {entry : DynamicEntry} {strOffset : U64}
    (h : Reads f.reader a (entry.fields strOffset).flatten)
    (hstr : Reads f.reader (strtab + strOffset) (entry.name ++ [0])) (hok : entry.Ok) :
    EntryAt f strtab a entry where
  inside := ElfBytes.inside_of_reads h (by show 0 < 16; decide)
  tag := by
    have htag := h.field (k := 0) (n := 0) rfl rfl
    rw [BitVec.add_zero] at htag
    exact ElfBytes.u64_of_reads htag
  string := by
    rintro name rfl
    have hval : f.u64 (a + 8) = strOffset := ElfBytes.u64_of_reads (h.field (k := 1) rfl rfl)
    rw [hval]
    exact ElfBytes.string_of_reads hstr hok

/-- The names of the entries are in the block of strings of the same list. -/
theorem dynamicTable_of_reads {a : U64} {entries : List DynamicEntry}
    (h : Reads f.reader a (dynamicBytes entries))
    (hstr : Reads f.reader strtab (nulBlock (entries.map (·.name))))
    (hok : ∀ entry ∈ entries, entry.Ok) : DynamicTable f strtab a entries := by
  have hlen : ∀ b ∈ (entries.mapIdx fun i entry =>
      (entry.fields (BitVec.ofNat 64 (nulStart (entries.map (·.name)) i))).flatten) ++
        [(DynamicEntry.fields (.other DT_NULL 0) 0).flatten], b.length = 16 := by
    intro b hb
    rcases List.mem_append.mp hb with hb | hb
    · obtain ⟨i, hi, rfl⟩ := List.mem_mapIdx.mp hb
      rfl
    · obtain rfl := List.mem_singleton.mp hb
      rfl
  have hblock : ∀ i, (hi : i ≤ entries.length) → Reads f.reader (dynAt a i) _ := fun i hi => by
    have hblock := h.block (i := i) (by simp; omega)
    rw [blockStart_of_length hlen (by simp; omega)] at hblock
    exact hblock
  have hlast : Reads f.reader (dynAt a entries.length)
      ((DynamicEntry.other DT_NULL 0).fields 0).flatten := by
    have hlast := hblock entries.length (le_refl _)
    rw [List.getElem_append_right (by simp)] at hlast
    simpa using hlast
  refine ⟨fun i hi => ?_, ?_, ?_⟩
  · have hentry := hblock i (Nat.le_of_lt hi)
    have hname := hstr.nulString (i := i) (by simpa using hi)
    rw [List.getElem_append_left (by simpa using hi), List.getElem_mapIdx] at hentry
    rw [List.getElem_map] at hname
    exact entryAt_of_reads hentry hname (hok _ (List.getElem_mem hi))
  · have hinside := ElfBytes.inside_of_reads hlast (by show 0 < 16; decide)
    simpa using hinside.part (k := 0) (n := 8) (by show 8 ≤ 16; decide)
  · have htag := hlast.field (k := 0) (n := 0) rfl rfl
    rw [BitVec.add_zero] at htag
    exact ElfBytes.u64_of_reads htag

/-- A step over an entry that is inside. -/
theorem walkDynamic_again {σ ρ : Type} {visit : U64 → U64 → σ → Except ReadStop (Round σ ρ)}
    {atEnd : σ → ρ} {left : Nat} {a : U64} {entry : DynamicEntry} {s s' : σ}
    (h : EntryAt f strtab a entry) (hok : entry.Ok)
    (hvisit : visit entry.d_tag a s = .ok (.again s')) :
    f.walkDynamic visit atEnd (left + 1) a s = f.walkDynamic visit atEnd left (a + 16) s' := by
  have hinside : f.Inside a 8 := by simpa using h.inside.part (k := 0) (n := 8) (by decide)
  simp only [ElfBytes.walkDynamic, (ElfBytes.checked_read64 a).ok hinside, h.tag, bind_of_ok rfl,
    if_neg hok.tag_ne_null, hvisit]

theorem walkDynamic_leave {σ ρ : Type} {visit : U64 → U64 → σ → Except ReadStop (Round σ ρ)}
    {atEnd : σ → ρ} {left : Nat} {a : U64} {entry : DynamicEntry} {s : σ} {r : ρ}
    (h : EntryAt f strtab a entry) (hok : entry.Ok)
    (hvisit : visit entry.d_tag a s = .ok (.leave r)) :
    f.walkDynamic visit atEnd (left + 1) a s = .ok r := by
  have hinside : f.Inside a 8 := by simpa using h.inside.part (k := 0) (n := 8) (by decide)
  simp only [ElfBytes.walkDynamic, (ElfBytes.checked_read64 a).ok hinside, h.tag, bind_of_ok rfl,
    if_neg hok.tag_ne_null, hvisit]
  rfl

theorem walkDynamic_nil {σ ρ : Type} {visit : U64 → U64 → σ → Except ReadStop (Round σ ρ)}
    {atEnd : σ → ρ} {left : Nat} {a : U64} {s : σ} (h : DynamicTable f strtab a []) :
    f.walkDynamic visit atEnd (left + 1) a s = .ok (atEnd s) := by
  have hinside := h.last
  have htag := h.tag
  rw [List.length_nil, dynAt_zero] at hinside htag
  rw [ElfBytes.walkDynamic, (ElfBytes.checked_read64 a).ok hinside, htag, bind_of_ok rfl,
    if_pos rfl]
  rfl

theorem visitNeeded_entry {a : U64} {entry : DynamicEntry} (h : EntryAt f strtab a entry)
    (hok : entry.Ok) (dependencies : List StdString) :
    f.visitNeeded strtab entry.d_tag a dependencies =
      .ok (.again (dependencies ++ entry.dependency.toList)) := by
  cases entry with
  | needed name =>
      obtain ⟨hstring, hterm⟩ := h.string name rfl
      have hinside : f.Inside (a + 8) 8 := h.inside.part (k := 8) (by decide)
      have htag : (DynamicEntry.needed name).d_tag = DT_NEEDED := rfl
      rw [ElfBytes.visitNeeded, if_pos htag, (ElfBytes.checked_read64 (a + 8)).ok hinside,
        bind_of_ok rfl, (ElfBytes.checked_readString _).ok hterm, bind_of_ok rfl, hstring]
      rfl
  | soname name =>
      have htag : (DynamicEntry.soname name).d_tag ≠ DT_NEEDED := by
        show DT_SONAME ≠ DT_NEEDED
        decide
      rw [ElfBytes.visitNeeded, if_neg htag]
      simp [DynamicEntry.dependency]
      rfl
  | other d_tag d_val =>
      have htag : (DynamicEntry.other d_tag d_val).d_tag ≠ DT_NEEDED := hok.2.1
      rw [ElfBytes.visitNeeded, if_neg htag]
      simp [DynamicEntry.dependency]
      rfl

/-- The dependencies are collected in the order of their entries. -/
theorem walkDynamic_needed {a : U64} {entries : List DynamicEntry} {left : Nat}
    (h : DynamicTable f strtab a entries) (hok : ∀ entry ∈ entries, entry.Ok)
    (hleft : entries.length < left) (dependencies : List StdString) :
    f.walkDynamic (f.visitNeeded strtab) id left a dependencies =
      .ok (dependencies ++ entries.filterMap (·.dependency)) := by
  obtain ⟨left, rfl⟩ : ∃ n, left = n + 1 := ⟨left - 1, by omega⟩
  induction entries generalizing a left dependencies with
  | nil => rw [walkDynamic_nil h, List.filterMap_nil, List.append_nil, id]
  | cons entry entries ih =>
      rw [List.forall_mem_cons] at hok
      rw [List.length_cons] at hleft
      obtain ⟨left, rfl⟩ : ∃ n, left = n + 1 := ⟨left - 1, by omega⟩
      have hvisit := visitNeeded_entry h.head hok.1 dependencies
      rw [walkDynamic_again h.head hok.1 hvisit, ih h.tail hok.2 _ left (by omega),
        List.filterMap_cons, List.append_assoc]
      cases entry.dependency with
      | none => rfl
      | some name => rfl

/-- The walk for a name of the library itself ends at the first one. -/
theorem walkDynamic_soname {a : U64} {entries : List DynamicEntry} {left : Nat}
    (h : DynamicTable f strtab a entries) (hok : ∀ entry ∈ entries, entry.Ok)
    (hleft : entries.length < left) :
    f.walkDynamic ElfBytes.visitSoname (fun _ => false) left a () =
      .ok (entries.any (·.isSoname)) := by
  obtain ⟨left, rfl⟩ : ∃ n, left = n + 1 := ⟨left - 1, by omega⟩
  induction entries generalizing a left with
  | nil => exact walkDynamic_nil h
  | cons entry entries ih =>
      rw [List.forall_mem_cons] at hok
      rw [List.length_cons] at hleft
      obtain ⟨left, rfl⟩ : ∃ n, left = n + 1 := ⟨left - 1, by omega⟩
      have hrest := ih h.tail hok.2 left (by omega)
      cases entry with
      | soname name =>
          exact walkDynamic_leave h.head hok.1 (if_pos rfl)
      | needed name =>
          have htag : (DynamicEntry.needed name).d_tag ≠ DT_SONAME := by
            show DT_NEEDED ≠ DT_SONAME
            decide
          exact (walkDynamic_again h.head hok.1 (if_neg htag)).trans hrest
      | other d_tag d_val =>
          exact (walkDynamic_again h.head hok.1 (if_neg hok.1.2.2)).trans hrest

/-! ## The symbols of a table -/

theorem symbolAt_of_reads {a : U64} {sym : NamedSymbol} {st_name : U32}
    (h : Reads f.reader a (sym.fields st_name).flatten)
    (hstr : Reads f.reader (strtab + st_name.setWidth 64) (sym.name ++ [0]))
    (hname : NulFree sym.name) :
    f.EntryInside strtab a ∧ f.symbolAt strtab a = sym.raw := by
  have hst_name : f.u32 a = st_name := by
    have hst_name := h.field (k := 0) (n := 0) rfl rfl
    rw [BitVec.add_zero] at hst_name
    exact ElfBytes.u32_of_reads hst_name
  have hinfo : f.u8 (a + 4) = sym.st_info := ElfBytes.u8_of_reads (h.field (k := 1) rfl rfl)
  have hshndx : f.u16 (a + 6) = sym.st_shndx := ElfBytes.u16_of_reads (h.field (k := 3) rfl rfl)
  have hvalue : f.u64 (a + 8) = sym.st_value := ElfBytes.u64_of_reads (h.field (k := 4) rfl rfl)
  have hinside : f.Inside a 24 := ElfBytes.inside_of_reads h (by show 0 < 24; decide)
  obtain ⟨hstring, hterm⟩ := ElfBytes.string_of_reads hstr hname
  constructor
  · refine ⟨hinside.part (k := 6) (by decide), fun _ => ⟨?_, by rwa [hst_name], fun _ => ?_⟩⟩
    · simpa using hinside.part (k := 0) (n := 4) (by decide)
    · exact ⟨hinside.part (k := 8) (by decide), fun _ => hinside.part (k := 4) (by decide)⟩
  · simp only [ElfBytes.symbolAt, NamedSymbol.raw, hst_name, hstring, hinfo, hshndx, hvalue]

/-- The entries of a table and their names are where the reader looks for them. -/
theorem symbolAt_table {symtab : U64} {symbols : List NamedSymbol}
    (h : Reads f.reader symtab (symbolBytes symbols))
    (hstr : Reads f.reader strtab (nulBlock (symbols.map (·.name))))
    (hle : (nulBlock (symbols.map (·.name))).length ≤ 2 ^ 32)
    (hnames : ∀ sym ∈ symbols, NulFree sym.name) {i : Nat} (hi : i < symbols.length) :
    f.EntryInside strtab (ElfBytes.symAt symtab i) ∧
      f.symbolAt strtab (ElfBytes.symAt symtab i) = symbols[i].raw := by
  have hlen : ∀ b ∈ (symbols.mapIdx fun i sym =>
      (sym.fields (BitVec.ofNat 32 (nulStart (symbols.map (·.name)) i))).flatten),
      b.length = 24 := by
    intro b hb
    obtain ⟨i, hi, rfl⟩ := List.mem_mapIdx.mp hb
    rfl
  have hentry := h.block (i := i) (by simpa using hi)
  rw [blockStart_of_length hlen (by simpa using Nat.le_of_lt hi), List.getElem_mapIdx] at hentry
  have hi' : i < (symbols.map (·.name)).length := by simpa using hi
  have hname := hstr.nulString hi'
  rw [List.getElem_map, ← setWidth_ofNat (Nat.lt_of_lt_of_le (nulStart_lt hi') hle)] at hname
  exact symbolAt_of_reads hentry hname (hnames _ (List.getElem_mem hi))

/-- The symbols of a table are read in its order. -/
theorem length_symbolBytes (symbols : List NamedSymbol) :
    (symbolBytes symbols).length = 24 * symbols.length := by
  have hlen : ∀ b ∈ (symbols.mapIdx fun i sym =>
      (sym.fields (BitVec.ofNat 32 (nulStart (symbols.map (·.name)) i))).flatten),
      b.length = 24 := by
    intro b hb
    obtain ⟨i, hi, rfl⟩ := List.mem_mapIdx.mp hb
    rfl
  rw [symbolBytes, length_flatten_eq, blockStart_of_length hlen (le_refl _), List.length_mapIdx]

theorem readSymbols_table {symtab size : U64} {symbols : List NamedSymbol}
    (h : Reads f.reader symtab (symbolBytes symbols))
    (hstr : Reads f.reader strtab (nulBlock (symbols.map (·.name))))
    (hle : (nulBlock (symbols.map (·.name))).length ≤ 2 ^ 32)
    (hnames : ∀ sym ∈ symbols, NulFree sym.name)
    (hsize : (size / 24).toNat = symbols.length) (hlt : symbols.length < 2 ^ 32) :
    f.readSymbols symtab size strtab = .ok (symbols.filterMap (·.raw)) := by
  have hentries := Checked.mapM fun k (_ : k ∈ List.range symbols.length) =>
    ElfBytes.checked_symbolAt (f := f) strtab (ElfBytes.symAt symtab k)
  have hread := hentries.ok fun k hk =>
    (symbolAt_table h hstr hle hnames (List.mem_range.mp hk)).1
  have hvalues : (List.range symbols.length).map
      (fun k => f.symbolAt strtab (ElfBytes.symAt symtab k)) = symbols.map (·.raw) := by
    apply List.ext_getElem
    · simp
    · intro i h1 h2
      rw [List.getElem_map, List.getElem_range, List.getElem_map]
      exact (symbolAt_table h hstr hle hnames (by simpa using h1)).2
  rw [hvalues] at hread
  rw [ElfBytes.readSymbols, hsize, Nat.min_eq_left (Nat.le_of_lt hlt)]
  refine (bind_of_ok hread _).trans ?_
  rw [if_neg (Nat.not_le.mpr hlt), ElfBytes.reduceOption_map_eq]
  rfl

end

/-! ## The file -/

/-- What a library is put together from. -/
structure LibraryParts where
  e_type : BitVec 16
  e_machine : BitVec 16
  e_entry : U64
  e_flags : U32
  segments : List Elf64_Phdr
  dynamic : List DynamicEntry
  symbols : List NamedSymbol
  /-- The sections behind the four that are made of the above. -/
  others : List NamedSection

namespace LibraryParts

/-- `.dynamic` -/
def dynamicName : StdString := [46, 100, 121, 110, 97, 109, 105, 99]
/-- `.dynstr` -/
def dynstrName : StdString := [46, 100, 121, 110, 115, 116, 114]
/-- `.symtab` -/
def symtabName : StdString := [46, 115, 121, 109, 116, 97, 98]
/-- `.strtab` -/
def strtabName : StdString := [46, 115, 116, 114, 116, 97, 98]
/-- `.shstrtab` -/
def shstrtabName : StdString := [46, 115, 104, 115, 116, 114, 116, 97, 98]

/-- A section that is no part of the memory of a process. -/
def tableSection (name : StdString) (sh_type : U32) (sh_link : U32) (content : List Byte) :
    NamedSection where
  name
  sh_type
  sh_flags := 0
  sh_addr := 0
  sh_size := BitVec.ofNat 64 content.length
  sh_link
  sh_info := 0
  sh_addralign := 1
  sh_entsize := 0
  content

variable (d : LibraryParts)

/-- All sections but the one with the names. -/
def namedSections : List NamedSection :=
  tableSection dynamicName SHT_DYNAMIC 1 (dynamicBytes d.dynamic) ::
  tableSection dynstrName SHT_STRTAB 0 (nulBlock (d.dynamic.map (·.name))) ::
  tableSection symtabName SHT_SYMTAB 3 (symbolBytes d.symbols) ::
  tableSection strtabName SHT_STRTAB 0 (nulBlock (d.symbols.map (·.name))) :: d.others

def sectionNames : List StdString := d.namedSections.map (·.name) ++ [shstrtabName]

def sections : List NamedSection :=
  d.namedSections ++ [tableSection shstrtabName SHT_STRTAB 0 (nulBlock d.sectionNames)]

/-- The place of the section headers, behind those of the program. -/
def shdrsStart : Nat := 64 + 56 * d.segments.length

/-- The place of the content of a section, behind all headers. -/
def contentStart (i : Nat) : Nat :=
  d.shdrsStart + 64 * d.sections.length + blockStart (d.sections.map (·.content)) i

def headerFields : List (List Byte) :=
  [ELFMAG ++ [ELFCLASS64] ++ List.replicate 11 0, bytes16 d.e_type, bytes16 d.e_machine,
    bytes32 1, bytes64 d.e_entry, bytes64 64, bytes64 (BitVec.ofNat 64 d.shdrsStart),
    bytes32 d.e_flags, bytes16 64, bytes16 56, bytes16 (BitVec.ofNat 16 d.segments.length),
    bytes16 64, bytes16 (BitVec.ofNat 16 d.sections.length),
    bytes16 (BitVec.ofNat 16 d.namedSections.length)]

/-- A section header of the file. -/
def shdrBytes (i : Nat) (s : NamedSection) : List Byte :=
  (s.fields (BitVec.ofNat 32 (nulStart d.sectionNames i))
    (BitVec.ofNat 64 (d.contentStart i))).flatten

/-- The bytes of the file. -/
def encode : List Byte :=
  d.headerFields.flatten ++ (d.segments.map fun p => p.fields.flatten).flatten ++
    (d.sections.mapIdx d.shdrBytes).flatten ++ (d.sections.map (·.content)).flatten

end LibraryParts

/-- Parts whose numbers and places fit into the fields that hold them, and whose names are without
a NUL. -/
structure LibraryFile extends LibraryParts where
  segments_lt : segments.length < 2 ^ 16
  sections_lt : toLibraryParts.sections.length < 2 ^ 16
  dynamic_lt : dynamic.length < 2 ^ 31
  symbols_lt : symbols.length < 2 ^ 32
  names_le : (nulBlock toLibraryParts.sectionNames).length ≤ 2 ^ 32
  strtab_le : (nulBlock (symbols.map (·.name))).length ≤ 2 ^ 32
  encode_lt : toLibraryParts.encode.length < 2 ^ 64
  dynamic_ok : ∀ entry ∈ dynamic, entry.Ok
  symbols_ok : ∀ sym ∈ symbols, NulFree sym.name
  others_ok : ∀ s ∈ others, NulFree s.name

namespace LibraryFile

variable (d : LibraryFile)

def bytes : ElfBytes := ⟨d.encode, d.encode_lt⟩

/-- The section as it is to be found in the file. -/
def sectionInfo (i : Nat) (s : NamedSection) : SectionInfo where
  name := nameText s.name
  secID := BitVec.ofNat 32 i
  offset := BitVec.ofNat 64 (d.contentStart i)
  index := BitVec.ofNat 64 (d.contentStart i)
  memindex := s.sh_addr
  size := s.sh_size
  flags := s.sh_flags

def image : ElfImage where
  e_shoff := BitVec.ofNat 64 d.shdrsStart
  sections := d.sections.mapIdx d.sectionInfo
  segments := (d.segments.filter fun p => p.p_type = PT_LOAD).map (·.segmentInfo)

end LibraryFile

end KernInt
