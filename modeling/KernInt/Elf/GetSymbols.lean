import KernInt.Elf.ElfFile
import KernInt.Lib.Collect

set_option autoImplicit false

/-! # The symbols of a file

`getSymbols` reads `.symtab` and behind it `.dynsym`. An entry whose section or segment is not
found throws. The loop over `.symtab` stands in a `try` block, which is left with the entries in
front of this one; if there are none, the symbols of a debug file take their place. The loop over
`.dynsym` stands in no such block. When no symbol is lost is told by `noSymbolLost_iff`.
-/

namespace KernInt

open Lib

/-- An `ElfSymbol` of the source. -/
structure SymbolEntry where
  name : String
  value : U64
  info : Byte
  shndx : U32
  sectionInfo : Option SectionInfo
  segmentInfo : Option SegmentInfo
  deriving DecidableEq

/-- A section with symbols and the one with their names. -/
structure SymbolTable where
  symtabSection : SectionInfo
  strtabSection : SectionInfo

/-- The number of entries, which have 24 bytes each. -/
def SymbolTable.count (tab : SymbolTable) : Nat := (tab.symtabSection.size / 24).toNat

/-- A file with the values that its symbols have now. -/
structure SymbolFile where
  elf : ElfFile
  st_value : Nat → Nat → U64

namespace SymbolFile

variable (f : SymbolFile) (tab : SymbolTable)

/-- An entry of a table, without its section and its segment. -/
def rawSymbol (i : Nat) : SymbolEntry where
  name := f.elf.symbolName (f.elf.sym tab.symtabSection.secID.toNat i).st_name
    tab.strtabSection.secID
  value := f.st_value tab.symtabSection.secID.toNat i
  info := (f.elf.sym tab.symtabSection.secID.toNat i).st_info
  shndx := (f.elf.sym tab.symtabSection.secID.toNat i).st_shndx.setWidth 32
  sectionInfo := none
  segmentInfo := none

/-- Section and segment are looked up for a symbol. -/
def locate (sym : SymbolEntry) : Except ElfError (Option SymbolEntry) := do
  let sectionInfo ← f.elf.findSectionByID sym.shndx
  let segmentInfo ← f.elf.findSegmentByVaddr sym.value
  return some { sym with sectionInfo := some sectionInfo, segmentInfo := some segmentInfo }

/-- One round of the loop over a table. -/
def symbolRound (loadDbg : Bool) (i : Nat) : Except ElfError (Option SymbolEntry) :=
  let st_shndx := (f.elf.sym tab.symtabSection.secID.toNat i).st_shndx
  let sym := f.rawSymbol tab i
  if st_shndx ≠ SHN_UNDEF ∧ st_shndx ≠ SHN_ABS ∧ st_shndx ≠ SHN_COMMON then
    if sym.name = "" then .ok none
    else if sym.value = 0 then .ok none
    else if loadDbg then f.locate sym
    else .ok (some sym)
  else .ok none

/-- The first section of type `SHT_SYMTAB`. -/
def findSymtab : Except ElfError SymbolTable :=
  match (List.range f.elf.getNrOfSections).find? fun i => (f.elf.shdr i).sh_type = SHT_SYMTAB with
  | some i => do
      let symtabSection ← f.elf.findSectionByID (BitVec.ofNat 32 i)
      let strtabSection ← f.elf.findSectionByID (f.elf.shdr i).sh_link
      return ⟨symtabSection, strtabSection⟩
  | none => .ok ⟨SectionInfo.empty, SectionInfo.empty⟩

/-- The `try` block. -/
def internalSymbols (loadDbg : Bool) : List SymbolEntry :=
  match f.findSymtab with
  | .ok tab => (collect (f.symbolRound tab loadDbg) (List.range tab.count)).1
  | .error _ => []

/-- What `getSymbols(false)` returns. -/
def symbolsOnly : List SymbolEntry :=
  if f.elf.e_type = ET_DYN ∨ f.elf.e_type = ET_EXEC then f.internalSymbols false else []

/-- What stands in front of the symbols of `.dynsym`. `debugVersion` is the file that
`loadDebugVersion` finds. -/
def frontSymbols (debugVersion : Option SymbolFile) (loadDbg : Bool) :
    Except ElfError (List SymbolEntry) :=
  if f.internalSymbols loadDbg = [] ∧ loadDbg = true then
    match debugVersion with
    | some dbgVersion => collectAll f.locate dbgVersion.symbolsOnly
    | none => .ok []
  else .ok (f.internalSymbols loadDbg)

def getSymbols (debugVersion : Option SymbolFile) (loadDbg : Bool) :
    Except ElfError (List SymbolEntry) :=
  if f.elf.e_type = ET_DYN ∨ f.elf.e_type = ET_EXEC then do
    let ret ← f.frontSymbols debugVersion loadDbg
    if loadDbg then do
      let symtabSection ← f.elf.findSectionWithName ".dynsym"
      let strtabSection ← f.elf.findSectionWithName ".dynstr"
      let tab : SymbolTable := ⟨symtabSection, strtabSection⟩
      let dynamic ← collectAll (f.symbolRound tab loadDbg) (List.range tab.count)
      return ret ++ dynamic
    else return ret
  else .ok []

/-! ## What is to be returned -/

/-- The symbol has a name, a value and a section index that may be one of a section. -/
def Wanted (i : Nat) : Prop :=
  let st_shndx := (f.elf.sym tab.symtabSection.secID.toNat i).st_shndx
  (st_shndx ≠ SHN_UNDEF ∧ st_shndx ≠ SHN_ABS ∧ st_shndx ≠ SHN_COMMON) ∧
    (f.rawSymbol tab i).name ≠ "" ∧ (f.rawSymbol tab i).value ≠ 0

instance (i : Nat) : Decidable (f.Wanted tab i) := inferInstanceAs (Decidable (_ ∧ _ ∧ _))

/-- The symbol with its section and its segment, if the file has them. -/
def located (sym : SymbolEntry) : Option SymbolEntry :=
  match f.elf.findSectionByID sym.shndx, f.elf.findSegmentByVaddr sym.value with
  | .ok sectionInfo, .ok segmentInfo =>
      some { sym with sectionInfo := some sectionInfo, segmentInfo := some segmentInfo }
  | _, _ => none

def Resolves (sym : SymbolEntry) : Prop := (f.located sym).isSome = true

instance (sym : SymbolEntry) : Decidable (f.Resolves sym) := inferInstanceAs (Decidable (_ = _))

/-- The symbols of a table that are wanted and have a section and a segment, in its order. -/
def symbols : List SymbolEntry :=
  (List.range tab.count).filterMap fun i =>
    if f.Wanted tab i then f.located (f.rawSymbol tab i) else none

/-- A dynamic or an executable file with its two tables. -/
structure Tables where
  symtab : SymbolTable
  dynsym : SymbolTable
  type : f.elf.e_type = ET_DYN ∨ f.elf.e_type = ET_EXEC
  symtab_eq : f.findSymtab = .ok symtab
  dynsym_eq : f.elf.findSectionWithName ".dynsym" = .ok dynsym.symtabSection
  dynstr_eq : f.elf.findSectionWithName ".dynstr" = .ok dynsym.strtabSection

variable {f} (t : f.Tables) (debugVersion : Option SymbolFile)

/-- The symbols of both tables are returned. If `.symtab` has none, other ones may stand in front
of those of `.dynsym`. -/
def NoSymbolLost : Prop :=
  ∃ front, f.getSymbols debugVersion true = .ok (front ++ f.symbols t.dynsym) ∧
    (f.symbols t.symtab ≠ [] → front = f.symbols t.symtab)

/-- The first of the wanted symbols has a section and a segment. -/
def FirstResolves : Prop :=
  ∃ i < t.symtab.count, (f.Wanted t.symtab i ∧ f.Resolves (f.rawSymbol t.symtab i)) ∧
    ∀ j < i, ¬ f.Wanted t.symtab j

/-- No lookup fails where it costs a symbol. -/
structure KeepsAll : Prop where
  dynsym : ∀ i < t.dynsym.count, f.Wanted t.dynsym i → f.Resolves (f.rawSymbol t.dynsym i)
  symtab : FirstResolves t → ∀ i j, i < j → j < t.symtab.count →
    f.Wanted t.symtab i → ¬ f.Resolves (f.rawSymbol t.symtab i) →
    f.Wanted t.symtab j → ¬ f.Resolves (f.rawSymbol t.symtab j)
  debug : ¬ FirstResolves t →
    match debugVersion with
    | none => f.symbols t.symtab = []
    | some dbgVersion => (∀ sym ∈ dbgVersion.symbolsOnly, f.Resolves sym) ∧
        (f.symbols t.symtab = [] ∨
          dbgVersion.symbolsOnly.filterMap f.located = f.symbols t.symtab)

section

variable {tab : SymbolTable} {sym : SymbolEntry} {i : Nat}

/-! ## One symbol -/

theorem locate_of_resolves (h : f.Resolves sym) : f.locate sym = .ok (f.located sym) := by
  unfold Resolves located at h
  unfold locate located
  cases hsection : f.elf.findSectionByID sym.shndx with
  | error e => simp [hsection] at h
  | ok sectionInfo =>
      cases hsegment : f.elf.findSegmentByVaddr sym.value with
      | error e => simp [hsection, hsegment] at h
      | ok segmentInfo => rfl

theorem locate_of_not_resolves (h : ¬ f.Resolves sym) : ∃ e, f.locate sym = .error e := by
  unfold Resolves located at h
  unfold locate
  cases hsection : f.elf.findSectionByID sym.shndx with
  | error e => exact ⟨e, rfl⟩
  | ok sectionInfo =>
      cases hsegment : f.elf.findSegmentByVaddr sym.value with
      | error e => exact ⟨e, rfl⟩
      | ok segmentInfo => simp [hsection, hsegment] at h

theorem located_of_not_resolves (h : ¬ f.Resolves sym) : f.located sym = none := by
  simpa [Resolves] using h

theorem exists_locate_iff : (∃ a, f.locate sym = .ok a) ↔ f.Resolves sym := by
  constructor
  · rintro ⟨a, ha⟩
    by_contra h
    obtain ⟨e, he⟩ := locate_of_not_resolves h
    rw [he] at ha
    cases ha
  · intro h
    exact ⟨_, locate_of_resolves h⟩

theorem given_locate (sym : SymbolEntry) : given f.locate sym = f.located sym := by
  by_cases h : f.Resolves sym
  · exact given_of_ok (locate_of_resolves h)
  · obtain ⟨e, he⟩ := locate_of_not_resolves h
    rw [given_of_error he, located_of_not_resolves h]

theorem symbolRound_of_wanted (h : f.Wanted tab i) :
    f.symbolRound tab true i = f.locate (f.rawSymbol tab i) := by
  unfold symbolRound
  dsimp only
  rw [if_pos h.1, if_neg h.2.1, if_neg h.2.2]
  rfl

theorem symbolRound_of_not_wanted (h : ¬ f.Wanted tab i) :
    f.symbolRound tab true i = .ok none := by
  unfold Wanted at h
  unfold symbolRound
  dsimp only at h ⊢
  split
  · rename_i hshndx
    split
    · rfl
    rename_i hname
    split
    · rfl
    · rename_i hvalue
      exact absurd ⟨hshndx, hname, hvalue⟩ h
  · rfl

/-! ## A table -/

theorem given_symbolRound (i : Nat) : given (f.symbolRound tab true) i =
    if f.Wanted tab i then f.located (f.rawSymbol tab i) else none := by
  by_cases h : f.Wanted tab i
  · rw [if_pos h, ← given_locate, given, symbolRound_of_wanted h]
    rfl
  · rw [if_neg h, given_of_ok (symbolRound_of_not_wanted h)]

theorem symbols_eq :
    f.symbols tab = (List.range tab.count).filterMap (given (f.symbolRound tab true)) :=
  List.filterMap_congr fun i _ => (given_symbolRound i).symm

theorem exists_symbolRound_iff : (∃ a, f.symbolRound tab true i = .ok a) ↔
    (f.Wanted tab i → f.Resolves (f.rawSymbol tab i)) := by
  by_cases h : f.Wanted tab i
  · rw [symbolRound_of_wanted h, exists_locate_iff]
    exact ⟨fun hr _ => hr, fun hr => hr h⟩
  · exact ⟨fun _ hw => absurd hw h, fun _ => ⟨none, symbolRound_of_not_wanted h⟩⟩

theorem exists_symbolRound_error_iff : (∃ e, f.symbolRound tab true i = .error e) ↔
    f.Wanted tab i ∧ ¬ f.Resolves (f.rawSymbol tab i) := by
  constructor
  · rintro ⟨e, he⟩
    have hno : ¬ ∃ a, f.symbolRound tab true i = .ok a := by
      rintro ⟨a, ha⟩
      rw [he] at ha
      cases ha
    rw [exists_symbolRound_iff] at hno
    push Not at hno
    exact hno
  · rintro ⟨hwanted, hno⟩
    rw [symbolRound_of_wanted hwanted]
    exact locate_of_not_resolves hno

theorem exists_symbolRound_some_iff : (∃ a, f.symbolRound tab true i = .ok (some a)) ↔
    f.Wanted tab i ∧ f.Resolves (f.rawSymbol tab i) := by
  constructor
  · rintro ⟨a, ha⟩
    by_cases hwanted : f.Wanted tab i
    · exact ⟨hwanted, exists_symbolRound_iff.mp ⟨_, ha⟩ hwanted⟩
    · rw [symbolRound_of_not_wanted hwanted] at ha
      cases ha
  · rintro ⟨hwanted, hresolves⟩
    rw [symbolRound_of_wanted hwanted, locate_of_resolves hresolves]
    obtain ⟨a, ha⟩ := Option.isSome_iff_exists.mp hresolves
    exact ⟨a, by rw [ha]⟩

theorem symbolRound_eq_none_iff :
    f.symbolRound tab true i = .ok none ↔ ¬ f.Wanted tab i := by
  constructor
  · intro hnone hwanted
    have hresolves := exists_symbolRound_iff.mp ⟨_, hnone⟩ hwanted
    obtain ⟨a, ha⟩ := exists_symbolRound_some_iff.mpr ⟨hwanted, hresolves⟩
    rw [hnone] at ha
    cases ha
  · exact symbolRound_of_not_wanted

variable {t} {debugVersion}

theorem internalSymbols_eq :
    f.internalSymbols true = (collect (f.symbolRound t.symtab true)
      (List.range t.symtab.count)).1 := by
  rw [internalSymbols, t.symtab_eq]

theorem internalSymbols_ne_nil_iff : f.internalSymbols true ≠ [] ↔ FirstResolves t := by
  rw [internalSymbols_eq, collect_range_ne_nil_iff]
  simp only [exists_symbolRound_some_iff, symbolRound_eq_none_iff]
  rfl

/-- The block is left with all symbols of the table if none of them is behind a failed lookup. -/
theorem internalSymbols_eq_symbols_iff : f.internalSymbols true = f.symbols t.symtab ↔
    ∀ i j, i < j → j < t.symtab.count →
      f.Wanted t.symtab i → ¬ f.Resolves (f.rawSymbol t.symtab i) →
      f.Wanted t.symtab j → ¬ f.Resolves (f.rawSymbol t.symtab j) := by
  rw [internalSymbols_eq, symbols_eq, collect_range_eq_filterMap_iff]
  simp only [exists_symbolRound_error_iff, given_symbolRound]
  have hnone : ∀ j, ((if f.Wanted t.symtab j then f.located (f.rawSymbol t.symtab j) else none) =
      none) ↔ (f.Wanted t.symtab j → ¬ f.Resolves (f.rawSymbol t.symtab j)) := by
    intro j
    by_cases h : f.Wanted t.symtab j
    · simp [h, Resolves]
    · simp [h]
  simp only [hnone, and_imp]

theorem symbols_ne_nil (h : FirstResolves t) : f.symbols t.symtab ≠ [] := by
  obtain ⟨i, hi, ⟨hwanted, hresolves⟩, -⟩ := h
  obtain ⟨sym, hsym⟩ := Option.isSome_iff_exists.mp hresolves
  have hmem : sym ∈ f.symbols t.symtab := by
    refine List.mem_filterMap.mpr ⟨i, List.mem_range.mpr hi, ?_⟩
    rw [if_pos hwanted, hsym]
  exact List.ne_nil_of_mem hmem

theorem dynamic_eq_ok_iff {dynamic : List SymbolEntry} :
    collectAll (f.symbolRound t.dynsym true) (List.range t.dynsym.count) = .ok dynamic ↔
      (∀ i < t.dynsym.count, f.Wanted t.dynsym i → f.Resolves (f.rawSymbol t.dynsym i)) ∧
        dynamic = f.symbols t.dynsym := by
  rw [collectAll_eq_ok_iff, ← symbols_eq]
  simp only [List.mem_range, exists_symbolRound_iff]

theorem getSymbols_eq_ok_iff (t : f.Tables) {ret : List SymbolEntry} :
    f.getSymbols debugVersion true = .ok ret ↔
      ∃ front, f.frontSymbols debugVersion true = .ok front ∧
        (∀ i < t.dynsym.count, f.Wanted t.dynsym i → f.Resolves (f.rawSymbol t.dynsym i)) ∧
        ret = front ++ f.symbols t.dynsym := by
  have hparts : f.getSymbols debugVersion true = (do
      let front ← f.frontSymbols debugVersion true
      let dynamic ← collectAll (f.symbolRound t.dynsym true) (List.range t.dynsym.count)
      return front ++ dynamic) := by
    unfold getSymbols
    rw [if_pos t.type, t.dynsym_eq, t.dynstr_eq]
    rfl
  rw [hparts]
  constructor
  · intro h
    obtain ⟨front, hfront, h⟩ := exists_of_bind_ok h
    obtain ⟨dynamic, hdynamic, h⟩ := exists_of_bind_ok h
    obtain ⟨hall, rfl⟩ := dynamic_eq_ok_iff.mp hdynamic
    cases h
    exact ⟨front, hfront, hall, rfl⟩
  · rintro ⟨front, hfront, hall, rfl⟩
    rw [bind_of_ok hfront, bind_of_ok (dynamic_eq_ok_iff.mpr ⟨hall, rfl⟩)]
    rfl

theorem frontSymbols_of_firstResolves (h : FirstResolves t) :
    f.frontSymbols debugVersion true = .ok (f.internalSymbols true) :=
  if_neg fun hnil => internalSymbols_ne_nil_iff.mpr h hnil.1

theorem frontSymbols_of_not_firstResolves (h : ¬ FirstResolves t) :
    f.frontSymbols debugVersion true =
      match debugVersion with
      | some dbgVersion => collectAll f.locate dbgVersion.symbolsOnly
      | none => .ok [] :=
  if_pos ⟨not_not.mp fun hne => h (internalSymbols_ne_nil_iff.mp hne), rfl⟩

/-- The symbols of a debug file are taken over if all of them have a section and a segment. -/
theorem collectAll_locate_eq_ok_iff {l front : List SymbolEntry} :
    collectAll f.locate l = .ok front ↔
      (∀ sym ∈ l, f.Resolves sym) ∧ front = l.filterMap f.located := by
  rw [collectAll_eq_ok_iff]
  simp only [exists_locate_iff]
  rw [show given f.locate = f.located from funext given_locate]

/-! ## Both tables -/

/-- **No symbol is lost** exactly if no lookup fails where it costs one. -/
theorem noSymbolLost_iff (t : f.Tables) (debugVersion : Option SymbolFile) :
    NoSymbolLost t debugVersion ↔ KeepsAll t debugVersion := by
  constructor
  · rintro ⟨front, hret, hfront⟩
    obtain ⟨front', hfront', hdynsym, happend⟩ := (getSymbols_eq_ok_iff t).mp hret
    obtain rfl := List.append_cancel_right happend
    refine ⟨hdynsym, fun hfirst => ?_, fun hfirst => ?_⟩
    · rw [frontSymbols_of_firstResolves hfirst] at hfront'
      rw [← internalSymbols_eq_symbols_iff, Except.ok.inj hfront', hfront (symbols_ne_nil hfirst)]
    · rw [frontSymbols_of_not_firstResolves hfirst] at hfront'
      cases debugVersion with
      | none =>
          by_contra hne
          have hnil := Except.ok.inj hfront'
          exact hne ((hfront hne).symm.trans hnil.symm)
      | some dbgVersion =>
          obtain ⟨hall, heq⟩ := collectAll_locate_eq_ok_iff.mp hfront'
          refine ⟨hall, ?_⟩
          by_cases hnil : f.symbols t.symtab = []
          · exact .inl hnil
          · exact .inr (heq.symm.trans (hfront hnil))
  · rintro ⟨hdynsym, hsymtab, hdebug⟩
    by_cases hfirst : FirstResolves t
    · -- the `try` block is left with some symbols, so no debug file is looked for
      refine ⟨f.internalSymbols true, ?_, fun _ => ?_⟩
      · exact (getSymbols_eq_ok_iff t).mpr ⟨_, frontSymbols_of_firstResolves hfirst, hdynsym, rfl⟩
      · exact internalSymbols_eq_symbols_iff.mpr (hsymtab hfirst)
    · -- what the block has is dropped
      have hkept := hdebug hfirst
      have hfront := @frontSymbols_of_not_firstResolves f t debugVersion hfirst
      cases debugVersion with
      | none =>
          refine ⟨[], (getSymbols_eq_ok_iff t).mpr ⟨[], hfront, hdynsym, rfl⟩, fun hne => ?_⟩
          exact absurd hkept hne
      | some dbgVersion =>
          obtain ⟨hall, hsame⟩ := hkept
          refine ⟨dbgVersion.symbolsOnly.filterMap f.located, ?_, hsame.resolve_left⟩
          refine (getSymbols_eq_ok_iff t).mpr ⟨_, hfront.trans ?_, hdynsym, rfl⟩
          exact collectAll_locate_eq_ok_iff.mpr ⟨hall, rfl⟩

end

/-! ## A thread-local symbol

A library with a function, a thread-local variable and another function in `.symtab`, and the
variable alone in `.dynsym`. The value of the variable is its offset in the thread's storage, and
no segment has that address. -/

def tlsHeaders (symtabSize dynsymSize : U64) : List Elf64_Shdr :=
  [default,
    { (default : Elf64_Shdr) with sh_name := ".text", sh_addr := 0x1000, sh_size := 0x1000 },
    { (default : Elf64_Shdr) with sh_name := ".tbss", sh_size := 0x10 },
    { (default : Elf64_Shdr) with
      sh_name := ".symtab", sh_type := SHT_SYMTAB, sh_size := symtabSize, sh_link := 4 },
    { (default : Elf64_Shdr) with sh_name := ".strtab" },
    { (default : Elf64_Shdr) with sh_name := ".dynsym", sh_size := dynsymSize },
    { (default : Elf64_Shdr) with sh_name := ".dynstr" }]

theorem shnum_lt_tlsHeaders (symtabSize dynsymSize : U64) :
    (tlsHeaders symtabSize dynsymSize).length < 2 ^ 16 := by
  show 7 < 2 ^ 16
  decide

def tlsLibrary (symtabSize dynsymSize : U64) : SymbolFile where
  elf := {
    e_type := ET_DYN
    e_entry := 0
    fileContent := 0
    elf64Shdr := tlsHeaders symtabSize dynsymSize
    shnum_lt := shnum_lt_tlsHeaders symtabSize dynsymSize
    segments := [⟨PT_LOAD, PF_X ||| PF_R, 0x1000, 0x1000, 0x1000, 0x1000⟩]
    rela := fun _ => []
    sym := fun table i =>
      ⟨BitVec.ofNat 32 (i + 1), 2, if table = 3 ∧ i ≠ 1 then 1 else 2⟩
    symbolName := fun offset _ => if offset = 1 then "init" else if offset = 2 then "state"
      else "fini" }
  st_value := fun table i => if table = 3 ∧ i ≠ 1 then 0x1010 + BitVec.ofNat 64 i else 8

def tlsTables (symtabSize dynsymSize : U64) : (tlsLibrary symtabSize dynsymSize).Tables where
  symtab := ⟨(tlsLibrary symtabSize dynsymSize).elf.sectionInfo 3
      ((tlsHeaders symtabSize dynsymSize).getD 3 default),
    (tlsLibrary symtabSize dynsymSize).elf.sectionInfo 4
      ((tlsHeaders symtabSize dynsymSize).getD 4 default)⟩
  dynsym := ⟨(tlsLibrary symtabSize dynsymSize).elf.sectionInfo 5
      ((tlsHeaders symtabSize dynsymSize).getD 5 default),
    (tlsLibrary symtabSize dynsymSize).elf.sectionInfo 6
      ((tlsHeaders symtabSize dynsymSize).getD 6 default)⟩
  type := .inl rfl
  symtab_eq := rfl
  dynsym_eq := rfl
  dynstr_eq := rfl

/-- The second function is lost behind the variable in `.symtab`. With the variable in `.dynsym`,
nothing is returned. -/
theorem tlsLibrary_symbols_lost :
    (((tlsLibrary 0x48 0).symbols (tlsTables 0x48 0).symtab).map SymbolEntry.name =
        ["init", "fini"] ∧
      ((tlsLibrary 0x48 0).internalSymbols true).map SymbolEntry.name = ["init"] ∧
      ¬ NoSymbolLost (tlsTables 0x48 0) none) ∧
    ((tlsLibrary 0x18 0x18).getSymbols none true =
        .error (.error "could not find segment by vaddr") ∧
      ¬ NoSymbolLost (tlsTables 0x18 0x18) none) := by
  have hsymbols : ((tlsLibrary 0x48 0).symbols (tlsTables 0x48 0).symtab).map SymbolEntry.name =
      ["init", "fini"] := by decide
  have hinternal : ((tlsLibrary 0x48 0).internalSymbols true).map SymbolEntry.name =
      ["init"] := by decide
  have herror : (tlsLibrary 0x18 0x18).getSymbols none true =
      .error (.error "could not find segment by vaddr") := by rfl
  refine ⟨⟨hsymbols, hinternal, ?_⟩, herror, ?_⟩
  · rintro ⟨front, hret, hfront⟩
    have hne : (tlsLibrary 0x48 0).symbols (tlsTables 0x48 0).symtab ≠ [] := fun h => by
      rw [h] at hsymbols
      cases hsymbols
    obtain ⟨front', hfront', -, happend⟩ := (getSymbols_eq_ok_iff (tlsTables 0x48 0)).mp hret
    have hsame : (tlsLibrary 0x48 0).internalSymbols true = front' := by
      unfold frontSymbols at hfront'
      rw [if_neg (fun h => by rw [h.1] at hinternal; cases hinternal)] at hfront'
      exact Except.ok.inj hfront'
    rw [← List.append_cancel_right happend, hfront hne] at hsame
    rw [hsame, hsymbols] at hinternal
    cases hinternal
  · rintro ⟨front, hret, -⟩
    rw [herror] at hret
    cases hret

end SymbolFile

end KernInt
