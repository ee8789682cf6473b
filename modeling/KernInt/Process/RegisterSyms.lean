import KernInt.Process.Process
import KernInt.Lib.Outcome

set_option autoImplicit false

/-! # The addresses of symbols

`registerSyms` tells the symbol manager of a process where the symbols of a loader are. It looks
for the mapping of the segment of a symbol, by the rights of both, and adds the start of the
mapping to the value of the symbol. Values count from address 0 of the file and not from the
start of the segment, so the sum is the address of the symbol only if the segment starts in the
first page (`registerSyms_address_iff`).
-/

namespace KernInt

open Lib

/-- A symbol as `getSymbols` returns it, with the segment of the file that holds its value. -/
structure ElfSymbol (elf : ElfFile) where
  name : String
  value : U64
  segment : SegmentInfo
  segment_eq : elf.findSegmentByVaddr value = .ok segment

/-- The mapping has the rights of the segment. -/
def SameRights (mapping : VMAInfo) (segment : SegmentInfo) : Prop :=
  (mapping.flags &&& VM_READ ≠ 0 ↔ segment.flags &&& PF_R ≠ 0) ∧
  (mapping.flags &&& VM_WRITE ≠ 0 ↔ segment.flags &&& PF_W ≠ 0) ∧
  (mapping.flags &&& VM_EXEC ≠ 0 ↔ segment.flags &&& PF_X ≠ 0)

instance (mapping : VMAInfo) (segment : SegmentInfo) : Decidable (SameRights mapping segment) :=
  inferInstanceAs (Decidable (_ ∧ _ ∧ _))

section

variable (loader : ElfUserspaceLoader) (mappings : List VMAInfo)

/-- One round of the search for the mapping of a symbol. -/
def findMappingRound (sym : ElfSymbol loader.elffile) (sym_proc_mapping : Option VMAInfo)
    (mapping : VMAInfo) : Except ElfError (Option VMAInfo) :=
  if mapping.name ≠ loader.name then .ok sym_proc_mapping
  else if mapping.name.toList.head? = some '[' ∨ mapping.ino ≠ 0 then
    if SameRights mapping sym.segment then
      match sym_proc_mapping with
      | none => .ok (some mapping)
      | some _ => .error (.error "found another mapping for the symbol!")
    else .ok sym_proc_mapping
  else .ok sym_proc_mapping

def findMapping (sym : ElfSymbol loader.elffile) : Except ElfError VMAInfo := do
  let sym_proc_mapping ← mappings.foldlM (findMappingRound loader sym) none
  match sym_proc_mapping with
  | none =>
      .error (.error ("\ncould not find any mapping for the symbol '" ++ sym.name ++ "'\n"))
  | some mapping => .ok mapping

variable {σ : Type} (addSymbolAddress : σ → String → U64 → σ)

def registerSym (symbols : σ) (sym : ElfSymbol loader.elffile) : Except ElfError σ := do
  let sym_proc_mapping ← findMapping loader mappings sym
  let location := sym.value + sym_proc_mapping.start
  .ok (addSymbolAddress symbols sym.name location)

def registerSyms (syms : List (ElfSymbol loader.elffile)) (symbols : σ) : Except ElfError σ :=
  syms.foldlM (registerSym loader mappings addSymbolAddress) symbols

/-! ## The choice of the mapping -/

/-- A mapping of the loader's file, or of a special area, with the rights of the segment. -/
def IsCandidate (sym : ElfSymbol loader.elffile) (mapping : VMAInfo) : Prop :=
  mapping.name = loader.name ∧ (mapping.name.toList.head? = some '[' ∨ mapping.ino ≠ 0) ∧
    SameRights mapping sym.segment

instance (sym : ElfSymbol loader.elffile) : DecidablePred (IsCandidate loader sym) :=
  fun _ => inferInstanceAs (Decidable (_ ∧ _ ∧ _))

variable {loader} {sym : ElfSymbol loader.elffile}

theorem findMappingRound_of_candidate {mapping : VMAInfo} (h : IsCandidate loader sym mapping)
    (found : Option VMAInfo) :
    findMappingRound loader sym found mapping =
      match found with
      | none => .ok (some mapping)
      | some _ => .error (.error "found another mapping for the symbol!") := by
  obtain ⟨hname, hfile, hrights⟩ := h
  unfold findMappingRound
  rw [if_neg (not_not.mpr hname), if_pos hfile, if_pos hrights]

theorem findMappingRound_of_not_candidate {mapping : VMAInfo}
    (h : ¬ IsCandidate loader sym mapping) (found : Option VMAInfo) :
    findMappingRound loader sym found mapping = .ok found := by
  unfold findMappingRound
  split
  · rfl
  · split
    · split
      · rename_i hname hfile hrights
        exact absurd ⟨not_not.mp hname, hfile, hrights⟩ h
      · rfl
    · rfl

/-- A second candidate ends the search. -/
theorem foldlM_findMappingRound_some (m : VMAInfo) :
    mappings.foldlM (findMappingRound loader sym) (some m) =
      if mappings.filter (IsCandidate loader sym) = [] then .ok (some m)
      else .error (.error "found another mapping for the symbol!") := by
  induction mappings with
  | nil => rfl
  | cons mapping mappings ih =>
      rw [List.foldlM_cons]
      by_cases h : IsCandidate loader sym mapping
      · rw [findMappingRound_of_candidate h, List.filter_cons_of_pos (by simpa using h),
          if_neg (List.cons_ne_nil _ _)]
        rfl
      · rw [findMappingRound_of_not_candidate h, List.filter_cons_of_neg (by simpa using h), ← ih]
        rfl

/-- The search depends on the number of candidates. -/
theorem foldlM_findMappingRound_none :
    mappings.foldlM (findMappingRound loader sym) none =
      match mappings.filter (IsCandidate loader sym) with
      | [] => .ok none
      | [m] => .ok (some m)
      | _ :: _ :: _ => .error (.error "found another mapping for the symbol!") := by
  induction mappings with
  | nil => rfl
  | cons mapping mappings ih =>
      rw [List.foldlM_cons]
      by_cases h : IsCandidate loader sym mapping
      · rw [findMappingRound_of_candidate h, List.filter_cons_of_pos (by simpa using h)]
        show mappings.foldlM (findMappingRound loader sym) (some mapping) = _
        rw [foldlM_findMappingRound_some]
        cases mappings.filter (IsCandidate loader sym) with
        | nil => rfl
        | cons m' l => rfl
      · rw [findMappingRound_of_not_candidate h, List.filter_cons_of_neg (by simpa using h), ← ih]
        rfl

/-- **The mapping that is chosen** is the only candidate. -/
theorem findMapping_eq_ok_iff {m : VMAInfo} :
    findMapping loader mappings sym = .ok m ↔
      mappings.filter (IsCandidate loader sym) = [m] := by
  unfold findMapping
  rw [foldlM_findMappingRound_none]
  split
  · rename_i hnil
    rw [hnil]
    constructor
    · intro h
      cases h
    · intro h
      cases h
  · rename_i m' hone
    rw [hone]
    constructor
    · intro h
      cases h
      rfl
    · intro h
      cases h
      rfl
  · rename_i m₁ m₂ l htwo
    rw [htwo]
    constructor
    · intro h
      cases h
    · intro h
      cases h

/-! ## The addresses that are registered -/

theorem registerSym_of_findMapping {m : VMAInfo} (h : findMapping loader mappings sym = .ok m)
    (symbols : σ) : registerSym loader mappings addSymbolAddress symbols sym =
      .ok (addSymbolAddress symbols sym.name (sym.value + m.start)) := by
  rw [registerSym, h]
  rfl

end

/-- The calls of `addSymbolAddress`, one behind the other. -/
def recordCall (calls : List (String × U64)) (name : String) (address : U64) :
    List (String × U64) :=
  calls ++ [(name, address)]

/-- The start of the page that an address lies in. -/
def pageFloor (a : U64) : U64 := a - a % 0x1000

/-- The mapping holds the whole segment, from the page on in which it starts. -/
def VMAInfo.MapsSegment (mapping : VMAInfo) (segment : SegmentInfo) : Prop :=
  segment.vaddr.toNat + segment.memsz.toNat ≤ (pageFloor segment.vaddr).toNat + mapping.length

/-- The segment that is found contains the address, or ends in front of it. -/
theorem ElfFile.toNat_le_of_findSegmentByVaddr {elf : ElfFile} {addr : U64} {seg : SegmentInfo}
    (h : elf.findSegmentByVaddr addr = .ok seg) :
    seg.vaddr.toNat ≤ addr.toNat ∧ addr.toNat ≤ seg.vaddr.toNat + seg.memsz.toNat := by
  unfold findSegmentByVaddr at h
  split at h
  · rename_i seg' hfind
    cases h
    obtain ⟨hle, hge⟩ : seg.vaddr ≤ addr ∧ addr ≤ seg.vaddr + seg.memsz := by
      simpa using List.find?_some hfind
    refine ⟨BitVec.le_def.mp hle, Nat.le_trans (BitVec.le_def.mp hge) ?_⟩
    rw [BitVec.toNat_add]
    exact Nat.mod_le _ _
  · cases h

section

variable {loader : ElfUserspaceLoader} {mappings : List VMAInfo} {sym : ElfSymbol loader.elffile}

/-- The last call after a run that ends with this symbol. -/
theorem getLast?_registerSyms {pre : List (ElfSymbol loader.elffile)}
    {calls : List (String × U64)} {m : VMAInfo} (hm : findMapping loader mappings sym = .ok m)
    (hrun : registerSyms loader mappings recordCall (pre ++ [sym]) [] = .ok calls) :
    calls.getLast? = some (sym.name, sym.value + m.start) := by
  rw [registerSyms, List.foldlM_append] at hrun
  obtain ⟨calls', -, hlast⟩ := exists_of_bind_ok hrun
  rw [List.foldlM_cons, registerSym_of_findMapping mappings recordCall hm] at hlast
  cases hlast
  rw [recordCall, List.getLast?_append, List.getLast?_singleton, Option.some_or]

/-- In a mapping that starts at address 0 of the file, every value but the end of the mapping
lies inside. -/
theorem mem_mapping_iff {m : VMAInfo} (hmap : m.MapsSegment sym.segment)
    (hfloor : pageFloor sym.segment.vaddr = 0) :
    (m.start ≤ sym.value + m.start ∧ sym.value + m.start < m.stop) ↔
      m.start + sym.value ≠ m.stop := by
  have hvalue : sym.value.toNat ≤ m.length := by
    have h := (ElfFile.toNat_le_of_findSegmentByVaddr sym.segment_eq).2
    have hzero : (pageFloor sym.segment.vaddr).toNat = 0 := by
      rw [hfloor]
      rfl
    unfold VMAInfo.MapsSegment at hmap
    omega
  have hstop := m.start_add_length
  have hlt := m.stop.isLt
  have hsum : (m.start + sym.value).toNat = m.start.toNat + sym.value.toNat := by
    rw [BitVec.toNat_add, Nat.mod_eq_of_lt (by omega)]
  rw [BitVec.add_comm sym.value, Ne, ← BitVec.toNat_inj, BitVec.le_def, BitVec.lt_def, hsum]
  omega

/-- **The address that is registered** for a symbol is where its mapping holds it exactly if
the segment starts in the page at address 0 and the symbol does not stand behind the
mapping. -/
theorem registerSyms_address_iff {pre : List (ElfSymbol loader.elffile)}
    {calls : List (String × U64)} {m : VMAInfo}
    (hrun : registerSyms loader mappings recordCall (pre ++ [sym]) [] = .ok calls)
    (hm : findMapping loader mappings sym = .ok m) (hmap : m.MapsSegment sym.segment) :
    (∃ a, calls.getLast? = some (sym.name, a) ∧
      a = m.start + (sym.value - pageFloor sym.segment.vaddr) ∧ m.start ≤ a ∧ a < m.stop) ↔
    pageFloor sym.segment.vaddr = 0 ∧ m.start + sym.value ≠ m.stop := by
  have hlast := getLast?_registerSyms hm hrun
  constructor
  · rintro ⟨a, ha, heq, hin⟩
    rw [hlast] at ha
    obtain rfl : sym.value + m.start = a := congrArg Prod.snd (Option.some.inj ha)
    have hfloor : pageFloor sym.segment.vaddr = 0 := by
      rw [BitVec.add_comm, BitVec.add_right_inj] at heq
      bv_omega
    exact ⟨hfloor, (mem_mapping_iff hmap hfloor).mp hin⟩
  · rintro ⟨hfloor, hne⟩
    refine ⟨sym.value + m.start, hlast, ?_, (mem_mapping_iff hmap hfloor).mpr hne⟩
    calc sym.value + m.start
        = m.start + sym.value := BitVec.add_comm _ _
      _ = m.start + (sym.value - pageFloor sym.segment.vaddr) := by
        rw [hfloor]
        bv_omega

end

/-! ## A library and a program -/

/-- Two pages of code. -/
def codeSegment (vaddr : U64) : SegmentInfo where
  type := PT_LOAD
  flags := PF_X ||| PF_R
  offset := 0
  vaddr := vaddr
  filesz := 0x2000
  memsz := 0x2000

def fileWithCode (e_type : BitVec 16) (vaddr : U64) : ElfFile where
  e_type := e_type
  e_entry := 0
  fileContent := 0
  elf64Shdr := []
  shnum_lt := ElfFile.shnum_lt_nil
  segments := [codeSegment vaddr]
  rela := fun _ => []
  sym := fun _ _ => default
  symbolName := fun _ _ => ""

def loaderOf (name : String) (elf : ElfFile) : ElfUserspaceLoader where
  name := name
  textSegmentContent := []
  hostMemory := fun _ => 0
  elffile := elf

/-- A library, whose code starts at address 0 of the file. -/
def library : ElfUserspaceLoader := loaderOf "/lib/lib.so" (fileWithCode ET_DYN 0)

def librarySym : ElfSymbol library.elffile where
  name := "f"
  value := 0x1010
  segment := codeSegment 0
  segment_eq := rfl

def codeMapping (name : String) (start stop : U64) (h : start < stop) : VMAInfo where
  start := start
  stop := stop
  ino := 7
  flags := VM_READ ||| VM_EXEC
  name := name
  start_lt_stop := h

def libraryMapping : VMAInfo :=
  codeMapping "/lib/lib.so" 0x7f0000000000 0x7f0000002000 (by decide)

theorem registerSyms_address_library :
    registerSyms library [libraryMapping] recordCall ([] ++ [librarySym]) [] =
      .ok [("f", 0x7f0000001010)] ∧
    ∃ a, [("f", (0x7f0000001010 : U64))].getLast? = some (librarySym.name, a) ∧
      a = libraryMapping.start + (librarySym.value - pageFloor librarySym.segment.vaddr) ∧
      libraryMapping.start ≤ a ∧ a < libraryMapping.stop := by
  have hrun : registerSyms library [libraryMapping] recordCall ([] ++ [librarySym]) [] =
      .ok [("f", 0x7f0000001010)] := rfl
  refine ⟨hrun, (registerSyms_address_iff hrun (m := libraryMapping) rfl ?_).mpr ?_⟩
  · show _ ≤ _
    decide
  · decide

/-- A program that has to be loaded at the addresses it was linked for. -/
def program : ElfUserspaceLoader := loaderOf "/bin/prog" (fileWithCode ET_EXEC 0x400000)

def programSym : ElfSymbol program.elffile where
  name := "main"
  value := 0x401010
  segment := codeSegment 0x400000
  segment_eq := rfl

theorem programMapping_start_lt : (0x400000 : U64) < 0x402000 := by
  decide

def programMapping : VMAInfo :=
  codeMapping "/bin/prog" 0x400000 0x402000 programMapping_start_lt

/-- The symbol of the program is at 0x401010, and 0x801010 is registered for it. -/
theorem registerSyms_misses_program :
    findMapping program [programMapping] programSym = .ok programMapping ∧
    programMapping.MapsSegment programSym.segment ∧
    registerSyms program [programMapping] recordCall ([] ++ [programSym]) [] =
      .ok [("main", 0x801010)] ∧
    programMapping.start + (programSym.value - pageFloor programSym.segment.vaddr) = 0x401010 ∧
    ¬ ∃ a, [("main", (0x801010 : U64))].getLast? = some (programSym.name, a) ∧
      a = programMapping.start + (programSym.value - pageFloor programSym.segment.vaddr) ∧
      programMapping.start ≤ a ∧ a < programMapping.stop := by
  refine ⟨rfl, ?_, rfl, by decide, ?_⟩
  · show _ ≤ _
    decide
  · rintro ⟨a, ha, heq, -⟩
    obtain rfl : (0x801010 : U64) = a := congrArg Prod.snd (Option.some.inj ha)
    exact absurd heq (by decide)

end KernInt
