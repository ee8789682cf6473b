import KernInt.Process.DataPage
import KernInt.Lib.Outcome
import Mathlib.Data.Finset.Sigma
import Mathlib.Algebra.Order.BigOperators.Group.Finset

set_option autoImplicit false

/-! # The statistics of code pointers

`validateDataPage` adds up, over the executable mappings, how often each pointer has been found
in a data mapping, and `validateProcess` adds these numbers up over the data mappings. Both
assert that a pointer that has been seen before has the same flags as before.

The flags are a function of the pointer and the mapping it points into, and of disjoint mappings
only one contains the pointer. So the assertions hold, and no location is lost or counted twice
(`validateProcess_counts`).
-/

namespace KernInt

open Lib

/-- In which order the loops go through an `unordered_map`. -/
structure IterationOrder where
  entries : Tally U64 U64 → List (Tally.Entry U64 U64)
  perm : ∀ t, (entries t).Perm t.entries

/-- What `validateProcess` does with a mapping. -/
inductive SectionCheck where
  | dataPage
  | codePage
  | skipped
  deriving DecidableEq

def sectionCheck (section' : VMAInfo) : SectionCheck :=
  if section'.name = "[stack]" ∨ section'.name = "[heap]" then .dataPage
  else if section'.name.toList.head? = some '[' then .skipped
  else if section'.flags &&& VM_EXEC ≠ 0 then .codePage
  else if section'.flags &&& VM_WRITE ≠ 0 then .dataPage
  else .skipped

namespace ProcessValidator

variable (d : Disassembler) (order : IterationOrder) (v : ProcessValidator)

/-- The executable mappings, without pointers. -/
def range : List (VMAInfo × PagePtrInfo) :=
  (v.process.mappedVMAs.filter fun toVMA => checkFlags toVMA.flags VM_EXEC).map fun toVMA =>
    (toVMA, PagePtrInfo.new v.process toVMA)

def dataContent (vma : VMAInfo) : List Byte :=
  v.vmi.readVectorFromVA vma.start (vma.stop - vma.start) true

/-- One round of the loop over the offsets. -/
def scanOffset (vma : VMAInfo) (range : List (VMAInfo × PagePtrInfo)) (i : Nat) :
    List (VMAInfo × PagePtrInfo) :=
  let value := load64 (fun k => (v.dataContent vma).getD k 0) i
  if value = 0 then range else recordValue vma i value range

/-- The executable mappings with the pointers from `vma`. -/
def scan (vma : VMAInfo) : List (VMAInfo × PagePtrInfo) :=
  (List.range ((v.dataContent vma).length - 8)).foldl (v.scanOffset vma) v.range

/-- The loop that merges `stats` into `glob_stats`. -/
def mergeStats (glob_stats stats : Tally U64 U64) : Except Abort (Tally U64 U64) :=
  match glob_stats.merge (order.entries stats) with
  | some merged => .ok merged
  | none => .error .otherFlags

def validateDataPage (vma : VMAInfo) : Except Abort (Tally U64 U64) :=
  if (v.dataContent vma).length ≤ 8 then .ok ∅
  else (v.scan vma).foldlM (fun glob_stats mapping => do
    let stats ← mapping.2.showPtrs d v.process.symbols
    if stats.entries.isEmpty then return glob_stats
    else mergeStats order glob_stats stats) ∅

/-- The reports on code and the pointers of all data mappings. -/
def validateProcess : Except Abort (List TextReport × Tally U64 U64) :=
  v.process.mappedVMAs.foldlM (fun s section' =>
    match sectionCheck section' with
    | .dataPage => do
        let stats ← v.validateDataPage d order section'
        let glob_stats ← mergeStats order s.2 stats
        return (s.1, glob_stats)
    | .codePage => return (s.1 ++ (v.validateCodePage section').toList, s.2)
    | .skipped => return s) ([], ∅)

/-! ## Recorded locations -/

def dataVMAs : List VMAInfo :=
  v.process.mappedVMAs.filter fun vma => sectionCheck vma = .dataPage

/-- The offsets of `vma` at which the pointer `p` has been recorded, for whatever mapping. -/
def recordedAt (vma : VMAInfo) (p : U64) : Finset Nat :=
  (v.scan vma).foldr (fun mapping pos => mapping.2.wheres p ∪ pos) ∅

/-- The locations, data mapping and offset, at which `p` has been recorded. -/
def locations (p : U64) : Finset (Sigma fun _ : VMAInfo => Nat) :=
  v.dataVMAs.toFinset.sigma fun vma => v.recordedAt vma p

/-- An executable mapping of a file whose loader has no text segment. -/
def NoText : Prop :=
  ∃ m ∈ v.process.mappedVMAs, checkFlags m.flags VM_EXEC = true ∧
    ∃ loader, v.process.findLoaderByFileName m.name = some loader ∧
      loader.textSegmentContent = []

/-- The flags that the pointer `p` can get: those for an executable mapping that contains it. -/
def HasFlags (p flags : U64) : Prop :=
  ∃ m ∈ v.process.mappedVMAs, m.start < p ∧ p ≤ m.stop ∧
    ∃ loader, v.process.findLoaderByFileName m.name = some loader ∧
      ptrFlags d v.process.symbols m loader p = .ok flags

section

variable {d order v}

theorem eq_of_contains (hdisj : v.process.mappedVMAs.Pairwise VMAInfo.Disjoint) {m m' : VMAInfo}
    (hm : m ∈ v.process.mappedVMAs) (hm' : m' ∈ v.process.mappedVMAs) {p : U64}
    (h : m.start < p ∧ p ≤ m.stop) (h' : m'.start < p ∧ p ≤ m'.stop) : m = m' := by
  have : Std.Symm VMAInfo.Disjoint := ⟨fun _ _ hd => hd.symm⟩
  by_contra hne
  exact (hdisj.forall hm hm' hne).not_in_both h.1 h.2 h'.1 h'.2

/-- **The flags of a pointer are unique.** -/
theorem HasFlags.unique (hdisj : v.process.mappedVMAs.Pairwise VMAInfo.Disjoint)
    (p flags flags' : U64) (h : v.HasFlags d p flags) (h' : v.HasFlags d p flags') :
    flags = flags' := by
  obtain ⟨m, hm, hlt, hle, loader, hl, hf⟩ := h
  obtain ⟨m', hm', hlt', hle', loader', hl', hf'⟩ := h'
  obtain rfl := eq_of_contains hdisj hm hm' ⟨hlt, hle⟩ ⟨hlt', hle'⟩
  rw [hl] at hl'
  cases hl'
  rw [hf] at hf'
  cases hf'
  rfl

/-! ## What the scan keeps -/

/-- The pointers of an entry lie in the range of its mapping. -/
structure EntryOk (v : ProcessValidator) (e : VMAInfo × PagePtrInfo) : Prop where
  toVMA : e.2.toVMA = e.1
  toLoader : e.2.toLoader = v.process.findLoaderByFileName e.1.name
  in_range : ∀ p ∈ e.2.ptrs, e.1.start < p ∧ p ≤ e.1.stop

theorem EntryOk.addPtr {m : VMAInfo} {info : PagePtrInfo} (h : v.EntryOk (m, info)) {i : Nat}
    {value : U64} (hvalue : m.start < value ∧ value ≤ m.stop) :
    v.EntryOk (m, info.addPtr i value) where
  toVMA := h.toVMA
  toLoader := h.toLoader
  in_range p hp := by
    rcases AList.mem_insert _ |>.mp hp with rfl | hp
    · exact hvalue
    · exact h.in_range p hp

/-- A pointer that has been found lies in the range of the mapping. -/
theorem EntryOk.contains_of_wheres {e : VMAInfo × PagePtrInfo} (h : v.EntryOk e) {p : U64}
    {pos : Nat} (hpos : pos ∈ e.2.wheres p) : e.1.start < p ∧ p ≤ e.1.stop := by
  refine h.in_range p (AList.lookup_isSome.mp ?_)
  unfold PagePtrInfo.wheres at hpos
  cases hlookup : e.2.ptrs.lookup p with
  | some S => rfl
  | none => simp [hlookup] at hpos

/-- The mappings of the scan are the executable ones. -/
theorem map_fst_scan (vma : VMAInfo) : (v.scan vma).map Prod.fst =
    v.process.mappedVMAs.filter fun toVMA => checkFlags toVMA.flags VM_EXEC := by
  unfold scan
  refine List.foldlRecOn (motive := fun r : List (VMAInfo × PagePtrInfo) => r.map Prod.fst =
    v.process.mappedVMAs.filter fun toVMA => checkFlags toVMA.flags VM_EXEC) _ _ ?_
    fun r hr i _ => ?_
  · rw [range, List.map_map]
    exact List.map_id _
  · unfold scanOffset
    dsimp only
    split
    · exact hr
    · exact map_fst_recordValue.trans hr

/-- What holds of an empty entry, and is kept when a pointer into the mapping is added, holds
after the scan. -/
theorem scan_keeps {P : VMAInfo × PagePtrInfo → Prop}
    (hnew : ∀ m, P (m, PagePtrInfo.new v.process m))
    (hadd : ∀ i value m info, m.start < value ∧ value ≤ m.stop → P (m, info) →
      P (m, info.addPtr i value)) (vma : VMAInfo) : ∀ e ∈ v.scan vma, P e := by
  unfold scan
  refine List.foldlRecOn (motive := fun r : List (VMAInfo × PagePtrInfo) => ∀ e ∈ r, P e) _ _ ?_
    fun r hr i _ => ?_
  · intro e he
    obtain ⟨m, -, rfl⟩ := List.mem_map.mp he
    exact hnew m
  · unfold scanOffset
    dsimp only
    split
    · exact hr
    · exact recordValue_keeps (hadd i _) hr

theorem entryOk_scan (vma : VMAInfo) : ∀ e ∈ v.scan vma, v.EntryOk e :=
  scan_keeps (fun _ => ⟨rfl, rfl, fun p hp => absurd hp (AList.notMem_empty p)⟩)
    (fun _ _ _ _ hvalue h => h.addPtr hvalue) vma

theorem mem_of_mem_scan {vma : VMAInfo} {e : VMAInfo × PagePtrInfo} (he : e ∈ v.scan vma) :
    e.1 ∈ v.process.mappedVMAs ∧ checkFlags e.1.flags VM_EXEC = true := by
  have hmem : e.1 ∈ (v.scan vma).map Prod.fst := List.mem_map_of_mem he
  rw [map_fst_scan] at hmem
  exact List.mem_filter.mp hmem

/-! ## Adding up -/

/-- The classification of a pointer goes through, except for a loader without text. -/
theorem ptrFlags_ensures {m : VMAInfo} (hm : m ∈ v.process.mappedVMAs)
    (hexec : checkFlags m.flags VM_EXEC = true) {loader : ElfUserspaceLoader}
    (hl : v.process.findLoaderByFileName m.name = some loader) {p : U64}
    (hp : m.start < p ∧ p ≤ m.stop) :
    Ensures (ptrFlags d v.process.symbols m loader p) (fun a => a = .noData ∧ v.NoText)
      (v.HasFlags d p) := by
  cases hf : ptrFlags d v.process.symbols m loader p with
  | ok flags => exact ⟨m, hm, hp.1, hp.2, loader, hl, hf⟩
  | error a =>
      have htext := ptrFlags_eq_error hf
      exact ⟨htext.1, m, hm, hexec, loader, hl, htext.2⟩

/-- `showPtrs` counts the offsets of every pointer. -/
theorem showPtrs_ensures {e : VMAInfo × PagePtrInfo} (he : v.EntryOk e)
    (hm : e.1 ∈ v.process.mappedVMAs) (hexec : checkFlags e.1.flags VM_EXEC = true)
    (hloader : (v.process.findLoaderByFileName e.1.name).isSome) :
    Ensures (e.2.showPtrs d v.process.symbols) (fun a => a = .noData ∧ v.NoText) fun stats =>
      Tally.Classified (v.HasFlags d) stats.entries ∧
        ∀ p, stats.count p = (e.2.wheres p).card := by
  obtain ⟨loader, hl⟩ := Option.isSome_iff_exists.mp hloader
  have hsum : Ensures (e.2.showPtrs d v.process.symbols) (fun a => a = .noData ∧ v.NoText)
      fun stats => Tally.Classified (v.HasFlags d) stats.entries ∧ ∀ p, stats.count p =
        (e.2.ptrs.entries.map fun ptr => if ptr.1 = p then ptr.2.card else 0).sum := by
    refine Ensures.foldlM (fun (done : List (Sigma fun _ : U64 => Finset Nat))
      (stats : Tally U64 U64) => Tally.Classified (v.HasFlags d) stats.entries ∧
      ∀ p, stats.count p = (done.map fun ptr => if ptr.1 = p then ptr.2.card else 0).sum)
      ⟨fun _ h => absurd h (by simp), fun _ => rfl⟩ ?_
    rintro done ⟨ptr, pos⟩ todo hsplit stats ⟨hclass, hcount⟩
    have hmem : ptr ∈ e.2.ptrs := by
      rw [AList.mem_keys, AList.keys, hsplit]
      simp [List.keys]
    have hfresh : ptr ∉ done.keys := by
      have hnd := e.2.ptrs.nodupKeys
      rw [hsplit, List.NodupKeys, List.keys, List.map_append, List.nodup_append] at hnd
      intro hdone
      exact hnd.2.2 ptr hdone ptr (by simp) rfl
    simp only [he.toLoader, he.toVMA, hl]
    refine (ptrFlags_ensures hm hexec hl (he.in_range ptr hmem)).bind fun flags hflags => ?_
    refine ⟨hclass.insert hflags, fun p => ?_⟩
    rw [Tally.count_insert, List.map_append, List.sum_append]
    simp only [List.map_cons, List.map_nil, List.sum_cons, List.sum_nil, Nat.add_zero]
    split
    · subst p
      rw [sum_of_notMem_keys hfresh Finset.card, Nat.zero_add]
    · rw [hcount, Nat.add_zero]
  refine hsum.mono fun stats h => ⟨h.1, fun p => ?_⟩
  rw [h.2 p, sum_of_key e.2.ptrs.nodupKeys p Finset.card, PagePtrInfo.wheres, AList.lookup]
  cases List.dlookup p e.2.ptrs.entries <;> rfl

theorem mergeStats_ensures (hdisj : v.process.mappedVMAs.Pairwise VMAInfo.Disjoint)
    {E : Abort → Prop} {glob_stats stats : Tally U64 U64}
    (hglob : Tally.Classified (v.HasFlags d) glob_stats.entries)
    (hstats : Tally.Classified (v.HasFlags d) stats.entries) :
    Ensures (mergeStats order glob_stats stats) E fun merged =>
      Tally.Classified (v.HasFlags d) merged.entries ∧
        ∀ p, merged.count p = glob_stats.count p + stats.count p := by
  have hperm := order.perm stats
  obtain ⟨merged, hmerge, hclass, hcount⟩ :=
    Tally.merge_spec (HasFlags.unique hdisj) hglob (hstats.perm hperm)
  rw [mergeStats, hmerge]
  refine ⟨hclass, fun p => ?_⟩
  rw [hcount, Tally.sum_perm hperm, Tally.sum_entries]

/-- Two executable mappings do not record the same pointer. -/
theorem recordedAt_card (hdisj : v.process.mappedVMAs.Pairwise VMAInfo.Disjoint) (vma : VMAInfo)
    (p : U64) :
    (v.recordedAt vma p).card = ((v.scan vma).map fun e => (e.2.wheres p).card).sum := by
  have hpair : (v.scan vma).Pairwise fun e e' => Disjoint (e.2.wheres p) (e'.2.wheres p) := by
    have hfst : ((v.scan vma).map Prod.fst).Pairwise VMAInfo.Disjoint := by
      rw [map_fst_scan]
      exact hdisj.sublist List.filter_sublist
    refine (List.pairwise_map.mp hfst).imp_of_mem fun {e e'} he he' hd => ?_
    rw [Finset.disjoint_left]
    intro pos h h'
    have h1 := (entryOk_scan vma e he).contains_of_wheres h
    have h2 := (entryOk_scan vma e' he').contains_of_wheres h'
    exact hd.not_in_both h1.1 h1.2 h2.1 h2.2
  exact card_foldr_union hpair

theorem validateDataPage_ensures (hdisj : v.process.mappedVMAs.Pairwise VMAInfo.Disjoint)
    (hloaders : ∀ m ∈ v.process.mappedVMAs, checkFlags m.flags VM_EXEC = true →
      (v.process.findLoaderByFileName m.name).isSome) (vma : VMAInfo) :
    Ensures (v.validateDataPage d order vma) (fun a => a = .noData ∧ v.NoText) fun stats =>
      Tally.Classified (v.HasFlags d) stats.entries ∧
        ∀ p, stats.count p = (v.recordedAt vma p).card := by
  simp only [recordedAt_card hdisj]
  unfold validateDataPage
  split
  · -- too short: nothing has been scanned
    have hscan : v.scan vma = v.range := by
      rw [scan, Nat.sub_eq_zero_of_le ‹_›]
      rfl
    refine ⟨fun _ h => absurd h (by simp), fun p => ?_⟩
    rw [hscan, range, List.map_map]
    symm
    refine List.sum_eq_zero fun n hn => ?_
    obtain ⟨m, _, rfl⟩ := List.mem_map.mp hn
    rfl
  · refine Ensures.foldlM (fun (done : List (VMAInfo × PagePtrInfo)) (stats : Tally U64 U64) =>
      Tally.Classified (v.HasFlags d) stats.entries ∧
      ∀ p, stats.count p = (done.map fun e => (e.2.wheres p).card).sum)
      ⟨fun _ h => absurd h (by simp), fun _ => rfl⟩ ?_
    rintro done e todo hsplit glob ⟨hclass, hcount⟩
    have he : e ∈ v.scan vma := by simp [hsplit]
    obtain ⟨hm, hexec⟩ := mem_of_mem_scan he
    refine (showPtrs_ensures (entryOk_scan vma e he) hm hexec (hloaders _ hm hexec)).bind ?_
    rintro stats ⟨hstats, hstatsCount⟩
    have hsum : ∀ p, ((done ++ [e]).map fun e => (e.2.wheres p).card).sum =
        glob.count p + stats.count p := by
      intro p
      rw [List.map_append, List.sum_append, hcount, hstatsCount]
      simp
    simp only [hsum]
    by_cases hempty : stats.entries.isEmpty = true
    · rw [if_pos hempty]
      refine ⟨hclass, fun p => ?_⟩
      rw [← Tally.sum_entries stats, List.isEmpty_iff.mp hempty]
      rfl
    · rw [if_neg hempty]
      exact mergeStats_ensures hdisj hclass hstats

/-- **No assertion of the merges fails, and no location is lost or counted twice**: the only
way for `validateProcess` to end early is a loader without a text segment, and otherwise the
count of every pointer is the number of the locations at which it has been recorded. -/
theorem validateProcess_counts (hdisj : v.process.mappedVMAs.Pairwise VMAInfo.Disjoint)
    (hloaders : ∀ m ∈ v.process.mappedVMAs, checkFlags m.flags VM_EXEC = true →
      (v.process.findLoaderByFileName m.name).isSome) :
    (∀ a, v.validateProcess d order = .error a → a = .noData ∧ v.NoText) ∧
    ∀ reports glob_stats, v.validateProcess d order = .ok (reports, glob_stats) →
      ∀ p, glob_stats.count p = (v.locations p).card := by
  have hall : Ensures (v.validateProcess d order) (fun a => a = .noData ∧ v.NoText) fun s =>
      Tally.Classified (v.HasFlags d) s.2.entries ∧ ∀ p, s.2.count p =
        ((v.process.mappedVMAs.filter fun vma => sectionCheck vma = .dataPage).map fun vma =>
          (v.recordedAt vma p).card).sum := by
    refine Ensures.foldlM (fun (done : List VMAInfo) (s : List TextReport × Tally U64 U64) =>
      Tally.Classified (v.HasFlags d) s.2.entries ∧ ∀ p, s.2.count p =
        ((done.filter fun vma => sectionCheck vma = .dataPage).map fun vma =>
          (v.recordedAt vma p).card).sum) ⟨fun _ h => absurd h (by simp), fun _ => rfl⟩ ?_
    rintro done vma todo _ s ⟨hclass, hcount⟩
    cases hcheck : sectionCheck vma with
    | dataPage =>
        refine (validateDataPage_ensures hdisj hloaders vma).bind ?_
        rintro stats ⟨hstats, hstatsCount⟩
        refine (mergeStats_ensures hdisj hclass hstats).bind ?_
        rintro merged ⟨hmerged, hmergedCount⟩
        refine ⟨hmerged, fun p => ?_⟩
        simp only [List.filter_append, List.filter_cons, hcheck, decide_true, if_true,
          List.filter_nil, List.map_append, List.map_cons, List.map_nil, List.sum_append,
          List.sum_cons, List.sum_nil, Nat.add_zero]
        rw [hmergedCount, hcount, hstatsCount]
    | codePage =>
        refine ⟨hclass, fun p => ?_⟩
        simp [List.filter_append, hcheck, hcount]
    | skipped =>
        refine ⟨hclass, fun p => ?_⟩
        simp [List.filter_append, hcheck, hcount]
  refine ⟨fun a ha => hall.of_error ha, fun reports glob_stats hok p => ?_⟩
  rw [(hall.of_ok hok).2 p, locations, Finset.card_sigma]
  refine (List.sum_toFinset _ ?_).symm
  exact (hdisj.imp fun h => h.ne).sublist List.filter_sublist

end

/-- The data of a library with one pointer, into the code of a program. -/
def onePointer : ProcessValidator where
  process :=
    { name := "/bin/prog"
      mappedVMAs := [libraryData, programCode]
      execLoader :=
        { name := "/bin/prog", textSegmentContent := [0x90], hostMemory := fun _ => 0,
          elffile := emptyElfFile }
      findLoaderByFileName := fun _ => some
        { name := "/lib/lib.so", textSegmentContent := [0x90], hostMemory := fun _ => 0,
          elffile := emptyElfFile }
      symbols := { getElfSymbolName := fun _ => "", getContainingSymbol := fun _ => 0 } }
  vmi := { readVectorFromVA := fun _ _ _ => [0x00, 0x35, 0, 0, 0, 0, 0, 0, 0, 0] }

def noInstructions : Disassembler where
  disasm := fun _ _ => none
  size_pos := by
    intro _ _ _ h
    cases h
  size_le := by
    intro _ _ _ h
    cases h

def storedOrder : IterationOrder where
  entries := AList.entries
  perm := fun _ => List.Perm.refl _

def heapData : VMAInfo where
  start := 0x8000
  stop := 0x9000
  flags := 0x3
  name := "[heap]"
  start_lt_stop := by decide

/-- The same pointer in the data of the library and on the heap. -/
def twoPointers : ProcessValidator where
  process := { onePointer.process with mappedVMAs := [libraryData, heapData, programCode] }
  vmi := onePointer.vmi

theorem twoPointers_disjoint : twoPointers.process.mappedVMAs.Pairwise VMAInfo.Disjoint := by
  simp [twoPointers, libraryData, heapData, programCode, textOf, VMAInfo.Disjoint]

/-- The merge for the heap meets the entry that the library has left. -/
theorem validateProcess_twoPointers :
    ∃ reports glob_stats,
      twoPointers.validateProcess noInstructions storedOrder = .ok (reports, glob_stats) ∧
      glob_stats.count 0x3500 = 2 := by
  obtain ⟨herror, hcount⟩ := validateProcess_counts (d := noInstructions) (v := twoPointers)
    twoPointers_disjoint (fun _ _ _ => rfl)
  cases hresult : twoPointers.validateProcess noInstructions storedOrder with
  | error a =>
      obtain ⟨_, _, _, _, loader, hl, hnil⟩ := herror a hresult
      cases hl
      cases hnil
  | ok s =>
      have htwo : (twoPointers.locations 0x3500).card = 2 := by decide
      exact ⟨s.1, s.2, rfl, (hcount s.1 s.2 hresult 0x3500).trans htwo⟩

end ProcessValidator

end KernInt
