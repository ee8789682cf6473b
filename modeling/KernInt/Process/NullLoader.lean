import KernInt.Process.Gadget

set_option autoImplicit false

/-! # Mappings without a loader

`findLoaderByFileName` returns null for an executable mapping of no loaded file: anonymous memory,
or a plain file. `showPtrs` has a rule for pointers into such a mapping (`PTR_PLAIN_FILE`), but
looks for the section of a pointer first, through the loader. `printMappingInfo` asks for the
loader with the two cases the wrong way round, but it is only called behind `showPtrs`, for
mappings with pointers. So the null loader is used exactly if there is a pointer to classify
(`nullLoaderHandled_iff`).
-/

namespace KernInt

open Lib

namespace PagePtrInfo

/-- The pointers of a mapping after `addPtr` has been called for all of `found`, offset and value
of each. -/
def recorded (process : Process) (toVMA : VMAInfo) (found : List (Nat × U64)) : PagePtrInfo :=
  found.foldl (fun info ptr => info.addPtr ptr.1 ptr.2) (new process toVMA)

/-- With a loader, the number of symbols is printed as `0`; without one, it is asked for it. -/
def printMappingInfo (info : PagePtrInfo) (pid : Int) (process : Process) (fromVMA : VMAInfo) :
    Except Abort String :=
  let ss := "Mapping summary;" ++ toString pid ++ ";" ++ process.name ++ ";" ++ fromVMA.name ++
    ";" ++ info.toVMA.name
  match info.toLoader with
  | some _ => .ok (ss ++ ";0")
  | none => .error .nullLoader

/-- What `validateDataPage` does with a mapping when all pointers have been recorded: nothing is
printed for a mapping without pointers. -/
def showMapping (d : Disassembler) (info : PagePtrInfo) (pid : Int) (process : Process)
    (fromVMA : VMAInfo) : Except Abort (Tally U64 U64 × Option String) := do
  let stats ← info.showPtrs d process.symbols
  if stats.entries.isEmpty then return (stats, none)
  let line ← info.printMappingInfo pid process fromVMA
  return (stats, some line)

/-- The null loader is never used, neither to classify the pointers nor to print the mapping, and a
pointer into a named mapping without a loader counts as a pointer to a plain file. -/
structure NullLoaderHandled (d : Disassembler) (info : PagePtrInfo) (pid : Int)
    (process : Process) (fromVMA : VMAInfo) : Prop where
  showPtrs : info.showPtrs d process.symbols ≠ .error .nullLoader
  showMapping : info.showMapping d pid process fromVMA ≠ .error .nullLoader
  plain_file : info.toLoader = none → info.toVMA.name ≠ "" →
    ∃ ptr_class, info.showPtrs d process.symbols = .ok ptr_class ∧
      ∀ p ∈ info.ptrs, ∃ n flags, ptr_class.lookup p = some (n, flags) ∧
        checkFlags flags PTR_PLAIN_FILE = true

section

variable {d : Disassembler} {symbols : SymbolManager} {process : Process} {toVMA : VMAInfo}
  {info : PagePtrInfo}

/-- Recording pointers changes neither the mapping nor its loader. -/
theorem recorded_spec (found : List (Nat × U64)) :
    (recorded process toVMA found).toLoader = process.findLoaderByFileName toVMA.name ∧
      (recorded process toVMA found).toVMA = toVMA := by
  unfold recorded
  suffices ∀ info : PagePtrInfo, info.toLoader = process.findLoaderByFileName toVMA.name →
      info.toVMA = toVMA →
      (found.foldl (fun info ptr => info.addPtr ptr.1 ptr.2) info).toLoader =
          process.findLoaderByFileName toVMA.name ∧
        (found.foldl (fun info ptr => info.addPtr ptr.1 ptr.2) info).toVMA = toVMA from
    this _ rfl rfl
  induction found with
  | nil => exact fun info hloader hvma => ⟨hloader, hvma⟩
  | cons ptr found ih =>
      intro info hloader hvma
      rw [List.foldl_cons]
      exact ih _ hloader hvma

/-- Without a loader, the first pointer is the last one. -/
theorem showPtrs_of_none (hnone : info.toLoader = none) :
    info.showPtrs d symbols =
      if info.ptrs.entries = [] then .ok ∅ else .error .nullLoader := by
  unfold showPtrs
  cases hentries : info.ptrs.entries with
  | nil => rfl
  | cons ptr ptrs =>
      rw [List.foldlM_cons, hnone]
      rfl

/-- With a loader, the round for a pointer does not use a null loader. -/
theorem showPtrs_of_some {toLoader : ElfUserspaceLoader} (hsome : info.toLoader = some toLoader) :
    info.showPtrs d symbols ≠ .error .nullLoader := by
  have hall : Ensures (info.showPtrs d symbols) (fun a => a ≠ .nullLoader) fun _ => True := by
    refine Ensures.foldlM (fun _ _ => True) trivial ?_
    intro done ptr todo _ ptr_class _
    rw [hsome]
    dsimp only
    cases hflags : ptrFlags d symbols info.toVMA toLoader ptr.1 with
    | ok flags => exact trivial
    | error a =>
        have hdata := ptrFlags_eq_error hflags
        rw [hdata.1]
        exact fun heq => nomatch heq
  intro herror
  exact hall.of_error herror rfl

/-- `showPtrs` uses the null loader exactly if there is none and some pointer has been recorded. -/
theorem showPtrs_nullLoader_iff : info.showPtrs d symbols = .error .nullLoader ↔
    info.toLoader = none ∧ info.ptrs.entries ≠ [] := by
  cases hloader : info.toLoader with
  | none =>
      rw [showPtrs_of_none hloader]
      simp
  | some toLoader =>
      simp [showPtrs_of_some hloader]

/-- It is never left to `printMappingInfo`. -/
theorem showMapping_nullLoader_iff {pid : Int} {fromVMA : VMAInfo} :
    info.showMapping d pid process fromVMA = .error .nullLoader ↔
      info.toLoader = none ∧ info.ptrs.entries ≠ [] := by
  unfold showMapping
  cases hloader : info.toLoader with
  | none =>
      rw [showPtrs_of_none hloader]
      split
      · rename_i hempty
        exact iff_of_false (fun heq => nomatch heq) fun h => h.2 hempty
      · rename_i hptrs
        exact iff_of_true rfl ⟨rfl, hptrs⟩
  | some toLoader =>
      refine iff_of_false (fun herror => ?_) fun h => nomatch h.1
      cases hstats : info.showPtrs d process.symbols with
      | error a =>
          rw [hstats] at herror
          cases herror
          exact showPtrs_of_some hloader hstats
      | ok stats =>
          rw [hstats, bind_of_ok rfl, printMappingInfo, hloader] at herror
          split at herror <;> cases herror

/-- Every call of `addPtr` leaves a pointer. -/
theorem recorded_ptrs_eq_nil_iff {found : List (Nat × U64)} :
    (recorded process toVMA found).ptrs.entries = [] ↔ found = [] := by
  constructor
  · intro hempty
    cases found using List.reverseRecOn with
    | nil => rfl
    | append_singleton found ptr =>
        rw [recorded, List.foldl_append, List.foldl_cons, List.foldl_nil, addPtr,
          AList.entries_insert] at hempty
        cases hempty
  · rintro rfl
    rfl

/-- **The null loader is handled** for a mapping that has none as long as nothing points to it. -/
theorem nullLoaderHandled_iff (d : Disassembler) (pid : Int) (process : Process)
    (fromVMA toVMA : VMAInfo) (found : List (Nat × U64)) :
    NullLoaderHandled d (recorded process toVMA found) pid process fromVMA ↔
      (process.findLoaderByFileName toVMA.name).isSome ∨ found = [] := by
  have hloader : (recorded process toVMA found).toLoader =
      process.findLoaderByFileName toVMA.name := (recorded_spec found).1
  rw [← hloader, ← recorded_ptrs_eq_nil_iff]
  constructor
  · intro h
    by_contra hnot
    rw [not_or, Option.not_isSome_iff_eq_none] at hnot
    exact h.showPtrs (showPtrs_nullLoader_iff.mpr hnot)
  · intro h
    have hnone : ¬ ((recorded process toVMA found).toLoader = none ∧
        (recorded process toVMA found).ptrs.entries ≠ []) := by
      rintro ⟨hnull, hptrs⟩
      rw [hnull] at h
      exact h.elim (fun hsome => nomatch hsome) hptrs
    refine ⟨fun herror => hnone (showPtrs_nullLoader_iff.mp herror),
      fun herror => hnone (showMapping_nullLoader_iff.mp herror), fun hnull _ => ?_⟩
    -- without a loader, there is no pointer to be classified
    have hempty : (recorded process toVMA found).ptrs.entries = [] := by
      by_contra hptrs
      exact hnone ⟨hnull, hptrs⟩
    refine ⟨∅, by rw [showPtrs_of_none hnull, if_pos hempty], fun p hp => ?_⟩
    rw [AList.mem_keys, AList.keys, hempty] at hp
    cases hp

end

theorem jitCode_lt : (0x3000 : U64) < 0x4000 := by
  decide

/-- Code that no loaded file backs. -/
def jitCode : VMAInfo := textOf "/tmp/jit" 0x3000 0x4000 jitCode_lt

def jitProcess : Process where
  name := "/bin/prog"
  mappedVMAs := [libraryData, jitCode]
  execLoader :=
    { name := "/bin/prog", textSegmentContent := [0x90], hostMemory := fun _ => 0,
      elffile := ProcessValidator.emptyElfFile }
  findLoaderByFileName := fun _ => none
  symbols := noSymbols

/-- One pointer to it, in the data of a library. -/
theorem jitPointer_nullLoader :
    (recorded jitProcess jitCode [(0, 0x3500)]).showPtrs nopRet jitProcess.symbols =
        .error .nullLoader ∧
      ¬ NullLoaderHandled nopRet (recorded jitProcess jitCode [(0, 0x3500)]) 1 jitProcess
        libraryData := by
  have hnull : (recorded jitProcess jitCode [(0, 0x3500)]).showPtrs nopRet jitProcess.symbols =
      .error .nullLoader := by
    refine showPtrs_nullLoader_iff.mpr ⟨rfl, ?_⟩
    decide
  exact ⟨hnull, fun h => h.showPtrs hnull⟩

end PagePtrInfo

end KernInt
