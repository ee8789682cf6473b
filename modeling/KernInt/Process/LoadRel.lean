import KernInt.Process.LoadLibrary
import KernInt.Process.Process

set_option autoImplicit false

/-! # The libraries of a process

When the first process is loaded, its program is parsed and its dependencies are loaded, the vdso is
entered under a name of its own, and then `processLoadRel` goes through the mappings. A mapping
whose name has no loader yet is looked up by the last part of its path; if the file that is found
is the mapped one, the mapping gets a loader. Relocations are applied, and data compared, only for
mappings with a loader.

Which mappings these are does not depend on the order in which the guest lists them
(`loadProcess_exact`), if what is needed is on the disk (`Analysable`). A mapped library that
another file of its name hides on the search path is passed over. A process that is loaded later
meets the libraries of those before it, whose clean-up is commented out.
-/

namespace KernInt

open Lib

/-- `fs::path(name).filename()` of a path that does not end with a slash. -/
def pathFilename (name : String) : String :=
  String.ofList (name.toList.reverse.takeWhile (· ≠ '/')).reverse

/-- The variables of `processLoadRel`, with the libraries of the task manager. -/
structure LoadRelState where
  libraries : LibraryState
  loader_mappings : List VMAInfo
  loaders : Finset LibraryLoader

/-- Where the program is no ELF file, a null pointer is followed. -/
def loadExec (disk : LibraryDisk) (n : Nat) (exe : String) (state : LibraryState) :
    Except LoadStop (LibraryState × LibraryLoader) :=
  match disk.dependencies exe with
  | none => .error .assertion
  | some deps => do
      let (state, library) := state.parseUserspace exe
      let state ← loadDependencies (loadLibrary disk n) deps state
      .ok (state.store exe library, library)

def LibraryState.loadVDSO (state : LibraryState) : LibraryState × LibraryLoader :=
  match state.libraryMap "[vdso]" with
  | some vdsoLoader => (state, vdsoLoader)
  | none =>
      let (state, vdsoLoader) := state.parseUserspace "[vdso]"
      (state.store "[vdso]" vdsoLoader, vdsoLoader)

/-- The loader of a mapping, which is loaded if it is a file that is not known. -/
def mappingLoader (disk : LibraryDisk) (n : Nat) (state : LibraryState) (vma : VMAInfo) :
    Except LoadStop (LibraryState × Option LibraryLoader) :=
  match state.libraryMap vma.name with
  | some loader => .ok (state, some loader)
  | none =>
      if vma.ino = 0 then .ok (state, none)
      else do
        let (state, _) ← loadLibrary disk n state (pathFilename vma.name)
        .ok (state, state.libraryMap vma.name)

def loadRelRound (disk : LibraryDisk) (n : Nat) (s : LoadRelState) (vma : VMAInfo) :
    Except LoadStop LoadRelState := do
  let (libraries, loader) ← mappingLoader disk n s.libraries vma
  match loader with
  | none => .ok { s with libraries }
  | some loader =>
      .ok { libraries, loader_mappings := s.loader_mappings ++ [vma],
            loaders := insert loader s.loaders }

/-- The constructor of a process, up to the end of the loop over the mappings. The task manager
still has the libraries of the processes before. -/
def constructProcess (disk : LibraryDisk) (n : Nat) (exe : String) (mappedVMAs : List VMAInfo)
    (libraries : LibraryState) : Except LoadStop LoadRelState := do
  let (state, _) ← loadExec disk n exe libraries
  mappedVMAs.foldlM (loadRelRound disk n) ⟨state.loadVDSO.1, [], ∅⟩

/-- The first process. -/
def loadProcess (disk : LibraryDisk) (n : Nat) (exe : String) (mappedVMAs : List VMAInfo) :
    Except LoadStop LoadRelState :=
  constructProcess disk n exe mappedVMAs .empty

/-! ## What is expected -/

/-- A mapping that gets a loader: of the program, of the vdso, or of an ELF file that is found
under the last part of its path. -/
def VMAInfo.Analysed (disk : LibraryDisk) (exe : String) (vma : VMAInfo) : Prop :=
  vma.name = exe ∨ vma.name = "[vdso]" ∨
    (vma.ino ≠ 0 ∧ disk.findLibraryFile (pathFilename vma.name) = some vma.name ∧
      (disk.dependencies vma.name).isSome)

instance (disk : LibraryDisk) (exe : String) : DecidablePred (VMAInfo.Analysed disk exe) :=
  fun _ => inferInstanceAs (Decidable (_ ∨ _))

/-- A file that is loaded by itself: the program, or an ELF file that is found under the last part
of the path of a mapped file. -/
def IsRoot (disk : LibraryDisk) (exe : String) (mappedVMAs : List VMAInfo) (g : String) : Prop :=
  g = exe ∨ ∃ vma ∈ mappedVMAs, vma.ino ≠ 0 ∧
    disk.findLibraryFile (pathFilename vma.name) = some g ∧ (disk.dependencies g).isSome

/-- What is loaded has its dependencies on the disk, and none of it needs itself; the vdso is no
file; and a mapping of a file that is found at all is found under the last part of its path. -/
structure Analysable (disk : LibraryDisk) (exe : String) (mappedVMAs : List VMAInfo) : Prop where
  complete : ∀ g, IsRoot disk exe mappedVMAs g → ∀ h ∈ disk.reach g, disk.Complete h
  acyclic : ∀ g, IsRoot disk exe mappedVMAs g → ∀ h ∈ disk.reach g,
    ¬ Relation.TransGen disk.Needs h h
  vdso : exe ≠ "[vdso]" ∧ disk.dependencies "[vdso]" = none ∧
    ∀ name, disk.findLibraryFile name ≠ some "[vdso]"
  named : ∀ vma ∈ mappedVMAs, ∀ name, disk.findLibraryFile name = some vma.name →
    vma.ino ≠ 0 ∧ disk.findLibraryFile (pathFilename vma.name) = some vma.name

/-! ## The program and the vdso -/

open LibraryState

section

variable {disk : LibraryDisk} {exe : String} {mappedVMAs : List VMAInfo}

/-- From some depth on, a root is loaded. -/
theorem exists_depth_loadsRoot (h : Analysable disk exe mappedVMAs) {g : String}
    (hg : IsRoot disk exe mappedVMAs g) :
    ∃ N, ∀ n ≥ N, ∀ loading name, (∀ f ∈ disk.reach g, f ∉ loading) →
      disk.findLibraryFile name = some g →
      LoadsFile disk .empty loading g fun state => loadLibrary disk n state name := by
  have hacyc : ∀ f ∈ disk.reach g, ¬ LibraryState.empty.Cached f →
      ¬ Relation.TransGen disk.Needs f f := fun f hf _ => h.acyclic g hg f hf
  exact exists_depth_loadsFile (acc_of_acyclic hacyc) (h.complete g hg) hacyc

/-- From some depth on, the program is loaded: none of its dependencies leads back to it. -/
theorem exists_depth_loadExec (h : Analysable disk exe mappedVMAs) :
    ∃ N, ∀ n ≥ N, ∃ state library, loadExec disk n exe .empty = .ok (state, library) ∧
      state.Inv disk [] ∧ LibraryState.Loaded (disk.reach exe) .empty state := by
  have hroot : IsRoot disk exe mappedVMAs exe := .inl rfl
  have hexe : ¬ LibraryState.empty.Cached exe := by
    intro hc
    cases hc
  obtain ⟨deps, hdeps, hfound⟩ := h.complete exe hroot exe Relation.ReflTransGen.refl
  have hall : ∀ dep ∈ deps, ∃ N, ∀ n ≥ N, ∃ g, disk.findLibraryFile dep = some g ∧
      LoadsFile disk .empty [exe] g fun state => loadLibrary disk n state dep := by
    intro dep hdep
    obtain ⟨g, hg⟩ := hfound dep hdep
    have hneeds : disk.Needs exe g := ⟨deps, hdeps, dep, hdep, hg⟩
    have hsub : ∀ f ∈ disk.reach g, f ∈ disk.reach exe := fun f hf =>
      disk.reach_trans (disk.mem_reach_of_needs hneeds) hf
    have hacyc : ∀ f ∈ disk.reach g, ¬ LibraryState.empty.Cached f →
        ¬ Relation.TransGen disk.Needs f f := fun f hf _ => h.acyclic exe hroot f (hsub f hf)
    obtain ⟨N, hN⟩ := exists_depth_loadsFile (acc_of_acyclic hacyc)
      (fun f hf => h.complete exe hroot f (hsub f hf)) hacyc
    refine ⟨N, fun n hn => ⟨g, hg, hN n hn [exe] dep (fun f hf hmem => ?_) hg⟩⟩
    obtain rfl := List.mem_singleton.mp hmem
    exact h.acyclic f hroot f Relation.ReflTransGen.refl (Relation.TransGen.head' hneeds hf)
  obtain ⟨N, hN⟩ := exists_common_depth hall
  refine ⟨N, fun n hn => ?_⟩
  obtain ⟨state, hrun, hinv, hloaded⟩ := loadDependencies_ok (fun dep hdep => hN dep hdep n hn)
    ((inv_empty disk).parse hexe List.not_mem_nil) fun f hf => hf
  have hlibrary : state.parsed[0]? = some exe := by
    obtain ⟨l, hl, -⟩ := hloaded.parsed
    rw [hl]
    rfl
  have hneeds : ∀ g, disk.Needs exe g → state.Cached g := by
    rintro g ⟨deps', hdeps', dep, hdep, hg⟩
    rw [hdeps] at hdeps'
    cases hdeps'
    exact (hloaded.cached_iff g).mpr (.inr ⟨dep, hdep, g, hg, Relation.ReflTransGen.refl⟩)
  let library : LibraryLoader := ⟨exe, 0⟩
  refine ⟨state.store exe library, library, ?_,
    hinv.store List.not_mem_nil ⟨rfl, hlibrary⟩ hneeds, hloaded.store hdeps hexe library⟩
  simp only [loadExec, hdeps]
  rw [hrun]
  rfl

/-- The vdso gets a loader, and nothing else changes. -/
theorem loadVDSO_spec (h : Analysable disk exe mappedVMAs) {state : LibraryState}
    (hinv : state.Inv disk []) (hcached : ¬ state.Cached "[vdso]") :
    state.loadVDSO.1.Inv disk [] ∧
      ∀ g, state.loadVDSO.1.Cached g ↔ g = "[vdso]" ∨ state.Cached g := by
  have hmap : state.libraryMap "[vdso]" = none := by
    cases hm : state.libraryMap "[vdso]" with
    | none => rfl
    | some library => exact absurd (Option.isSome_iff_exists.mpr ⟨library, hm⟩) hcached
  have heq : state.loadVDSO.1 = (state.parseUserspace "[vdso]").1.store "[vdso]"
      (state.parseUserspace "[vdso]").2 := by
    simp only [LibraryState.loadVDSO, hmap]
  have hneeds : ∀ g, disk.Needs "[vdso]" g → (state.parseUserspace "[vdso]").1.Cached g := by
    rintro g ⟨deps, hdeps, -⟩
    rw [h.vdso.2.1] at hdeps
    cases hdeps
  have hserial : (state.parseUserspace "[vdso]").1.parsed[state.parsed.length]? =
      some "[vdso]" := by
    show (state.parsed ++ ["[vdso]"])[state.parsed.length]? = some "[vdso]"
    simp
  rw [heq]
  exact ⟨(hinv.parse hcached List.not_mem_nil).store List.not_mem_nil ⟨rfl, hserial⟩ hneeds,
    fun g => cached_store_iff⟩

/-! ## The loop over the mappings -/

/-- What is known while the mappings are gone through: the program and the vdso, and besides them
only ELF files that are found under some name. -/
structure KnownLibraries (disk : LibraryDisk) (exe : String) (state : LibraryState) : Prop where
  inv : state.Inv disk []
  exec : state.Cached exe
  vdso : state.Cached "[vdso]"
  known : ∀ g, state.Cached g → g = exe ∨ g = "[vdso]" ∨
    ((∃ name, disk.findLibraryFile name = some g) ∧ (disk.dependencies g).isSome)

/-- Beside the first file, a file that is reached is found under some name. -/
theorem found_of_mem_reach {g f : String} (hf : f ∈ disk.reach g) :
    f = g ∨ ∃ name, disk.findLibraryFile name = some f := by
  rcases Relation.ReflTransGen.cases_tail hf with rfl | ⟨_, _, _, _, dep, _, hfind⟩
  · exact .inl rfl
  · exact .inr ⟨dep, hfind⟩

/-- The mapping of a file that is in the map is to be analysed. -/
theorem KnownLibraries.analysed_of_cached (h : Analysable disk exe mappedVMAs)
    {state : LibraryState} (hs : KnownLibraries disk exe state) {vma : VMAInfo}
    (hvma : vma ∈ mappedVMAs) (hcached : state.Cached vma.name) : vma.Analysed disk exe := by
  obtain hexe | hvdso | ⟨⟨name, hname⟩, helf⟩ := hs.known vma.name hcached
  · exact .inl hexe
  · exact .inr (.inl hvdso)
  · obtain ⟨hino, hfind⟩ := h.named vma hvma name hname
    exact .inr (.inr ⟨hino, hfind, helf⟩)

/-- What a mapping that is not in the map has to be. -/
theorem KnownLibraries.analysed_iff {state : LibraryState} (hs : KnownLibraries disk exe state)
    {vma : VMAInfo} (hcached : ¬ state.Cached vma.name) :
    vma.Analysed disk exe ↔ vma.ino ≠ 0 ∧
      disk.findLibraryFile (pathFilename vma.name) = some vma.name ∧
      (disk.dependencies vma.name).isSome := by
  constructor
  · rintro (hexe | hvdso | h)
    · exact absurd (hexe ▸ hs.exec) hcached
    · exact absurd (hvdso ▸ hs.vdso) hcached
    · exact h
  · exact fun h => .inr (.inr h)

/-- What is not an ELF file is not known, but for the vdso. -/
theorem KnownLibraries.not_cached_of_not_elf (h : Analysable disk exe mappedVMAs)
    {state : LibraryState} (hs : KnownLibraries disk exe state) {g : String}
    (hvdso : g ≠ "[vdso]") (helf : disk.dependencies g = none) : ¬ state.Cached g := by
  intro hcached
  rcases hs.known g hcached with rfl | rfl | ⟨-, helf'⟩
  · obtain ⟨deps, hdeps, -⟩ := h.complete g (.inl rfl) g Relation.ReflTransGen.refl
    rw [helf] at hdeps
    cases hdeps
  · exact hvdso rfl
  · rw [helf] at helf'
    cases helf'

/-- The libraries that are known when a root has been loaded. -/
theorem KnownLibraries.load (h : Analysable disk exe mappedVMAs) {state state' : LibraryState}
    (hs : KnownLibraries disk exe state) {g name : String} (hroot : IsRoot disk exe mappedVMAs g)
    (hg : disk.findLibraryFile name = some g) (hinv : state'.Inv disk [])
    (hloaded : LibraryState.Loaded (disk.reach g) state state') :
    KnownLibraries disk exe state' where
  inv := hinv
  exec := (hloaded.cached_iff exe).mpr (.inl hs.exec)
  vdso := (hloaded.cached_iff "[vdso]").mpr (.inl hs.vdso)
  known f hf := by
    rcases (hloaded.cached_iff f).mp hf with hf | hf
    · exact hs.known f hf
    · obtain ⟨deps, hdeps, -⟩ := h.complete g hroot f hf
      have helf : (disk.dependencies f).isSome := Option.isSome_iff_exists.mpr ⟨deps, hdeps⟩
      rcases found_of_mem_reach hf with rfl | hfound
      · exact .inr (.inr ⟨⟨name, hg⟩, helf⟩)
      · exact .inr (.inr ⟨hfound, helf⟩)

/-- The loader that a mapping gets: it gets one if it is to be analysed, and no mapping loses its
loader. -/
def FindsLoader (disk : LibraryDisk) (exe : String) (vma : VMAInfo) (n : Nat) : Prop :=
  ∀ state, KnownLibraries disk exe state →
    ∃ state', mappingLoader disk n state vma = .ok (state', state'.libraryMap vma.name) ∧
      KnownLibraries disk exe state' ∧
      (∀ g library, state.libraryMap g = some library → state'.libraryMap g = some library) ∧
      (state'.Cached vma.name ↔ vma.Analysed disk exe)

theorem mappingLoader_of_cached {state : LibraryState} {vma : VMAInfo} (n : Nat)
    (hcached : state.Cached vma.name) :
    mappingLoader disk n state vma = .ok (state, state.libraryMap vma.name) := by
  obtain ⟨loader, hloader⟩ := Option.isSome_iff_exists.mp hcached
  simp only [mappingLoader, hloader]

theorem mappingLoader_of_not_cached {state state' : LibraryState} {vma : VMAInfo} {n : Nat}
    {library : Option LibraryLoader} (hcached : ¬ state.Cached vma.name) (hino : vma.ino ≠ 0)
    (hload : loadLibrary disk n state (pathFilename vma.name) = .ok (state', library)) :
    mappingLoader disk n state vma = .ok (state', state'.libraryMap vma.name) := by
  have hmap : state.libraryMap vma.name = none := Option.not_isSome_iff_eq_none.mp hcached
  simp only [mappingLoader, hmap, if_neg hino, hload]
  rfl

/-- Where nothing is loaded, a mapping has a loader only if it had one before. -/
theorem findsLoader_of_unchanged (h : Analysable disk exe mappedVMAs) {vma : VMAInfo}
    (hvma : vma ∈ mappedVMAs) {n : Nat}
    (hrun : ∀ state, KnownLibraries disk exe state → ¬ state.Cached vma.name →
      mappingLoader disk n state vma = .ok (state, state.libraryMap vma.name))
    (hnot : ¬ (vma.ino ≠ 0 ∧ disk.findLibraryFile (pathFilename vma.name) = some vma.name ∧
      (disk.dependencies vma.name).isSome)) : FindsLoader disk exe vma n := by
  intro state hs
  by_cases hcached : state.Cached vma.name
  · exact ⟨state, mappingLoader_of_cached n hcached, hs, fun _ _ hg => hg,
      iff_of_true hcached (hs.analysed_of_cached h hvma hcached)⟩
  · exact ⟨state, hrun state hs hcached, hs, fun _ _ hg => hg,
      iff_of_false hcached fun ha => hnot ((hs.analysed_iff hcached).mp ha)⟩

/-- A mapping under whose name an ELF file is found, which is loaded. -/
theorem findsLoader_of_loadsRoot (h : Analysable disk exe mappedVMAs) {vma : VMAInfo}
    (hvma : vma ∈ mappedVMAs) (hino : vma.ino ≠ 0) {g : String}
    (hg : disk.findLibraryFile (pathFilename vma.name) = some g)
    (helf : (disk.dependencies g).isSome) {n : Nat}
    (hload : LoadsFile disk .empty [] g fun state =>
      loadLibrary disk n state (pathFilename vma.name)) : FindsLoader disk exe vma n := by
  intro state hs
  by_cases hcached : state.Cached vma.name
  · exact ⟨state, mappingLoader_of_cached n hcached, hs, fun _ _ hg => hg,
      iff_of_true hcached (hs.analysed_of_cached h hvma hcached)⟩
  have hroot : IsRoot disk exe mappedVMAs g := .inr ⟨vma, hvma, hino, hg, helf⟩
  obtain ⟨state', library, hrun, hinv, hloaded⟩ :=
    hload state hs.inv fun f hf => by cases hf
  have hs' : KnownLibraries disk exe state' := hs.load h hroot hg hinv hloaded
  refine ⟨state', mappingLoader_of_not_cached hcached hino hrun, hs', hloaded.kept, ?_⟩
  constructor
  · exact hs'.analysed_of_cached h hvma
  · intro ha
    -- the file of the mapping is the one that was found
    obtain ⟨-, hname, -⟩ := (hs.analysed_iff hcached).mp ha
    rw [hg] at hname
    cases hname
    exact (hloaded.cached_iff _).mpr (.inr Relation.ReflTransGen.refl)

/-- From some depth on, each mapping gets its loader. -/
theorem exists_depth_findsLoader (h : Analysable disk exe mappedVMAs) {vma : VMAInfo}
    (hvma : vma ∈ mappedVMAs) : ∃ N, ∀ n ≥ N, FindsLoader disk exe vma n := by
  by_cases hino : vma.ino = 0
  · refine ⟨0, fun n _ => findsLoader_of_unchanged h hvma (fun state hs hcached => ?_)
      fun ha => ha.1 hino⟩
    have hmap : state.libraryMap vma.name = none := Option.not_isSome_iff_eq_none.mp hcached
    simp only [mappingLoader, hmap, if_pos hino]
  cases hg : disk.findLibraryFile (pathFilename vma.name) with
  | none =>
      refine ⟨1, fun n hn => findsLoader_of_unchanged h hvma (fun state hs hcached => ?_) ?_⟩
      · obtain ⟨n, rfl⟩ : ∃ k, n = k + 1 := ⟨n - 1, by omega⟩
        have hload : loadLibrary disk (n + 1) state (pathFilename vma.name) =
            .ok (state, none) := by simp only [loadLibrary, hg]
        exact mappingLoader_of_not_cached hcached hino hload
      · rintro ⟨-, hname, -⟩
        rw [hg] at hname
        cases hname
  | some g =>
      cases helf : disk.dependencies g with
      | none =>
          refine ⟨1, fun n hn => findsLoader_of_unchanged h hvma (fun state hs hcached => ?_) ?_⟩
          · obtain ⟨n, rfl⟩ : ∃ k, n = k + 1 := ⟨n - 1, by omega⟩
            have hvdso : g ≠ "[vdso]" := by
              rintro rfl
              exact h.vdso.2.2 _ hg
            have hmap : state.libraryMap g = none :=
              Option.not_isSome_iff_eq_none.mp (hs.not_cached_of_not_elf h hvdso helf)
            have hload : loadLibrary disk (n + 1) state (pathFilename vma.name) =
                .ok (state, none) := by simp only [loadLibrary, hg, hmap, helf]
            exact mappingLoader_of_not_cached hcached hino hload
          · rintro ⟨-, hname, helf'⟩
            rw [hg] at hname
            cases hname
            rw [helf] at helf'
            cases helf'
      | some deps =>
          have helf' : (disk.dependencies g).isSome := Option.isSome_iff_exists.mpr ⟨deps, helf⟩
          obtain ⟨N, hN⟩ := exists_depth_loadsRoot h (.inr ⟨vma, hvma, hino, hg, helf'⟩)
          exact ⟨N, fun n hn => findsLoader_of_loadsRoot h hvma hino hg helf'
            (hN n hn [] (pathFilename vma.name) (fun _ _ => List.not_mem_nil) hg)⟩

/-- The loaders are those of the mappings that have been gone through. -/
structure LoadRelInv (disk : LibraryDisk) (exe : String) (s : LoadRelState) : Prop where
  libraries : KnownLibraries disk exe s.libraries
  cached : ∀ vma ∈ s.loader_mappings, s.libraries.Cached vma.name
  loaders : ∀ l, l ∈ s.loaders ↔
    ∃ vma ∈ s.loader_mappings, s.libraries.libraryMap vma.name = some l

/-- A mapping that has a loader keeps it. -/
theorem libraryMap_eq_some_iff {state state' : LibraryState} {g : String} (hg : state.Cached g)
    (hkept : ∀ g library, state.libraryMap g = some library → state'.libraryMap g = some library)
    (l : LibraryLoader) : state'.libraryMap g = some l ↔ state.libraryMap g = some l := by
  obtain ⟨library, hlibrary⟩ := Option.isSome_iff_exists.mp hg
  rw [hlibrary, hkept g library hlibrary]

theorem loadRelRound_spec {vma : VMAInfo} {n : Nat} (hfinds : FindsLoader disk exe vma n)
    {s : LoadRelState} (hs : LoadRelInv disk exe s) :
    ∃ s', loadRelRound disk n s vma = .ok s' ∧ LoadRelInv disk exe s' ∧
      s'.loader_mappings = s.loader_mappings ++ [vma].filter (VMAInfo.Analysed disk exe) := by
  obtain ⟨state, hrun, hstate, hkept, hiff⟩ := hfinds s.libraries hs.libraries
  have hold : ∀ l, l ∈ s.loaders ↔
      ∃ vma ∈ s.loader_mappings, state.libraryMap vma.name = some l := by
    intro l
    rw [hs.loaders]
    refine exists_congr fun v => and_congr_right fun hv => ?_
    exact (libraryMap_eq_some_iff (hs.cached v hv) hkept l).symm
  have hcached : ∀ v ∈ s.loader_mappings, state.Cached v.name := by
    intro v hv
    obtain ⟨library, hlibrary⟩ := Option.isSome_iff_exists.mp (hs.cached v hv)
    exact Option.isSome_iff_exists.mpr ⟨library, hkept _ _ hlibrary⟩
  cases hloader : state.libraryMap vma.name with
  | none =>
      have hnot : ¬ vma.Analysed disk exe := fun ha =>
        Option.not_isSome_iff_eq_none.mpr hloader (hiff.mpr ha)
      refine ⟨⟨state, s.loader_mappings, s.loaders⟩, ?_, ⟨hstate, hcached, hold⟩, ?_⟩
      · rw [loadRelRound, hrun, hloader]
        rfl
      · simp [hnot]
  | some loader =>
      have hc : state.Cached vma.name := Option.isSome_iff_exists.mpr ⟨loader, hloader⟩
      refine ⟨⟨state, s.loader_mappings ++ [vma], insert loader s.loaders⟩, ?_, ⟨hstate, ?_, ?_⟩,
        ?_⟩
      · rw [loadRelRound, hrun, hloader]
        rfl
      · intro v hv
        rcases List.mem_append.mp hv with hv | hv
        · exact hcached v hv
        · rw [List.mem_singleton.mp hv]
          exact hc
      · intro l
        rw [Finset.mem_insert, hold]
        constructor
        · rintro (rfl | ⟨v, hv, hl⟩)
          · exact ⟨vma, List.mem_append_right _ List.mem_cons_self, hloader⟩
          · exact ⟨v, List.mem_append_left _ hv, hl⟩
        · rintro ⟨v, hv, hl⟩
          rcases List.mem_append.mp hv with hv | hv
          · exact .inr ⟨v, hv, hl⟩
          · obtain rfl := List.mem_singleton.mp hv
            rw [hloader] at hl
            exact .inl (Option.some.inj hl).symm
      · simp [hiff.mp hc]

/-- The whole loop. -/
theorem loadRelRounds_spec {n : Nat} {vmas : List VMAInfo}
    (hfinds : ∀ vma ∈ vmas, FindsLoader disk exe vma n) {s : LoadRelState}
    (hs : LoadRelInv disk exe s) :
    ∃ s', vmas.foldlM (loadRelRound disk n) s = .ok s' ∧ LoadRelInv disk exe s' ∧
      s'.loader_mappings = s.loader_mappings ++ vmas.filter (VMAInfo.Analysed disk exe) := by
  induction vmas generalizing s with
  | nil => exact ⟨s, rfl, hs, by simp⟩
  | cons vma vmas ih =>
      rw [List.forall_mem_cons] at hfinds
      obtain ⟨s₁, hround, hs₁, hmappings₁⟩ := loadRelRound_spec hfinds.1 hs
      obtain ⟨s₂, hrest, hs₂, hmappings₂⟩ := ih hfinds.2 hs₁
      refine ⟨s₂, foldlM_cons_eq_ok_iff.mpr ⟨s₁, hround, hrest⟩, hs₂, ?_⟩
      rw [hmappings₂, hmappings₁, List.append_assoc, ← List.filter_append]
      rfl

/-- The libraries that are known before the loop. -/
theorem knownLibraries_loadVDSO (h : Analysable disk exe mappedVMAs) {state : LibraryState}
    (hinv : state.Inv disk []) (hloaded : LibraryState.Loaded (disk.reach exe) .empty state) :
    KnownLibraries disk exe state.loadVDSO.1 := by
  have hiff : ∀ g, state.Cached g ↔ g ∈ disk.reach exe := by
    intro g
    rw [hloaded.cached_iff]
    refine or_iff_right ?_
    intro hc
    cases hc
  have hvdso : ¬ state.Cached "[vdso]" := by
    intro hc
    rcases found_of_mem_reach ((hiff _).mp hc) with hexe | ⟨name, hname⟩
    · exact h.vdso.1 hexe.symm
    · exact h.vdso.2.2 name hname
  obtain ⟨hinv', hmem⟩ := loadVDSO_spec h hinv hvdso
  refine ⟨hinv', (hmem exe).mpr (.inr ((hiff exe).mpr Relation.ReflTransGen.refl)),
    (hmem "[vdso]").mpr (.inl rfl), fun g hg => ?_⟩
  rcases (hmem g).mp hg with rfl | hg
  · exact .inr (.inl rfl)
  · have hreach := (hiff g).mp hg
    rcases found_of_mem_reach hreach with rfl | hfound
    · exact .inl rfl
    · obtain ⟨deps, hdeps, -⟩ := h.complete exe (.inl rfl) g hreach
      exact .inr (.inr ⟨hfound, Option.isSome_iff_exists.mpr ⟨deps, hdeps⟩⟩)

end

/-- A process is loaded, whatever the order of its mappings: the mappings with a loader are those
of the program, of the vdso and of the ELF files that are found under the last part of their path;
each of them has the loader that its file was entered with, and no file is parsed twice. -/
theorem loadProcess_exact {disk : LibraryDisk} {exe : String} {mappedVMAs : List VMAInfo}
    (h : Analysable disk exe mappedVMAs) :
    ∃ N, ∀ n ≥ N, ∃ s, loadProcess disk n exe mappedVMAs = .ok s ∧
      s.loader_mappings = mappedVMAs.filter (VMAInfo.Analysed disk exe) ∧
      (∀ l, l ∈ s.loaders ↔
        ∃ vma ∈ s.loader_mappings, s.libraries.libraryMap vma.name = some l) ∧
      (∀ vma ∈ s.loader_mappings, ∃ l ∈ s.loaders, l.name = vma.name) ∧
      s.libraries.parsed.Nodup := by
  obtain ⟨N, hN⟩ := exists_depth_loadExec h
  obtain ⟨M, hM⟩ := exists_common_depth fun vma hvma => exists_depth_findsLoader h hvma
  refine ⟨max N M, fun n hn => ?_⟩
  obtain ⟨state, library, hexec, hinv, hloaded⟩ := hN n (le_trans (le_max_left N M) hn)
  have hstart : LoadRelInv disk exe ⟨state.loadVDSO.1, [], ∅⟩ :=
    ⟨knownLibraries_loadVDSO h hinv hloaded, fun _ hv => absurd hv List.not_mem_nil, by simp⟩
  obtain ⟨s, hrun, hs, hmappings⟩ := loadRelRounds_spec
    (fun vma hvma => hM vma hvma n (le_trans (le_max_right N M) hn)) hstart
  refine ⟨s, ?_, hmappings, hs.loaders, fun vma hvma => ?_, hs.libraries.inv.nodup⟩
  · rw [loadProcess, constructProcess, bind_of_ok hexec]
    exact hrun
  · obtain ⟨l, hl⟩ := Option.isSome_iff_exists.mp (hs.cached vma hvma)
    exact ⟨l, (hs.loaders l).mpr ⟨vma, hvma, hl⟩, (hs.libraries.inv.loader _ _ hl).1⟩

theorem page_start_lt_stop (k : Fin 8) :
    BitVec.ofNat 64 (0x1000 * k) < BitVec.ofNat 64 (0x1000 * (k + 1)) := by
  decide +revert

def mappedPage (k : Fin 8) (ino : U64) (name : String) : VMAInfo where
  start := BitVec.ofNat 64 (0x1000 * k)
  stop := BitVec.ofNat 64 (0x1000 * (k + 1))
  ino := ino
  flags := VM_READ
  name := name
  start_lt_stop := page_start_lt_stop k

/-- The program `a`, its library `b`, memory without a file, and a library of the name `b` in a
directory that is not searched. -/
def chainMappings : List VMAInfo :=
  [mappedPage 1 7 "a", mappedPage 2 8 "b", mappedPage 4 0 "[heap]", mappedPage 5 9 "/opt/b"]

theorem chain_findLibraryFile {name g : String} (h : chain.findLibraryFile name = some g) :
    name = g ∧ (g = "a" ∨ g = "b") := by
  have hname : name ∈ ["a", "b"] := by
    by_contra hnot
    have hnone : chain.findLibraryFile name = none := if_neg hnot
    rw [hnone] at h
    cases h
  have hg : chain.findLibraryFile name = some name := if_pos hname
  rw [hg] at h
  cases h
  simpa using hname

theorem chain_complete {g : String} (hg : g = "a" ∨ g = "b") :
    ∀ f ∈ chain.reach g, chain.Complete f := by
  have hb : chain.Complete "b" := ⟨[], rfl, fun dep hdep => absurd hdep List.not_mem_nil⟩
  intro f hf
  rcases Relation.ReflTransGen.cases_tail hf with rfl | ⟨_, _, hneeds⟩
  · rcases hg with rfl | rfl
    · exact ⟨["b"], rfl, fun dep hdep => ⟨"b", by rw [List.mem_singleton.mp hdep]; rfl⟩⟩
    · exact hb
  · rw [(chain_needs hneeds).2]
    exact hb

theorem analysable_chain : Analysable chain "a" chainMappings where
  complete g hg := by
    refine chain_complete ?_
    rcases hg with rfl | ⟨_, _, _, hfind, _⟩
    · exact .inl rfl
    · exact (chain_findLibraryFile hfind).2
  acyclic g _ f _ hcycle := by
    obtain ⟨_, hfirst, _⟩ := Relation.TransGen.head'_iff.mp hcycle
    obtain ⟨_, _, hlast⟩ := Relation.TransGen.tail'_iff.mp hcycle
    have ha := (chain_needs hfirst).1
    rw [(chain_needs hlast).2] at ha
    exact absurd ha (by decide)
  vdso := by
    refine ⟨by decide, by decide, fun name hfind => ?_⟩
    obtain ⟨-, ha | hb⟩ := chain_findLibraryFile hfind
    · exact absurd ha (by decide)
    · exact absurd hb (by decide)
  named vma hvma name hfind := by
    obtain ⟨-, hname⟩ := chain_findLibraryFile hfind
    have hmappings : ∀ vma ∈ chainMappings, vma.name = "a" ∨ vma.name = "b" → vma.ino ≠ 0 ∧
        chain.findLibraryFile (pathFilename vma.name) = some vma.name := by
      unfold chainMappings
      decide
    exact hmappings vma hvma hname

theorem loadProcess_exact_chain :
    ∃ N, ∀ n ≥ N, ∃ s, loadProcess chain n "a" chainMappings = .ok s ∧
      s.loader_mappings = chainMappings.filter (VMAInfo.Analysed chain "a") ∧
      (∀ l, l ∈ s.loaders ↔
        ∃ vma ∈ s.loader_mappings, s.libraries.libraryMap vma.name = some l) ∧
      (∀ vma ∈ s.loader_mappings, ∃ l ∈ s.loaders, l.name = vma.name) ∧
      s.libraries.parsed.Nodup :=
  loadProcess_exact analysable_chain

end KernInt
