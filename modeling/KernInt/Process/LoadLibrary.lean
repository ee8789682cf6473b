import KernInt.Lib.Interleaving
import KernInt.Lib.Outcome
import Mathlib.Data.Finite.Prod

set_option autoImplicit false

/-! # Loading of libraries

`loadLibrary` looks a library up in `libraryMap`; a library that is not there is parsed, its
dependencies are loaded the same way, and only then it is entered into the map. So a library
that is needed again while it is being loaded is loaded once more, and the recursion ends
exactly if no library that is not in the map yet needs itself (`loadLibrary_returns_iff`).
-/

namespace KernInt

open Lib

/-- The libraries on the disk. `findLibraryFile` gives the path in the guest of the file that a
name stands for, and `dependencies` the names that an ELF file needs; the directories hold
finitely many files. -/
structure LibraryDisk where
  files : Set String
  files_finite : files.Finite
  findLibraryFile : String → Option String
  dependencies : String → Option (List String)
  mem_files : ∀ name filename, findLibraryFile name = some filename → filename ∈ files

/-- The loader of a library, with the number of files that were parsed before its file. -/
structure LibraryLoader where
  name : String
  serial : Nat
  deriving DecidableEq

structure LibraryState where
  libraryMap : String → Option LibraryLoader
  /-- The files that have been parsed, the first one first. -/
  parsed : List String

/-- Why a library is not loaded: the recursion goes deeper than it is followed, or a dependency
has no loader. -/
inductive LoadStop where
  | depth
  | assertion
  deriving DecidableEq

namespace LibraryState

def empty : LibraryState where
  libraryMap := fun _ => none
  parsed := []

variable (state : LibraryState)

def parseUserspace (filename : String) : LibraryState × LibraryLoader :=
  ({ state with parsed := state.parsed ++ [filename] }, ⟨filename, state.parsed.length⟩)

/-- `libraryMap[filename] = library` -/
def store (filename : String) (library : LibraryLoader) : LibraryState :=
  { state with libraryMap := Function.update state.libraryMap filename (some library) }

def Cached (filename : String) : Prop := (state.libraryMap filename).isSome

variable {state}

theorem store_self (f : String) (library : LibraryLoader) :
    (state.store f library).libraryMap f = some library := by
  simp only [store, Function.update_self]

theorem store_of_ne {f g : String} (h : g ≠ f) (library : LibraryLoader) :
    (state.store f library).libraryMap g = state.libraryMap g := by
  simp only [store, Function.update_of_ne h]

theorem cached_store_iff {f g : String} {library : LibraryLoader} :
    (state.store f library).Cached g ↔ g = f ∨ state.Cached g := by
  by_cases h : g = f
  · subst h
    simp only [Cached, store_self, Option.isSome_some, true_or]
  · simp only [Cached, store_of_ne h, h, false_or]

end LibraryState

def loadDependencies
    (loadLibrary : LibraryState → String → Except LoadStop (LibraryState × Option LibraryLoader))
    (deps : List String) (state : LibraryState) : Except LoadStop LibraryState :=
  deps.foldlM (fun state dep => do
    let (state, lib) ← loadLibrary state dep
    if lib.isSome then .ok state else .error .assertion) state

/-- The recursion is followed to a depth of `n` calls. -/
def loadLibrary (disk : LibraryDisk) : Nat → LibraryState → String →
    Except LoadStop (LibraryState × Option LibraryLoader)
  | 0, _, _ => .error .depth
  | n + 1, state, libraryNameOrig =>
      match disk.findLibraryFile libraryNameOrig with
      | none => .ok (state, none)
      | some filename =>
          match state.libraryMap filename with
          | some library => .ok (state, some library)
          | none =>
              match disk.dependencies filename with
              | none => .ok (state, none) -- not an ELF file
              | some deps => do
                  let (state, library) := state.parseUserspace filename
                  let state ← loadDependencies (loadLibrary disk n) deps state
                  .ok (state.store filename library, some library)

/-! ## The graph of the dependencies -/

namespace LibraryDisk

variable (disk : LibraryDisk)

/-- The file `f` needs the file `g`. -/
def Needs (f g : String) : Prop :=
  ∃ deps, disk.dependencies f = some deps ∧ ∃ dep ∈ deps, disk.findLibraryFile dep = some g

/-- The files that `f` needs directly or indirectly, and `f` itself. -/
def reach (f : String) : Set String := {g | Relation.ReflTransGen disk.Needs f g}

/-- An ELF file whose dependencies are all found. -/
def Complete (f : String) : Prop :=
  ∃ deps, disk.dependencies f = some deps ∧ ∀ dep ∈ deps, ∃ g, disk.findLibraryFile dep = some g

theorem reach_trans {f g h : String} (hg : g ∈ disk.reach f) (hh : h ∈ disk.reach g) :
    h ∈ disk.reach f :=
  Relation.ReflTransGen.trans hg hh

theorem mem_reach_of_needs {f g : String} (h : disk.Needs f g) : g ∈ disk.reach f :=
  Relation.ReflTransGen.single h

/-- Beside itself, a file reaches what the files reach that it needs. -/
theorem mem_reach_iff {f h : String} :
    h ∈ disk.reach f ↔ h = f ∨ ∃ g, disk.Needs f g ∧ h ∈ disk.reach g := by
  constructor
  · intro hh
    rcases Relation.ReflTransGen.cases_head hh with rfl | ⟨g, hg, hh⟩
    · exact .inl rfl
    · exact .inr ⟨g, hg, hh⟩
  · rintro (rfl | ⟨g, hg, hh⟩)
    · exact Relation.ReflTransGen.refl
    · exact Relation.ReflTransGen.head hg hh

end LibraryDisk

/-! ## What a load does to the map -/

namespace LibraryState

/-- The files in `loading` have been parsed and not been entered yet. All other files that have
been parsed are in the map, each one with the loader that was made for it, and with everything
they need. -/
structure Inv (disk : LibraryDisk) (loading : List String) (state : LibraryState) : Prop where
  nodup : state.parsed.Nodup
  loader : ∀ f library, state.libraryMap f = some library →
    library.name = f ∧ state.parsed[library.serial]? = some f
  cached_of_parsed : ∀ f ∈ state.parsed, f ∉ loading → state.Cached f
  not_cached : ∀ f ∈ loading, ¬ state.Cached f
  closed : ∀ f g, state.Cached f → disk.Needs f g → state.Cached g

/-- From `state` to `state'` the files of `new` come into the map if they are not there yet, and
only they are parsed. -/
structure Loaded (new : Set String) (state state' : LibraryState) : Prop where
  cached_iff : ∀ g, state'.Cached g ↔ state.Cached g ∨ g ∈ new
  kept : ∀ g library, state.libraryMap g = some library → state'.libraryMap g = some library
  parsed : ∃ l, state'.parsed = state.parsed ++ l ∧ ∀ g ∈ l, g ∈ new

theorem inv_empty (disk : LibraryDisk) : empty.Inv disk [] where
  nodup := List.nodup_nil
  loader _ _ h := by cases h
  cached_of_parsed f hf := by cases hf
  not_cached f hf := by cases hf
  closed f _ hf := by cases hf

theorem Inv.closed_reach {disk : LibraryDisk} {loading : List String} {state : LibraryState}
    (h : state.Inv disk loading) {f g : String} (hf : state.Cached f) (hg : g ∈ disk.reach f) :
    state.Cached g := by
  induction hg with
  | refl => exact hf
  | tail _ hneeds ih => exact h.closed _ _ ih hneeds

theorem Loaded.refl {new : Set String} {state : LibraryState} (h : ∀ g ∈ new, state.Cached g) :
    Loaded new state state where
  cached_iff g := ⟨.inl, fun hg => hg.elim id (h g)⟩
  kept _ _ hg := hg
  parsed := ⟨[], (List.append_nil _).symm, fun _ hg => absurd hg List.not_mem_nil⟩

theorem Loaded.trans {new new' : Set String} {state state' state'' : LibraryState}
    (h : Loaded new state state') (h' : Loaded new' state' state'') :
    Loaded (new ∪ new') state state'' where
  cached_iff g := by rw [h'.cached_iff, h.cached_iff, Set.mem_union, or_assoc]
  kept g library hg := h'.kept g library (h.kept g library hg)
  parsed := by
    obtain ⟨l, hl, hmem⟩ := h.parsed
    obtain ⟨l', hl', hmem'⟩ := h'.parsed
    refine ⟨l ++ l', by rw [hl', hl, List.append_assoc], fun g hg => ?_⟩
    rcases List.mem_append.mp hg with hg | hg
    · exact .inl (hmem g hg)
    · exact .inr (hmem' g hg)

end LibraryState

/-! ## Termination -/

open LibraryState

/-- What holds from some depth on, for each element of a list, holds from some depth on for all
of them. -/
theorem exists_common_depth {α : Type} {P : α → Nat → Prop} {l : List α}
    (h : ∀ a ∈ l, ∃ N, ∀ n ≥ N, P a n) : ∃ N, ∀ a ∈ l, ∀ n ≥ N, P a n := by
  induction l with
  | nil => exact ⟨0, fun a ha => absurd ha List.not_mem_nil⟩
  | cons a l ih =>
      obtain ⟨N, hN⟩ := h a List.mem_cons_self
      obtain ⟨M, hM⟩ := ih fun b hb => h b (List.mem_cons_of_mem a hb)
      refine ⟨max N M, fun b hb n hn => ?_⟩
      rcases List.mem_cons.mp hb with rfl | hb
      · exact hN n (by omega)
      · exact hM b hb n (by omega)

section

variable {disk : LibraryDisk} {state₀ : LibraryState}

/-- The files that the dependencies reach. -/
def LibraryDisk.reachAll (disk : LibraryDisk) (deps : List String) : Set String :=
  {h | ∃ dep ∈ deps, ∃ g, disk.findLibraryFile dep = some g ∧ h ∈ disk.reach g}

theorem LibraryDisk.reachAll_cons {dep g : String} {deps : List String}
    (hg : disk.findLibraryFile dep = some g) :
    disk.reachAll (dep :: deps) = disk.reach g ∪ disk.reachAll deps := by
  ext h
  simp only [reachAll, List.mem_cons, exists_eq_or_imp, Set.mem_ofPred_eq, Set.mem_union, hg,
    Option.some.injEq, exists_eq_left']

/-- Loading the file `g`, in any state with the invariant in which no less is known than in
`state₀`, keeps the invariant and loads what `g` reaches. -/
def LoadsFile (disk : LibraryDisk) (state₀ : LibraryState) (loading : List String) (g : String)
    (load : LibraryState → Except LoadStop (LibraryState × Option LibraryLoader)) : Prop :=
  ∀ state, state.Inv disk loading → (∀ h, state₀.Cached h → state.Cached h) →
    ∃ state' library, load state = .ok (state', some library) ∧ state'.Inv disk loading ∧
      LibraryState.Loaded (disk.reach g) state state'

theorem loadDependencies_ok {loading : List String} {deps : List String}
    {load : LibraryState → String → Except LoadStop (LibraryState × Option LibraryLoader)}
    (hload : ∀ dep ∈ deps, ∃ g, disk.findLibraryFile dep = some g ∧
      LoadsFile disk state₀ loading g fun state => load state dep)
    {state : LibraryState} (hinv : state.Inv disk loading)
    (hbase : ∀ h, state₀.Cached h → state.Cached h) :
    ∃ state', loadDependencies load deps state = .ok state' ∧ state'.Inv disk loading ∧
      LibraryState.Loaded (disk.reachAll deps) state state' := by
  induction deps generalizing state with
  | nil =>
      refine ⟨state, rfl, hinv, LibraryState.Loaded.refl fun g hg => ?_⟩
      obtain ⟨dep, hdep, -⟩ := hg
      cases hdep
  | cons dep deps ih =>
      obtain ⟨g, hg, hdep⟩ := hload dep List.mem_cons_self
      obtain ⟨state₁, library, hrun₁, hinv₁, hloaded₁⟩ := hdep state hinv hbase
      have hbase₁ : ∀ h, state₀.Cached h → state₁.Cached h :=
        fun h hh => (hloaded₁.cached_iff h).mpr (.inl (hbase h hh))
      obtain ⟨state₂, hrun₂, hinv₂, hloaded₂⟩ :=
        ih (fun d hd => hload d (List.mem_cons_of_mem dep hd)) hinv₁ hbase₁
      refine ⟨state₂, ?_, hinv₂, ?_⟩
      · have hfirst : load state dep = .ok (state₁, some library) := hrun₁
        rw [loadDependencies, List.foldlM_cons, hfirst]
        exact hrun₂
      · rw [LibraryDisk.reachAll_cons hg]
        exact hloaded₁.trans hloaded₂

/-- The invariant when a file is parsed. -/
theorem LibraryState.Inv.parse {state : LibraryState} {loading : List String} {f : String}
    (h : state.Inv disk loading) (hf : ¬ state.Cached f) (hfl : f ∉ loading) :
    (state.parseUserspace f).1.Inv disk (f :: loading) where
  nodup := by
    have hnew : f ∉ state.parsed := fun hp => hf (h.cached_of_parsed f hp hfl)
    exact List.nodup_append.mpr ⟨h.nodup, List.nodup_singleton f, by
      intro a ha b hb
      rw [List.mem_singleton.mp hb]
      rintro rfl
      exact hnew ha⟩
  loader g library hg := by
    obtain ⟨hname, hserial⟩ := h.loader g library hg
    exact ⟨hname, List.getElem?_append_left (List.getElem?_eq_some_iff.mp hserial).1 ▸ hserial⟩
  cached_of_parsed g hg hgl := by
    rcases List.mem_append.mp hg with hg | hg
    · exact h.cached_of_parsed g hg fun hl => hgl (List.mem_cons_of_mem f hl)
    · exact absurd (List.mem_singleton.mp hg ▸ List.mem_cons_self) hgl
  not_cached g hg := by
    rcases List.mem_cons.mp hg with rfl | hg
    · exact hf
    · exact h.not_cached g hg
  closed := h.closed

/-- The invariant when the loader of a file is entered into the map. -/
theorem LibraryState.Inv.store {state : LibraryState} {loading : List String} {f : String}
    {library : LibraryLoader} (h : state.Inv disk (f :: loading)) (hfl : f ∉ loading)
    (hlibrary : library.name = f ∧ state.parsed[library.serial]? = some f)
    (hneeds : ∀ g, disk.Needs f g → state.Cached g) :
    (state.store f library).Inv disk loading := by
  refine ⟨h.nodup, fun g library' hg => ?_, fun g hg hgl => ?_, fun g hg hc => ?_,
    fun g g' hc hn => ?_⟩
  · by_cases hgf : g = f
    · subst hgf
      rw [store_self] at hg
      cases hg
      exact hlibrary
    · rw [store_of_ne hgf] at hg
      exact h.loader g library' hg
  · by_cases hgf : g = f
    · exact cached_store_iff.mpr (.inl hgf)
    · have hgl' : g ∉ f :: loading := by simp [hgf, hgl]
      exact cached_store_iff.mpr (.inr (h.cached_of_parsed g hg hgl'))
  · rcases cached_store_iff.mp hc with rfl | hc
    · exact hfl hg
    · exact h.not_cached g (List.mem_cons_of_mem f hg) hc
  · rcases cached_store_iff.mp hc with rfl | hc
    · exact cached_store_iff.mpr (.inr (hneeds g' hn))
    · exact cached_store_iff.mpr (.inr (h.closed g g' hc hn))

theorem LibraryDisk.mem_reach_iff_deps {f h : String} {deps : List String}
    (hdeps : disk.dependencies f = some deps) :
    h ∈ disk.reach f ↔ h = f ∨ h ∈ disk.reachAll deps := by
  rw [disk.mem_reach_iff]
  constructor
  · rintro (rfl | ⟨g, ⟨deps', hdeps', dep, hdep, hg⟩, hh⟩)
    · exact .inl rfl
    · rw [hdeps] at hdeps'
      cases hdeps'
      exact .inr ⟨dep, hdep, g, hg, hh⟩
  · rintro (rfl | ⟨dep, hdep, g, hg, hh⟩)
    · exact .inl rfl
    · exact .inr ⟨g, ⟨deps, hdeps, dep, hdep, hg⟩, hh⟩

/-- From the parsing of a file to the entry of its loader. -/
theorem LibraryState.Loaded.store {state state' : LibraryState} {f : String}
    {deps : List String} (hdeps : disk.dependencies f = some deps) (hf : ¬ state.Cached f)
    (h : LibraryState.Loaded (disk.reachAll deps) (state.parseUserspace f).1 state')
    (library : LibraryLoader) :
    LibraryState.Loaded (disk.reach f) state (state'.store f library) where
  cached_iff g := by
    have hg : state'.Cached g ↔ state.Cached g ∨ g ∈ disk.reachAll deps := h.cached_iff g
    rw [cached_store_iff, hg, LibraryDisk.mem_reach_iff_deps hdeps]
    exact or_left_comm
  kept g library' hg := by
    have hgf : g ≠ f := by
      rintro rfl
      exact hf (Option.isSome_iff_exists.mpr ⟨library', hg⟩)
    rw [store_of_ne hgf]
    exact h.kept g library' hg
  parsed := by
    obtain ⟨l, hl, hmem⟩ := h.parsed
    refine ⟨f :: l, ?_, fun g hg => (LibraryDisk.mem_reach_iff_deps hdeps).mpr ?_⟩
    · show state'.parsed = _
      rw [hl]
      show state.parsed ++ [f] ++ l = _
      rw [List.append_assoc]
      rfl
    · rcases List.mem_cons.mp hg with rfl | hg
      · exact .inl rfl
      · exact .inr (hmem g hg)

/-- A file that is in the map already. -/
theorem loadLibrary_of_cached {state : LibraryState} {loading : List String} {f name : String}
    (hinv : state.Inv disk loading) (hname : disk.findLibraryFile name = some f)
    (hf : state.Cached f) (n : Nat) :
    ∃ state' library, loadLibrary disk (n + 1) state name = .ok (state', some library) ∧
      state'.Inv disk loading ∧ LibraryState.Loaded (disk.reach f) state state' := by
  obtain ⟨library, hlib⟩ := Option.isSome_iff_exists.mp hf
  refine ⟨state, library, ?_, hinv, LibraryState.Loaded.refl fun g hg => hinv.closed_reach hf hg⟩
  simp only [loadLibrary, hname, hlib]

/-- A file that is not in the map, if all its dependencies are loaded while it is. -/
theorem loadLibrary_of_dependencies {state : LibraryState} {loading : List String}
    {f name : String} {deps : List String} {n : Nat} (hinv : state.Inv disk loading)
    (hbase : ∀ g, state₀.Cached g → state.Cached g) (hname : disk.findLibraryFile name = some f)
    (hcached : ¬ state.Cached f) (hfl : f ∉ loading) (hdeps : disk.dependencies f = some deps)
    (hload : ∀ dep ∈ deps, ∃ g, disk.findLibraryFile dep = some g ∧
      LoadsFile disk state₀ (f :: loading) g fun state => loadLibrary disk n state dep) :
    ∃ state' library, loadLibrary disk (n + 1) state name = .ok (state', some library) ∧
      state'.Inv disk loading ∧ LibraryState.Loaded (disk.reach f) state state' := by
  have hmap : state.libraryMap f = none := by
    cases hm : state.libraryMap f with
    | none => rfl
    | some library => exact absurd (Option.isSome_iff_exists.mpr ⟨library, hm⟩) hcached
  obtain ⟨state₂, hrun, hinv₂, hloaded⟩ :=
    loadDependencies_ok hload (hinv.parse hcached hfl) hbase
  -- the file is still where it was parsed
  have hlibrary : state₂.parsed[state.parsed.length]? = some f := by
    obtain ⟨l, hl, -⟩ := hloaded.parsed
    rw [hl]
    show (state.parsed ++ [f] ++ l)[state.parsed.length]? = some f
    simp
  have hneeds : ∀ g, disk.Needs f g → state₂.Cached g := by
    rintro g ⟨deps', hdeps', dep, hdep, hg⟩
    rw [hdeps] at hdeps'
    cases hdeps'
    exact (hloaded.cached_iff g).mpr (.inr ⟨dep, hdep, g, hg, Relation.ReflTransGen.refl⟩)
  let library : LibraryLoader := ⟨f, state.parsed.length⟩
  refine ⟨state₂.store f library, library, ?_, hinv₂.store hfl ⟨rfl, hlibrary⟩ hneeds,
    hloaded.store hdeps hcached library⟩
  simp only [loadLibrary, hname, hmap, hdeps]
  rw [hrun]
  rfl

/-- From some depth on, a file is loaded: its dependencies are, and none of them leads back to a
file that is being loaded. -/
theorem exists_depth_loadsFile {f : String}
    (hacc : Acc (fun g f => disk.Needs f g ∧ ¬ state₀.Cached f) f)
    (hcomplete : ∀ g ∈ disk.reach f, disk.Complete g)
    (hacyc : ∀ g ∈ disk.reach f, ¬ state₀.Cached g → ¬ Relation.TransGen disk.Needs g g) :
    ∃ N, ∀ n ≥ N, ∀ loading name, (∀ g ∈ disk.reach f, g ∉ loading) →
      disk.findLibraryFile name = some f →
      LoadsFile disk state₀ loading f fun state => loadLibrary disk n state name := by
  induction hacc with
  | intro f _ ih =>
      by_cases hcached₀ : state₀.Cached f
      · refine ⟨1, fun n hn loading name _ hname state hinv hbase => ?_⟩
        obtain ⟨n, rfl⟩ : ∃ k, n = k + 1 := ⟨n - 1, by omega⟩
        exact loadLibrary_of_cached hinv hname (hbase f hcached₀) n
      obtain ⟨deps, hdeps, hfound⟩ := hcomplete f Relation.ReflTransGen.refl
      -- a depth for all dependencies
      have hall : ∀ dep ∈ deps, ∃ N, ∀ n ≥ N, ∃ g, disk.findLibraryFile dep = some g ∧
          ∀ loading, (∀ h ∈ disk.reach g, h ∉ loading) →
            LoadsFile disk state₀ loading g fun state => loadLibrary disk n state dep := by
        intro dep hdep
        obtain ⟨g, hg⟩ := hfound dep hdep
        have hneeds : disk.Needs f g := ⟨deps, hdeps, dep, hdep, hg⟩
        have hsub : ∀ h ∈ disk.reach g, h ∈ disk.reach f := fun h hh =>
          disk.reach_trans (disk.mem_reach_of_needs hneeds) hh
        obtain ⟨N, hN⟩ := ih g ⟨hneeds, hcached₀⟩ (fun h hh => hcomplete h (hsub h hh))
          fun h hh => hacyc h (hsub h hh)
        exact ⟨N, fun n hn => ⟨g, hg, fun loading hl => hN n hn loading dep hl hg⟩⟩
      obtain ⟨N, hN⟩ := exists_common_depth hall
      refine ⟨N + 1, fun n hn loading name hfree hname state hinv hbase => ?_⟩
      obtain ⟨n, rfl⟩ : ∃ k, n = k + 1 := ⟨n - 1, by omega⟩
      by_cases hcached : state.Cached f
      · exact loadLibrary_of_cached hinv hname hcached n
      have hfl : f ∉ loading := hfree f Relation.ReflTransGen.refl
      apply loadLibrary_of_dependencies hinv hbase hname hcached hfl hdeps
      -- no dependency leads back to `f`
      intro dep hdep
      obtain ⟨g, hg, hloads⟩ := hN dep hdep n (by omega)
      have hneeds : disk.Needs f g := ⟨deps, hdeps, dep, hdep, hg⟩
      refine ⟨g, hg, hloads (f :: loading) fun h hh hmem => ?_⟩
      rcases List.mem_cons.mp hmem with rfl | hmem
      · exact hacyc h Relation.ReflTransGen.refl hcached₀ (Relation.TransGen.head' hneeds hh)
      · exact hfree h (disk.reach_trans (disk.mem_reach_of_needs hneeds) hh) hmem

/-! ## Only acyclic graphs -/

/-- From `f` one gets, in one step of the recursion, to a file that it needs. -/
def Descends (disk : LibraryDisk) (state₀ : LibraryState) (g f : String) : Prop :=
  disk.Needs f g ∧ ¬ state₀.Cached f

/-- From all files in the map the recursion ends. -/
def Grounded (disk : LibraryDisk) (state₀ state : LibraryState) : Prop :=
  ∀ f, state.Cached f → Acc (Descends disk state₀) f

theorem loadDependencies_grounded {deps : List String} {state state' : LibraryState}
    {load : LibraryState → String → Except LoadStop (LibraryState × Option LibraryLoader)}
    (hload : ∀ state dep state' library, load state dep = .ok (state', some library) →
      Grounded disk state₀ state → Grounded disk state₀ state' ∧
        (∀ g, state.Cached g → state'.Cached g) ∧
        ∃ g, disk.findLibraryFile dep = some g ∧ state'.Cached g)
    (hrun : loadDependencies load deps state = .ok state')
    (hg : Grounded disk state₀ state) :
    Grounded disk state₀ state' ∧ (∀ g, state.Cached g → state'.Cached g) ∧
      ∀ dep ∈ deps, ∃ g, disk.findLibraryFile dep = some g ∧ state'.Cached g := by
  induction deps generalizing state with
  | nil =>
      cases hrun
      exact ⟨hg, fun _ h => h, fun dep hdep => absurd hdep List.not_mem_nil⟩
  | cons dep deps ih =>
      rw [loadDependencies, List.foldlM_cons] at hrun
      obtain ⟨state₁, hfirst, hrest⟩ := exists_of_bind_ok hrun
      obtain ⟨⟨s, library⟩, hdep, hsome⟩ := exists_of_bind_ok hfirst
      cases library with
      | none => cases hsome
      | some library =>
          cases hsome
          obtain ⟨hg₁, hmono₁, g, hfind, hcached⟩ := hload state dep state₁ library hdep hg
          obtain ⟨hg₂, hmono₂, hall⟩ := ih hrest hg₁
          refine ⟨hg₂, fun h hh => hmono₂ h (hmono₁ h hh), fun d hd => ?_⟩
          rcases List.mem_cons.mp hd with rfl | hd
          · exact ⟨g, hfind, hmono₂ g hcached⟩
          · exact hall d hd

/-- A file comes into the map behind everything that it needs. -/
theorem loadLibrary_grounded {n : Nat} {state state' : LibraryState} {name : String}
    {library : LibraryLoader}
    (hrun : loadLibrary disk n state name = .ok (state', some library))
    (hg : Grounded disk state₀ state) :
    Grounded disk state₀ state' ∧ (∀ g, state.Cached g → state'.Cached g) ∧
      ∃ g, disk.findLibraryFile name = some g ∧ state'.Cached g := by
  induction n generalizing state state' name library with
  | zero => cases hrun
  | succ n ih =>
      unfold loadLibrary at hrun
      split at hrun
      · cases hrun
      · rename_i f hname
        split at hrun
        · rename_i l hmap
          cases hrun
          exact ⟨hg, fun _ h => h, f, hname, Option.isSome_iff_exists.mpr ⟨_, hmap⟩⟩
        · split at hrun
          · cases hrun
          · rename_i deps hdeps
            obtain ⟨state₂, hfold, hstore⟩ := exists_of_bind_ok hrun
            cases hstore
            have hparsed : Grounded disk state₀ (state.parseUserspace f).1 := hg
            obtain ⟨hg₂, hmono, hall⟩ :=
              loadDependencies_grounded (fun s dep s' l h hs => ih h hs) hfold hparsed
            refine ⟨fun h hh => ?_, fun h hh => ?_, f, hname, cached_store_iff.mpr (.inl rfl)⟩
            · rcases cached_store_iff.mp hh with rfl | hh
              -- the file itself: what it needs came back from the recursion, so is grounded
              · refine Acc.intro h fun g hdesc => ?_
                obtain ⟨⟨deps', hdeps', dep, hdep, hgfile⟩, -⟩ := hdesc
                rw [hdeps] at hdeps'
                cases hdeps'
                obtain ⟨g', hg', hcached⟩ := hall dep hdep
                rw [hgfile] at hg'
                cases hg'
                exact hg₂ g hcached
              · exact hg₂ h hh
            · exact cached_store_iff.mpr (.inr (hmono h hh))

/-- Where the recursion ends, no file that is not in the map needs itself. -/
theorem not_transGen_of_acc (hok : state₀.Inv disk []) {f : String}
    (hacc : Acc (Descends disk state₀) f) :
    ∀ g ∈ disk.reach f, ¬ state₀.Cached g → ¬ Relation.TransGen disk.Needs g g := by
  induction hacc with
  | intro f _ ih =>
      intro g hg hgc hcycle
      -- what reaches `g` is not in the map either
      have hf : ¬ state₀.Cached f := fun hc => hgc (hok.closed_reach hc hg)
      rcases (disk.mem_reach_iff).mp hg with rfl | ⟨h, hneeds, hgh⟩
      · obtain ⟨h, hneeds, hback⟩ := Relation.TransGen.head'_iff.mp hcycle
        exact ih h ⟨hneeds, hf⟩ g hback hgc hcycle
      · exact ih h ⟨hneeds, hf⟩ g hgh hgc hcycle

/-- Without cycles the recursion ends. -/
theorem acc_of_acyclic {f : String}
    (hacyc : ∀ g ∈ disk.reach f, ¬ state₀.Cached g → ¬ Relation.TransGen disk.Needs g g) :
    Acc (Descends disk state₀) f := by
  -- only the edges that the load can follow: the disk has finitely many, and no cycle of them
  let r : String → String → Prop := fun a b =>
    a ∈ disk.reach f ∧ ¬ state₀.Cached a ∧ disk.Needs a b
  have hfiles : ∀ a b, disk.Needs a b → b ∈ disk.files := by
    rintro a b ⟨_, _, _, _, hb⟩
    exact disk.mem_files _ b hb
  have hreach : disk.reach f ⊆ insert f disk.files := by
    intro a ha
    rcases Relation.ReflTransGen.cases_tail ha with rfl | ⟨b, _, hneeds⟩
    · exact Set.mem_insert a _
    · exact Set.mem_insert_of_mem f (hfiles b a hneeds)
  have hfin : {p : String × String | r p.1 p.2}.Finite := by
    refine ((disk.files_finite.insert f).prod disk.files_finite).subset ?_
    rintro ⟨a, b⟩ ⟨ha, -, hneeds⟩
    exact ⟨hreach ha, hfiles a b hneeds⟩
  have hr : ∀ a, ¬ Relation.TransGen r a a := by
    intro a hcycle
    obtain ⟨b, ⟨ha, hac, -⟩, -⟩ := Relation.TransGen.head'_iff.mp hcycle
    have hle : r ≤ disk.Needs := fun _ _ h => h.2.2
    exact hacyc a ha hac (Relation.TransGen.mono hle a a hcycle)
  suffices ∀ a, a ∈ disk.reach f → Acc (Descends disk state₀) a from
    this f Relation.ReflTransGen.refl
  intro a
  induction a using (wellFounded_of_acyclic hfin hr).induction with
  | _ a ih =>
      intro ha
      refine Acc.intro a fun b hdesc => ?_
      obtain ⟨hneeds, hac⟩ := hdesc
      exact ih b (.single ⟨ha, hac, hneeds⟩) (Relation.ReflTransGen.tail ha hneeds)

/-- Loading a library, in any state in which no load is in progress: it returns, with each file
that the library reaches in the map under one loader, and none of them parsed twice, exactly if
no such file that is not in the map yet needs itself. -/
theorem loadLibrary_returns_iff {name start : String} (hok : state₀.Inv disk [])
    (hstart : disk.findLibraryFile name = some start)
    (hcomplete : ∀ f ∈ disk.reach start, disk.Complete f) :
    (∃ n state library, loadLibrary disk n state₀ name = .ok (state, some library) ∧
      state.Inv disk [] ∧ LibraryState.Loaded (disk.reach start) state₀ state) ↔
    ∀ f ∈ disk.reach start, ¬ state₀.Cached f → ¬ Relation.TransGen disk.Needs f f := by
  constructor
  · rintro ⟨n, state, library, hrun, -, -⟩
    have hground : Grounded disk state₀ state₀ := fun f hf =>
      Acc.intro f fun _ hdesc => absurd hf hdesc.2
    obtain ⟨hg, -, f, hf, hcached⟩ := loadLibrary_grounded hrun hground
    rw [hstart] at hf
    cases hf
    exact not_transGen_of_acc hok (hg start hcached)
  · intro hacyc
    obtain ⟨N, hN⟩ := exists_depth_loadsFile (acc_of_acyclic hacyc) hcomplete hacyc
    obtain ⟨state, library, hrun, hinv, hloaded⟩ :=
      hN N (Nat.le_refl N) [] name (fun _ _ => List.not_mem_nil) hstart state₀ hok fun _ h => h
    exact ⟨N, state, library, hrun, hinv, hloaded⟩

end

/-! ## A diamond and a cycle -/

/-- A disk with some files, each of which is found under its own name. -/
def diskOf (files : List (String × List String)) : LibraryDisk where
  files := {f | f ∈ files.map Prod.fst}
  files_finite := List.finite_toSet _
  findLibraryFile name := if name ∈ files.map Prod.fst then some name else none
  dependencies f := files.lookup f
  mem_files := by
    intro name filename h
    split at h
    · cases h
      assumption
    · cases h

/-- `a` needs `b` and `c`, which both need `d`. -/
def diamond : LibraryDisk :=
  diskOf [("a", ["b", "c"]), ("b", ["d"]), ("c", ["d"]), ("d", [])]

example : (loadLibrary diamond 3 .empty "a").map (fun r => r.1.parsed) =
    .ok ["a", "b", "d", "c"] := by decide

/-- `a` needs `b`. -/
def chain : LibraryDisk := diskOf [("a", ["b"]), ("b", [])]

theorem chain_needs {f g : String} (h : chain.Needs f g) : f = "a" ∧ g = "b" := by
  obtain ⟨deps, hdeps, dep, hdep, hg⟩ := h
  by_cases ha : f = "a"
  · subst ha
    obtain rfl : ["b"] = deps := Option.some.inj hdeps
    obtain rfl := List.mem_singleton.mp hdep
    exact ⟨rfl, (Option.some.inj hg).symm⟩
  · by_cases hb : f = "b"
    · subst hb
      obtain rfl : [] = deps := Option.some.inj hdeps
      cases hdep
    · have hnone : chain.dependencies f = none := by
        simp [chain, diskOf, List.lookup_eq_none_iff, ha, hb]
      rw [hnone] at hdeps
      cases hdeps

theorem loadLibrary_returns_chain :
    ∃ n state library, loadLibrary chain n .empty "a" = .ok (state, some library) ∧
      state.Inv chain [] ∧ LibraryState.Loaded (chain.reach "a") .empty state := by
  refine (loadLibrary_returns_iff (inv_empty chain) rfl fun f hf => ?_).mpr fun f _ _ hcycle => ?_
  · rcases Relation.ReflTransGen.cases_tail hf with rfl | ⟨_, _, hneeds⟩
    · exact ⟨["b"], rfl, fun dep hdep => ⟨"b", by rw [List.mem_singleton.mp hdep]; rfl⟩⟩
    · obtain ⟨-, rfl⟩ := chain_needs hneeds
      exact ⟨[], rfl, fun dep hdep => absurd hdep List.not_mem_nil⟩
  · obtain ⟨_, hfirst, _⟩ := Relation.TransGen.head'_iff.mp hcycle
    obtain ⟨_, _, hlast⟩ := Relation.TransGen.tail'_iff.mp hcycle
    have ha := (chain_needs hfirst).1
    have hb := (chain_needs hlast).2
    rw [ha] at hb
    exact absurd hb (by decide)

/-- `a` and `b` need each other. -/
def twoLibraries : LibraryDisk := diskOf [("a", ["b"]), ("b", ["a"])]

/-- Loading `a` never returns a loader, however deep the recursion goes. -/
theorem loadLibrary_cycle_never_returns :
    ¬ ∃ n state library, loadLibrary twoLibraries n .empty "a" = .ok (state, some library) := by
  rintro ⟨n, state, library, hrun⟩
  have hground : Grounded twoLibraries .empty .empty := by
    intro f hf
    cases hf
  obtain ⟨hg, -, f, hf, hcached⟩ := loadLibrary_grounded hrun hground
  obtain rfl : "a" = f := Option.some.inj hf
  have hab : twoLibraries.Needs "a" "b" := ⟨["b"], rfl, "b", by decide, rfl⟩
  have hba : twoLibraries.Needs "b" "a" := ⟨["a"], rfl, "a", by decide, rfl⟩
  have hnot : ¬ LibraryState.empty.Cached "a" := by
    intro h
    cases h
  exact not_transGen_of_acc (inv_empty twoLibraries) (hg "a" hcached) "a"
    Relation.ReflTransGen.refl hnot (.tail (.single hab) hba)

end KernInt
