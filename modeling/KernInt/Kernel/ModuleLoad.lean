import KernInt.Lib.Bytes
import KernInt.Lib.Interleaving
import Mathlib.Logic.Function.Basic

set_option autoImplicit false

/-! # Loading the kernel modules in parallel

`Kernel::loadAllModules` starts threads that share a list of module names
(`loadModuleThread`). Each of them pops a name and calls `loadModule`, which looks the name up
in `moduleMap`: it returns the loader it finds, waits for another thread that has entered the
`nullptr` placeholder, or enters the placeholder itself, parses the file and stores the
loader. `ElfModuleLoader::loadDependencies` calls `loadModule` again, so a thread has a stack
of such calls.

Both mutexes are released before anything else is done, and no section under one of them
takes the other, so a step is one section under a lock, or the work between two of them.
-/

namespace KernInt

open Lib

/-- `std::replace(moduleName.begin(), moduleName.end(), '-', '_')` -/
def moduleName (moduleNameOrig : StdString) : StdString :=
  moduleNameOrig.map fun ch => if ch = 0x2d then 0x5f else ch

/-- The files of the modules, under their names with '_': whether `findModuleFile` finds one,
and the names that `loadDependencies` reads from its `.modinfo` section. -/
structure ModuleFiles where
  found : StdString → Bool
  depends : StdString → List StdString

/-- Module `n` names `d` as a dependency; the names are those used in `moduleMap`. -/
def ModuleFiles.DependsOn (m : ModuleFiles) (n d : StdString) : Prop :=
  d ∈ (m.depends n).map moduleName

/-- The address of an `ElfModuleLoader`, never null. -/
abbrev Loader := Nat

/-- What `moduleMap` holds under a name. -/
inductive MapEntry where
  | absent
  | nullptr
  | module (l : Loader)
  deriving DecidableEq

/-! ## The calls in progress -/

/-- How far `parseKernelModule` has come: `initText` loads the dependencies, applies the
relocations, patches the code and ends with `addSymbolsToStore`; `initData` follows, and back
in `loadModule` the loader is stored. -/
inductive Phase where
  | loadDependencies (todo : List StdString)
  | applyRelocations
  | addSymbolsToStore
  | initData
  | store
  deriving DecidableEq

/-- A call of `loadModule`. -/
inductive Frame where
  /-- The lookup has not been made. -/
  | call (moduleNameOrig : StdString)
  /-- In the loop `while (moduleMap[moduleName] == nullptr)`, without the lock. -/
  | poll (n : StdString)
  /-- The placeholder has been entered. -/
  | placed (n : StdString)
  /-- In `parseKernelModule`. -/
  | parse (n : StdString) (l : Loader) (phase : Phase)
  deriving DecidableEq

def Frame.name : Frame → StdString
  | .call moduleNameOrig => moduleName moduleNameOrig
  | .poll n => n
  | .placed n => n
  | .parse n _ _ => n

/-- The name whose placeholder the call has entered and not yet replaced. -/
def Frame.owned : Frame → Option StdString
  | .call _ => none
  | .poll _ => none
  | .placed n => some n
  | .parse n _ _ => some n

/-- What is remembered of a run. -/
inductive Event where
  | popped (mod : StdString)
  | parseStarted (n : StdString) (l : Loader)
  | textFinished (n : StdString) (l : Loader)
  /-- A call of `loadModule` for this name has returned. -/
  | returned (n : StdString) (r : Option Loader)
  deriving DecidableEq

/-- The part of the state that all calls of `loadModule` share. -/
structure Shared where
  moduleMap : StdString → MapEntry
  /-- The address that the next `new ElfModuleLoader` returns. -/
  nextLoader : Loader
  history : List Event

def Shared.log (k : Shared) (e : Event) : Shared :=
  { k with history := k.history ++ [e] }

def Shared.setEntry (k : Shared) (n : StdString) (e : MapEntry) : Shared :=
  { k with moduleMap := Function.update k.moduleMap n e }

/-! ## One step of a call -/

/-- The next step of the call `f` of `Kernel::loadModule`, above the calls `rest`: the new
stack and the new shared state. The loaders that `loadModule` returns are dropped by both of
its callers. -/
def loadModule (m : ModuleFiles) (f : Frame) (rest : List Frame) (k : Shared) :
    List Frame × Shared :=
  match f with
  | .call moduleNameOrig =>
      let n := moduleName moduleNameOrig
      match k.moduleMap n with
      | .absent => (.placed n :: rest, k.setEntry n .nullptr)
      | .nullptr => (.poll n :: rest, k)
      | .module l => (rest, k.log (.returned n (some l)))
  | .poll n =>
      match k.moduleMap n with
      -- `operator[]` enters a null pointer under a missing key
      | .absent => (.poll n :: rest, k.setEntry n .nullptr)
      | .nullptr => (.poll n :: rest, k)
      | .module l => (rest, k.log (.returned n (some l)))
  | .placed n =>
      if m.found n then
        (.parse n k.nextLoader (.loadDependencies (m.depends n)) :: rest,
          { k with nextLoader := k.nextLoader + 1 }.log (.parseStarted n k.nextLoader))
      else
        -- the `assert(false)` before this return is not compiled under NDEBUG
        (rest, k.log (.returned n none))
  | .parse n l (.loadDependencies (d :: todo)) =>
      (.call d :: .parse n l (.loadDependencies todo) :: rest, k)
  | .parse n l (.loadDependencies []) => (.parse n l .applyRelocations :: rest, k)
  | .parse n l .applyRelocations => (.parse n l .addSymbolsToStore :: rest, k)
  | .parse n l .addSymbolsToStore => (.parse n l .initData :: rest, k.log (.textFinished n l))
  | .parse n l .initData => (.parse n l .store :: rest, k)
  | .parse n l .store => (rest, (k.setEntry n (.module l)).log (.returned n (some l)))

/-- The phases that follow one another without a change of `moduleMap`, and what is remembered
of them. -/
inductive Phase.Next (n : StdString) (l : Loader) : Phase → Phase → List Event → Prop
  | dependenciesLoaded : Next n l (.loadDependencies []) .applyRelocations []
  | relocated : Next n l .applyRelocations .addSymbolsToStore []
  | symbolsAdded : Next n l .addSymbolsToStore .initData [.textFinished n l]
  | dataRead : Next n l .initData .store []

/-- Everything a step of a call can do. -/
inductive LoadStep (m : ModuleFiles) (k : Shared) :
    List Frame → List Frame → Shared → Prop
  | insert {orig rest} : k.moduleMap (moduleName orig) = .absent →
      LoadStep m k (.call orig :: rest) (.placed (moduleName orig) :: rest)
        (k.setEntry (moduleName orig) .nullptr)
  | wait {orig rest} : k.moduleMap (moduleName orig) = .nullptr →
      LoadStep m k (.call orig :: rest) (.poll (moduleName orig) :: rest) k
  | found {f rest l} : f.owned = none → k.moduleMap f.name = .module l →
      LoadStep m k (f :: rest) rest (k.log (.returned f.name (some l)))
  | round {n rest} : k.moduleMap n = .nullptr →
      LoadStep m k (.poll n :: rest) (.poll n :: rest) k
  | pollAbsent {n rest} : k.moduleMap n = .absent →
      LoadStep m k (.poll n :: rest) (.poll n :: rest) (k.setEntry n .nullptr)
  | start {n rest} : m.found n = true →
      LoadStep m k (.placed n :: rest)
        (.parse n k.nextLoader (.loadDependencies (m.depends n)) :: rest)
        ({ k with nextLoader := k.nextLoader + 1 }.log (.parseStarted n k.nextLoader))
  | notFound {n rest} : m.found n = false →
      LoadStep m k (.placed n :: rest) rest (k.log (.returned n none))
  | loadDependency {n l d todo rest} :
      LoadStep m k (.parse n l (.loadDependencies (d :: todo)) :: rest)
        (.call d :: .parse n l (.loadDependencies todo) :: rest) k
  | advance {n l ph ph' es rest} : Phase.Next n l ph ph' es →
      LoadStep m k (.parse n l ph :: rest) (.parse n l ph' :: rest)
        { k with history := k.history ++ es }
  | store {n l rest} :
      LoadStep m k (.parse n l .store :: rest) rest
        ((k.setEntry n (.module l)).log (.returned n (some l)))

theorem loadModule_step (m : ModuleFiles) (f : Frame) (rest : List Frame) (k : Shared) :
    LoadStep m k (f :: rest) (loadModule m f rest k).1 (loadModule m f rest k).2 := by
  unfold loadModule
  split
  case h_1 orig =>
      dsimp only
      split
      · exact .insert ‹_›
      · exact .wait ‹_›
      · exact .found (f := .call orig) rfl ‹_›
  case h_2 n =>
      split
      · exact .pollAbsent ‹_›
      · exact .round ‹_›
      · exact .found (f := .poll n) rfl ‹_›
  case h_3 n =>
      split
      · exact .start ‹_›
      · exact .notFound (Bool.eq_false_iff.mpr ‹_›)
  · exact .loadDependency
  · simpa using LoadStep.advance (k := k) .dependenciesLoaded
  · simpa using LoadStep.advance (k := k) .relocated
  · exact .advance .symbolsAdded
  · simpa using LoadStep.advance (k := k) .dataRead
  · exact .store

/-! ## The threads -/

/-- A thread in `loadModuleThread`: between two rounds of its loop (`running []`), inside the
call of `loadModule` at the bottom of its stack, or behind the `return`. -/
inductive ThreadState where
  | running (stack : List Frame)
  | finished
  deriving DecidableEq

def ThreadState.stack : ThreadState → List Frame
  | .running stack => stack
  | .finished => []

/-- The state of `loadAllModules` while the threads `T` are running. -/
structure LoadState (T : Type) where
  modList : List StdString
  shared : Shared
  threads : T → ThreadState

variable {T : Type} [DecidableEq T]

def LoadState.setThread (s : LoadState T) (t : T) (th : ThreadState) : LoadState T :=
  { s with threads := Function.update s.threads t th }

/-- The threads have been started on the list `names`. -/
def loadAllModules (T : Type) (names : List StdString) : LoadState T where
  modList := names
  shared := { moduleMap := fun _ => .absent, nextLoader := 0, history := [] }
  threads := fun _ => .running []

/-- The next step of thread `t`: a round of the loop in `loadModuleThread`, or a step of the
call on top of its stack. -/
def loadModuleThread (m : ModuleFiles) (t : T) (s : LoadState T) : Option (LoadState T) :=
  match s.threads t with
  | .finished => none
  | .running [] =>
      match s.modList with
      | [] => some (s.setThread t .finished)
      | mod :: modList =>
          some { s.setThread t (.running [.call mod]) with
            modList := modList, shared := s.shared.log (.popped mod) }
  | .running (f :: rest) =>
      let r := loadModule m f rest s.shared
      some { s.setThread t (.running r.1) with shared := r.2 }

/-- Everything a step of a thread can do. -/
inductive ThreadStep (m : ModuleFiles) (t : T) (s : LoadState T) : LoadState T → Prop
  | finish : s.threads t = .running [] → s.modList = [] →
      ThreadStep m t s (s.setThread t .finished)
  | pop {mod modList} : s.threads t = .running [] → s.modList = mod :: modList →
      ThreadStep m t s { s.setThread t (.running [.call mod]) with
        modList := modList, shared := s.shared.log (.popped mod) }
  | load {f rest stack k} : s.threads t = .running (f :: rest) →
      LoadStep m s.shared (f :: rest) stack k →
      ThreadStep m t s { s.setThread t (.running stack) with shared := k }

theorem loadModuleThread_step {m : ModuleFiles} {t : T} {s s' : LoadState T}
    (h : loadModuleThread m t s = some s') : ThreadStep m t s s' := by
  unfold loadModuleThread at h
  split at h
  · cases h
  · split at h
    · cases h
      exact .finish ‹_› ‹_›
    · cases h
      exact .pop ‹_› ‹_›
  · cases h
    exact .load ‹_› (loadModule_step m _ _ s.shared)

/-- The stacks of calls. -/
def LoadState.stack (s : LoadState T) (t : T) : List Frame :=
  (s.threads t).stack

theorem LoadState.stack_setThread (s : LoadState T) (t : T) (th : ThreadState) :
    (s.setThread t th).stack = Function.update s.stack t th.stack := by
  funext t'
  by_cases h : t' = t
  · subst h
    simp [stack, setThread]
  · simp [stack, setThread, h]

/-- The names that the threads have popped, in order. -/
def Shared.popped (k : Shared) : List StdString :=
  k.history.filterMap fun e =>
    match e with
    | .popped mod => some mod
    | _ => none

/-- How often `parseKernelModule` has been started for `n`. -/
def Shared.starts (k : Shared) (n : StdString) : Nat :=
  k.history.countP fun e =>
    match e with
    | .parseStarted n' _ => n' = n
    | _ => false

end KernInt
