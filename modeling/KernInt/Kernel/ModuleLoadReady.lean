import KernInt.Kernel.ModuleLoadInv

set_option autoImplicit false

/-! # Dependencies are loaded before the relocations

The symbols of a module are in the kernel's symbol store when `addSymbolsToStore` has been
run, at the end of `initText`. Its loader is stored later, so whoever sees the loader in
`moduleMap` finds the symbols (`TextFinished`), and a call that has left `loadDependencies`
sees the loaders of all dependencies (`dependencies_ready`).
-/

namespace KernInt

open Lib

variable {T : Type} [DecidableEq T]

theorem LoadStep.remembers {m : ModuleFiles} {k k' : Shared} {st st' : List Frame}
    (h : LoadStep m k st st' k') {e : Event} (he : e ∈ k.history) : e ∈ k'.history := by
  have happend : ∀ es, e ∈ k.history ++ es := fun es => List.mem_append_left es he
  cases h with
  | insert => exact he
  | wait => exact he
  | round => exact he
  | pollAbsent => exact he
  | loadDependency => exact he
  | _ => exact happend _

/-- Behind `addSymbolsToStore`. -/
def Phase.TextFinished (ph : Phase) : Prop :=
  ph = .initData ∨ ph = .store

theorem Phase.Next.textFinished {n : StdString} {l : Loader} {ph ph' : Phase}
    {es : List Event} (h : Phase.Next n l ph ph' es) (hph' : ph'.TextFinished) :
    ph.TextFinished ∨ .textFinished n l ∈ es := by
  cases h with
  | symbolsAdded => exact .inr (by simp)
  | dataRead => exact .inl (.inl rfl)
  | _ => simp [Phase.TextFinished] at hph'

/-- The calls that are behind `addSymbolsToStore` have run it. -/
def TextFinished (k : Shared) (st : List Frame) : Prop :=
  ∀ n l ph, .parse n l ph ∈ st → ph.TextFinished → .textFinished n l ∈ k.history

theorem TextFinished.step {m : ModuleFiles} {k k' : Shared} {st st' : List Frame}
    (ht : TextFinished k st) (hs : LoadStep m k st st' k') : TextFinished k' st' := by
  intro n l ph hmem hph
  -- the calls below the top are as before
  have htail : ∀ f rest, st = f :: rest → .parse n l ph ∈ rest → .textFinished n l ∈ k'.history :=
    fun f rest hst hr => hs.remembers (ht n l ph (hst ▸ .tail _ hr) hph)
  cases hs with
  | found => exact htail _ _ rfl hmem
  | notFound => exact htail _ _ rfl hmem
  | store => exact htail _ _ rfl hmem
  | @loadDependency n' l' d todo rest =>
      rcases List.mem_cons.mp hmem with hmem | hmem
      · cases hmem
      · rcases List.mem_cons.mp hmem with hmem | hmem
        · cases hmem
          simp [Phase.TextFinished] at hph
        · exact htail _ _ rfl hmem
  | start =>
      rcases List.mem_cons.mp hmem with hmem | hmem
      · cases hmem
        simp [Phase.TextFinished] at hph
      · exact htail _ _ rfl hmem
  | @advance n' l' ph₀ ph' es rest hnext =>
      rcases List.mem_cons.mp hmem with hmem | hmem
      · cases hmem
        rcases hnext.textFinished hph with hph₀ | hes
        · exact List.mem_append_left _ (ht n l ph₀ (.head _) hph₀)
        · exact List.mem_append_right _ hes
      · exact htail _ _ rfl hmem
  | _ =>
      rcases List.mem_cons.mp hmem with hmem | hmem
      · cases hmem
      · exact htail _ _ rfl hmem

theorem textFinished_of_reachable {m : ModuleFiles} {names : List StdString} {s : LoadState T}
    (h : Reachable (loadModuleThread m) (loadAllModules T names) s) (t : T) :
    TextFinished s.shared (s.stack t) := by
  revert t
  refine reachable_invariant (fun _ _ => True)
    (fun stack k => ∀ t, TextFinished k (stack t)) (fun _ _ => trivial) ?_ ?_ ?_ h
  · intro t n l ph hmem
    cases hmem
  · intro stack k t mod _ hi
    refine forall_update hi (by simp [TextFinished]) ?_
    intro st hst n l ph hmem hph
    exact List.mem_append_left _ (hst n l ph hmem hph)
  · intro stack k t f rest st k' ht _ hi hs
    refine forall_update hi ((ht ▸ hi t).step hs) ?_
    intro st hst n l ph hmem hph
    exact hs.remembers (hst n l ph hmem hph)

/-- A step that puts a loader into the map stores it behind `initText`. -/
theorem LoadStep.stored {m : ModuleFiles} {k k' : Shared} {st st' : List Frame}
    (hs : LoadStep m k st st' k') {n : StdString} {l : Loader}
    (hn : k'.moduleMap n = .module l) :
    k.moduleMap n = .module l ∨ .parse n l .store ∈ st := by
  have hset : ∀ n' e, (k.setEntry n' e).moduleMap n = .module l →
      k.moduleMap n = .module l ∨ (n = n' ∧ e = .module l) := by
    intro n' e hn'
    simp only [Shared.setEntry, Function.update_apply] at hn'
    split at hn'
    · exact .inr ⟨‹_›, hn'⟩
    · exact .inl hn'
  cases hs with
  | insert =>
      rcases hset _ _ hn with hold | ⟨_, he⟩
      · exact .inl hold
      · cases he
  | pollAbsent =>
      rcases hset _ _ hn with hold | ⟨_, he⟩
      · exact .inl hold
      · cases he
  | store =>
      rcases hset _ _ hn with hold | ⟨rfl, he⟩
      · exact .inl hold
      · cases he
        exact .inr (.head _)
  | _ => exact .inl hn

/-- The symbols of a loaded module are in the store. -/
theorem loaded_textFinished {m : ModuleFiles} {names : List StdString} {s : LoadState T}
    (h : Reachable (loadModuleThread m) (loadAllModules T names) s) :
    ∀ n l, s.shared.moduleMap n = .module l → .textFinished n l ∈ s.shared.history := by
  refine reachable_invariant (fun stack k => ∀ t, TextFinished k (stack t))
    (fun _ k => ∀ n l, k.moduleMap n = .module l → .textFinished n l ∈ k.history)
    (fun _ hr => textFinished_of_reachable hr) ?_ ?_ ?_ h
  · intro n l hn
    cases hn
  · intro stack k t mod _ hi n l hn
    exact List.mem_append_left _ (hi n l hn)
  · intro stack k t f rest st k' ht hfin hi hs n l hn
    refine hs.remembers ?_
    rcases hs.stored hn with hold | hstore
    · exact hi n l hold
    · exact hfin t n l .store (ht ▸ hstore) (.inr rfl)

/-- **Dependencies are ready before the relocations**: when a thread is about to run
`applyRelocations` for `n`, `initText` has been finished for every module that `n` names as a
dependency, and its loader is in `moduleMap`. -/
theorem dependencies_ready {m : ModuleFiles} (hfound : ∀ n, m.found n = true)
    {names : List StdString} {s : LoadState T}
    (h : Reachable (loadModuleThread m) (loadAllModules T names) s) {t : T} {n : StdString}
    {l : Loader} {rest : List Frame}
    (ht : s.threads t = .running (.parse n l .applyRelocations :: rest)) :
    ∀ d ∈ m.depends n, ∃ l', s.shared.moduleMap (moduleName d) = .module l' ∧
      .textFinished (moduleName d) l' ∈ s.shared.history := by
  intro d hd
  have hok := stackOk_of_reachable hfound h t
  have hstack : s.stack t = .parse n l .applyRelocations :: rest := by
    simp only [LoadState.stack, ht, ThreadState.stack]
  rw [hstack] at hok
  obtain ⟨l', hl'⟩ := hok.1.2 d hd
  exact ⟨l', hl', loaded_textFinished h _ l' hl'⟩

/-- Two modules `a` and `b_`; the first names the second, as `b-`, as a dependency. -/
def twoModules : ModuleFiles where
  found := fun _ => true
  depends := fun n => if n = [0x61] then [[0x62, 0x2d]] else []

/-- One thread begins to load `a`, the other one loads `b_` while the first is polling for
it. -/
def waitForOther : List Bool :=
  [false, false, false, false, true, true, false, true, true, true, true, true, true, false,
    false]

def waitForOtherRun : Option (LoadState Bool) :=
  waitForOther.foldlM (fun s t => loadModuleThread twoModules t s)
    (loadAllModules Bool [[0x61], [0x62, 0x5f]])

theorem waitForOtherRun_isSome : waitForOtherRun.isSome = true := by decide

theorem dependencies_ready_waitForOther :
    let s := waitForOtherRun.get waitForOtherRun_isSome
    s.threads false = .running [.parse [0x61] 0 .applyRelocations] ∧
    ∀ d ∈ twoModules.depends [0x61], ∃ l, s.shared.moduleMap (moduleName d) = .module l ∧
      .textFinished (moduleName d) l ∈ s.shared.history := by
  have htop : (waitForOtherRun.get waitForOtherRun_isSome).threads false =
      .running [.parse [0x61] 0 .applyRelocations] := by decide
  refine ⟨htop, ?_⟩
  exact dependencies_ready (m := twoModules) (fun _ => rfl)
    (.of_schedule waitForOther (Option.some_get _).symm) htop

end KernInt
