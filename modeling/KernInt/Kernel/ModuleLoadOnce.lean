import KernInt.Kernel.ModuleLoadReady

set_option autoImplicit false

/-! # Modules are loaded exactly once

`parseKernelModule` is started by the owner of a placeholder, and the placeholder is entered
only once, under a name that was absent. What `loadModule` returns is the stored loader, which
never changes. The threads take every name of the list, and each call runs to its end before
its thread goes on.
-/

namespace KernInt

open Lib

variable {T : Type} [DecidableEq T]

/-! ## Starts -/

theorem starts_append (k : Shared) (es : List Event) (n : StdString) :
    ({ k with history := k.history ++ es } : Shared).starts n =
      k.starts n + ({ k with history := es } : Shared).starts n :=
  List.countP_append

/-- Only the owner of a placeholder starts `parseKernelModule`, and a placeholder is entered
only under an absent name. -/
theorem LoadStep.starts {m : ModuleFiles} {k k' : Shared} {st st' : List Frame}
    (h : LoadStep m k st st' k') :
    ((∀ n, k'.starts n = k.starts n) ∧
      ∀ n, .placed n ∈ st' → .placed n ∈ st ∨ k.moduleMap n = .absent) ∨
    (∃ n rest, st = .placed n :: rest ∧ k'.moduleMap = k.moduleMap ∧
      (∀ n', k'.starts n' = k.starts n' + if n = n' then 1 else 0) ∧
      ∀ n', .placed n' ∈ st' → .placed n' ∈ rest) := by
  cases h with
  | insert ha =>
      refine .inl ⟨fun _ => rfl, fun n hn => ?_⟩
      rcases List.mem_cons.mp hn with hn | hn
      · cases hn
        exact .inr ha
      · exact .inl (.tail _ hn)
  | wait => exact .inl ⟨fun _ => rfl, fun n hn => .inl (by simpa using hn)⟩
  | round => exact .inl ⟨fun _ => rfl, fun n hn => .inl hn⟩
  | pollAbsent => exact .inl ⟨fun _ => rfl, fun n hn => .inl hn⟩
  | loadDependency => exact .inl ⟨fun _ => rfl, fun n hn => .inl (by simpa using hn)⟩
  | found => exact .inl ⟨fun _ => starts_append _ _ _, fun n hn => .inl (.tail _ hn)⟩
  | notFound => exact .inl ⟨fun _ => starts_append _ _ _, fun n hn => .inl (.tail _ hn)⟩
  | store => exact .inl ⟨fun _ => starts_append k _ _, fun n hn => .inl (.tail _ hn)⟩
  | advance hnext =>
      refine .inl ⟨fun n => (starts_append _ _ _).trans ?_, fun n hn => .inl (by simpa using hn)⟩
      cases hnext <;> rfl
  | @start n rest =>
      refine .inr ⟨n, rest, rfl, rfl, fun n' => ?_, fun n' hn => by simpa using hn⟩
      refine (starts_append k _ n').trans ?_
      by_cases hn : n = n' <;> simp [Shared.starts, hn]

/-- A file is parsed at most once, and not before its placeholder has been looked up. -/
structure Starts (stack : T → List Frame) (k : Shared) : Prop where
  once : ∀ n, k.starts n ≤ 1
  absent : ∀ n, k.moduleMap n = .absent → k.starts n = 0
  placed : ∀ t n, .placed n ∈ stack t → k.starts n = 0

theorem mem_ownedNames_of_placed {st : List Frame} {n : StdString} (h : .placed n ∈ st) :
    n ∈ ownedNames st :=
  List.mem_filterMap.mpr ⟨_, h, rfl⟩

theorem mem_update {stack : T → List Frame} {t t' : T} {st : List Frame} {f : Frame}
    (h : f ∈ Function.update stack t st t') : (t' = t ∧ f ∈ st) ∨ (t' ≠ t ∧ f ∈ stack t') := by
  by_cases ht : t' = t
  · subst ht
    rw [Function.update_self] at h
    exact .inl ⟨rfl, h⟩
  · rw [Function.update_of_ne ht] at h
    exact .inr ⟨ht, h⟩

/-- The names of the other placeholders, when the call that is on top of a stack goes on. -/
theorem Starts.placed_other {stack : T → List Frame} {k : Shared} {t t' : T} {st rest : List Frame}
    {n n' : StdString} (hi : Starts stack k) (hown : Ownership stack k.moduleMap)
    (ht : stack t = .placed n :: rest) (hpl : ∀ n', .placed n' ∈ st → .placed n' ∈ rest)
    (hn' : .placed n' ∈ Function.update stack t st t') : n' ≠ n ∧ k.starts n' = 0 := by
  have hmem : .placed n ∈ stack t := ht ▸ .head _
  have hnd := hown.nodup t
  rw [ht] at hnd
  rcases mem_update hn' with ⟨_, hnew⟩ | ⟨hne, hn'⟩
  · have hrest := hpl n' hnew
    refine ⟨?_, hi.placed t n' (ht ▸ .tail _ hrest)⟩
    rintro rfl
    exact (List.nodup_cons.mp hnd).1 (mem_ownedNames_of_placed hrest)
  · refine ⟨?_, hi.placed t' n' hn'⟩
    rintro rfl
    exact hne (hown.unique t' t n' (mem_ownedNames_of_placed hn')
      (mem_ownedNames_of_placed hmem))

theorem Starts.step {m : ModuleFiles} {stack : T → List Frame} {k k' : Shared} {t : T}
    {st : List Frame} (hown : Ownership stack k.moduleMap) (hi : Starts stack k)
    (hs : LoadStep m k (stack t) st k') : Starts (Function.update stack t st) k' := by
  have habsent : ∀ n, k'.moduleMap n = .absent → k.moduleMap n = .absent := by
    intro n hn
    by_contra hne
    exact hs.present hne hn
  rcases hs.starts with ⟨hst, hpl⟩ | ⟨n, rest, ht, hm, hst, hpl⟩
  · refine ⟨fun n => (hst n).trans_le (hi.once n), fun n hn => ?_, fun t' n hn => ?_⟩
    · rw [hst]
      exact hi.absent n (habsent n hn)
    · rw [hst]
      rcases mem_update hn with ⟨_, hn⟩ | ⟨_, hn⟩
      · rcases hpl n hn with hn | hn
        · exact hi.placed t n hn
        · exact hi.absent n hn
      · exact hi.placed t' n hn
  · -- the placeholder of `n` has been looked up, and no other call has entered one for it
    have hmem : .placed n ∈ stack t := ht ▸ .head _
    have hzero : k.starts n = 0 := hi.placed t n hmem
    have hn : k.moduleMap n = .nullptr := hown.placeholder t n (mem_ownedNames_of_placed hmem)
    refine ⟨fun n' => ?_, fun n' hn' => ?_, fun t' n' hn' => ?_⟩
    · rw [hst]
      split
      · subst n'
        rw [hzero]
      · exact hi.once n'
    · rw [hm] at hn'
      have hne : n ≠ n' := by
        rintro rfl
        rw [hn] at hn'
        cases hn'
      rw [hst, if_neg hne]
      exact hi.absent n' hn'
    · obtain ⟨hne, hn'⟩ := hi.placed_other hown ht hpl hn'
      rw [hst, if_neg (Ne.symm hne)]
      exact hn'

theorem starts_of_reachable {m : ModuleFiles} (hfound : ∀ n, m.found n = true)
    {names : List StdString} {s : LoadState T}
    (h : Reachable (loadModuleThread m) (loadAllModules T names) s) :
    Starts s.stack s.shared := by
  refine reachable_invariant (fun stack k => Ownership stack k.moduleMap) Starts
    (fun _ hr => ownership_of_reachable hfound hr) ?_ ?_ ?_ h
  · exact ⟨fun _ => Nat.zero_le _, fun _ _ => rfl, fun _ _ hn => by cases hn⟩
  · intro stack k t mod _ hi
    have hst : ∀ n, (k.log (.popped mod)).starts n = k.starts n := fun _ => starts_append _ _ _
    refine ⟨fun n => (hst n).trans_le (hi.once n), fun n hn => (hst n).trans (hi.absent n hn),
      fun t' n hn => (hst n).trans ?_⟩
    rcases mem_update hn with ⟨_, hn⟩ | ⟨_, hn⟩
    · simp at hn
    · exact hi.placed t' n hn
  · intro stack k t f rest st k' ht hown hi hs
    exact hi.step hown (ht ▸ hs)

/-! ## Results -/

theorem returned_of_reachable {m : ModuleFiles} (hfound : ∀ n, m.found n = true)
    {names : List StdString} {s : LoadState T}
    (h : Reachable (loadModuleThread m) (loadAllModules T names) s) :
    ∀ n r, .returned n r ∈ s.shared.history →
      ∃ l, r = some l ∧ s.shared.moduleMap n = .module l := by
  refine reachable_invariant (fun stack k => Ownership stack k.moduleMap)
    (fun _ k => ∀ n r, .returned n r ∈ k.history → ∃ l, r = some l ∧ k.moduleMap n = .module l)
    (fun _ hr => ownership_of_reachable hfound hr) ?_ ?_ ?_ h
  · intro n r hr
    cases hr
  · intro stack k t mod _ hi n r hr
    rcases List.mem_append.mp hr with hr | hr
    · exact hi n r hr
    · simp at hr
  · intro stack k t f rest st k' ht hown hi hs n r hr
    rw [← ht] at hs
    rcases hs.returned hr with hold | hnew | ⟨-, -, hf⟩
    · obtain ⟨l, hrl, hl⟩ := hi n r hold
      exact ⟨l, hrl, hs.module_stays hown hl⟩
    · exact hnew
    · rw [hfound] at hf
      cases hf

/-! ## The list of names -/

/-- The name that the call at the bottom of the stack was made for. -/
def bottomName : List Frame → Option StdString
  | [] => none
  | f :: rest => (bottomName rest).or (some f.name)

theorem LoadStep.bottomName {m : ModuleFiles} (hfound : ∀ n, m.found n = true) {k k' : Shared}
    {st st' : List Frame} (h : LoadStep m k st st' k') {n : StdString}
    (hn : bottomName st = some n) : bottomName st' = some n ∨ Loaded k'.moduleMap n := by
  have hreturn : ∀ f rest, KernInt.bottomName (f :: rest) = some n → Loaded k'.moduleMap f.name →
      KernInt.bottomName rest = some n ∨ Loaded k'.moduleMap n := by
    intro f rest hf hl
    rw [KernInt.bottomName] at hf
    cases hrest : KernInt.bottomName rest with
    | none =>
        rw [hrest] at hf
        cases hf
        exact .inr hl
    | some a =>
        rw [hrest] at hf
        exact .inl hf
  cases h with
  | found _ hl => exact hreturn _ _ hn ⟨_, hl⟩
  | store => exact hreturn _ _ hn ⟨_, Function.update_self _ _ _⟩
  | notFound hf =>
      rw [hfound] at hf
      cases hf
  | @loadDependency n' l d todo rest =>
      refine .inl ?_
      rw [KernInt.bottomName, KernInt.bottomName]
      rw [KernInt.bottomName] at hn
      simp only [Frame.name] at hn ⊢
      rw [hn]
      rfl
  | _ => exact .inl hn

theorem LoadStep.popped {m : ModuleFiles} {k k' : Shared} {st st' : List Frame}
    (h : LoadStep m k st st' k') : k'.popped = k.popped := by
  have happend : ∀ es : List Event, (∀ mod, .popped mod ∉ es) →
      ({ k with history := k.history ++ es } : Shared).popped = k.popped := by
    intro es hes
    rw [Shared.popped, List.filterMap_append]
    refine List.append_right_eq_self.mpr ?_
    rw [List.filterMap_eq_nil_iff]
    intro e he
    split
    · exact absurd he (hes _)
    · rfl
  cases h with
  | found => exact happend _ (by simp)
  | notFound => exact happend _ (by simp)
  | start => exact happend _ (by simp)
  | store => exact happend _ (by simp)
  | advance hnext =>
      refine happend _ ?_
      cases hnext <;> simp
  | _ => rfl

theorem popped_log (k : Shared) (mod : StdString) :
    (k.log (.popped mod)).popped = k.popped ++ [mod] := by
  simp [Shared.popped, Shared.log]

/-- A popped name is loaded, or the call for it is in progress. -/
theorem popped_of_reachable {m : ModuleFiles} (hfound : ∀ n, m.found n = true)
    {names : List StdString} {s : LoadState T}
    (h : Reachable (loadModuleThread m) (loadAllModules T names) s) :
    ∀ x ∈ s.shared.popped, Loaded s.shared.moduleMap (moduleName x) ∨
      ∃ t, bottomName (s.stack t) = some (moduleName x) := by
  refine reachable_invariant (fun stack k => Ownership stack k.moduleMap)
    (fun stack k => ∀ x ∈ k.popped, Loaded k.moduleMap (moduleName x) ∨
      ∃ t, bottomName (stack t) = some (moduleName x))
    (fun _ hr => ownership_of_reachable hfound hr) ?_ ?_ ?_ h
  · intro x hx
    cases hx
  · intro stack k t mod ht hi x hx
    rw [popped_log] at hx
    rcases List.mem_append.mp hx with hx | hx
    · refine (hi x hx).imp_right ?_
      rintro ⟨t', ht'⟩
      refine ⟨t', ?_⟩
      have hne : t' ≠ t := by
        rintro rfl
        rw [ht] at ht'
        cases ht'
      rwa [Function.update_of_ne hne]
    · refine .inr ⟨t, ?_⟩
      rw [Function.update_self, List.mem_singleton.mp hx]
      rfl
  · intro stack k t f rest st k' ht hown hi hs x hx
    rw [← ht] at hs
    rw [hs.popped] at hx
    rcases hi x hx with ⟨l, hl⟩ | ⟨t', ht'⟩
    · exact .inl ⟨l, hs.module_stays hown hl⟩
    · by_cases hne : t' = t
      · subst hne
        refine (hs.bottomName hfound ht').symm.imp_right fun hst => ⟨t', ?_⟩
        rwa [Function.update_self]
      · refine .inr ⟨t', ?_⟩
        rwa [Function.update_of_ne hne]

/-- The popped names and the rest of the list are the names at the start, and a thread returns
only when the list is empty. -/
theorem modList_of_reachable {m : ModuleFiles} {names : List StdString} {s : LoadState T}
    (h : Reachable (loadModuleThread m) (loadAllModules T names) s) :
    s.shared.popped ++ s.modList = names ∧ ∀ t, s.threads t = .finished → s.modList = [] := by
  refine h.invariant (fun s => s.shared.popped ++ s.modList = names ∧
    ∀ t, s.threads t = .finished → s.modList = []) ⟨rfl, ?_⟩ ?_
  · intro t ht
    cases ht
  · intro t s s' hi hs
    have hother : ∀ t' th, (s.setThread t th).threads t' = .finished →
        th = .finished ∨ s.threads t' = .finished := by
      intro t' th ht'
      simp only [LoadState.setThread, Function.update_apply] at ht'
      split at ht'
      · exact .inl ht'
      · exact .inr ht'
    cases loadModuleThread_step hs with
    | finish _ hnil => exact ⟨hi.1, fun _ _ => hnil⟩
    | pop ht hcons =>
        refine ⟨?_, fun t' ht' => ?_⟩
        · rw [popped_log, List.append_assoc, ← hi.1, hcons]
          rfl
        · rcases hother t' _ ht' with hth | hth
          · cases hth
          · rw [hi.2 t' hth] at hcons
            cases hcons
    | load ht hl =>
        refine ⟨?_, fun t' ht' => ?_⟩
        · rw [hl.popped]
          exact hi.1
        · rcases hother t' _ ht' with hth | hth
          · cases hth
          · exact hi.2 t' hth

/-- **Modules are loaded exactly once**, whatever the interleaving: no file is parsed twice, all
calls for a name return the same loader, and when the threads have finished, they have popped
every name of the list once and there is a loader for each of them. -/
theorem loadModule_once {m : ModuleFiles} (hfound : ∀ n, m.found n = true)
    {names : List StdString} {s : LoadState T}
    (h : Reachable (loadModuleThread m) (loadAllModules T names) s) :
    (∀ n, s.shared.starts n ≤ 1) ∧
    (∀ n r r', .returned n r ∈ s.shared.history → .returned n r' ∈ s.shared.history →
      r = r' ∧ r.isSome = true) ∧
    (Nonempty T → (∀ t, s.threads t = .finished) →
      s.shared.popped = names ∧
        ∀ x ∈ names, ∃ l, s.shared.moduleMap (moduleName x) = .module l) := by
  refine ⟨(starts_of_reachable hfound h).once, ?_, ?_⟩
  · intro n r r' hr hr'
    obtain ⟨l, rfl, hl⟩ := returned_of_reachable hfound h n r hr
    obtain ⟨l', rfl, hl'⟩ := returned_of_reachable hfound h n r' hr'
    rw [hl] at hl'
    cases hl'
    exact ⟨rfl, rfl⟩
  · rintro ⟨t⟩ hfin
    obtain ⟨hnames, hempty⟩ := modList_of_reachable h
    rw [hempty t (hfin t), List.append_nil] at hnames
    refine ⟨hnames, fun x hx => ?_⟩
    rcases popped_of_reachable hfound h x (hnames ▸ hx) with hl | ⟨t', ht'⟩
    · exact hl
    · -- a finished thread has no call in progress
      rw [LoadState.stack, hfin t'] at ht'
      cases ht'

/-- `waitForOther`, until both threads have returned. -/
def loadBothRun : Option (LoadState Bool) :=
  (waitForOther ++ [false, false, true, false, false, false]).foldlM
    (fun s t => loadModuleThread twoModules t s) (loadAllModules Bool [[0x61], [0x62, 0x5f]])

theorem loadBothRun_isSome : loadBothRun.isSome = true := by decide

theorem loadModule_once_loadBoth :
    let s := loadBothRun.get loadBothRun_isSome
    (∀ t, s.threads t = .finished) ∧ (∀ n, s.shared.starts n ≤ 1) ∧
    s.shared.popped = [[0x61], [0x62, 0x5f]] ∧
    ∀ x ∈ s.shared.popped, ∃ l, s.shared.moduleMap (moduleName x) = .module l := by
  have hfin : ∀ t, (loadBothRun.get loadBothRun_isSome).threads t = .finished := by decide
  obtain ⟨hstarts, _, hall⟩ := loadModule_once (m := twoModules) (fun _ => rfl)
    (.of_schedule _ (Option.some_get loadBothRun_isSome).symm)
  obtain ⟨hpopped, hloaded⟩ := hall ⟨false⟩ hfin
  exact ⟨hfin, hstarts, hpopped, hpopped ▸ hloaded⟩

end KernInt
