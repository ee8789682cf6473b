import KernInt.Kernel.ModuleLoadReady

set_option autoImplicit false

/-! # Modules without a file

Where `findModuleFile` finds no file, `loadModule` returns a null pointer and leaves its
placeholder in `moduleMap`; the assertion in front of the `return` is not compiled under NDEBUG.
Such a placeholder has no owner, so that nobody replaces it (`nullptr_of_failed`), and every call
that meets it polls for ever (`pollsForever_of_failed`). So a failed load is harmless only as
long as there is none (`failedLoad_harmless_iff`).
-/

namespace KernInt

open Lib

variable {T : Type} [DecidableEq T]

/-! ## What is known of a name without a file -/

/-- What holds of each call of `loadModule`, whether or not the files are found. -/
def Frame.Known (m : ModuleFiles) (moduleMap : StdString → MapEntry) : Frame → Prop
  | .placed n => moduleMap n ≠ .absent
  | .parse n _ _ => m.found n = true
  | .poll n => moduleMap n ≠ .absent
  | .call _ => True

def StackKnown (m : ModuleFiles) (k : Shared) (st : List Frame) : Prop :=
  ∀ f ∈ st, f.Known m k.moduleMap

/-- A loader is stored for a file only, and a call that has failed has been for a name without
one, which it has entered into the map. -/
structure MapKnown (m : ModuleFiles) (k : Shared) : Prop where
  module : ∀ n l, k.moduleMap n = .module l → m.found n = true
  failed : ∀ n, .returned n none ∈ k.history → m.found n = false ∧ k.moduleMap n ≠ .absent

section

variable {m : ModuleFiles} {k k' : Shared} {st₀ st st' : List Frame}

theorem Frame.Known.mono {moduleMap moduleMap' : StdString → MapEntry} {f : Frame}
    (h : f.Known m moduleMap) (hle : ∀ n, moduleMap n ≠ .absent → moduleMap' n ≠ .absent) :
    f.Known m moduleMap' := by
  cases f with
  | call orig => trivial
  | poll n => exact hle n h
  | placed n => exact hle n h
  | parse n l ph => exact h

theorem StackKnown.mono {st : List Frame} (hst : StackKnown m k st) (h : LoadStep m k st₀ st' k') :
    StackKnown m k' st :=
  fun f hf => (hst f hf).mono fun _ hn => h.present hn

theorem StackKnown.step (hst : StackKnown m k st) (h : LoadStep m k st st' k') :
    StackKnown m k' st' := by
  have hmono := hst.mono h
  -- a step replaces the call on the top, and leaves the calls below it
  have hcons : ∀ f f' rest, st = f :: rest → f'.Known m k'.moduleMap →
      ∀ g ∈ f' :: rest, g.Known m k'.moduleMap := by
    intro f f' rest heq hf' g hg
    rcases List.mem_cons.mp hg with rfl | hg
    · exact hf'
    · exact hmono g (heq ▸ List.mem_cons_of_mem f hg)
  cases h with
  | insert ha => exact hcons _ _ _ rfl (by simp [Frame.Known, Shared.setEntry])
  | wait hn => exact hcons _ _ _ rfl (by simp [Frame.Known, hn])
  | round => exact hmono
  | pollAbsent => exact hmono
  | found => exact fun f hf => hmono f (List.mem_cons_of_mem _ hf)
  | notFound => exact fun f hf => hmono f (List.mem_cons_of_mem _ hf)
  | store => exact fun f hf => hmono f (List.mem_cons_of_mem _ hf)
  | start hfound => exact hcons _ _ _ rfl hfound
  | @advance n l ph ph' es rest =>
      have hparse : (Frame.parse n l ph).Known m k.moduleMap := hst _ List.mem_cons_self
      exact hcons _ (.parse n l ph') _ rfl hparse
  | @loadDependency n l d todo rest =>
      have hparse : (Frame.parse n l (.loadDependencies (d :: todo))).Known m k.moduleMap :=
        hst _ List.mem_cons_self
      intro g hg
      rcases List.mem_cons.mp hg with rfl | hg
      · trivial
      · exact hcons _ (.parse n l (.loadDependencies todo)) _ rfl hparse g hg

theorem MapKnown.step (hk : MapKnown m k) (h : LoadStep m k st st' k')
    (hst : StackKnown m k st) : MapKnown m k' where
  module n l hl := by
    rcases h.stored hl with hold | hstore
    · exact hk.module n l hold
    · exact hst _ hstore
  failed n hn := by
    rcases h.returned hn with hold | ⟨l, hl, -⟩ | ⟨-, hplaced, hf⟩
    · obtain ⟨hf, hpresent⟩ := hk.failed n hold
      exact ⟨hf, h.present hpresent⟩
    · cases hl
    · have hpresent : k.moduleMap n ≠ .absent := hst _ hplaced
      exact ⟨hf, h.present hpresent⟩

end

section

variable {m : ModuleFiles} {names : List StdString} {s s' : LoadState T} {n : StdString} {t : T}

theorem known_of_reachable (h : Reachable (loadModuleThread m) (loadAllModules T names) s)
    (t : T) : StackKnown m s.shared (s.stack t) := by
  revert t
  refine reachable_invariant (fun _ _ => True)
    (fun stack k => ∀ t, StackKnown m k (stack t)) (fun _ _ => trivial) ?_ ?_ ?_ h
  · intro t f hf
    cases hf
  · intro stack k t mod _ hi
    exact forall_update hi (by simp [StackKnown, Frame.Known]) (fun _ hst => hst)
  · intro stack k t f rest st k' ht _ hi hs
    exact forall_update hi ((ht ▸ hi t).step hs) fun st hst => hst.mono hs

theorem mapKnown_of_reachable (h : Reachable (loadModuleThread m) (loadAllModules T names) s) :
    MapKnown m s.shared := by
  refine reachable_invariant (fun stack k => ∀ t, StackKnown m k (stack t))
    (fun _ k => MapKnown m k) (fun _ hr => known_of_reachable hr) ?_ ?_ ?_ h
  · constructor
    · intro n l hl
      cases hl
    · intro n hn
      cases hn
  · intro stack k t mod _ hi
    refine ⟨hi.module, fun n hn => ?_⟩
    rcases List.mem_append.mp hn with hn | hn
    · exact hi.failed n hn
    · simp at hn
  · intro stack k t f rest st k' ht hst hi hs
    exact hi.step hs (ht ▸ hst t)

/-- **The placeholder of a failed call stays.** -/
theorem nullptr_of_failed (h : Reachable (loadModuleThread m) (loadAllModules T names) s)
    (hn : .returned n none ∈ s.shared.history) : s.shared.moduleMap n = .nullptr := by
  have hknown := mapKnown_of_reachable h
  obtain ⟨hf, hpresent⟩ := hknown.failed n hn
  cases hentry : s.shared.moduleMap n with
  | absent => exact absurd hentry hpresent
  | nullptr => rfl
  | module l =>
      -- a loader is stored for a file only
      rw [hknown.module n l hentry] at hf
      cases hf

/-! ## Waiting for such a name -/

/-- The thread is in the loop `while (moduleMap[n] == nullptr)`. -/
def Polls (s : LoadState T) (t : T) (n : StdString) : Prop :=
  ∃ rest, s.threads t = .running (.poll n :: rest)

/-- It does not leave this loop, whatever the threads do. -/
def PollsForever (m : ModuleFiles) (s : LoadState T) (t : T) (n : StdString) : Prop :=
  ∀ s', Reachable (loadModuleThread m) s s' → Polls s' t n

theorem remembers_of_step {e : Event} (h : loadModuleThread m t s = some s')
    (he : e ∈ s.shared.history) : e ∈ s'.shared.history := by
  cases loadModuleThread_step h with
  | finish => exact he
  | pop => exact List.mem_append_left _ he
  | load _ hs => exact hs.remembers he

theorem remembers_of_reachable {e : Event} (h : Reachable (loadModuleThread m) s s')
    (he : e ∈ s.shared.history) : e ∈ s'.shared.history :=
  h.invariant (fun s => e ∈ s.shared.history) he fun _ _ _ hi hs => remembers_of_step hs hi

/-- A round of the loop that finds the placeholder is followed by the next one. -/
theorem Polls.step {t' : T} (hp : Polls s t n) (hn : s.shared.moduleMap n = .nullptr)
    (h : loadModuleThread m t' s = some s') : Polls s' t n := by
  obtain ⟨rest, ht⟩ := hp
  by_cases htt : t' = t
  · -- its own step finds the placeholder again
    subst htt
    unfold loadModuleThread loadModule at h
    rw [ht] at h
    dsimp only at h
    rw [hn] at h
    cases h
    exact ⟨rest, Function.update_self _ _ _⟩
  · have hother : ∀ th, (s.setThread t' th).threads t = .running (.poll n :: rest) := by
      intro th
      rw [← ht]
      exact Function.update_of_ne (Ne.symm htt) _ _
    refine ⟨rest, ?_⟩
    cases loadModuleThread_step h with
    | finish => exact hother _
    | pop => exact hother _
    | load => exact hother _

/-- **Whoever polls for the name of a failed call polls for ever.** -/
theorem pollsForever_of_failed (h : Reachable (loadModuleThread m) (loadAllModules T names) s)
    (hn : .returned n none ∈ s.shared.history) (hp : Polls s t n) : PollsForever m s t n := by
  intro s' hs'
  refine hs'.invariant_of (fun s' => s'.shared.moduleMap n = .nullptr) (fun s' => Polls s' t n)
    ?_ hp ?_
  · exact fun s₁ hs₁ => nullptr_of_failed (h.trans hs₁) (remembers_of_reachable hs₁ hn)
  · exact fun t' s₁ s₂ hnull hp₁ hstep => hp₁.step hnull hstep

/-- If a call for `n` has found no file, no placeholder is left for `n` and no thread waits for
it for ever. -/
def FailedLoadHarmless (m : ModuleFiles) (s : LoadState T) (n : StdString) : Prop :=
  m.found n = false → .returned n none ∈ s.shared.history →
    s.shared.moduleMap n ≠ .nullptr ∧ ∀ t, ¬ PollsForever m s t n

/-- **A failed load is never harmless**: this can only be said of a name as long as no call has
failed for it. -/
theorem failedLoad_harmless_iff
    (h : Reachable (loadModuleThread m) (loadAllModules T names) s) (n : StdString) :
    FailedLoadHarmless m s n ↔ .returned n none ∉ s.shared.history := by
  constructor
  · intro hharmless hn
    have hf := ((mapKnown_of_reachable h).failed n hn).1
    exact (hharmless hf hn).1 (nullptr_of_failed h hn)
  · intro hno _ hn
    exact absurd hn hno

end

/-! ## A dependency without a file -/

/-- The file of `a` is missing, and `b` names `a` as a dependency. -/
def missingFile : ModuleFiles where
  found := fun n => n ≠ [0x61]
  depends := fun n => if n = [0x62] then [[0x61]] else []

/-- The first thread looks for the file of `a`, and then the second one loads `b`. -/
def failThenWait : List Bool :=
  [false, false, false, true, true, true, true, true]

def failThenWaitRun : Option (LoadState Bool) :=
  failThenWait.foldlM (fun s t => loadModuleThread missingFile t s)
    (loadAllModules Bool [[0x61], [0x62]])

theorem failThenWaitRun_isSome : failThenWaitRun.isSome = true := by decide

def failThenWaitState : LoadState Bool := failThenWaitRun.get failThenWaitRun_isSome

theorem failThenWaitState_reachable :
    Reachable (loadModuleThread missingFile) (loadAllModules Bool [[0x61], [0x62]])
      failThenWaitState :=
  .of_schedule failThenWait (Option.some_get _).symm

theorem failedLoad_harmless_otherModule :
    FailedLoadHarmless missingFile failThenWaitState [0x62] ↔
      .returned [0x62] none ∉ failThenWaitState.shared.history :=
  failedLoad_harmless_iff failThenWaitState_reachable [0x62]

/-- The second thread waits for `a` for ever. -/
theorem failedLoad_traps_dependent :
    missingFile.found [0x61] = false ∧
      .returned [0x61] none ∈ failThenWaitState.shared.history ∧
      failThenWaitState.shared.moduleMap [0x61] = .nullptr ∧
      PollsForever missingFile failThenWaitState true [0x61] ∧
      ¬ FailedLoadHarmless missingFile failThenWaitState [0x61] := by
  have hreturned : .returned [0x61] none ∈ failThenWaitState.shared.history := by decide
  have hnull := nullptr_of_failed failThenWaitState_reachable hreturned
  have hpolls : Polls failThenWaitState true [0x61] :=
    ⟨[.parse [0x62] 0 (.loadDependencies [])], by decide⟩
  refine ⟨rfl, hreturned, hnull, ?_, ?_⟩
  · exact pollsForever_of_failed failThenWaitState_reachable hreturned hpolls
  · exact fun hharmless => (hharmless rfl hreturned).1 hnull

end KernInt
