import KernInt.Kernel.ModuleLoadReady

set_option autoImplicit false

/-! # No deadlock in module loading

A thread that polls for a placeholder waits for the owner of the placeholder. If all threads
waited, take a placeholder below which, in the order of the dependencies, there is no other
one. Its owner polls for a name that it has reached through `loadDependencies`, which is a
dependency of the first, so it cannot have the placeholder.
-/

namespace KernInt

open Lib

variable {T : Type} [DecidableEq T]

/-- The next step of `t` is one more round of `while (moduleMap[moduleName] == nullptr)`. -/
def PollRound (s : LoadState T) (t : T) : Prop :=
  ∃ n rest, s.threads t = .running (.poll n :: rest) ∧ s.shared.moduleMap n = .nullptr

/-- A thread that has not finished has a next step. -/
theorem exists_step (m : ModuleFiles) {s : LoadState T} {t : T} (ht : s.threads t ≠ .finished) :
    ∃ s', loadModuleThread m t s = some s' := by
  unfold loadModuleThread
  split
  · exact absurd ‹_› ht
  · split
    · exact ⟨_, rfl⟩
    · exact ⟨_, rfl⟩
  · exact ⟨_, rfl⟩

theorem Frame.name_of_owned {f : Frame} {n : StdString} (h : f.owned = some n) : f.name = n := by
  cases f with
  | call => cases h
  | poll => cases h
  | placed =>
      cases h
      rfl
  | parse =>
      cases h
      rfl

/-- An owner that polls for `n'` has found `n'` among the dependencies of its placeholders. -/
theorem dependsOn_of_owned {m : ModuleFiles} {moduleMap : StdString → MapEntry}
    {n n' : StdString} {rest : List Frame}
    (hok : StackOk m moduleMap none (.poll n' :: rest))
    (hn : n ∈ ownedNames (.poll n' :: rest)) : Relation.TransGen m.DependsOn n n' := by
  obtain ⟨g, hg, hgn⟩ := List.mem_filterMap.mp hn
  rcases List.mem_cons.mp hg with rfl | hg
  · cases hgn
  · have := hok.dependsOn hg
    rwa [Frame.name_of_owned hgn] at this

/-- **No deadlock**: as long as some thread has not finished, one of the threads has a step
other than a round of its polling loop. -/
theorem no_deadlock {m : ModuleFiles} (hfound : ∀ n, m.found n = true)
    (hfin : {p : StdString × StdString | m.DependsOn p.1 p.2}.Finite)
    (hacyc : ∀ n, ¬ Relation.TransGen m.DependsOn n n)
    {names : List StdString} {s : LoadState T}
    (h : Reachable (loadModuleThread m) (loadAllModules T names) s)
    (hrun : ∃ t, s.threads t ≠ .finished) :
    ∃ t s', loadModuleThread m t s = some s' ∧ ¬ PollRound s t := by
  by_contra hstuck
  have hpoll : ∀ t, s.threads t ≠ .finished → PollRound s t := by
    intro t ht
    by_contra hround
    obtain ⟨s', hs'⟩ := exists_step m ht
    exact hstuck ⟨t, s', hs', hround⟩
  have hown := ownership_of_reachable hfound h
  -- some placeholder is there, since some thread polls
  obtain ⟨t, ht⟩ := hrun
  obtain ⟨n, _, _, hn⟩ := hpoll t ht
  obtain ⟨n₀, hn₀, hmin⟩ := (wellFounded_of_acyclic hfin hacyc).has_min
    {n | s.shared.moduleMap n = .nullptr} ⟨n, hn⟩
  -- the owner of a lowest placeholder is not finished, so it polls as well
  obtain ⟨t₀, ht₀⟩ := hown.owner n₀ hn₀
  have hrun₀ : s.threads t₀ ≠ .finished := by
    intro hf
    rw [LoadState.stack, hf] at ht₀
    cases ht₀
  obtain ⟨n₁, rest, hstack, hn₁⟩ := hpoll t₀ hrun₀
  have hok := stackOk_of_reachable hfound h t₀
  rw [LoadState.stack, hstack] at ht₀ hok
  exact hmin n₁ hn₁ (dependsOn_of_owned hok ht₀)

theorem twoModules_dependsOn {n d : StdString} (h : twoModules.DependsOn n d) :
    n = [0x61] ∧ d = [0x62, 0x5f] := by
  simp only [ModuleFiles.DependsOn, twoModules] at h
  split at h
  · exact ⟨‹_›, by simpa [moduleName] using h⟩
  · cases h

theorem twoModules_acyclic (n : StdString) : ¬ Relation.TransGen twoModules.DependsOn n n := by
  intro h
  obtain ⟨c, hc, _⟩ := Relation.TransGen.head'_iff.mp h
  obtain ⟨d, _, hd⟩ := Relation.TransGen.tail'_iff.mp h
  have h1 := (twoModules_dependsOn hc).1
  have h2 := (twoModules_dependsOn hd).2
  rw [h1] at h2
  cases h2

/-- Both threads of `waitForOther` are still at work at its end. -/
theorem no_deadlock_waitForOther :
    ∃ t s', loadModuleThread twoModules t (waitForOtherRun.get waitForOtherRun_isSome) = some s' ∧
      ¬ PollRound (waitForOtherRun.get waitForOtherRun_isSome) t := by
  refine no_deadlock (m := twoModules) (fun _ => rfl) ?_ twoModules_acyclic
    (.of_schedule waitForOther (Option.some_get _).symm) ⟨false, by decide⟩
  refine (Set.finite_singleton ([0x61], [0x62, 0x5f])).subset ?_
  rintro ⟨n, d⟩ hnd
  obtain ⟨rfl, rfl⟩ := twoModules_dependsOn hnd
  rfl

end KernInt
