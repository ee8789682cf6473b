import KernInt.Kernel.ModuleLoad

set_option autoImplicit false

/-! # Invariants of the parallel module loading

A name goes from absent to the placeholder to a loader, and every placeholder is owned by
exactly one call, on the stack of one thread (`Ownership`). From this follow that a file is
parsed at most once (`Starts`), that all calls return the stored loader (`Returned`), and that
a call that has gone beyond `loadDependencies` finds its dependencies loaded (`StackOk`).

The invariants are about the stacks of the threads and the shared state; they hold of every
reachable state if each step of a call keeps them (`reachable_invariant`). The owners and what
follows from them are for the case that every lookup of a file succeeds.
-/

namespace KernInt

open Lib

variable {T : Type} [DecidableEq T]

/-! ## Invariants of the stacks -/

/-- What holds of the empty stacks, of a thread that pops a name, and after each step of a call
holds of all reachable states. -/
theorem reachable_invariant {m : ModuleFiles} {names : List StdString} {s : LoadState T}
    (Known Inv : (T → List Frame) → Shared → Prop)
    (hknown : ∀ s, Reachable (loadModuleThread m) (loadAllModules T names) s →
      Known s.stack s.shared)
    (h0 : Inv (fun _ => []) (loadAllModules T names).shared)
    (hpop : ∀ stack k t mod, stack t = [] → Inv stack k →
      Inv (Function.update stack t [.call mod]) (k.log (.popped mod)))
    (hload : ∀ stack k t f rest st k', stack t = f :: rest → Known stack k → Inv stack k →
      LoadStep m k (f :: rest) st k' → Inv (Function.update stack t st) k')
    (h : Reachable (loadModuleThread m) (loadAllModules T names) s) : Inv s.stack s.shared := by
  refine h.invariant_of (fun s => Known s.stack s.shared) (fun s => Inv s.stack s.shared)
    hknown h0 ?_
  intro t s s' hk hi hs
  have hstack : ∀ th, s.threads t = .running th → s.stack t = th := by
    intro th hth
    simp only [LoadState.stack, hth, ThreadState.stack]
  cases loadModuleThread_step hs with
  | finish ht _ =>
      have hsame : (s.setThread t .finished).stack = s.stack := by
        rw [LoadState.stack_setThread, ThreadState.stack, ← hstack _ ht, Function.update_eq_self]
      rw [hsame]
      exact hi
  | @pop mod modList ht _ =>
      have := hpop s.stack s.shared t mod (hstack _ ht) hi
      rwa [← ThreadState.stack.eq_1 [.call mod], ← LoadState.stack_setThread] at this
  | @load f rest st k ht hl =>
      have := hload s.stack s.shared t f rest st k (hstack _ ht) hk hi hl
      rwa [← ThreadState.stack.eq_1 st, ← LoadState.stack_setThread] at this

/-- An invariant of the single stacks: one step keeps it on the stack of its thread and on all
others. -/
theorem forall_update {P P' : List Frame → Prop} {stack : T → List Frame} {t : T}
    {st : List Frame} (h : ∀ t, P (stack t)) (hsame : P' st) (hother : ∀ st, P st → P' st) :
    ∀ t', P' (Function.update stack t st t') := by
  intro t'
  by_cases ht : t' = t
  · subst ht
    rw [Function.update_self]
    exact hsame
  · rw [Function.update_of_ne ht]
    exact hother _ (h t')

/-! ## The map -/

/-- A name that is in the map stays in the map. -/
theorem LoadStep.present {m : ModuleFiles} {k k' : Shared} {st st' : List Frame}
    (h : LoadStep m k st st' k') {n : StdString} (hn : k.moduleMap n ≠ .absent) :
    k'.moduleMap n ≠ .absent := by
  have hset : ∀ n' e, e ≠ .absent → (k.setEntry n' e).moduleMap n ≠ .absent := by
    intro n' e he
    simp only [Shared.setEntry, Function.update_apply]
    split
    · exact he
    · exact hn
  cases h with
  | insert => exact hset _ _ (by simp)
  | pollAbsent => exact hset _ _ (by simp)
  | store => exact hset _ _ (by simp)
  | _ => exact hn

/-- What a step returns is in the map, unless the file has not been found. -/
theorem LoadStep.returned {m : ModuleFiles} {k k' : Shared} {st st' : List Frame}
    (h : LoadStep m k st st' k') {n : StdString} {r : Option Loader}
    (hr : .returned n r ∈ k'.history) :
    .returned n r ∈ k.history ∨ (∃ l, r = some l ∧ k'.moduleMap n = .module l) ∨
      (r = none ∧ .placed n ∈ st ∧ m.found n = false) := by
  cases h with
  | found _ hn =>
      rcases List.mem_append.mp hr with hr | hr
      · exact .inl hr
      · cases List.mem_singleton.mp hr
        exact .inr (.inl ⟨_, rfl, hn⟩)
  | notFound hf =>
      rcases List.mem_append.mp hr with hr | hr
      · exact .inl hr
      · cases List.mem_singleton.mp hr
        exact .inr (.inr ⟨rfl, .head _, hf⟩)
  | start =>
      rcases List.mem_append.mp hr with hr | hr
      · exact .inl hr
      · simp at hr
  | store =>
      rcases List.mem_append.mp hr with hr | hr
      · exact .inl hr
      · cases List.mem_singleton.mp hr
        exact .inr (.inl ⟨_, rfl, Function.update_self _ _ _⟩)
  | advance hnext =>
      rcases List.mem_append.mp hr with hr | hr
      · exact .inl hr
      · cases hnext <;> simp at hr
  | _ => exact .inl hr

/-- A call polls for names in the map only. -/
def PollsPresent (k : Shared) (st : List Frame) : Prop :=
  ∀ n, .poll n ∈ st → k.moduleMap n ≠ .absent

theorem PollsPresent.step {m : ModuleFiles} {k k' : Shared} {st st' : List Frame}
    (hp : PollsPresent k st) (h : LoadStep m k st st' k') : PollsPresent k' st' := by
  intro n hn
  refine h.present ?_
  cases h with
  | wait hwait =>
      rcases List.mem_cons.mp hn with hn | hn
      · cases hn
        rw [hwait]
        simp
      · exact hp n (.tail _ hn)
  | round => exact hp n hn
  | pollAbsent => exact hp n hn
  | found => exact hp n (.tail _ hn)
  | notFound => exact hp n (.tail _ hn)
  | store => exact hp n (.tail _ hn)
  | _ => exact hp n (by simpa using hn)

theorem pollsPresent_of_reachable {m : ModuleFiles} {names : List StdString} {s : LoadState T}
    (h : Reachable (loadModuleThread m) (loadAllModules T names) s) (t : T) :
    PollsPresent s.shared (s.stack t) := by
  revert t
  refine reachable_invariant (fun _ _ => True)
    (fun stack k => ∀ t, PollsPresent k (stack t)) (fun _ _ => trivial) ?_ ?_ ?_ h
  · intro t n hn
    cases hn
  · intro stack k t mod _ hi
    exact forall_update hi (by simp [PollsPresent]) (fun _ hst => hst)
  · intro stack k t f rest st k' ht _ hi hs
    refine forall_update hi ((ht ▸ hi t).step hs) ?_
    intro st hst n hn
    exact hs.present (hst n hn)

/-! ## Owners of placeholders -/

/-- The placeholders that the calls on a stack have entered. -/
def ownedNames (st : List Frame) : List StdString :=
  st.filterMap Frame.owned

/-- What a step does to the map and to the placeholders that its thread owns. -/
theorem LoadStep.ownedNames {m : ModuleFiles} {k k' : Shared} {st st' : List Frame}
    (hfound : ∀ n, m.found n = true) (hp : PollsPresent k st) (h : LoadStep m k st st' k') :
    (ownedNames st' = ownedNames st ∧ k'.moduleMap = k.moduleMap) ∨
    (∃ n, k.moduleMap n = .absent ∧ ownedNames st' = n :: ownedNames st ∧
      k'.moduleMap = Function.update k.moduleMap n .nullptr) ∨
    (∃ n l, ownedNames st = n :: ownedNames st' ∧
      k'.moduleMap = Function.update k.moduleMap n (.module l)) := by
  cases h with
  | insert ha => exact .inr (.inl ⟨_, ha, rfl, rfl⟩)
  | found hf => exact .inl ⟨(List.filterMap_cons_none hf).symm, rfl⟩
  | pollAbsent ha => exact absurd ha (hp _ (by simp))
  | notFound hf =>
      rw [hfound] at hf
      cases hf
  | store => exact .inr (.inr ⟨_, _, rfl, rfl⟩)
  | _ => exact .inl ⟨rfl, rfl⟩

/-- **Every placeholder has exactly one owner.** -/
structure Ownership (stack : T → List Frame) (moduleMap : StdString → MapEntry) : Prop where
  placeholder : ∀ t n, n ∈ ownedNames (stack t) → moduleMap n = .nullptr
  owner : ∀ n, moduleMap n = .nullptr → ∃ t, n ∈ ownedNames (stack t)
  nodup : ∀ t, (ownedNames (stack t)).Nodup
  unique : ∀ t t' n, n ∈ ownedNames (stack t) → n ∈ ownedNames (stack t') → t = t'

namespace Ownership

variable {stack : T → List Frame} {moduleMap : StdString → MapEntry} {t : T} {st : List Frame}
  {n : StdString}

omit [DecidableEq T] in
theorem congr {stack' : T → List Frame} (h : Ownership stack moduleMap)
    (hs : ∀ t, ownedNames (stack' t) = ownedNames (stack t)) : Ownership stack' moduleMap where
  placeholder t n hn := h.placeholder t n (hs t ▸ hn)
  owner n hn := by
    obtain ⟨t, ht⟩ := h.owner n hn
    exact ⟨t, hs t ▸ ht⟩
  nodup t := hs t ▸ h.nodup t
  unique t t' n hn hn' := h.unique t t' n (hs t ▸ hn) (hs t' ▸ hn')

theorem same (h : Ownership stack moduleMap) (hst : ownedNames st = ownedNames (stack t)) :
    Ownership (Function.update stack t st) moduleMap := by
  refine h.congr fun t' => ?_
  by_cases ht : t' = t
  · subst ht
    rw [Function.update_self, hst]
  · rw [Function.update_of_ne ht]

theorem insert (h : Ownership stack moduleMap) (hn : moduleMap n = .absent)
    (hst : ownedNames st = n :: ownedNames (stack t)) :
    Ownership (Function.update stack t st) (Function.update moduleMap n .nullptr) := by
  have hfree : ∀ t', n ∉ ownedNames (stack t') := by
    intro t' hmem
    rw [h.placeholder t' n hmem] at hn
    cases hn
  -- the owners of the other names are as before
  have hmem : ∀ t' n', n' ∈ ownedNames (Function.update stack t st t') ↔
      (t' = t ∧ n' = n) ∨ n' ∈ ownedNames (stack t') := by
    intro t' n'
    by_cases ht : t' = t
    · subst ht
      rw [Function.update_self, hst, List.mem_cons]
      simp
    · rw [Function.update_of_ne ht]
      simp [ht]
  refine ⟨?_, ?_, ?_, ?_⟩
  · intro t' n' hn'
    rw [Function.update_apply]
    split
    · rfl
    · rcases (hmem t' n').mp hn' with ⟨_, hnn⟩ | hn'
      · exact absurd hnn ‹_›
      · exact h.placeholder t' n' hn'
  · intro n' hn'
    by_cases hnn : n' = n
    · exact ⟨t, (hmem t n').mpr (.inl ⟨rfl, hnn⟩)⟩
    · rw [Function.update_of_ne hnn] at hn'
      obtain ⟨t', ht'⟩ := h.owner n' hn'
      exact ⟨t', (hmem t' n').mpr (.inr ht')⟩
  · intro t'
    by_cases ht : t' = t
    · subst ht
      rw [Function.update_self, hst]
      exact List.nodup_cons.mpr ⟨hfree t', h.nodup t'⟩
    · rw [Function.update_of_ne ht]
      exact h.nodup t'
  · intro t₁ t₂ n' h1 h2
    rcases (hmem t₁ n').mp h1 with ⟨ht1, hn1⟩ | hold1
    · rcases (hmem t₂ n').mp h2 with ⟨ht2, _⟩ | hold2
      · rw [ht1, ht2]
      · exact absurd (hn1 ▸ hold2) (hfree t₂)
    · rcases (hmem t₂ n').mp h2 with ⟨_, hn2⟩ | hold2
      · exact absurd (hn2 ▸ hold1) (hfree t₁)
      · exact h.unique t₁ t₂ n' hold1 hold2

theorem store {l : Loader} (h : Ownership stack moduleMap)
    (hst : ownedNames (stack t) = n :: ownedNames st) :
    Ownership (Function.update stack t st) (Function.update moduleMap n (.module l)) := by
  have hnd := h.nodup t
  rw [hst] at hnd
  have hown : n ∈ ownedNames (stack t) := by
    rw [hst]
    exact .head _
  -- nobody owns the stored name any more
  have hmem : ∀ t' n', n' ∈ ownedNames (Function.update stack t st t') ↔
      n' ≠ n ∧ n' ∈ ownedNames (stack t') := by
    intro t' n'
    by_cases ht : t' = t
    · subst ht
      rw [Function.update_self, hst, List.mem_cons]
      constructor
      · intro hn'
        exact ⟨fun he => (List.nodup_cons.mp hnd).1 (he ▸ hn'), .inr hn'⟩
      · rintro ⟨hne, he | hn'⟩
        · exact absurd he hne
        · exact hn'
    · rw [Function.update_of_ne ht]
      constructor
      · intro hn'
        exact ⟨fun he => ht (h.unique t' t n (he ▸ hn') hown), hn'⟩
      · exact fun hn' => hn'.2
  refine ⟨?_, ?_, ?_, ?_⟩
  · intro t' n' hn'
    obtain ⟨hne, hn'⟩ := (hmem t' n').mp hn'
    rw [Function.update_of_ne hne]
    exact h.placeholder t' n' hn'
  · intro n' hn'
    have hne : n' ≠ n := by
      rintro rfl
      rw [Function.update_self] at hn'
      cases hn'
    rw [Function.update_of_ne hne] at hn'
    obtain ⟨t', ht'⟩ := h.owner n' hn'
    exact ⟨t', (hmem t' n').mpr ⟨hne, ht'⟩⟩
  · intro t'
    by_cases ht : t' = t
    · subst ht
      rw [Function.update_self]
      exact (List.nodup_cons.mp hnd).2
    · rw [Function.update_of_ne ht]
      exact h.nodup t'
  · intro t₁ t₂ n' h1 h2
    exact h.unique t₁ t₂ n' ((hmem t₁ n').mp h1).2 ((hmem t₂ n').mp h2).2

end Ownership

theorem ownership_of_reachable {m : ModuleFiles} (hfound : ∀ n, m.found n = true)
    {names : List StdString} {s : LoadState T}
    (h : Reachable (loadModuleThread m) (loadAllModules T names) s) :
    Ownership s.stack s.shared.moduleMap := by
  refine reachable_invariant (fun stack k => ∀ t, PollsPresent k (stack t))
    (fun stack k => Ownership stack k.moduleMap) (fun _ hr => pollsPresent_of_reachable hr)
    ?_ ?_ ?_ h
  · refine ⟨?_, ?_, ?_, ?_⟩ <;> intros
    · cases ‹_ ∈ _›
    · cases ‹_ = MapEntry.nullptr›
    · exact List.nodup_nil
    · cases ‹_ ∈ _›
  · intro stack k t mod ht hi
    exact hi.same (by rw [ht]; rfl)
  · intro stack k t f rest st k' ht hp hi hs
    rw [← ht] at hs
    rcases hs.ownedNames hfound (hp t) with ⟨hst, hm⟩ | ⟨n, hn, hst, hm⟩ | ⟨n, l, hst, hm⟩
    · rw [hm]
      exact hi.same hst
    · rw [hm]
      exact hi.insert hn hst
    · rw [hm]
      exact hi.store hst

/-! ## Loaded modules -/

omit [DecidableEq T] in
/-- A step does not change a stored loader. -/
theorem LoadStep.module_stays {m : ModuleFiles} {k k' : Shared} {stack : T → List Frame} {t : T}
    {st : List Frame} (hown : Ownership stack k.moduleMap) (h : LoadStep m k (stack t) st k')
    {n : StdString} {l : Loader} (hn : k.moduleMap n = .module l) :
    k'.moduleMap n = .module l := by
  have hset : ∀ n' e, k.moduleMap n' ≠ .module l → (k.setEntry n' e).moduleMap n = .module l := by
    intro n' e hn'
    have hne : n ≠ n' := fun he => hn' (he ▸ hn)
    exact (Function.update_of_ne hne _ _).trans hn
  generalize hst : stack t = st₀ at h
  cases h with
  | insert ha =>
      refine hset _ _ ?_
      rw [ha]
      simp
  | pollAbsent ha =>
      refine hset _ _ ?_
      rw [ha]
      simp
  | @store n' l' rest =>
      -- the stored name was owned, so it had the placeholder
      have hph : k.moduleMap n' = .nullptr := hown.placeholder t n' (by rw [hst]; exact .head _)
      refine hset _ _ ?_
      rw [hph]
      simp
  | _ => exact hn

def Loaded (moduleMap : StdString → MapEntry) (n : StdString) : Prop :=
  ∃ l, moduleMap n = .module l

/-! ## Dependencies on the stack

A call in `loadDependencies` has loaded the names it has gone through, except the one that the
call above it on the stack is loading. `above` is the name of that call. -/

/-- What holds of a call below a call for `above`. -/
def Frame.Ok (m : ModuleFiles) (moduleMap : StdString → MapEntry) (above : Option StdString) :
    Frame → Prop
  | .parse n _ (.loadDependencies todo) =>
      (∀ d ∈ todo, d ∈ m.depends n) ∧
      (∀ d ∈ m.depends n, d ∈ todo ∨ Loaded moduleMap (moduleName d) ∨
        above = some (moduleName d)) ∧
      ∀ a, above = some a → m.DependsOn n a
  | .parse n _ _ => above = none ∧ ∀ d ∈ m.depends n, Loaded moduleMap (moduleName d)
  | _ => above = none

def StackOk (m : ModuleFiles) (moduleMap : StdString → MapEntry) :
    Option StdString → List Frame → Prop
  | _, [] => True
  | above, f :: rest => f.Ok m moduleMap above ∧ StackOk m moduleMap (some f.name) rest

section

variable {m : ModuleFiles} {moduleMap moduleMap' : StdString → MapEntry}

theorem Frame.Ok.mono {above : Option StdString} {f : Frame} (h : f.Ok m moduleMap above)
    (hle : ∀ n, Loaded moduleMap n → Loaded moduleMap' n) : f.Ok m moduleMap' above := by
  unfold Frame.Ok at h ⊢
  split at h
  · refine ⟨h.1, fun d hd => ?_, h.2.2⟩
    exact (h.2.1 d hd).imp_right (Or.imp_left (hle _))
  · exact ⟨h.1, fun d hd => hle _ (h.2 d hd)⟩
  · exact h

/-- A call that another one stands on is in `loadDependencies`, and has named its module. -/
theorem Frame.Ok.dependsOn {a : StdString} {f : Frame} (h : f.Ok m moduleMap (some a)) :
    m.DependsOn f.name a := by
  unfold Frame.Ok at h
  split at h
  · exact h.2.2 a rfl
  · cases h.1
  · cases h

/-- When the call above has loaded its module, it can be taken away. -/
theorem Frame.Ok.returned {a : StdString} {f : Frame} (h : f.Ok m moduleMap (some a))
    (ha : Loaded moduleMap a) : f.Ok m moduleMap none := by
  unfold Frame.Ok at h ⊢
  split at h
  · refine ⟨h.1, fun d hd => ?_, by simp⟩
    rcases h.2.1 d hd with hd | hd | hd
    · exact .inl hd
    · exact .inr (.inl hd)
    · cases hd
      exact .inr (.inl ha)
  · cases h.1
  · cases h

namespace StackOk

theorem mono {above : Option StdString} {st : List Frame} (h : StackOk m moduleMap above st)
    (hle : ∀ n, Loaded moduleMap n → Loaded moduleMap' n) : StackOk m moduleMap' above st := by
  induction st generalizing above with
  | nil => trivial
  | cons f rest ih => exact ⟨h.1.mono hle, ih h.2⟩

theorem replace {above : Option StdString} {f f' : Frame} {rest : List Frame}
    (h : StackOk m moduleMap above (f :: rest)) (hname : f'.name = f.name)
    (hf' : f'.Ok m moduleMap above) : StackOk m moduleMap above (f' :: rest) :=
  ⟨hf', hname ▸ h.2⟩

theorem returned {f : Frame} {rest : List Frame} (h : StackOk m moduleMap none (f :: rest))
    (hf : Loaded moduleMap f.name) : StackOk m moduleMap none rest := by
  cases rest with
  | nil => trivial
  | cons g rest => exact ⟨h.2.1.returned hf, h.2.2⟩

/-- The module of a call is a direct or indirect dependency of those of the calls below. -/
theorem dependsOn {above : Option StdString} {f : Frame} {rest : List Frame}
    (h : StackOk m moduleMap above (f :: rest)) {g : Frame} (hg : g ∈ rest) :
    Relation.TransGen m.DependsOn g.name f.name := by
  induction rest generalizing above f with
  | nil => cases hg
  | cons g' rest ih =>
      have hstep : m.DependsOn g'.name f.name := h.2.1.dependsOn
      rcases List.mem_cons.mp hg with rfl | hg
      · exact .single hstep
      · exact .tail (ih h.2 hg) hstep

end StackOk

theorem Phase.Next.ok {n : StdString} {l : Loader} {ph ph' : Phase} {es : List Event}
    (hs : Phase.Next n l ph ph' es) (h : (Frame.parse n l ph).Ok m moduleMap none) :
    (Frame.parse n l ph').Ok m moduleMap none := by
  cases hs with
  | dependenciesLoaded =>
      refine ⟨rfl, fun d hd => ?_⟩
      rcases h.2.1 d hd with hd | hd | hd
      · cases hd
      · exact hd
      · cases hd
  | _ => exact ⟨rfl, h.2⟩

theorem StackOk.step {k k' : Shared} {st st' : List Frame} (hfound : ∀ n, m.found n = true)
    (hs : LoadStep m k st st' k') (hle : ∀ n, Loaded k.moduleMap n → Loaded k'.moduleMap n)
    (h : StackOk m k.moduleMap none st) : StackOk m k'.moduleMap none st' := by
  have h' := h.mono hle
  cases hs with
  | insert => exact h'.replace rfl rfl
  | wait => exact h'.replace rfl rfl
  | round => exact h'
  | pollAbsent => exact h'
  | found _ hn => exact h'.returned ⟨_, hn⟩
  | start => exact h'.replace rfl ⟨fun _ hd => hd, fun _ hd => .inl hd, by simp⟩
  | notFound hn =>
      rw [hfound] at hn
      cases hn
  | @loadDependency n l d todo rest =>
      obtain ⟨htodo, hdone, _⟩ := h.1
      refine ⟨rfl, ⟨fun d' hd => htodo d' (.tail _ hd), fun d' hd => ?_, ?_⟩, h.2⟩
      · rcases hdone d' hd with hd | hd | hd
        · rcases List.mem_cons.mp hd with rfl | hd
          · exact .inr (.inr rfl)
          · exact .inl hd
        · exact .inr (.inl hd)
        · cases hd
      · rintro a ⟨rfl⟩
        exact List.mem_map_of_mem (htodo d (.head _))
  | advance hnext => exact h'.replace rfl (hnext.ok h'.1)
  | store => exact h'.returned ⟨_, Function.update_self _ _ _⟩

end

theorem stackOk_of_reachable {m : ModuleFiles} (hfound : ∀ n, m.found n = true)
    {names : List StdString} {s : LoadState T}
    (h : Reachable (loadModuleThread m) (loadAllModules T names) s) (t : T) :
    StackOk m s.shared.moduleMap none (s.stack t) := by
  revert t
  refine reachable_invariant (fun stack k => Ownership stack k.moduleMap)
    (fun stack k => ∀ t, StackOk m k.moduleMap none (stack t))
    (fun _ hr => ownership_of_reachable hfound hr) ?_ ?_ ?_ h
  · exact fun _ => trivial
  · intro stack k t mod _ hi
    exact forall_update hi ⟨rfl, trivial⟩ (fun _ hst => hst)
  · intro stack k t f rest st k' ht hown hi hs
    rw [← ht] at hs
    have hle : ∀ n, Loaded k.moduleMap n → Loaded k'.moduleMap n :=
      fun n ⟨l, hl⟩ => ⟨l, hs.module_stays hown hl⟩
    exact forall_update hi ((hi t).step hfound hs hle) (fun _ hst => hst.mono hle)

end KernInt
