import KernInt.Process.RegisterSyms
import KernInt.Lib.Overlay
import Mathlib.Logic.Function.Basic

set_option autoImplicit false

/-! # The order of the loaders

`processLoadRel` keeps the loaders of a process in an unordered set and registers their symbols
in the order in which it iterates over this set. Of several addresses for a name the symbol
manager keeps the first or the last. So which address a name gets does not depend on the order
exactly if no two loaders disagree about a name, unless the registration fails altogether
(`registerLoaders_orderIndependent_iff`).
-/

namespace KernInt

open Lib

/-- What the symbol manager does with a name that it knows already. -/
inductive AddPolicy where
  | keepFirst
  | keepLast
  deriving DecidableEq

abbrev SymbolMap := String → Option U64

def addSymbolAddress (policy : AddPolicy) (symbols : SymbolMap) (name : String) (address : U64) :
    SymbolMap :=
  if policy = .keepFirst ∧ (symbols name).isSome then symbols
  else Function.update symbols name (some address)

/-- A loader with what `getSymbols` returns for it. -/
structure LoaderSymbols where
  loader : ElfUserspaceLoader
  getSymbols : Except ElfError (List (ElfSymbol loader.elffile))

section

variable (policy : AddPolicy) (mappings : List VMAInfo)

def registerLoader (symbols : SymbolMap) (loader : LoaderSymbols) : Except ElfError SymbolMap := do
  let syms ← loader.getSymbols
  registerSyms loader.loader mappings (addSymbolAddress policy) syms symbols

/-- The loop of `processLoadRel`, over the loaders in the order of the iteration. -/
def registerLoaders (loaders : List LoaderSymbols) : Except ElfError SymbolMap :=
  loaders.foldlM (registerLoader policy mappings) fun _ => none

/-! ## The calls for one loader -/

/-- The names and addresses that are registered for the symbols of a loader. -/
def symbolCalls (loader : ElfUserspaceLoader) (syms : List (ElfSymbol loader.elffile)) :
    Except ElfError (List (String × U64)) :=
  syms.mapM fun sym => do
    let mapping ← findMapping loader mappings sym
    .ok (sym.name, sym.value + mapping.start)

def loaderCalls (loader : LoaderSymbols) : Except ElfError (List (String × U64)) := do
  let syms ← loader.getSymbols
  symbolCalls mappings loader.loader syms

/-- Of the addresses that are registered for a name, the one that the policy keeps. -/
def kept (calls : List (String × U64)) : SymbolMap := fun name =>
  match policy with
  | .keepFirst => calls.lookup name
  | .keepLast => calls.reverse.lookup name

/-- The addresses that a loader on its own leaves in the symbol manager. -/
def exports (loader : LoaderSymbols) : SymbolMap :=
  match loaderCalls mappings loader with
  | .ok calls => kept policy calls
  | .error _ => fun _ => none

/-- `new` is registered behind `old`. -/
def merge (old new : SymbolMap) : SymbolMap := fun name =>
  match policy with
  | .keepFirst => (old name).or (new name)
  | .keepLast => (new name).or (old name)

variable {policy mappings}

/-- The map of a single call. -/
def single (call : String × U64) : SymbolMap := fun name =>
  if name = call.1 then some call.2 else none

theorem merge_assoc (m₁ m₂ m₃ : SymbolMap) :
    merge policy (merge policy m₁ m₂) m₃ = merge policy m₁ (merge policy m₂ m₃) := by
  funext name
  cases policy with
  | keepFirst => exact Option.or_assoc
  | keepLast => exact Option.or_assoc.symm

theorem addSymbolAddress_eq (symbols : SymbolMap) (call : String × U64) :
    addSymbolAddress policy symbols call.1 call.2 = merge policy symbols (single call) := by
  obtain ⟨name, address⟩ := call
  funext name'
  by_cases hname : name' = name
  · subst hname
    cases policy with
    | keepFirst => cases hs : symbols name' <;> simp [addSymbolAddress, merge, single, hs]
    | keepLast => simp [addSymbolAddress, merge, single]
  · cases policy with
    | keepFirst => cases hs : symbols name <;> simp [addSymbolAddress, merge, single, hname, hs]
    | keepLast => simp [addSymbolAddress, merge, single, hname]

theorem kept_cons (call : String × U64) (calls : List (String × U64)) :
    kept policy (call :: calls) = merge policy (single call) (kept policy calls) := by
  obtain ⟨name, address⟩ := call
  have hlookup : ∀ name', [(name, address)].lookup name' = single (name, address) name' := by
    intro name'
    by_cases hname : name' = name
    · simp [single, hname]
    · simp [single, hname]
  funext name'
  cases policy with
  | keepFirst =>
      show ([(name, address)] ++ calls).lookup name' = _
      rw [List.lookup_append, hlookup]
      rfl
  | keepLast =>
      show ((name, address) :: calls).reverse.lookup name' = _
      rw [List.reverse_cons, List.lookup_append, hlookup]
      rfl

/-- Call after call the symbol manager arrives at what it keeps of all of them. -/
theorem foldl_addSymbolAddress (calls : List (String × U64)) (symbols : SymbolMap) :
    calls.foldl (fun symbols call => addSymbolAddress policy symbols call.1 call.2) symbols =
      merge policy symbols (kept policy calls) := by
  induction calls generalizing symbols with
  | nil =>
      funext name
      cases policy with
      | keepFirst => exact Option.or_none.symm
      | keepLast => rfl
  | cons call calls ih => rw [List.foldl_cons, ih, addSymbolAddress_eq, kept_cons, merge_assoc]

theorem registerSyms_eq {loader : ElfUserspaceLoader} {σ : Type} (add : σ → String → U64 → σ)
    (syms : List (ElfSymbol loader.elffile)) (symbols : σ) :
    registerSyms loader mappings add syms symbols =
      (symbolCalls mappings loader syms).map fun calls =>
        calls.foldl (fun symbols call => add symbols call.1 call.2) symbols := by
  induction syms generalizing symbols with
  | nil => rfl
  | cons sym syms ih =>
      rw [registerSyms, symbolCalls, List.foldlM_cons, List.mapM_cons]
      cases hm : findMapping loader mappings sym with
      | error e =>
          rw [registerSym, hm]
          rfl
      | ok m =>
          rw [registerSym_of_findMapping mappings add hm]
          show registerSyms loader mappings add syms _ = _
          rw [ih]
          show _ = Except.map _ (symbolCalls mappings loader syms >>= _)
          cases symbolCalls mappings loader syms with
          | error e => rfl
          | ok calls => rfl

/-! ## All loaders -/

theorem registerLoader_eq (symbols : SymbolMap) (loader : LoaderSymbols) :
    registerLoader policy mappings symbols loader =
      (loaderCalls mappings loader).map fun calls => merge policy symbols (kept policy calls) := by
  rw [registerLoader, loaderCalls]
  cases loader.getSymbols with
  | error e => rfl
  | ok syms =>
      show registerSyms loader.loader mappings (addSymbolAddress policy) syms symbols =
        (symbolCalls mappings loader.loader syms).map _
      rw [registerSyms_eq]
      congr 1
      funext calls
      exact foldl_addSymbolAddress calls symbols

/-- The loaders, those in front whose addresses are kept. -/
def byPrecedence (policy : AddPolicy) (loaders : List LoaderSymbols) : List LoaderSymbols :=
  match policy with
  | .keepFirst => loaders
  | .keepLast => loaders.reverse

theorem byPrecedence_perm (policy : AddPolicy) (loaders : List LoaderSymbols) :
    (byPrecedence policy loaders).Perm loaders := by
  cases policy with
  | keepFirst => exact List.Perm.refl _
  | keepLast => exact List.reverse_perm _

theorem byPrecedence_byPrecedence (policy : AddPolicy) (loaders : List LoaderSymbols) :
    byPrecedence policy (byPrecedence policy loaders) = loaders := by
  cases policy with
  | keepFirst => rfl
  | keepLast => exact List.reverse_reverse loaders

theorem firstOf_byPrecedence_cons (f : LoaderSymbols → SymbolMap) (loader : LoaderSymbols)
    (loaders : List LoaderSymbols) :
    firstOf f (byPrecedence policy (loader :: loaders)) =
      merge policy (f loader) (firstOf f (byPrecedence policy loaders)) := by
  funext name
  have hone : firstOf f [loader] name = f loader name := by
    rw [firstOf, List.findSome?_cons, List.findSome?_nil]
    cases f loader name with
    | none => rfl
    | some a => rfl
  cases policy with
  | keepFirst =>
      show firstOf f ([loader] ++ loaders) name = _
      rw [firstOf_append, hone]
      rfl
  | keepLast =>
      show firstOf f (loader :: loaders).reverse name = _
      rw [List.reverse_cons, firstOf_append, hone]
      rfl

/-- Where no registration fails, the loader with precedence decides about each name. -/
theorem foldlM_registerLoader {loaders : List LoaderSymbols}
    (h : ∀ loader ∈ loaders, ∃ calls, loaderCalls mappings loader = .ok calls)
    (symbols : SymbolMap) :
    loaders.foldlM (registerLoader policy mappings) symbols =
      .ok (merge policy symbols
        (firstOf (exports policy mappings) (byPrecedence policy loaders))) := by
  induction loaders generalizing symbols with
  | nil =>
      show Except.ok symbols = _
      congr 1
      funext name
      cases policy with
      | keepFirst => exact Option.or_none.symm
      | keepLast => rfl
  | cons loader loaders ih =>
      obtain ⟨calls, hcalls⟩ := h loader List.mem_cons_self
      have hexports : exports policy mappings loader = kept policy calls := by
        rw [exports, hcalls]
      rw [List.foldlM_cons, registerLoader_eq, hcalls, firstOf_byPrecedence_cons, hexports,
        ← merge_assoc]
      exact ih (fun l hl => h l (List.mem_cons_of_mem loader hl)) _

theorem foldlM_registerLoader_error (policy : AddPolicy) {loaders : List LoaderSymbols}
    (h : ∃ loader ∈ loaders, ∃ e, loaderCalls mappings loader = .error e) (symbols : SymbolMap) :
    ∃ e, loaders.foldlM (registerLoader policy mappings) symbols = .error e := by
  induction loaders generalizing symbols with
  | nil =>
      obtain ⟨_, hmem, -⟩ := h
      cases hmem
  | cons loader loaders ih =>
      rw [List.foldlM_cons, registerLoader_eq]
      cases hcalls : loaderCalls mappings loader with
      | error e => exact ⟨e, rfl⟩
      | ok calls =>
          apply ih
          obtain ⟨l, hl, e, he⟩ := h
          rcases List.mem_cons.mp hl with rfl | hl
          · rw [hcalls] at he
            cases he
          · exact ⟨l, hl, e, he⟩

/-! ## Two orders -/

/-- In whatever order the loaders come, the map is the same, or there is none. -/
def OrderIndependent (policy : AddPolicy) (mappings : List VMAInfo)
    (loaders : List LoaderSymbols) : Prop :=
  ∀ order order', order.Perm loaders → order'.Perm loaders →
    (registerLoaders policy mappings order).toOption =
      (registerLoaders policy mappings order').toOption

theorem registerLoaders_of_calls {loaders order : List LoaderSymbols} (hp : order.Perm loaders)
    (h : ∀ loader ∈ loaders, ∃ calls, loaderCalls mappings loader = .ok calls) :
    (registerLoaders policy mappings order).toOption =
      some (firstOf (exports policy mappings) (byPrecedence policy order)) := by
  rw [registerLoaders, foldlM_registerLoader fun l hl => h l (hp.mem_iff.mp hl)]
  show some _ = some _
  congr 1
  funext name
  cases policy with
  | keepFirst => rfl
  | keepLast => exact Option.or_none

/-- The map does not depend on the order exactly if the registration fails for some loader, or
whenever two loaders leave an address for one name it is the same address. -/
theorem registerLoaders_orderIndependent_iff {loaders : List LoaderSymbols} :
    OrderIndependent policy mappings loaders ↔
      (∃ loader ∈ loaders, ∃ e, loaderCalls mappings loader = .error e) ∨
      ∀ loader ∈ loaders, ∀ loader' ∈ loaders,
        Agree (exports policy mappings loader) (exports policy mappings loader') := by
  by_cases hfail : ∃ loader ∈ loaders, ∃ e, loaderCalls mappings loader = .error e
  · refine ⟨fun _ => .inl hfail, fun _ order order' hp hp' => ?_⟩
    have herror : ∀ order : List LoaderSymbols, order.Perm loaders →
        (registerLoaders policy mappings order).toOption = none := by
      intro order hp
      obtain ⟨loader, hmem, he⟩ := hfail
      obtain ⟨e, he⟩ := foldlM_registerLoader_error policy ⟨loader, hp.mem_iff.mpr hmem, he⟩
        fun _ => none
      rw [registerLoaders, he]
      rfl
    rw [herror order hp, herror order' hp']
  · have hcalls : ∀ loader ∈ loaders, ∃ calls, loaderCalls mappings loader = .ok calls := by
      intro loader hmem
      cases hc : loaderCalls mappings loader with
      | ok calls => exact ⟨calls, rfl⟩
      | error e => exact absurd ⟨loader, hmem, e, hc⟩ hfail
    rw [or_iff_right hfail, ← firstOf_perm_iff]
    constructor
    · intro h l hl
      -- the order in which `l` is the order of precedence
      have hp := (byPrecedence_perm policy l).trans hl
      have hp' := byPrecedence_perm policy loaders
      have heq := h (byPrecedence policy l) (byPrecedence policy loaders) hp hp'
      rw [registerLoaders_of_calls hp hcalls, registerLoaders_of_calls hp' hcalls,
        byPrecedence_byPrecedence, byPrecedence_byPrecedence] at heq
      exact Option.some.inj heq
    · intro h order order' hp hp'
      rw [registerLoaders_of_calls hp hcalls, registerLoaders_of_calls hp' hcalls,
        h _ ((byPrecedence_perm policy order).trans hp),
        h _ ((byPrecedence_perm policy order').trans hp')]

end

/-! ## Two libraries with a common name -/

/-- Another library that defines `f`. -/
def otherLibrary : ElfUserspaceLoader := loaderOf "/lib/other.so" (fileWithCode ET_DYN 0)

def otherSym : ElfSymbol otherLibrary.elffile where
  name := "f"
  value := 0x1010
  segment := codeSegment 0
  segment_eq := rfl

def otherMapping : VMAInfo := codeMapping "/lib/other.so" 0x7f0000100000 0x7f0000102000 (by decide)

def librarySymbols : LoaderSymbols := ⟨library, .ok [librarySym]⟩
def otherSymbols : LoaderSymbols := ⟨otherLibrary, .ok [otherSym]⟩

/-- The address of `f` is that in the library that the iteration comes to first, or last. -/
theorem registerLoaders_orders_differ :
    ¬ OrderIndependent .keepFirst [libraryMapping, otherMapping] [librarySymbols, otherSymbols] ∧
    ¬ OrderIndependent .keepLast [libraryMapping, otherMapping] [librarySymbols, otherSymbols] := by
  have hp : [librarySymbols, otherSymbols].Perm [librarySymbols, otherSymbols] := List.Perm.refl _
  have hp' : [otherSymbols, librarySymbols].Perm [librarySymbols, otherSymbols] :=
    List.Perm.swap _ _ _
  constructor
  · intro h
    have hf := congrArg (fun symbols => symbols.bind fun s => s "f") (h _ _ hp hp')
    exact absurd hf (by decide)
  · intro h
    have hf := congrArg (fun symbols => symbols.bind fun s => s "f") (h _ _ hp hp')
    exact absurd hf (by decide)

end KernInt
