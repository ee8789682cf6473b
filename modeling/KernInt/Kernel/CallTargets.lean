import KernInt.Kernel.StackPage
import KernInt.Lib.Outcome

set_option autoImplicit false

/-! # The chain of return addresses

The second loop of `KernelValidator::validateStackPage` asks of every return address on the stack
whether it belongs to a call of the function that the return address before it lies in. It does
if the call in front of it goes there, if the two functions are one of three known pairs, or if
the call was recorded with that target.

The recorded call is looked up with `upper_bound(…)--`. The decrement is the one that returns the
iterator as it was, so the lookup dereferences `end()` for a return address behind all recorded
calls; and in front of all of them it decrements `begin()` (`lookup_right_iff`).
-/

namespace KernInt

open Lib

/-- What the standard leaves undefined about the iterators of a multimap, and the pointer to a
loader that is null. -/
inductive ChainError where
  | dereferencesEnd
  | decrementsBegin
  | nullLoader
  deriving DecidableEq

abbrev CallTargets := Multimap U64 U64

namespace CallTargets

def insert (callTargets : CallTargets) (call : U64 × U64) : CallTargets :=
  Multimap.insert callTargets call

def ofList (calls : List (U64 × U64)) : CallTargets := Multimap.ofList calls

theorem perm_insert (callTargets : CallTargets) (call : U64 × U64) :
    (callTargets.insert call).entries.Perm (call :: callTargets.entries) :=
  Multimap.perm_insert callTargets call

theorem perm_ofList (calls : List (U64 × U64)) : (ofList calls).entries.Perm calls :=
  Multimap.perm_ofList calls

variable (callTargets : CallTargets)

/-- `while (call->first > retAddr.second) call--`, with what `call` points to in the end. -/
def walkBack (retAddr : U64) : Nat → Except ChainError U64
  | 0 =>
      match callTargets.entries[0]? with
      | none => .error .dereferencesEnd
      | some call => if call.1 > retAddr then .error .decrementsBegin else .ok call.1
  | i + 1 =>
      match callTargets.entries[i + 1]? with
      | none => .error .dereferencesEnd
      | some call => if call.1 > retAddr then walkBack retAddr i else .ok call.1

/-- `addressOfCall`; the value of `upper_bound(…)--` is the upper bound itself. -/
def addressOfCall (retAddr : U64) : Except ChainError U64 :=
  callTargets.walkBack retAddr (callTargets.upperBound retAddr)

/-- One of the recorded targets of the call is `oldRetFunc`. -/
def found (retAddr oldRetFunc : U64) : Except ChainError Bool := do
  let addressOfCall ← callTargets.addressOfCall retAddr
  return (callTargets.equalRange addressOfCall).any fun target => target = oldRetFunc

/-- The recorded call that belongs to a return address: the last one that is not behind it. -/
structure IsLastCall (retAddr call : U64) : Prop where
  recorded : ∃ target, (call, target) ∈ callTargets.entries
  le_retAddr : call ≤ retAddr
  last : ∀ e ∈ callTargets.entries, e.1 ≤ retAddr → e.1 ≤ call

/-- The lookup returns, and accepts exactly the targets of the last call. -/
def LookupRight (retAddr oldRetFunc : U64) : Prop :=
  ∃ accepts, callTargets.found retAddr oldRetFunc = .ok accepts ∧
    (accepts = true ↔
      ∃ call, callTargets.IsLastCall retAddr call ∧ (call, oldRetFunc) ∈ callTargets.entries)

variable {callTargets} {retAddr oldRetFunc call : U64}

/-- Behind all recorded calls. -/
theorem addressOfCall_of_all_le (h : ¬ ∃ e ∈ callTargets.entries, ¬ e.1 ≤ retAddr) :
    callTargets.addressOfCall retAddr = .error .dereferencesEnd := by
  have hend : callTargets.entries[callTargets.upperBound retAddr]? = none := by
    rw [← Multimap.upperBound_lt_iff] at h
    exact List.getElem?_eq_none (Nat.not_lt.mp h)
  unfold addressOfCall
  cases hub : callTargets.upperBound retAddr with
  | zero =>
      rw [hub] at hend
      rw [walkBack, hend]
  | succ i =>
      rw [hub] at hend
      rw [walkBack, hend]

/-- The entry at the upper bound is behind the return address. -/
theorem exists_at_upperBound (h : ∃ e ∈ callTargets.entries, ¬ e.1 ≤ retAddr) :
    ∃ e, callTargets.entries[callTargets.upperBound retAddr]? = some e ∧ e.1 > retAddr := by
  have hlt := Multimap.upperBound_lt_iff.mpr h
  have hget := List.getElem?_eq_getElem hlt
  refine ⟨_, hget, ?_⟩
  -- an entry up to the return address would be in front of the upper bound
  have hnot := mt (Multimap.le_iff_lt_upperBound hget).mp (Nat.lt_irrefl _)
  exact BitVec.not_le.mp hnot

/-- In front of all recorded calls. -/
theorem addressOfCall_of_none_le (hsome : ∃ e ∈ callTargets.entries, ¬ e.1 ≤ retAddr)
    (h : ¬ ∃ e ∈ callTargets.entries, e.1 ≤ retAddr) :
    callTargets.addressOfCall retAddr = .error .decrementsBegin := by
  obtain ⟨e, hget, hgt⟩ := exists_at_upperBound hsome
  have hzero : callTargets.upperBound retAddr = 0 := by
    rw [← Multimap.upperBound_pos_iff] at h
    omega
  rw [hzero] at hget
  rw [addressOfCall, hzero, walkBack, hget]
  exact if_pos hgt

/-- Between two recorded calls the walk makes one step back. -/
theorem addressOfCall_of_between (hle : ∃ e ∈ callTargets.entries, e.1 ≤ retAddr)
    (hgt : ∃ e ∈ callTargets.entries, ¬ e.1 ≤ retAddr) :
    ∃ call, callTargets.addressOfCall retAddr = .ok call ∧ callTargets.IsLastCall retAddr call := by
  obtain ⟨e, hget, hgt⟩ := exists_at_upperBound hgt
  obtain ⟨i, hub⟩ : ∃ i, callTargets.upperBound retAddr = i + 1 :=
    ⟨_, (Nat.succ_pred_eq_of_pos (Multimap.upperBound_pos_iff.mpr hle)).symm⟩
  have hlen := callTargets.upperBound_le retAddr
  obtain ⟨call, hback⟩ : ∃ call, callTargets.entries[i]? = some call :=
    ⟨_, List.getElem?_eq_getElem (by omega)⟩
  have hcall : call.1 ≤ retAddr := (Multimap.le_iff_lt_upperBound hback).mpr (by omega)
  refine ⟨call.1, ?_, ⟨call.2, List.mem_of_getElem? hback⟩, hcall, ?_⟩
  · rw [hub] at hget
    rw [addressOfCall, hub, walkBack, hget]
    show (if e.1 > retAddr then callTargets.walkBack retAddr i else .ok e.1) = _
    rw [if_pos hgt]
    cases i with
    | zero =>
        rw [walkBack, hback]
        exact if_neg (BitVec.not_lt.mpr hcall)
    | succ i =>
        rw [walkBack, hback]
        exact if_neg (BitVec.not_lt.mpr hcall)
  · -- an entry up to the return address is in front of the upper bound
    intro e' he' hle'
    obtain ⟨j, hj⟩ := List.mem_iff_getElem?.mp he'
    have hji := (Multimap.le_iff_lt_upperBound hj).mp hle'
    rcases Nat.lt_or_eq_of_le (Nat.le_of_lt_succ (hub ▸ hji)) with hlt | rfl
    · obtain ⟨hjlen, rfl⟩ := List.getElem?_eq_some_iff.mp hj
      obtain ⟨hilen, rfl⟩ := List.getElem?_eq_some_iff.mp hback
      exact List.pairwise_iff_getElem.mp callTargets.sorted j i hjlen hilen hlt
    · rw [hback] at hj
      cases hj
      exact BitVec.le_refl _

theorem IsLastCall.unique {call' : U64} (h : callTargets.IsLastCall retAddr call)
    (h' : callTargets.IsLastCall retAddr call') : call = call' := by
  obtain ⟨target, hmem⟩ := h.recorded
  obtain ⟨target', hmem'⟩ := h'.recorded
  exact BitVec.le_antisymm (h'.last _ hmem h.le_retAddr) (h.last _ hmem' h'.le_retAddr)

/-- **When the lookup is right**: there is a recorded call up to the return address, and one behind
it. -/
theorem lookup_right_iff (callTargets : CallTargets) (retAddr oldRetFunc : U64) :
    callTargets.LookupRight retAddr oldRetFunc ↔
      (∃ e ∈ callTargets.entries, e.1 ≤ retAddr) ∧ ∃ e ∈ callTargets.entries, ¬ e.1 ≤ retAddr := by
  constructor
  · rintro ⟨accepts, hfound, -⟩
    obtain ⟨call, hcall, -⟩ := exists_of_bind_ok hfound
    have hgt : ∃ e ∈ callTargets.entries, ¬ e.1 ≤ retAddr := by
      by_contra hnone
      rw [addressOfCall_of_all_le hnone] at hcall
      cases hcall
    refine ⟨?_, hgt⟩
    by_contra hnone
    rw [addressOfCall_of_none_le hgt hnone] at hcall
    cases hcall
  · rintro ⟨hle, hgt⟩
    obtain ⟨call, hcall, hlast⟩ := addressOfCall_of_between hle hgt
    refine ⟨_, by rw [found, hcall]; rfl, ?_⟩
    rw [List.any_eq_true]
    constructor
    · rintro ⟨target, hmem, heq⟩
      obtain rfl := of_decide_eq_true heq
      exact ⟨call, hlast, Multimap.mem_equalRange.mp hmem⟩
    · rintro ⟨call', hlast', hmem⟩
      obtain rfl := hlast'.unique hlast
      exact ⟨oldRetFunc, Multimap.mem_equalRange.mpr hmem, by simp⟩

end CallTargets

/-- One recorded call. -/
def oneCall : CallTargets := .ofList [(0xffffffff81000100, 0xffffffff81000200)]

/-- **Undefined behaviour**: the return address of the only recorded call is behind all of them. -/
theorem oneCall_dereferencesEnd :
    oneCall.IsLastCall 0xffffffff81000105 0xffffffff81000100 ∧
      (0xffffffff81000100, 0xffffffff81000200) ∈ oneCall.entries ∧
      oneCall.found 0xffffffff81000105 0xffffffff81000200 = .error .dereferencesEnd ∧
      ¬ oneCall.LookupRight 0xffffffff81000105 0xffffffff81000200 := by
  have hentries : oneCall.entries = [(0xffffffff81000100, 0xffffffff81000200)] := rfl
  have hfound : oneCall.found 0xffffffff81000105 0xffffffff81000200 = .error .dereferencesEnd := by
    decide
  refine ⟨⟨⟨0xffffffff81000200, ?_⟩, by decide, ?_⟩, ?_, hfound, ?_⟩
  · rw [hentries]
    exact List.mem_singleton_self _
  · intro e he _
    rw [hentries, List.mem_singleton] at he
    rw [he]
    exact BitVec.le_refl _
  · rw [hentries]
    exact List.mem_singleton_self _
  · rintro ⟨accepts, hok, -⟩
    rw [hfound] at hok
    cases hok

/-! ## The second loop -/

/-- `oldRetFunc`, `oldRetFuncName` and `stackInteresting`. -/
structure ChainState where
  oldRetFunc : U64
  oldRetFuncName : String
  stackInteresting : Bool

/-- The pairs of functions that are known to follow each other. -/
def knownPair (oldRetFuncName retFuncName : String) : Bool :=
  (oldRetFuncName == "__schedule_kernel" && retFuncName == "kthread_kernel") ||
    (oldRetFuncName == "kthread_kernel" && retFuncName == "do_exit") ||
    (oldRetFuncName == "do_exit" && retFuncName == "ret_from_fork")

namespace KernelValidator

variable (v : KernelValidator)

/-- The round of the loop for the return address that has been found. -/
def chainRound (s : ChainState) (retAddr : U64) : Except ChainError ChainState :=
  match v.getModuleForAddress retAddr with
  | none => .error .nullLoader
  | some elfloader => do
      let callAddr := v.isReturnAddress elfloader retAddr
      let retFunc := v.symbols.getContainingSymbol retAddr
      let retFuncName := v.symbols.getElfSymbolName retFunc
      let valid ←
        if s.oldRetFunc = 0 ∨ s.oldRetFunc = callAddr ∨ knownPair s.oldRetFuncName retFuncName then
          pure true
        else if v.callTargets.entries = [] then pure false
        else CallTargets.found v.callTargets retAddr s.oldRetFunc
      return {
        oldRetFunc := retFunc
        oldRetFuncName := retFuncName
        stackInteresting := s.stackInteresting || callAddr == 0 || !valid }

/-- The return addresses that have been put down, in the order of their places on the stack. -/
def returnAddresses (ptrs : List StackPtr) : List U64 :=
  (Multimap.ofList (ptrs.filterMap fun ptr =>
    match ptr with
    | .returnAddress address longPtr => some (address, longPtr)
    | .behindContent _ _ => none)).entries.map Prod.snd

/-- `validateStackPage`: whether the stack is interesting. -/
def validateStackPage (stack : StackPage) : Except ChainError Bool := do
  let ptrs := (v.stackPointers stack).getD []
  let s ← (returnAddresses ptrs).foldlM v.chainRound {
    oldRetFunc := 0
    oldRetFuncName := ""
    stackInteresting := ptrs.any fun ptr => ptr matches .behindContent _ _ }
  return s.stackInteresting

/-- The recorded calls reach over the address on both sides, or there are none. -/
def TargetsReach (retAddr : U64) : Prop :=
  v.callTargets.entries = [] ∨
    (∃ e ∈ v.callTargets.entries, e.1 ≤ retAddr) ∧ ∃ e ∈ v.callTargets.entries, ¬ e.1 ≤ retAddr

variable {v}

theorem chainRound_ok {retAddr : U64} (s : ChainState)
    (hloader : (v.getModuleForAddress retAddr).isSome = true) (hreach : v.TargetsReach retAddr) :
    ∃ s', v.chainRound s retAddr = .ok s' := by
  obtain ⟨elfloader, hfound⟩ := Option.isSome_iff_exists.mp hloader
  unfold chainRound
  rw [hfound]
  dsimp only
  split
  · exact ⟨_, rfl⟩
  · rcases hreach with hnil | ⟨hle, hgt⟩
    · rw [if_pos hnil]
      exact ⟨_, rfl⟩
    · split
      · exact ⟨_, rfl⟩
      · obtain ⟨call, hcall, -⟩ := CallTargets.addressOfCall_of_between hle hgt
        rw [CallTargets.found, hcall]
        exact ⟨_, rfl⟩

/-- What has been put down as a return address is in the code of a loader. -/
theorem isSome_of_mem_returnAddresses {stack : StackPage} {ptrs : List StackPtr} {retAddr : U64}
    (hptrs : v.stackPointers stack = some ptrs) (h : retAddr ∈ returnAddresses ptrs) :
    (v.getModuleForAddress retAddr).isSome = true := by
  obtain ⟨e, he, rfl⟩ := List.mem_map.mp h
  obtain ⟨ptr, hptr, hsome⟩ := List.mem_filterMap.mp ((Multimap.perm_ofList _).mem_iff.mp he)
  rw [stackPointers_eq] at hptrs
  cases hptrs
  obtain ⟨i, -, hnote⟩ := List.mem_filterMap.mp hptr
  cases ptr with
  | behindContent address longPtr => cases hsome
  | returnAddress address longPtr =>
      cases hsome
      exact isSome_of_note_stackStep hnote

/-- **The chain is checked to its end** if the recorded calls reach over every return address on
the stack. -/
theorem validateStackPage_ok (v : KernelValidator) (stack : StackPage)
    (hreach : ∀ ptrs, v.stackPointers stack = some ptrs → ∀ retAddr ∈ returnAddresses ptrs,
      v.TargetsReach retAddr) :
    ∃ stackInteresting, v.validateStackPage stack = .ok stackInteresting := by
  obtain ⟨ptrs, hptrs⟩ : ∃ ptrs, v.stackPointers stack = some ptrs := ⟨_, stackPointers_eq⟩
  have hround : ∀ retAddr ∈ returnAddresses ptrs, ∀ s, ∃ s', v.chainRound s retAddr = .ok s' :=
    fun retAddr hmem s =>
      chainRound_ok s (isSome_of_mem_returnAddresses hptrs hmem) (hreach ptrs hptrs retAddr hmem)
  unfold validateStackPage
  rw [hptrs]
  obtain ⟨s', hs'⟩ := foldlM_ok hround _
  dsimp only [Option.getD_some]
  rw [hs']
  exact ⟨_, rfl⟩

end KernelValidator

end KernInt
