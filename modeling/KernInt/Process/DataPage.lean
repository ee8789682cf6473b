import KernInt.Process.CodePage
import KernInt.Process.PagePtrInfo

set_option autoImplicit false

/-! # Code pointers in the data of a process

`ProcessValidator::validateDataPage` looks at every eight bytes of a data mapping and records
those that point into an executable mapping with `addPtr` (`recordValue`).

The loop over the executable mappings ends at the first one that has the name of the data
mapping, before its range has been looked at. So a pointer is lost exactly if it has a target
and there is such a mapping, in some order of the mappings (`attributionExact_iff`).
-/

namespace KernInt

open Lib

/-- The loop over the executable mappings, for the `value` at offset `i` of `vma`. -/
def recordValue (vma : VMAInfo) (i : Nat) (value : U64) :
    List (VMAInfo × PagePtrInfo) → List (VMAInfo × PagePtrInfo)
  | [] => []
  | (m, info) :: range =>
      if checkFlags m.flags VM_EXEC then
        -- "points to the same mapping"
        if vma.name = m.name then (m, info) :: range
        else if inRange value (m.start + 1) m.stop then
          -- a pointer to the program headers
          if value = m.start + 0x40 then (m, info) :: range
          else (m, info.addPtr i value) :: recordValue vma i value range
        else (m, info) :: recordValue vma i value range
      else (m, info) :: recordValue vma i value range

/-- The address ranges have no address in common. -/
def VMAInfo.Disjoint (m m' : VMAInfo) : Prop :=
  m.stop ≤ m'.start ∨ m'.stop ≤ m.start

/-- The pointers that are to be attributed to `m`, when they are found in `vma`. -/
def PointsTo (vma m : VMAInfo) (value : U64) : Prop :=
  m.start < value ∧ value ≤ m.stop ∧ m.name ≠ vma.name ∧ value ≠ m.start + 0x40

instance (vma m : VMAInfo) (value : U64) : Decidable (PointsTo vma m value) :=
  inferInstanceAs (Decidable (_ ∧ _ ∧ _ ∧ _))

/-- `addPtr` is called on the mapping that the value points to and on no other one, and the
order of the mappings has no influence on what is recorded. -/
structure AttributionExact (vma : VMAInfo) (i : Nat) (value : U64)
    (range : List (VMAInfo × PagePtrInfo)) : Prop where
  exact : recordValue vma i value range = range.map fun e =>
    if PointsTo vma e.1 value then (e.1, e.2.addPtr i value) else e
  order : ∀ range', range'.Perm range →
    (recordValue vma i value range').Perm (recordValue vma i value range)

section

variable {vma : VMAInfo} {i : Nat} {value : U64} {range : List (VMAInfo × PagePtrInfo)}

/-- The macro compares with `start + 1`, which does not wrap, as the mapping is not empty. -/
theorem inRange_iff (m : VMAInfo) (value : U64) :
    inRange value (m.start + 1) m.stop = true ↔ m.start < value ∧ value ≤ m.stop := by
  have h := BitVec.lt_def.mp m.start_lt_stop
  have hlt := m.stop.isLt
  have hsucc : (m.start + 1).toNat = m.start.toNat + 1 := by
    rw [BitVec.toNat_add]
    exact Nat.mod_eq_of_lt (by simp; omega)
  rw [inRange, Bool.and_eq_true, decide_eq_true_iff, decide_eq_true_iff, BitVec.le_def, hsucc,
    BitVec.lt_def]
  exact Iff.rfl

/-- The mappings stay as they are. -/
theorem map_fst_recordValue :
    (recordValue vma i value range).map Prod.fst = range.map Prod.fst := by
  fun_induction recordValue vma i value range with
  | case1 => rfl
  | case2 => rfl
  | case3 => rfl
  | case4 m info range hexec hname hin hphdr ih => exact congrArg (m :: ·) ih
  | case5 m info range hexec hname hin ih => exact congrArg (m :: ·) ih
  | case6 m info range hexec ih => exact congrArg (m :: ·) ih

/-- What is kept when a pointer into the mapping is added is kept by the whole loop. -/
theorem recordValue_keeps {P : VMAInfo × PagePtrInfo → Prop}
    (hadd : ∀ m info, m.start < value ∧ value ≤ m.stop → P (m, info) →
      P (m, info.addPtr i value))
    (h : ∀ e ∈ range, P e) : ∀ e ∈ recordValue vma i value range, P e := by
  fun_induction recordValue vma i value range with
  | case1 => exact h
  | case2 => exact h
  | case3 => exact h
  | case4 m info range hexec hname hin hphdr ih =>
      rw [List.forall_mem_cons] at h ⊢
      exact ⟨hadd m info ((inRange_iff m value).mp hin) h.1, ih h.2⟩
  | case5 m info range hexec hname hin ih =>
      rw [List.forall_mem_cons] at h ⊢
      exact ⟨h.1, ih h.2⟩
  | case6 m info range hexec ih =>
      rw [List.forall_mem_cons] at h ⊢
      exact ⟨h.1, ih h.2⟩

theorem VMAInfo.Disjoint.symm {m m' : VMAInfo} (h : m.Disjoint m') : m'.Disjoint m :=
  Or.symm h

/-- The ranges without their first and with their last address are disjoint as well. -/
theorem VMAInfo.Disjoint.not_in_both {m m' : VMAInfo} (h : m.Disjoint m')
    (h1 : m.start < value) (h2 : value ≤ m.stop) (h1' : m'.start < value)
    (h2' : value ≤ m'.stop) : False := by
  rw [BitVec.lt_def] at h1 h1'
  rw [BitVec.le_def] at h2 h2'
  rcases h with h | h
  · rw [BitVec.le_def] at h
    omega
  · rw [BitVec.le_def] at h
    omega

theorem VMAInfo.Disjoint.ne {m m' : VMAInfo} (h : m.Disjoint m') : m ≠ m' := by
  rintro rfl
  have hlt := m.start_lt_stop
  rcases h with h | h <;> exact absurd hlt (BitVec.not_lt.mpr h)

/-- Entries with the same mapping are the same. -/
theorem eq_of_mapping_eq (hdisj : range.Pairwise fun e e' => e.1.Disjoint e'.1)
    {e e' : VMAInfo × PagePtrInfo} (he : e ∈ range) (he' : e' ∈ range) (h : e.1 = e'.1) :
    e = e' := by
  have : Std.Symm fun e e' : VMAInfo × PagePtrInfo => e.1.Disjoint e'.1 :=
    ⟨fun _ _ hd => VMAInfo.Disjoint.symm hd⟩
  by_contra hne
  exact (hdisj.forall he he' hne).ne h

theorem addPtr_ne (info : PagePtrInfo) (i : Nat) (value : U64) : info.addPtr i value ≠ info := by
  intro h
  have hcount : info.count + 1 = info.count := congrArg PagePtrInfo.count h
  bv_omega

/-- Without a target, nothing is recorded. -/
theorem recordValue_of_no_target (h : ∀ e ∈ range, ¬ PointsTo vma e.1 value) :
    recordValue vma i value range = range := by
  induction range with
  | nil => rfl
  | cons e range ih =>
      obtain ⟨m, info⟩ := e
      have hrest := ih fun e he => h e (.tail _ he)
      unfold recordValue
      rw [hrest]
      split
      · split
        · rfl
        · split
          · split
            · rfl
            · -- this would be a target
              have hrange := (inRange_iff m value).mp ‹_›
              exact absurd ⟨hrange.1, hrange.2, Ne.symm ‹_›, ‹_›⟩ (h (m, info) (.head _))
          · rfl
      · rfl

/-- Without a mapping of the own name, the pointer goes to its target. -/
theorem recordValue_of_no_own (hexec : ∀ e ∈ range, checkFlags e.1.flags VM_EXEC = true)
    (hdisj : range.Pairwise fun e e' => e.1.Disjoint e'.1)
    (hown : ∀ e ∈ range, e.1.name ≠ vma.name) :
    recordValue vma i value range = range.map fun e =>
      if PointsTo vma e.1 value then (e.1, e.2.addPtr i value) else e := by
  induction range with
  | nil => rfl
  | cons e range ih =>
      obtain ⟨m, info⟩ := e
      obtain ⟨hfirst, hrest⟩ := List.pairwise_cons.mp hdisj
      have ih := ih (fun e he => hexec e (.tail _ he)) hrest (fun e he => hown e (.tail _ he))
      have hname : vma.name ≠ m.name := Ne.symm (hown (m, info) (.head _))
      unfold recordValue
      rw [if_pos (hexec (m, info) (.head _)), if_neg hname, List.map_cons]
      by_cases hin : inRange value (m.start + 1) m.stop = true
      · rw [if_pos hin]
        obtain ⟨hlt, hle⟩ := (inRange_iff m value).mp hin
        by_cases hphdr : value = m.start + 0x40
        · -- the loop is left, but the other mappings do not contain the pointer
          have hnone : ∀ e ∈ range, ¬ PointsTo vma e.1 value := fun e he hp =>
            (hfirst e he).not_in_both hlt hle hp.1 hp.2.1
          rw [if_pos hphdr, ← ih, recordValue_of_no_target hnone,
            if_neg fun hp => hp.2.2.2 hphdr]
        · rw [if_neg hphdr, if_pos ⟨hlt, hle, hname.symm, hphdr⟩, ih]
      · rw [if_neg hin, if_neg fun hp => hin ((inRange_iff m value).mpr ⟨hp.1, hp.2.1⟩), ih]

/-- Behind a mapping of the own name, nothing is recorded. -/
theorem recordValue_own_first {own : VMAInfo × PagePtrInfo}
    (hexec : checkFlags own.1.flags VM_EXEC = true) (hname : own.1.name = vma.name) :
    recordValue vma i value (own :: range) = own :: range := by
  unfold recordValue
  rw [if_pos hexec, if_pos hname.symm]

/-- **Attribution of pointers**: it is exact, for every order of the mappings, if and only if
no mapping has the name of the data mapping or the value has no target. -/
theorem attributionExact_iff (hexec : ∀ e ∈ range, checkFlags e.1.flags VM_EXEC = true)
    (hdisj : range.Pairwise fun e e' => e.1.Disjoint e'.1) :
    AttributionExact vma i value range ↔
      ¬ ((∃ own ∈ range, own.1.name = vma.name) ∧ ∃ e ∈ range, PointsTo vma e.1 value) := by
  constructor
  · rintro ⟨hexact, horder⟩ ⟨⟨own, hown, hname⟩, e, he, hp⟩
    -- in front of all others, the own mapping hides the target
    obtain ⟨s, t, rfl⟩ := List.append_of_mem hown
    have hperm : (own :: (s ++ t)).Perm (s ++ own :: t) := List.perm_middle.symm
    have hlost := horder _ hperm
    rw [recordValue_own_first (hexec own hown) hname, hexact] at hlost
    have hmem : (e.1, e.2.addPtr i value) ∈ s ++ own :: t := by
      refine (hlost.symm.trans hperm).mem_iff.mp (List.mem_map.mpr ⟨e, he, ?_⟩)
      rw [if_pos hp]
    have := eq_of_mapping_eq hdisj hmem he rfl
    exact addPtr_ne e.2 i value (congrArg Prod.snd this)
  · intro hnot
    have hmap : ∀ range', range'.Perm range → recordValue vma i value range' =
        range'.map fun e =>
          if PointsTo vma e.1 value then (e.1, e.2.addPtr i value) else e := by
      intro range' hperm
      by_cases hown : ∃ own ∈ range, own.1.name = vma.name
      · have hnone : ∀ e ∈ range', ¬ PointsTo vma e.1 value :=
          fun e he hp => hnot ⟨hown, e, hperm.mem_iff.mp he, hp⟩
        have hid : ∀ e ∈ range',
            (if PointsTo vma e.1 value then (e.1, e.2.addPtr i value) else e) = e :=
          fun e he => if_neg (hnone e he)
        rw [recordValue_of_no_target hnone, List.map_congr_left hid, List.map_id']
      · refine recordValue_of_no_own (fun e he => hexec e (hperm.mem_iff.mp he))
          ((hperm.pairwise_iff fun h => h.symm).mpr hdisj) fun e he hname => ?_
        exact hown ⟨e, hperm.mem_iff.mp he, hname⟩
    refine ⟨hmap range (.refl _), fun range' hperm => ?_⟩
    rw [hmap range' hperm, hmap range (.refl _)]
    exact hperm.map _

end

/-! ## A lost pointer -/

def textOf (name : String) (start stop : U64) (h : start < stop) : VMAInfo where
  start := start
  stop := stop
  flags := 0x5
  name := name
  start_lt_stop := h

def newInfo (m : VMAInfo) : VMAInfo × PagePtrInfo :=
  (m, { count := 0, ptrs := ∅, toVMA := m, toLoader := none })

/-- The data of a library, and the code of the library and of the program. -/
def libraryData : VMAInfo where
  start := 0x5000
  stop := 0x6000
  flags := 0x3
  name := "/lib/lib.so"
  start_lt_stop := by decide

def libraryText : VMAInfo := textOf "/lib/lib.so" 0x1000 0x2000 (by decide)

def programCode : VMAInfo := textOf "/bin/prog" 0x3000 0x4000 (by decide)

/-- **The lost pointer**: the code of the library comes first, so its pointer into the program
is not recorded. -/
theorem libraryPointer_lost :
    ([libraryText, programCode].map newInfo).Pairwise (fun e e' => e.1.Disjoint e'.1) ∧
    (∀ e ∈ [libraryText, programCode].map newInfo, checkFlags e.1.flags VM_EXEC = true) ∧
    PointsTo libraryData programCode 0x3500 ∧
    ¬ AttributionExact libraryData 0 0x3500 ([libraryText, programCode].map newInfo) := by
  refine ⟨?_, ?_, by decide, ?_⟩
  · simp [newInfo, libraryText, programCode, textOf, VMAInfo.Disjoint]
  · simp [newInfo, libraryText, programCode, textOf, checkFlags, VM_EXEC]
  · rintro ⟨hexact, _⟩
    have hcounts := congrArg (List.map fun e => e.2.count) hexact
    revert hcounts
    decide

/-- Without the code of the library, it is recorded. -/
theorem libraryPointer_recorded :
    AttributionExact libraryData 0 0x3500 ([programCode].map newInfo) := by
  refine (attributionExact_iff ?_ ?_).mpr ?_
  · simp [newInfo, programCode, textOf, checkFlags, VM_EXEC]
  · simp
  · rintro ⟨⟨own, hown, hname⟩, _⟩
    simp only [List.map_cons, List.map_nil, List.mem_singleton] at hown
    subst hown
    revert hname
    decide

end KernInt
