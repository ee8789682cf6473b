import KernInt.Lib.Census
import KernInt.Process.Gadget
import KernInt.Process.PtrStats

set_option autoImplicit false

/-! # The summary of a process

At the end of `validateProcess`, `printStat2` counts the pointers that have been found by their
flags. Each column of the line has the number of pointers of a kind, and behind it how many of
them point into the upper part of memory and how many below it.

The line does not depend on the order in which the table of pointers is gone through: the first
column is the number of the locations in the data of the process at which the scan has recorded a
pointer, and every other one the number of different recorded pointers of its kind
(`printStat2_exact`).
-/

namespace KernInt

open Lib

/-- The three numbers `all (in7f / not7f)` of a column. -/
structure StatColumn where
  all : Nat
  in7f : Nat
  not7f : Nat
  deriving DecidableEq

def StatColumn.zero : StatColumn := ⟨0, 0, 0⟩

/-- Both increments for a pointer with the flag `PTR_NOT_7f`, or without it. -/
def StatColumn.add (c : StatColumn) (not7f : Bool) (n : Nat) : StatColumn :=
  if not7f then { c with all := c.all + n, not7f := c.not7f + n }
  else { c with all := c.all + n, in7f := c.in7f + n }

structure PtrStat where
  overall : StatColumn
  ptr_unique : StatColumn
  ptr_text : StatColumn
  ptr_unk : StatColumn
  ptr_unk_print : StatColumn
  ptr_inv_inst : StatColumn
  ptr_unin_inst : StatColumn
  ptr_unin_ret : StatColumn
  ptr_unin_gad : StatColumn
  deriving DecidableEq

def PtrStat.zero : PtrStat :=
  ⟨.zero, .zero, .zero, .zero, .zero, .zero, .zero, .zero, .zero⟩

/-- The body of the loop in `printStat2`. -/
def PtrStat.add (s : PtrStat) (ptr : Tally.Entry U64 U64) : PtrStat :=
  let flags := ptr.2.2
  let not7f := checkFlags flags PTR_NOT_7f
  { overall := s.overall.add not7f ptr.2.1
    ptr_unique := s.ptr_unique.add not7f 1
    ptr_text := s.ptr_text.add not7f (!checkFlags flags PTR_SEC_NOT_TEXT).toNat
    ptr_unk := s.ptr_unk.add not7f (checkFlags flags PTR_UNKNOWN).toNat
    ptr_unk_print :=
      s.ptr_unk_print.add not7f (checkFlags flags (PTR_UNKNOWN ||| PTR_END_PRINTABLE)).toNat
    ptr_inv_inst := s.ptr_inv_inst.add not7f (checkFlags flags PTR_INVALID_INSTR).toNat
    ptr_unin_inst := s.ptr_unin_inst.add not7f (checkFlags flags PTR_UNINT_INSTR).toNat
    ptr_unin_ret :=
      s.ptr_unin_ret.add not7f (checkFlags flags (PTR_UNINT_INSTR ||| PTR_RETURN)).toNat
    ptr_unin_gad :=
      s.ptr_unin_gad.add not7f (checkFlags flags (PTR_UNINT_INSTR ||| PTR_GADGET)).toNat }

/-- The numbers that `printStat2` prints, in the order of the line; `ptr_class` is the table in
the order in which the loop comes to its entries. -/
def printStat2 (ptr_class : List (Tally.Entry U64 U64)) : PtrStat :=
  ptr_class.foldl PtrStat.add .zero

/-! ## What the columns are to count -/

/-- The column has the number of the elements, with those told apart whose pointer is below 16 MiB
and the others. -/
structure StatColumn.Counts {β : Type} (c : StatColumn) (ptr : β → U64) (A : Set β) : Prop where
  all : c.all = A.ncard
  in7f : c.in7f = {a | a ∈ A ∧ ptr a >>> 24 ≠ 0}.ncard
  not7f : c.not7f = {a | a ∈ A ∧ ptr a >>> 24 = 0}.ncard

namespace ProcessValidator

/-- The pointers that are stored in the data of the process and have flags of some kind. -/
def flagged (d : Disassembler) (v : ProcessValidator) (P : U64 → Bool) : Set U64 :=
  {p | (v.locations p).Nonempty ∧ ∃ flags, v.HasFlags d p flags ∧ P flags = true}

structure SummaryExact (d : Disassembler) (v : ProcessValidator) (stat : PtrStat) : Prop where
  overall : stat.overall.Counts Sigma.fst
    {x : Sigma fun _ : U64 => Sigma fun _ : VMAInfo => Nat | x.2 ∈ v.locations x.1}
  ptr_unique : stat.ptr_unique.Counts id (v.flagged d fun _ => true)
  ptr_text : stat.ptr_text.Counts id (v.flagged d fun flags => !checkFlags flags PTR_SEC_NOT_TEXT)
  ptr_unk : stat.ptr_unk.Counts id (v.flagged d fun flags => checkFlags flags PTR_UNKNOWN)
  ptr_unk_print : stat.ptr_unk_print.Counts id
    (v.flagged d fun flags => checkFlags flags (PTR_UNKNOWN ||| PTR_END_PRINTABLE))
  ptr_inv_inst : stat.ptr_inv_inst.Counts id
    (v.flagged d fun flags => checkFlags flags PTR_INVALID_INSTR)
  ptr_unin_inst : stat.ptr_unin_inst.Counts id
    (v.flagged d fun flags => checkFlags flags PTR_UNINT_INSTR)
  ptr_unin_ret : stat.ptr_unin_ret.Counts id
    (v.flagged d fun flags => checkFlags flags (PTR_UNINT_INSTR ||| PTR_RETURN))
  ptr_unin_gad : stat.ptr_unin_gad.Counts id
    (v.flagged d fun flags => checkFlags flags (PTR_UNINT_INSTR ||| PTR_GADGET))

end ProcessValidator

/-! ## The columns -/

section

variable {es : List (Tally.Entry U64 U64)}

/-- A column to which `n` is added for each entry. -/
def columnFrom (c : StatColumn) (n : Tally.Entry U64 U64 → Nat)
    (es : List (Tally.Entry U64 U64)) : StatColumn :=
  es.foldl (fun c e => c.add (checkFlags e.2.2 PTR_NOT_7f) (n e)) c

def columnOf (n : Tally.Entry U64 U64 → Nat) (es : List (Tally.Entry U64 U64)) : StatColumn :=
  columnFrom .zero n es

theorem columnFrom_eq (n : Tally.Entry U64 U64 → Nat) (c : StatColumn) : columnFrom c n es =
    ⟨c.all + (es.map n).sum,
      c.in7f + ((es.filter fun e => !checkFlags e.2.2 PTR_NOT_7f).map n).sum,
      c.not7f + ((es.filter fun e => checkFlags e.2.2 PTR_NOT_7f).map n).sum⟩ := by
  induction es generalizing c with
  | nil => rfl
  | cons e es ih =>
      rw [columnFrom, List.foldl_cons]
      show columnFrom (c.add (checkFlags e.2.2 PTR_NOT_7f) (n e)) n es = _
      rw [ih, StatColumn.add]
      -- the entry is counted in one of the two numbers
      cases hflag : checkFlags e.2.2 PTR_NOT_7f with
      | true => simp [hflag, Nat.add_assoc]
      | false => simp [hflag, Nat.add_assoc]

theorem columnOf_eq (n : Tally.Entry U64 U64 → Nat) : columnOf n es =
    ⟨(es.map n).sum, ((es.filter fun e => !checkFlags e.2.2 PTR_NOT_7f).map n).sum,
      ((es.filter fun e => checkFlags e.2.2 PTR_NOT_7f).map n).sum⟩ := by
  rw [columnOf, columnFrom_eq]
  simp [StatColumn.zero]

/-- The loop does the columns side by side. -/
theorem foldl_add (s : PtrStat) : es.foldl PtrStat.add s =
    { overall := columnFrom s.overall (fun e => e.2.1) es
      ptr_unique := columnFrom s.ptr_unique (fun _ => 1) es
      ptr_text :=
        columnFrom s.ptr_text (fun e => (!checkFlags e.2.2 PTR_SEC_NOT_TEXT).toNat) es
      ptr_unk := columnFrom s.ptr_unk (fun e => (checkFlags e.2.2 PTR_UNKNOWN).toNat) es
      ptr_unk_print := columnFrom s.ptr_unk_print
        (fun e => (checkFlags e.2.2 (PTR_UNKNOWN ||| PTR_END_PRINTABLE)).toNat) es
      ptr_inv_inst :=
        columnFrom s.ptr_inv_inst (fun e => (checkFlags e.2.2 PTR_INVALID_INSTR).toNat) es
      ptr_unin_inst :=
        columnFrom s.ptr_unin_inst (fun e => (checkFlags e.2.2 PTR_UNINT_INSTR).toNat) es
      ptr_unin_ret := columnFrom s.ptr_unin_ret
        (fun e => (checkFlags e.2.2 (PTR_UNINT_INSTR ||| PTR_RETURN)).toNat) es
      ptr_unin_gad := columnFrom s.ptr_unin_gad
        (fun e => (checkFlags e.2.2 (PTR_UNINT_INSTR ||| PTR_GADGET)).toNat) es } := by
  induction es generalizing s with
  | nil => rfl
  | cons e es ih => exact ih (s.add e)

theorem sum_toNat (P : U64 → Bool) :
    (es.map fun e => (P e.2.2).toNat).sum = es.countP fun e => P e.2.2 := by
  induction es with
  | nil => rfl
  | cons e es ih =>
      rw [List.map_cons, List.sum_cons, ih, List.countP_cons]
      cases P e.2.2 <;> simp [Nat.add_comm]

/-- A column of a flag counts entries. -/
theorem columnOf_toNat (P : U64 → Bool) : columnOf (fun e => (P e.2.2).toNat) es =
    ⟨es.countP fun e => P e.2.2,
      es.countP fun e => P e.2.2 && !checkFlags e.2.2 PTR_NOT_7f,
      es.countP fun e => P e.2.2 && checkFlags e.2.2 PTR_NOT_7f⟩ := by
  rw [columnOf_eq, sum_toNat, sum_toNat, sum_toNat, List.countP_filter, List.countP_filter]

end

/-! ## The flag for small pointers -/

section

variable {d : Disassembler} {symbols : SymbolManager} {toVMA : VMAInfo}
  {toLoader : ElfUserspaceLoader} {ptr : U64}

theorem checkFlags_not7f (flags : U64) : checkFlags flags PTR_NOT_7f = flags.getLsbD 14 := by
  have hbit : PTR_NOT_7f = BitVec.twoPow 64 14 := by decide
  rw [hbit, checkFlags_twoPow (by decide)]

/-- The flag says how large the pointer is. -/
theorem ptrFlags_not7f {flags : U64} (h : ptrFlags d symbols toVMA toLoader ptr = .ok flags) :
    checkFlags flags PTR_NOT_7f = decide (ptr >>> 24 = 0) := by
  have hsmall : (if ptr >>> 24 = 0 then PTR_NOT_7f else 0).getLsbD 14 =
      decide (ptr >>> 24 = 0) := by
    by_cases hptr : ptr >>> 24 = 0
    · rw [if_pos hptr, decide_eq_true hptr]
      decide
    · rw [if_neg hptr, decide_eq_false hptr]
      decide
  rw [checkFlags_not7f]
  unfold ptrFlags at h
  dsimp only at h
  generalize (if ptr >>> 24 = 0 then PTR_NOT_7f else 0) = small at h hsmall
  cases hfind : toLoader.elffile.findSectionByOffset (ptr - toVMA.start) with
  | none =>
      rw [hfind] at h
      cases h
      exact (getLsbD_or_of_eq (by decide)).trans hsmall
  | some toSec =>
      rw [hfind] at h
      dsimp only at h
      have hdynstr : PTR_DYNSTR.getLsbD 14 = false := by decide
      have hdynsym : PTR_DYNSYM.getLsbD 14 = false := by decide
      have hstr := getLsbD_ite (c := toSec.name = ".dynstr")
        ((getLsbD_or_of_eq hdynstr).trans hsmall) hsmall
      have hsym := getLsbD_ite (c := toSec.name = ".dynsym")
        ((getLsbD_or_of_eq hdynsym).trans hstr) hstr
      generalize (if toSec.name = ".dynsym" then _ else _ : U64) = flags₀ at h hsym
      -- one rule after the other
      split at h
      · cases h
        exact (getLsbD_or_of_eq (by decide)).trans hsmall
      split at h
      · cases h
        exact (getLsbD_or_of_eq (by decide)).trans hsym
      split at h
      · cases h
        exact (getLsbD_or_of_eq (by decide)).trans hsym
      split at h
      · cases h
        exact (getLsbD_or_of_eq (by decide)).trans hsym
      split at h
      · cases h
      · cases h
        exact (instructionPtrFlags_getLsbD (by decide) _ ptr).trans hsym

end

/-! ## No pointer without a location -/

namespace PagePtrInfo

/-- Each pointer that has been entered was found somewhere. -/
def FoundAll (info : PagePtrInfo) : Prop :=
  ∀ e ∈ info.ptrs.entries, e.2.Nonempty

theorem FoundAll.addPtr {info : PagePtrInfo} (h : info.FoundAll) (pos : Nat) (addr : U64) :
    (info.addPtr pos addr).FoundAll := by
  intro e he
  have he : e ∈ (info.ptrs.insert addr (insert pos (info.wheres addr))).entries := he
  rw [AList.entries_insert] at he
  rcases List.mem_cons.mp he with rfl | he
  · exact Finset.insert_nonempty pos _
  · exact h e ((List.kerase_sublist addr info.ptrs.entries).subset he)

end PagePtrInfo

namespace ProcessValidator

section

variable {d : Disassembler} {order : IterationOrder} {v : ProcessValidator}

theorem foundAll_scan (vma : VMAInfo) : ∀ e ∈ v.scan vma, e.2.FoundAll :=
  scan_keeps (P := fun e => e.2.FoundAll)
    (fun m ptr hptr => by cases hptr) (fun i value m info _ h => h.addPtr i value) vma

theorem showPtrs_positive {info : PagePtrInfo} (h : info.FoundAll) {symbols : SymbolManager}
    {stats : Tally U64 U64} (hok : info.showPtrs d symbols = .ok stats) :
    Tally.Positive stats.entries := by
  refine invariant_of_foldlM_ok (fun stats : Tally U64 U64 => Tally.Positive stats.entries)
    (fun e he => by cases he) (fun ptr hptr stats stats' hstats hround => ?_) hok
  cases hloader : info.toLoader with
  | none =>
      rw [hloader] at hround
      cases hround
  | some toLoader =>
      rw [hloader] at hround
      obtain ⟨flags, -, hinsert⟩ := exists_of_bind_ok hround
      cases hinsert
      exact hstats.insert (Finset.card_pos.mpr (h ptr hptr))

theorem mergeStats_positive {glob_stats stats merged : Tally U64 U64}
    (hglob : Tally.Positive glob_stats.entries) (hstats : Tally.Positive stats.entries)
    (hok : mergeStats order glob_stats stats = .ok merged) : Tally.Positive merged.entries := by
  unfold mergeStats at hok
  split at hok
  · rename_i hmerge
    cases hok
    exact hglob.merge (fun e he => hstats e ((order.perm stats).mem_iff.mp he)) hmerge
  · cases hok

theorem validateDataPage_positive {vma : VMAInfo} {stats : Tally U64 U64}
    (hok : v.validateDataPage d order vma = .ok stats) : Tally.Positive stats.entries := by
  unfold validateDataPage at hok
  split at hok
  · cases hok
    intro e he
    cases he
  · refine invariant_of_foldlM_ok (fun stats : Tally U64 U64 => Tally.Positive stats.entries)
      (fun e he => by cases he) (fun mapping hmapping glob glob' hglob hround => ?_) hok
    obtain ⟨stats, hstats, hmerge⟩ := exists_of_bind_ok hround
    have hpos := showPtrs_positive (foundAll_scan vma mapping hmapping) hstats
    split at hmerge
    · cases hmerge
      exact hglob
    · exact mergeStats_positive hglob hpos hmerge

/-! ## The table -/

/-- What the table has when all mappings have been gone through. -/
structure Tabulated (d : Disassembler) (v : ProcessValidator) (table : Tally U64 U64) : Prop where
  classified : Tally.Classified (v.HasFlags d) table.entries
  positive : Tally.Positive table.entries
  count : ∀ p, table.count p = (v.locations p).card

theorem validateDataPage_tabulates (hdisj : v.process.mappedVMAs.Pairwise VMAInfo.Disjoint)
    (hloaders : ∀ m ∈ v.process.mappedVMAs, checkFlags m.flags VM_EXEC = true →
      (v.process.findLoaderByFileName m.name).isSome) (vma : VMAInfo) {table : Tally U64 U64}
    (hclass : Tally.Classified (v.HasFlags d) table.entries)
    (hpos : Tally.Positive table.entries) :
    Ensures (do
        let stats ← v.validateDataPage d order vma
        mergeStats order table stats) (fun a => a = .noData ∧ v.NoText) fun merged =>
      Tally.Classified (v.HasFlags d) merged.entries ∧ Tally.Positive merged.entries ∧
        ∀ p, merged.count p = table.count p + (v.recordedAt vma p).card := by
  refine ((validateDataPage_ensures hdisj hloaders vma).and_of_ok fun stats hok =>
    validateDataPage_positive hok).bind ?_
  rintro stats ⟨⟨hstats, hcount⟩, hstatsPos⟩
  refine ((mergeStats_ensures hdisj hclass hstats).and_of_ok fun merged hok =>
    mergeStats_positive hpos hstatsPos hok).mono ?_
  rintro merged ⟨⟨hmerged, hmergedCount⟩, hmergedPos⟩
  refine ⟨hmerged, hmergedPos, fun p => ?_⟩
  rw [hmergedCount, hcount]

theorem validateProcess_tabulates (hdisj : v.process.mappedVMAs.Pairwise VMAInfo.Disjoint)
    (hloaders : ∀ m ∈ v.process.mappedVMAs, checkFlags m.flags VM_EXEC = true →
      (v.process.findLoaderByFileName m.name).isSome) :
    Ensures (v.validateProcess d order) (fun a => a = .noData ∧ v.NoText)
      fun s => v.Tabulated d s.2 := by
  have hsum : Ensures (v.validateProcess d order) (fun a => a = .noData ∧ v.NoText) fun s =>
      Tally.Classified (v.HasFlags d) s.2.entries ∧ Tally.Positive s.2.entries ∧
        ∀ p, s.2.count p = ((v.process.mappedVMAs.filter fun vma =>
          sectionCheck vma = .dataPage).map fun vma => (v.recordedAt vma p).card).sum := by
    refine Ensures.foldlM (fun (done : List VMAInfo) (s : List TextReport × Tally U64 U64) =>
      Tally.Classified (v.HasFlags d) s.2.entries ∧ Tally.Positive s.2.entries ∧
        ∀ p, s.2.count p = ((done.filter fun vma => sectionCheck vma = .dataPage).map fun vma =>
          (v.recordedAt vma p).card).sum)
      ⟨fun _ h => absurd h (by simp), fun _ h => absurd h (by simp), fun _ => rfl⟩ ?_
    -- only a data mapping adds to the sum
    rintro done vma todo _ s ⟨hclass, hpos, hcount⟩
    simp only [List.filter_append, List.map_append, List.sum_append, ← hcount]
    cases hcheck : sectionCheck vma with
    | dataPage =>
        simp only [List.filter_cons, hcheck, decide_true, if_true, List.filter_nil,
          List.map_cons, List.map_nil, List.sum_cons, List.sum_nil, Nat.add_zero]
        rw [← bind_assoc]
        exact (validateDataPage_tabulates hdisj hloaders vma hclass hpos).bind
          fun merged hmerged => hmerged
    | codePage => exact ⟨hclass, hpos, by simp [hcheck]⟩
    | skipped => exact ⟨hclass, hpos, by simp [hcheck]⟩
  refine hsum.mono ?_
  rintro s ⟨hclass, hpos, hcount⟩
  refine ⟨hclass, hpos, fun p => ?_⟩
  have hnodup : v.dataVMAs.Nodup := (hdisj.imp fun h => h.ne).sublist List.filter_sublist
  rw [hcount, locations, Finset.card_sigma]
  exact (List.sum_toFinset _ hnodup).symm

/-! ## What the columns count -/

theorem HasFlags.not7f {p flags : U64} (h : v.HasFlags d p flags) :
    checkFlags flags PTR_NOT_7f = decide (p >>> 24 = 0) := by
  obtain ⟨m, -, -, -, loader, -, hflags⟩ := h
  exact ptrFlags_not7f hflags

theorem HasFlags.small_iff {p flags : U64} (h : v.HasFlags d p flags) :
    checkFlags flags PTR_NOT_7f = true ↔ p >>> 24 = 0 := by
  rw [h.not7f, decide_eq_true_iff]

theorem HasFlags.large_iff {p flags : U64} (h : v.HasFlags d p flags) :
    (!checkFlags flags PTR_NOT_7f) = true ↔ p >>> 24 ≠ 0 := by
  rw [Bool.not_eq_true', ← Bool.not_eq_true, h.small_iff]

/-- A flag that says something about the pointer. -/
theorem flagged_and (P : U64 → Bool) {Q : U64 → Bool} {R : U64 → Prop}
    (hQR : ∀ p flags, v.HasFlags d p flags → (Q flags = true ↔ R p)) :
    v.flagged d (fun flags => P flags && Q flags) = {p | p ∈ v.flagged d P ∧ R p} := by
  ext p
  constructor
  · rintro ⟨hloc, flags, hflags, hboth⟩
    obtain ⟨hP, hQ⟩ := Bool.and_eq_true_iff.mp hboth
    exact ⟨⟨hloc, flags, hflags, hP⟩, (hQR p flags hflags).mp hQ⟩
  · rintro ⟨⟨hloc, flags, hflags, hP⟩, hR⟩
    have hQ : Q flags = true := (hQR p flags hflags).mpr hR
    exact ⟨hloc, flags, hflags, Bool.and_eq_true_iff.mpr ⟨hP, hQ⟩⟩

namespace Tabulated

variable {table : Tally U64 U64} {es : List (Tally.Entry U64 U64)}

/-- The pointers in the table are those that are stored somewhere. -/
theorem exists_lookup_iff (h : v.Tabulated d table) {p : U64} :
    (∃ e, table.lookup p = some e) ↔ (v.locations p).Nonempty := by
  rw [← Finset.card_pos, ← h.count]
  constructor
  · rintro ⟨e, he⟩
    exact h.positive.count_pos he
  · intro hpos
    -- a pointer that is not in the table has the count 0
    cases hlookup : table.lookup p with
    | some e => exact ⟨e, rfl⟩
    | none => simp [Tally.count, hlookup] at hpos

theorem keysWith_eq (h : v.Tabulated d table)
    (hdisj : v.process.mappedVMAs.Pairwise VMAInfo.Disjoint) (P : U64 → Bool) :
    table.keysWith (fun _ flags => P flags) = v.flagged d P := by
  ext p
  constructor
  · rintro ⟨e, he, hP⟩
    exact ⟨h.exists_lookup_iff.mp ⟨e, he⟩, e.2, h.classified.lookup he, hP⟩
  · rintro ⟨hloc, flags, hflags, hP⟩
    obtain ⟨e, he⟩ := h.exists_lookup_iff.mpr hloc
    -- the flags in the table can be no others
    obtain rfl := HasFlags.unique hdisj p flags e.2 hflags (h.classified.lookup he)
    exact ⟨e, he, hP⟩

/-- A column of a flag counts the pointers that have it. -/
theorem counts_flagged (h : v.Tabulated d table)
    (hdisj : v.process.mappedVMAs.Pairwise VMAInfo.Disjoint) (hperm : es.Perm table.entries)
    (P : U64 → Bool) :
    (columnOf (fun e => (P e.2.2).toNat) es).Counts id (v.flagged d P) := by
  have hcount : ∀ Q : U64 → Bool, es.countP (fun e => Q e.2.2) = (v.flagged d Q).ncard := by
    intro Q
    rw [← h.keysWith_eq hdisj Q, ← Tally.countP_entries hperm fun _ flags => Q flags]
  rw [columnOf_toNat, hcount, hcount fun flags => P flags && !checkFlags flags PTR_NOT_7f,
    hcount fun flags => P flags && checkFlags flags PTR_NOT_7f,
    flagged_and P fun p flags hflags => hflags.large_iff,
    flagged_and P fun p flags hflags => hflags.small_iff]
  exact ⟨rfl, rfl, rfl⟩

/-- The sum over some of the pointers is the number of their locations. -/
theorem sum_locations (h : v.Tabulated d table) (hperm : es.Perm table.entries) {P : U64 → Bool}
    {Q : U64 → Prop} (hPQ : ∀ p flags, v.HasFlags d p flags → (P flags = true ↔ Q p)) :
    ((es.filter fun e => P e.2.2).map fun e => e.2.1).sum =
      {x : Sigma fun _ : U64 => Sigma fun _ : VMAInfo => Nat |
        x.2 ∈ v.locations x.1 ∧ Q x.1}.ncard := by
  rw [Tally.sum_counts hperm (fun _ flags => P flags) h.count]
  congr 1
  ext ⟨p, loc⟩
  constructor
  · rintro ⟨⟨e, he, hP⟩, hloc⟩
    exact ⟨hloc, (hPQ p e.2 (h.classified.lookup he)).mp hP⟩
  · rintro ⟨hloc, hQ⟩
    obtain ⟨e, he⟩ := h.exists_lookup_iff.mpr ⟨loc, hloc⟩
    exact ⟨⟨e, he, (hPQ p e.2 (h.classified.lookup he)).mpr hQ⟩, hloc⟩

/-- The first column counts locations. -/
theorem counts_locations (h : v.Tabulated d table) (hperm : es.Perm table.entries) :
    (columnOf (fun e => e.2.1) es).Counts Sigma.fst
      {x : Sigma fun _ : U64 => Sigma fun _ : VMAInfo => Nat | x.2 ∈ v.locations x.1} := by
  have hsum : (es.map fun e => e.2.1).sum =
      {x : Sigma fun _ : U64 => Sigma fun _ : VMAInfo => Nat | x.2 ∈ v.locations x.1}.ncard := by
    have hall := h.sum_locations hperm (P := fun _ => true) (Q := fun _ => True) (by simp)
    simpa using hall
  have hlarge := h.sum_locations hperm fun p flags hflags => hflags.large_iff
  have hsmall := h.sum_locations hperm fun p flags hflags => hflags.small_iff
  rw [columnOf_eq, hsum, hlarge, hsmall]
  exact ⟨rfl, rfl, rfl⟩

end Tabulated

/-- **The numbers of the summary** are the numbers of locations and of different pointers, in
whatever order the table is gone through. -/
theorem printStat2_exact (hdisj : v.process.mappedVMAs.Pairwise VMAInfo.Disjoint)
    (hloaders : ∀ m ∈ v.process.mappedVMAs, checkFlags m.flags VM_EXEC = true →
      (v.process.findLoaderByFileName m.name).isSome) {reports : List TextReport}
    {glob_stats : Tally U64 U64}
    (hok : v.validateProcess d order = .ok (reports, glob_stats))
    {es : List (Tally.Entry U64 U64)} (hperm : es.Perm glob_stats.entries) :
    v.SummaryExact d (printStat2 es) := by
  have htable : v.Tabulated d glob_stats := (validateProcess_tabulates hdisj hloaders).of_ok hok
  rw [printStat2, foldl_add]
  exact
    { overall := htable.counts_locations hperm
      ptr_unique := htable.counts_flagged hdisj hperm fun _ => true
      ptr_text := htable.counts_flagged hdisj hperm fun flags => !checkFlags flags PTR_SEC_NOT_TEXT
      ptr_unk := htable.counts_flagged hdisj hperm fun flags => checkFlags flags PTR_UNKNOWN
      ptr_unk_print := htable.counts_flagged hdisj hperm fun flags =>
        checkFlags flags (PTR_UNKNOWN ||| PTR_END_PRINTABLE)
      ptr_inv_inst := htable.counts_flagged hdisj hperm fun flags =>
        checkFlags flags PTR_INVALID_INSTR
      ptr_unin_inst := htable.counts_flagged hdisj hperm fun flags =>
        checkFlags flags PTR_UNINT_INSTR
      ptr_unin_ret := htable.counts_flagged hdisj hperm fun flags =>
        checkFlags flags (PTR_UNINT_INSTR ||| PTR_RETURN)
      ptr_unin_gad := htable.counts_flagged hdisj hperm fun flags =>
        checkFlags flags (PTR_UNINT_INSTR ||| PTR_GADGET) }

end

/-- One pointer that is stored twice. -/
theorem printStat2_exact_twoPointers :
    ∃ reports glob_stats,
      twoPointers.validateProcess noInstructions storedOrder = .ok (reports, glob_stats) ∧
      twoPointers.SummaryExact noInstructions (printStat2 glob_stats.entries) := by
  have hloaders : ∀ m ∈ twoPointers.process.mappedVMAs, checkFlags m.flags VM_EXEC = true →
      (twoPointers.process.findLoaderByFileName m.name).isSome := fun _ _ _ => rfl
  cases hresult : twoPointers.validateProcess noInstructions storedOrder with
  | error a =>
      obtain ⟨-, _, -, -, loader, hl, hnil⟩ :=
        (validateProcess_tabulates twoPointers_disjoint hloaders).of_error hresult
      cases hl
      cases hnil
  | ok s =>
      exact ⟨s.1, s.2, rfl, printStat2_exact twoPointers_disjoint hloaders hresult (.refl _)⟩

end ProcessValidator

end KernInt
