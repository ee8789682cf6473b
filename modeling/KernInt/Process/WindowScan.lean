import KernInt.Process.PtrStats

set_option autoImplicit false

/-! # The offsets that are looked at

`validateDataPage` goes through the offsets `i` with `i < content.size() - sizeof(uint64_t)`.
So it never reads behind the content, but the last eight bytes are not looked at either: a
pointer there is not recorded (`windowRecorded_iff`).
-/

namespace KernInt

open Lib

/-! ## One offset -/

/-- In how many mappings the offset `i` has been recorded for a pointer. -/
def timesRecorded (i : Nat) (value : U64) (range : List (VMAInfo × PagePtrInfo)) : Nat :=
  range.countP fun e => decide (i ∈ e.2.wheres value)

/-- The loop over the mappings is left at `m`. -/
def EndsLoop (vma m : VMAInfo) (value : U64) : Prop :=
  m.name = vma.name ∨ m.start < value ∧ value ≤ m.stop ∧ value = m.start + 0x40

instance (vma m : VMAInfo) (value : U64) : Decidable (EndsLoop vma m value) :=
  inferInstanceAs (Decidable (_ ∨ _ ∧ _ ∧ _))

/-- How many mappings of a list `value` is recorded for. -/
def countTargets (vma : VMAInfo) (value : U64) : List VMAInfo → Nat
  | [] => 0
  | m :: ms =>
      if EndsLoop vma m value then 0
      else (if PointsTo vma m value then 1 else 0) + countTargets vma value ms

/-- The loop does not come to a mapping that the value points to. -/
def NoTarget (vma : VMAInfo) (value : U64) (ms : List VMAInfo) : Prop :=
  ∀ pre m post, ms = pre ++ m :: post → PointsTo vma m value → ∃ e ∈ pre, EndsLoop vma e value

section

variable {vma : VMAInfo} {i j : Nat} {value p : U64} {range : List (VMAInfo × PagePtrInfo)}

/-- The loop is not left where the value is recorded. -/
theorem not_endsLoop_of_pointsTo {m : VMAInfo} (h : PointsTo vma m value) :
    ¬ EndsLoop vma m value := by
  rintro (hname | ⟨-, -, hphdr⟩)
  · exact h.2.2.1 hname
  · exact h.2.2.2 hphdr

theorem noTarget_nil : NoTarget vma value [] := by
  intro pre m post h
  exact absurd h.symm (List.append_ne_nil_of_right_ne_nil pre (List.cons_ne_nil m post))

/-- Behind a mapping at which the loop is left there is no target. -/
theorem noTarget_cons_of_endsLoop {m : VMAInfo} {ms : List VMAInfo} (h : EndsLoop vma m value) :
    NoTarget vma value (m :: ms) := by
  intro pre m' post hsplit hpoints
  cases pre with
  | nil =>
      cases hsplit
      exact absurd h (not_endsLoop_of_pointsTo hpoints)
  | cons e pre =>
      cases hsplit
      exact ⟨m, List.mem_cons_self, h⟩

theorem noTarget_cons_iff {m : VMAInfo} {ms : List VMAInfo} (h : ¬ EndsLoop vma m value) :
    NoTarget vma value (m :: ms) ↔ ¬ PointsTo vma m value ∧ NoTarget vma value ms := by
  constructor
  · intro hnone
    constructor
    · intro hpoints
      obtain ⟨e, he, -⟩ := hnone [] m ms rfl hpoints
      cases he
    · intro pre m' post hms hpoints
      obtain ⟨e, he, hends⟩ := hnone (m :: pre) m' post (by rw [hms]; rfl) hpoints
      rcases List.mem_cons.mp he with rfl | he
      · exact absurd hends h
      · exact ⟨e, he, hends⟩
  · rintro ⟨hhead, hrest⟩ pre m' post hsplit hpoints
    cases pre with
    | nil =>
        cases hsplit
        exact absurd hpoints hhead
    | cons e pre =>
        cases hsplit
        obtain ⟨e, he, hends⟩ := hrest pre m' post rfl hpoints
        exact ⟨e, List.mem_cons_of_mem m he, hends⟩

theorem countTargets_eq_zero_iff {ms : List VMAInfo} :
    countTargets vma value ms = 0 ↔ NoTarget vma value ms := by
  induction ms with
  | nil => exact iff_of_true rfl noTarget_nil
  | cons m ms ih =>
      unfold countTargets
      by_cases hends : EndsLoop vma m value
      · rw [if_pos hends]
        exact iff_of_true rfl (noTarget_cons_of_endsLoop hends)
      · rw [if_neg hends, Nat.add_eq_zero_iff, ih, noTarget_cons_iff hends]
        exact and_congr_left' (by simp)

/-- One round of the loop over the mappings. -/
theorem recordValue_cons {m : VMAInfo} {info : PagePtrInfo}
    (hexec : checkFlags m.flags VM_EXEC = true) :
    recordValue vma i value ((m, info) :: range) =
      if EndsLoop vma m value then (m, info) :: range
      else (m, if PointsTo vma m value then info.addPtr i value else info) ::
        recordValue vma i value range := by
  have hrange := inRange_iff m value
  rw [recordValue, if_pos hexec]
  by_cases hname : vma.name = m.name
  · rw [if_pos hname, if_pos (.inl hname.symm)]
  · rw [if_neg hname]
    by_cases hin : inRange value (m.start + 1) m.stop = true
    · obtain ⟨hlt, hle⟩ := hrange.mp hin
      rw [if_pos hin]
      by_cases hphdr : value = m.start + 0x40
      · rw [if_pos hphdr, if_pos (.inr ⟨hlt, hle, hphdr⟩)]
      · have hnot : ¬ EndsLoop vma m value := by
          rintro (h | h)
          · exact hname h.symm
          · exact hphdr h.2.2
        rw [if_neg hphdr, if_neg hnot, if_pos ⟨hlt, hle, Ne.symm hname, hphdr⟩]
    · have hnot : ¬ EndsLoop vma m value := by
        rintro (h | h)
        · exact hname h.symm
        · exact hin (hrange.mpr ⟨h.1, h.2.1⟩)
      rw [if_neg hin, if_neg hnot, if_neg fun h => hin (hrange.mpr ⟨h.1, h.2.1⟩)]

theorem mem_wheres_addPtr {info : PagePtrInfo} :
    i ∈ (info.addPtr j p).wheres value ↔ i ∈ info.wheres value ∨ i = j ∧ value = p := by
  unfold PagePtrInfo.wheres PagePtrInfo.addPtr
  by_cases h : value = p
  · subst h
    rw [AList.lookup_insert]
    simp [PagePtrInfo.wheres, or_comm]
  · rw [AList.lookup_insert_ne h]
    simp [h]

theorem timesRecorded_cons (e : VMAInfo × PagePtrInfo) :
    timesRecorded i value (e :: range) =
      timesRecorded i value range + if i ∈ e.2.wheres value then 1 else 0 := by
  unfold timesRecorded
  rw [List.countP_cons]
  simp

/-- Another offset changes nothing. -/
theorem timesRecorded_of_ne (hexec : ∀ e ∈ range, checkFlags e.1.flags VM_EXEC = true)
    (h : j ≠ i) :
    timesRecorded i value (recordValue vma j p range) = timesRecorded i value range := by
  induction range with
  | nil => rfl
  | cons e range ih =>
      obtain ⟨m, info⟩ := e
      have hrest := ih fun e he => hexec e (List.mem_cons_of_mem _ he)
      rw [recordValue_cons (hexec _ List.mem_cons_self)]
      split
      · rfl
      · rw [timesRecorded_cons, timesRecorded_cons, hrest]
        split
        · have hmem : i ∈ (info.addPtr j p).wheres value ↔ i ∈ info.wheres value := by
            rw [mem_wheres_addPtr]
            exact or_iff_left fun hi => h hi.1.symm
          simp only [hmem]
        · rfl

/-- The offset itself is recorded for the targets. -/
theorem timesRecorded_recordValue (hexec : ∀ e ∈ range, checkFlags e.1.flags VM_EXEC = true)
    (hnew : timesRecorded i value range = 0) :
    timesRecorded i value (recordValue vma i value range) =
      countTargets vma value (range.map Prod.fst) := by
  induction range with
  | nil => rfl
  | cons e range ih =>
      obtain ⟨m, info⟩ := e
      have hrest := ih fun e he => hexec e (List.mem_cons_of_mem _ he)
      rw [timesRecorded_cons, Nat.add_eq_zero_iff] at hnew
      rw [recordValue_cons (hexec _ List.mem_cons_self), List.map_cons, countTargets]
      split
      · rw [timesRecorded_cons, hnew.1, hnew.2]
      · rw [timesRecorded_cons, hrest hnew.1, Nat.add_comm]
        congr 1
        split
        · exact if_pos (mem_wheres_addPtr.mpr (.inr ⟨rfl, rfl⟩))
        · exact hnew.2

end

/-! ## All offsets -/

namespace ProcessValidator

variable (v : ProcessValidator) (vma : VMAInfo)

/-- The executable mappings, in the order of the list. -/
def execVMAs : List VMAInfo :=
  v.process.mappedVMAs.filter fun toVMA => checkFlags toVMA.flags VM_EXEC

/-- The word at an offset of the content. -/
def windowValue (i : Nat) : U64 := load64 (fun k => (v.dataContent vma).getD k 0) i

/-- The scan, with the bytes `rest` behind the end of the content. -/
def scanWith (rest : Nat → Byte) : List (VMAInfo × PagePtrInfo) :=
  (List.range ((v.dataContent vma).length - 8)).foldl (fun range i =>
    let value := load64 (bufferOf (v.dataContent vma) rest) i
    if value = 0 then range else recordValue vma i value range) v.range

/-- No byte behind the end of the content is read. -/
def ReadsOnlyContent : Prop := ∀ rest, v.scanWith vma rest = v.scan vma

section

variable {v vma} {i : Nat} {value : U64} {r : List (VMAInfo × PagePtrInfo)}

theorem load64_bufferOf {content : List Byte} (rest : Nat → Byte) (h : i + 8 ≤ content.length) :
    load64 (bufferOf content rest) i = load64 (fun k => content.getD k 0) i := by
  apply load64_congr
  intro k hk
  have hlt : i + k < content.length := by omega
  rw [bufferOf, List.getD_eq_getElem?_getD, List.getD_eq_getElem?_getD,
    List.getElem?_eq_getElem hlt]
  rfl

/-- The last word that is read ends in front of the last byte. -/
theorem readsOnlyContent : v.ReadsOnlyContent vma := by
  intro rest
  unfold scanWith scan
  apply List.foldl_ext
  intro range i hi
  have hlt := List.mem_range.mp hi
  rw [scanOffset, load64_bufferOf rest (by omega)]

/-- What every round of the scan keeps. -/
def Scanned (v : ProcessValidator) (r : List (VMAInfo × PagePtrInfo)) : Prop :=
  r.map Prod.fst = v.execVMAs

theorem Scanned.exec (h : v.Scanned r) : ∀ e ∈ r, checkFlags e.1.flags VM_EXEC = true := by
  intro e he
  have hmem : e.1 ∈ r.map Prod.fst := List.mem_map_of_mem he
  rw [h] at hmem
  exact (List.mem_filter.mp hmem).2

theorem scanned_range : v.Scanned v.range := by
  unfold Scanned range
  rw [List.map_map]
  exact List.map_id _

theorem scanOffset_of_ne_zero (h : v.windowValue vma i ≠ 0) :
    v.scanOffset vma r i = recordValue vma i (v.windowValue vma i) r := if_neg h

theorem Scanned.scanOffset (h : v.Scanned r) (j : Nat) : v.Scanned (v.scanOffset vma r j) := by
  unfold ProcessValidator.scanOffset
  dsimp only
  split
  · exact h
  · exact map_fst_recordValue.trans h

/-- The rounds for other offsets change nothing. -/
theorem timesRecorded_scan (vma : VMAInfo) (value : U64) {offsets : List Nat}
    (h : v.Scanned r) (hi : i ∉ offsets) :
    v.Scanned (offsets.foldl (v.scanOffset vma) r) ∧
      timesRecorded i value (offsets.foldl (v.scanOffset vma) r) = timesRecorded i value r := by
  induction offsets generalizing r with
  | nil => exact ⟨h, rfl⟩
  | cons j offsets ih =>
      rw [List.mem_cons, not_or] at hi
      obtain ⟨hscanned, heq⟩ := ih (h.scanOffset j) hi.2
      refine ⟨hscanned, ?_⟩
      rw [List.foldl_cons, heq]
      unfold ProcessValidator.scanOffset
      dsimp only
      split
      · rfl
      · exact timesRecorded_of_ne h.exec (Ne.symm hi.1)

theorem timesRecorded_range : timesRecorded i value v.range = 0 := by
  unfold timesRecorded
  rw [List.countP_eq_zero]
  intro e he
  obtain ⟨m, -, rfl⟩ := List.mem_map.mp he
  simp [PagePtrInfo.new, PagePtrInfo.wheres]

/-- How often an offset is recorded for the word that is there. -/
theorem timesRecorded_scan_eq (hvalue : v.windowValue vma i ≠ 0) :
    timesRecorded i (v.windowValue vma i) (v.scan vma) =
      if i < (v.dataContent vma).length - 8 then
        countTargets vma (v.windowValue vma i) v.execVMAs
      else 0 := by
  unfold scan
  split
  · rename_i hlt
    obtain ⟨pre, post, hsplit⟩ := List.append_of_mem (List.mem_range.mpr hlt)
    have hnodup : (pre ++ i :: post).Nodup := hsplit ▸ List.nodup_range
    have hpre : i ∉ pre := fun h => (List.nodup_append.mp hnodup).2.2 i h i List.mem_cons_self rfl
    have hpost : i ∉ post := (List.nodup_cons.mp (List.nodup_append.mp hnodup).2.1).1
    rw [hsplit, List.foldl_append, List.foldl_cons]
    obtain ⟨hscanned, hzero⟩ :=
      timesRecorded_scan (v := v) vma (v.windowValue vma i) scanned_range hpre
    rw [timesRecorded_range] at hzero
    rw [(timesRecorded_scan vma _ (hscanned.scanOffset i) hpost).2, scanOffset_of_ne_zero hvalue,
      timesRecorded_recordValue hscanned.exec hzero, hscanned]
  · rename_i hge
    rw [(timesRecorded_scan vma _ scanned_range fun h => hge (List.mem_range.mp h)).2,
      timesRecorded_range]

end

/-- **Which offsets are recorded**: of the words that point to the first executable mapping all
but the last one of the content, each of them exactly once if no other mapping that the loop
comes to contains the value as well. -/
theorem windowRecorded_iff (v : ProcessValidator) (vma : VMAInfo) (i : Nat) {m : VMAInfo}
    {rest : List VMAInfo} (hi : i + 8 ≤ (v.dataContent vma).length)
    (hvalue : v.windowValue vma i ≠ 0) (hfirst : v.execVMAs = m :: rest)
    (hpoints : PointsTo vma m (v.windowValue vma i)) :
    (timesRecorded i (v.windowValue vma i) (v.scan vma) = 1 ∧ v.ReadsOnlyContent vma) ↔
      i + 8 < (v.dataContent vma).length ∧ NoTarget vma (v.windowValue vma i) rest := by
  have hstays := not_endsLoop_of_pointsTo hpoints
  have hcount : countTargets vma (v.windowValue vma i) v.execVMAs =
      1 + countTargets vma (v.windowValue vma i) rest := by
    rw [hfirst, countTargets, if_neg hstays, if_pos hpoints]
  rw [and_iff_left readsOnlyContent, timesRecorded_scan_eq hvalue, hcount,
    ← countTargets_eq_zero_iff]
  split
  · constructor
    · intro h
      exact ⟨by omega, by omega⟩
    · rintro ⟨-, h⟩
      omega
  · constructor
    · intro h
      cases h
    · rintro ⟨h, -⟩
      omega

/-- Where the mappings are disjoint, no other one contains the value. -/
theorem noTarget_of_disjoint {v : ProcessValidator} {vma m : VMAInfo} {rest : List VMAInfo}
    {value : U64} (hdisj : v.process.mappedVMAs.Pairwise VMAInfo.Disjoint)
    (hfirst : v.execVMAs = m :: rest) (hpoints : PointsTo vma m value) :
    NoTarget vma value rest := by
  have hexec : v.execVMAs.Pairwise VMAInfo.Disjoint := hdisj.sublist List.filter_sublist
  rw [hfirst] at hexec
  rintro pre m' post rfl hpoints'
  have hapart := (List.pairwise_cons.mp hexec).1 m' (by simp)
  exact absurd hpoints'.2.1 fun h => hapart.not_in_both hpoints.1 hpoints.2.1 hpoints'.1 h

/-! ## The last word -/

/-- The data of a library with a pointer into the code of a program at offset 8, and `behind` bytes
behind it. -/
def lastWord (behind : Nat) : ProcessValidator :=
  { onePointer with
    vmi := { readVectorFromVA := fun _ _ _ =>
      [0, 0, 0, 0, 0, 0, 0, 0, 0x00, 0x35, 0, 0, 0, 0, 0, 0] ++ List.replicate behind 0 } }

/-- With a byte behind it, the pointer is recorded. -/
theorem windowRecorded_inside :
    timesRecorded 8 0x3500 ((lastWord 1).scan libraryData) = 1 ∧
      (lastWord 1).ReadsOnlyContent libraryData :=
  (windowRecorded_iff (lastWord 1) libraryData 8 (by decide) (by decide) rfl (by decide)).mpr
    ⟨by decide, countTargets_eq_zero_iff.mp rfl⟩

/-- At the very end of the content, it is not. -/
theorem windowRecorded_last :
    8 + 8 ≤ ((lastWord 0).dataContent libraryData).length ∧
      (lastWord 0).windowValue libraryData 8 = 0x3500 ∧
      PointsTo libraryData programCode 0x3500 ∧
      (lastWord 0).execVMAs = [programCode] ∧
      timesRecorded 8 0x3500 ((lastWord 0).scan libraryData) = 0 := by
  refine ⟨by decide, by decide, by decide, rfl, by decide⟩

end ProcessValidator

end KernInt
