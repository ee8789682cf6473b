import KernInt.Process.TaskList
import KernInt.Process.VMAList

set_option autoImplicit false

/-! # The labels of the first process

`getVMAInfo` finds the page `[vvar]` by the member `vdsoVvarPageOffset` of the task manager. No
constructor sets this member: `loadVDSO` does, which the constructor of a process calls after
`getVMAInfo`. So the labels of the first process depend on what happened to be in memory, and the
lists of mappings agree only if no label can depend on the member (`vmaInfo_independent_iff`).
-/

namespace KernInt

open Lib

/-! ## The task manager over several processes -/

/-- The names that `libraryMap` has an entry for. -/
abbrev LibraryNames := String → Bool

/-- What the analysis of processes reads: the tasks of the guest with their memory descriptors,
which kernel threads do not have, the member `sym_vvar_page` of the vdso image, and what loading
the program and the mapped libraries of a process does to `libraryMap`. Loading the program may
throw. -/
structure GuestState where
  task : pid_t → Option (Option MmStruct)
  sym_vvar_page : U64
  loadExec : pid_t → LibraryNames → Except LibraryNames LibraryNames
  loadMapped : pid_t → LibraryNames → LibraryNames

/-- The members of the task manager that change. -/
structure TaskManagerState where
  vdsoVvarPageOffset : U64
  libraryMap : LibraryNames

/-- The constructor; `indeterminate` is what `vdsoVvarPageOffset` happens to be. -/
def TaskManagerState.new (indeterminate : U64) : TaskManagerState where
  vdsoVvarPageOffset := indeterminate
  libraryMap := fun _ => false

section

variable (g : GuestState) (tm : TaskManagerState)

def vmaInfoOf (pid : pid_t) : List VMAInfo :=
  getVMAInfo tm.vdsoVvarPageOffset ((g.task pid).getD none)

def loadVDSO : TaskManagerState :=
  if tm.libraryMap "[vdso]" then tm
  else
    { vdsoVvarPageOffset := g.sym_vvar_page
      libraryMap := Function.update tm.libraryMap "[vdso]" true }

/-- The constructor of a process, with the mappings that it keeps. -/
def newProcess (pid : pid_t) : TaskManagerState × List VMAInfo :=
  match g.task pid with
  -- "No such task with pid"
  | none => (tm, [])
  | some _ =>
      let mappedVMAs := vmaInfoOf g tm pid
      match g.loadExec pid tm.libraryMap with
      | .error libraryMap => ({ tm with libraryMap }, mappedVMAs)
      | .ok libraryMap =>
          let tm := loadVDSO g { tm with libraryMap }
          ({ tm with libraryMap := g.loadMapped pid tm.libraryMap }, mappedVMAs)

/-- The processes are constructed one after the other. -/
def newProcesses (pids : List pid_t) : TaskManagerState :=
  pids.foldl (fun tm pid => (newProcess g tm pid).1) tm

/-- Whatever was in memory at the beginning and whatever processes have been constructed, the
mappings of `pid` are the same. -/
def HistoryIndependent (pid : pid_t) : Prop :=
  ∀ u u' pids pids', vmaInfoOf g (newProcesses g (.new u) pids) pid =
    vmaInfoOf g (newProcesses g (.new u') pids') pid

end

/-! ## Labels that do not depend on the member -/

/-- The name of the mapping is `[vvar]` without the member, if that of the mapping in front is:
it is the name of its file, or it has no file and is not the vdso. -/
def CarriesVvar (mm : MmStruct) (cur : VmArea) : Prop :=
  match cur.vm_file with
  | some file => file.dentry.d_name = "[vvar]"
  | none => cur.vm_start ≠ mm.vdsoPage

/-- A mapping without a file is the vdso, or it continues a row of mappings behind a file with
the name `[vvar]` and is neither the heap nor the stack; `front` is the mapping in front. -/
def LabelFixed (mm : MmStruct) (front : Option VmArea) (cur : VmArea) : Prop :=
  cur.vm_file = none → cur.vm_start ≠ mm.vdsoPage →
    ¬ (cur.vm_start ≤ mm.brk ∧ mm.start_brk ≤ cur.vm_end) ∧
    ¬ (cur.vm_start ≤ mm.start_stack ∧ mm.start_stack ≤ cur.vm_end) ∧
    ∃ back, front = some back ∧ cur.vm_start = back.vm_end ∧ CarriesVvar mm back

/-- The mappings from some point of the list on. -/
def LabelsFixed (mm : MmStruct) : Option VmArea → List VmArea → Prop
  | _, [] => True
  | front, cur :: rest => LabelFixed mm front cur ∧ LabelsFixed mm (some cur) rest

section

variable {u u' : U64} {mm : MmStruct} {front : Option VmArea} {last : Option VMAInfo}
  {cur : VmArea}

theorem vmaInfo_name_of_label (h : cur.vm_file = none) :
    (vmaInfo u mm last cur).name = labelOf u mm last cur 0 := by
  simp only [vmaInfo, h, Option.map_none, Option.getD_none, if_true]

theorem labelOf_of_vdso {ino : U64} (h : cur.vm_start = mm.vdsoPage) :
    labelOf u mm last cur ino = "[vdso]" := if_pos h

theorem labelOf_of_vvar {ino : U64} (hstart : cur.vm_start ≠ mm.vdsoPage)
    (h : cur.vm_start = mm.vdsoPage + u) : labelOf u mm last cur ino = "[vvar]" :=
  (if_neg hstart).trans (if_pos h)

/-- Only the name can depend on the member. -/
theorem vmaInfo_eq_of_name
    (h : (vmaInfo u mm last cur).name = (vmaInfo u' mm last cur).name) :
    vmaInfo u mm last cur = vmaInfo u' mm last cur := by
  simp only [vmaInfo, VMAInfo.mk.injEq, true_and] at h ⊢
  exact h

/-- The mapping in front, as the guest has it and as it is listed. -/
def InFront (mm : MmStruct) : Option VmArea → Option VMAInfo → Prop
  | some back, some info =>
      info.stop = back.vm_end ∧ (info.name = "[vvar]" ↔ CarriesVvar mm back)
  | none, none => True
  | _, _ => False

theorem inFront_first : InFront mm none none := trivial

/-- Where the labels are fixed, those of the row behind the file are `[vvar]`. -/
theorem inFront_vmaInfo (h : cur.vm_file = none → cur.vm_start ≠ mm.vdsoPage →
    (vmaInfo u mm last cur).name = "[vvar]") :
    InFront mm (some cur) (some (vmaInfo u mm last cur)) := by
  refine ⟨rfl, ?_⟩
  unfold CarriesVvar
  cases hfile : cur.vm_file with
  | some file =>
      constructor
      · intro hname
        -- a file with a name in brackets has no directory put in front of it
        have hb : Bracketed (vmaInfo u mm last cur).name := by
          rw [hname]
          decide
        exact (bracketed_of_file hfile hb).2.symm.trans hname
      · intro hname
        have hhead : file.dentry.d_name.toList.head? = some '[' := by
          rw [hname]
          rfl
        rw [vmaInfo_name_of_file hfile, getPathFromDentry, if_pos hhead, hname]
  | none =>
      constructor
      · intro hname hstart
        rw [vmaInfo_name_of_label hfile, labelOf_of_vdso hstart] at hname
        exact absurd hname (by decide)
      · exact h hfile

theorem vmaInfo_name_of_labelFixed (hfixed : LabelFixed mm front cur)
    (hfront : InFront mm front last) (hfile : cur.vm_file = none)
    (hstart : cur.vm_start ≠ mm.vdsoPage) : (vmaInfo u mm last cur).name = "[vvar]" := by
  obtain ⟨hheap, hstack, back, rfl, hend, hcarries⟩ := hfixed hfile hstart
  rw [vmaInfo_name_of_label hfile]
  unfold labelOf
  rw [if_neg hstart]
  split
  · rfl
  · -- neither heap nor stack, so the label is that of the mapping in front
    cases last with
    | none => exact hfront.elim
    | some info =>
        obtain ⟨hstop, hname⟩ := hfront
        have hadjacent : cur.vm_start = info.stop := by rw [hstop, hend]
        show (if (0 : U64) = 0 ∧ cur.vm_start = info.stop then info.name else "<unknown>") = _
        rw [if_pos ⟨rfl, hadjacent⟩]
        exact hname.mpr hcarries

/-- No mapping starts at the last address of all, so with this offset no label is given because
of the member. -/
theorem labelFixed_of_name (hfront : InFront mm front last)
    (h : cur.vm_file = none → cur.vm_start ≠ mm.vdsoPage →
      (vmaInfo (-1 - mm.vdsoPage) mm last cur).name = "[vvar]") : LabelFixed mm front cur := by
  intro hfile hstart
  have hname := h hfile hstart
  have hvvar : cur.vm_start ≠ mm.vdsoPage + (-1 - mm.vdsoPage) := by
    have hlt := cur.vm_start_lt
    bv_omega
  rw [vmaInfo_name_of_label hfile] at hname
  unfold labelOf at hname
  rw [if_neg hstart, if_neg hvvar] at hname
  -- of the labels that are left, only that of the mapping in front can be `[vvar]`
  split at hname
  · exact absurd hname (by decide)
  · rename_i hheap
    split at hname
    · exact absurd hname (by decide)
    · rename_i hstack
      refine ⟨hheap, hstack, ?_⟩
      cases last with
      | none =>
          simp only at hname
          exact absurd hname (by decide)
      | some info =>
          simp only at hname
          split at hname
          · rename_i hadjacent
            cases front with
            | none => exact hfront.elim
            | some back =>
                obtain ⟨hstop, hcarries⟩ := hfront
                exact ⟨back, rfl, hadjacent.2.trans hstop, hcarries.mp hname⟩
          · exact absurd hname (by decide)

/-- The list is the same for all values of the member if the labels are fixed, and only then. -/
theorem vmaInfos_eq_iff (hfront : InFront mm front last) (l : List VmArea) :
    (∀ u u', vmaInfos u mm last l = vmaInfos u' mm last l) ↔ LabelsFixed mm front l := by
  induction l generalizing front last with
  | nil => simp [vmaInfos, LabelsFixed]
  | cons cur rest ih =>
      simp only [vmaInfos, List.cons.injEq, LabelsFixed]
      constructor
      · intro h
        -- the offset of the mapping itself gives it the label
        have hname : ∀ u, cur.vm_file = none → cur.vm_start ≠ mm.vdsoPage →
            (vmaInfo u mm last cur).name = "[vvar]" := by
          intro u hfile hstart
          have hown : cur.vm_start = mm.vdsoPage + (cur.vm_start - mm.vdsoPage) := by
            rw [BitVec.add_comm, BitVec.sub_add_cancel]
          rw [(h u (cur.vm_start - mm.vdsoPage)).1, vmaInfo_name_of_label hfile,
            labelOf_of_vvar hstart hown]
        refine ⟨labelFixed_of_name hfront (hname _), ?_⟩
        rw [← ih (inFront_vmaInfo (hname 0))]
        intro u u'
        have hrest := (h u u').2
        rwa [(h u 0).1, (h u' 0).1] at hrest
      · rintro ⟨hfixed, hrest⟩ u u'
        have hname : ∀ u, cur.vm_file = none → cur.vm_start ≠ mm.vdsoPage →
            (vmaInfo u mm last cur).name = "[vvar]" :=
          fun u => vmaInfo_name_of_labelFixed hfixed hfront
        -- the name of a file and the label of the vdso do not depend on the member
        have hhead : vmaInfo u mm last cur = vmaInfo u' mm last cur := by
          apply vmaInfo_eq_of_name
          cases hfile : cur.vm_file with
          | some file => rw [vmaInfo_name_of_file hfile, vmaInfo_name_of_file hfile]
          | none =>
              by_cases hstart : cur.vm_start = mm.vdsoPage
              · rw [vmaInfo_name_of_label hfile, vmaInfo_name_of_label hfile,
                  labelOf_of_vdso hstart, labelOf_of_vdso hstart]
              · rw [hname u hfile hstart, hname u' hfile hstart]
        refine ⟨hhead, ?_⟩
        rw [hhead]
        exact (ih (inFront_vmaInfo (hname u'))).mpr hrest u u'

end

/-- **The list of mappings depends on the history** unless the labels are fixed: no process has
been constructed in front of the first one, so that the member is what it happens to be. -/
theorem vmaInfo_independent_iff (g : GuestState) (pid : pid_t) :
    HistoryIndependent g pid ↔
      ∀ mm, g.task pid = some (some mm) → LabelsFixed mm none mm.mmap := by
  constructor
  · intro h mm htask
    rw [← vmaInfos_eq_iff inFront_first]
    intro u u'
    have hfirst := h u u' [] []
    simp only [vmaInfoOf, htask, Option.getD_some] at hfirst
    exact hfirst
  · intro h u u' pids pids'
    unfold vmaInfoOf
    cases htask : g.task pid with
    | none => rfl
    | some task =>
        cases task with
        | none => rfl
        | some mm => exact (vmaInfos_eq_iff inFront_first mm.mmap).mpr (h mm htask) _ _

/-! ## Later processes -/

section

variable {g : GuestState}

/-- Loading programs and libraries does not enter the vdso. -/
structure LeavesVdso (g : GuestState) : Prop where
  exec : ∀ pid libraryMap libraryMap', g.loadExec pid libraryMap = .ok libraryMap' ∨
    g.loadExec pid libraryMap = .error libraryMap' → libraryMap' "[vdso]" = libraryMap "[vdso]"
  mapped : ∀ pid libraryMap, g.loadMapped pid libraryMap "[vdso]" = libraryMap "[vdso]"

/-- The vdso has been loaded, and with it the offset. -/
def VdsoLoaded (g : GuestState) (tm : TaskManagerState) : Prop :=
  tm.libraryMap "[vdso]" = true ∧ tm.vdsoVvarPageOffset = g.sym_vvar_page

theorem vdsoLoaded_newProcess (hleaves : LeavesVdso g) {tm : TaskManagerState} {pid : pid_t}
    (h : VdsoLoaded g tm) : VdsoLoaded g (newProcess g tm pid).1 := by
  unfold newProcess
  cases htask : g.task pid with
  | none => exact h
  | some task =>
      cases hexec : g.loadExec pid tm.libraryMap with
      | error libraryMap =>
          refine ⟨?_, h.2⟩
          exact (hleaves.exec _ _ _ (.inr hexec)).trans h.1
      | ok libraryMap =>
          have hvdso : libraryMap "[vdso]" = true :=
            (hleaves.exec _ _ _ (.inl hexec)).trans h.1
          simp only [loadVDSO, hvdso, if_true]
          exact ⟨(hleaves.mapped _ _).trans hvdso, h.2⟩

/-- The first process whose program is loaded loads the vdso. -/
theorem vdsoLoaded_first (hleaves : LeavesVdso g) {tm : TaskManagerState} {pid : pid_t}
    {libraryMap : LibraryNames} (hfirst : tm.libraryMap "[vdso]" = false)
    (htask : g.task pid ≠ none) (hexec : g.loadExec pid tm.libraryMap = .ok libraryMap) :
    VdsoLoaded g (newProcess g tm pid).1 := by
  obtain ⟨task, htask⟩ := Option.ne_none_iff_exists'.mp htask
  have hvdso : libraryMap "[vdso]" = false := (hleaves.exec _ _ _ (.inl hexec)).trans hfirst
  simp only [newProcess, htask, hexec, loadVDSO, hvdso, Bool.false_eq_true, if_false]
  exact ⟨(hleaves.mapped _ _).trans (Function.update_self _ _ _), rfl⟩

/-- From then on all histories give the same mappings, with the offset that the guest has. -/
theorem vmaInfoOf_of_vdsoLoaded (hleaves : LeavesVdso g) {tm : TaskManagerState}
    (h : VdsoLoaded g tm) (pids : List pid_t) (pid : pid_t) :
    vmaInfoOf g (newProcesses g tm pids) pid =
      getVMAInfo g.sym_vvar_page ((g.task pid).getD none) := by
  have hrun : VdsoLoaded g (newProcesses g tm pids) := by
    induction pids generalizing tm with
    | nil => exact h
    | cons pid' pids ih => exact ih (vdsoLoaded_newProcess hleaves h)
  rw [vmaInfoOf, hrun.2]

end

/-! ## The first process and the second -/

def anonymousArea (vm_start vm_end vm_flags : U64) (h : vm_start < vm_end) : VmArea where
  vm_start := vm_start
  vm_end := vm_end
  vm_flags := vm_flags
  vm_pgoff := 0
  vm_file := none
  vm_start_lt := h

def vdsoArea : VmArea :=
  anonymousArea 0x7fff00002000 0x7fff00004000 (VM_READ ||| VM_EXEC) (by decide)

def vvarArea : VmArea :=
  anonymousArea 0x7fff00000000 0x7fff00002000 VM_READ (by decide)

/-- The pages `[vvar]` and `[vdso]`; the first one is in front of the second. -/
def vdsoProcess : MmStruct where
  mmap := [vvarArea, vdsoArea]
  vdsoPage := 0x7fff00002000
  brk := 0x602000
  start_brk := 0x601000
  start_stack := 0x7ffe00000000

/-- A guest in which all tasks have these pages. -/
def vdsoGuest : GuestState where
  task := fun _ => some (some vdsoProcess)
  sym_vvar_page := -0x2000
  loadExec := fun _ libraryMap => .ok (Function.update libraryMap "/bin/prog" true)
  loadMapped := fun _ libraryMap => libraryMap

/-- The label of the first page for the first process, and for any one behind it. -/
theorem vvar_unknown_first :
    (vmaInfoOf vdsoGuest (newProcesses vdsoGuest (.new 0) []) 1).map VMAInfo.name =
        ["<unknown>", "[vdso]"] ∧
      (vmaInfoOf vdsoGuest (newProcesses vdsoGuest (.new 0) [1]) 1).map VMAInfo.name =
        ["[vvar]", "[vdso]"] ∧
      ¬ HistoryIndependent vdsoGuest 1 := by
  have hfirst : (vmaInfoOf vdsoGuest (newProcesses vdsoGuest (.new 0) []) 1).map VMAInfo.name =
      ["<unknown>", "[vdso]"] := by decide
  have hsecond : (vmaInfoOf vdsoGuest (newProcesses vdsoGuest (.new 0) [1]) 1).map VMAInfo.name =
      ["[vvar]", "[vdso]"] := by decide
  refine ⟨hfirst, hsecond, fun h => ?_⟩
  rw [h 0 0 [] [1], hsecond] at hfirst
  exact absurd hfirst (by decide)

end KernInt
