import KernInt.Process.PtrStats

set_option autoImplicit false

/-! # The list of mappings

`getVMAInfo` reads the mappings of a process and gives each one a name: the path of its file,
or one of the labels of the kernel where there is no file. `validateProcess` tells by the first
character of the name which mappings to pass over. But a path whose last component starts with a
bracket is returned as it is, without the directories in front of it, so that a file can look
like a label (`fileMappings_validated_iff`).
-/

namespace KernInt

open Lib

/-! ## Paths -/

/-- A directory entry of the guest, up to the root. -/
inductive Dentry where
  | root
  | entry (name : String) (d_parent : Dentry)
  deriving DecidableEq

namespace Dentry

def d_name : Dentry → String
  | root => "/"
  | entry name _ => name

/-- The loop of `getPathFromDentry`. -/
def walk : Dentry → String → String
  | root, path => path
  | entry name d_parent, path =>
      if name = "/" then path else d_parent.walk ("/" ++ (name ++ path))

end Dentry

def getPathFromDentry (dentry : Dentry) : String :=
  if dentry.d_name.toList.head? = some '[' then dentry.d_name
  else if dentry.d_name = "dev/zero" then "/dev/zero"
  else dentry.walk ""

/-! ## Mappings -/

/-- The file of a mapping: the number of its inode and its entry, which is not the root. -/
structure VmFile where
  i_ino : U64
  dentry : Dentry
  not_root : dentry.d_name ≠ "/"

/-- An element of the guest's list of mappings. -/
structure VmArea where
  vm_start : U64
  vm_end : U64
  vm_flags : U64
  vm_pgoff : U64
  vm_file : Option VmFile
  vm_start_lt : vm_start < vm_end

/-- What is read of the memory descriptor of a process; `vdsoPage` is what its member
`context.vdso` points to. -/
structure MmStruct where
  mmap : List VmArea
  vdsoPage : U64
  brk : U64
  start_brk : U64
  start_stack : U64

section

variable (vdsoVvarPageOffset : U64) (mm : MmStruct)

/-- The name of a mapping without a path; `last` is the mapping in front of it. -/
def labelOf (last : Option VMAInfo) (cur : VmArea) (ino : U64) : String :=
  if cur.vm_start = mm.vdsoPage then "[vdso]"
  else if cur.vm_start = mm.vdsoPage + vdsoVvarPageOffset then "[vvar]"
  else if cur.vm_start ≤ mm.brk ∧ mm.start_brk ≤ cur.vm_end then "[heap]"
  else if cur.vm_start ≤ mm.start_stack ∧ mm.start_stack ≤ cur.vm_end then "[stack]"
  else
    match last with
    | some back => if ino = 0 ∧ cur.vm_start = back.stop then back.name else "<unknown>"
    | none => "<unknown>"

def vmaInfo (last : Option VMAInfo) (cur : VmArea) : VMAInfo :=
  let fileOff := if cur.vm_file.isSome then cur.vm_pgoff else 0
  let ino := (cur.vm_file.map VmFile.i_ino).getD 0
  let name := (cur.vm_file.map fun file => getPathFromDentry file.dentry).getD ""
  { start := cur.vm_start
    stop := cur.vm_end
    ino := ino
    off := fileOff
    flags := cur.vm_flags
    name := if name = "" then labelOf vdsoVvarPageOffset mm last cur ino else name
    start_lt_stop := cur.vm_start_lt }

/-- The mappings from some point of the list on. -/
def vmaInfos : Option VMAInfo → List VmArea → List VMAInfo
  | _, [] => []
  | last, cur :: rest =>
      let vma := vmaInfo vdsoVvarPageOffset mm last cur
      vma :: vmaInfos (some vma) rest

/-- A kernel thread has no memory descriptor. -/
def getVMAInfo (mm : Option MmStruct) : List VMAInfo :=
  match mm with
  | none => []
  | some mm => vmaInfos vdsoVvarPageOffset mm none mm.mmap

end

/-! ## Names with a bracket in front -/

def Bracketed (name : String) : Prop := name.toList.head? = some '['

instance (name : String) : Decidable (Bracketed name) := inferInstanceAs (Decidable (_ = _))

theorem not_bracketed_of_slash {s : String} (h : s.toList.head? = some '/') : ¬ Bracketed s := by
  intro hb
  rw [Bracketed, h] at hb
  exact absurd hb (by decide)

/-- The walk puts components in front of the path, each one behind a slash. -/
theorem Dentry.head?_walk (d : Dentry) {path : String} (h : path.toList.head? = some '/') :
    (d.walk path).toList.head? = some '/' := by
  induction d generalizing path with
  | root => exact h
  | entry name d_parent ih =>
      rw [walk]
      split
      · exact h
      · apply ih
        simp

theorem Dentry.head?_walk_file {d : Dentry} (h : d.d_name ≠ "/") :
    (d.walk "").toList.head? = some '/' := by
  cases d with
  | root => exact absurd rfl h
  | entry name d_parent =>
      have hname : name ≠ "/" := h
      rw [walk, if_neg hname]
      apply head?_walk
      simp

/-- The path of a file starts with a bracket if the last component does, and with a slash
otherwise. -/
theorem head?_getPathFromDentry {d : Dentry} (h : d.d_name ≠ "/") :
    (Bracketed d.d_name ∧ getPathFromDentry d = d.d_name) ∨
    (¬ Bracketed d.d_name ∧ (getPathFromDentry d).toList.head? = some '/') := by
  by_cases hb : Bracketed d.d_name
  · exact .inl ⟨hb, if_pos hb⟩
  · have hhead : ¬ d.d_name.toList.head? = some '[' := hb
    refine .inr ⟨hb, ?_⟩
    rw [getPathFromDentry, if_neg hhead]
    split
    · rfl
    · exact d.head?_walk_file h

section

variable {vdsoVvarPageOffset : U64} {mm : MmStruct} {last : Option VMAInfo} {cur : VmArea}

theorem vmaInfo_name_of_file {file : VmFile} (h : cur.vm_file = some file) :
    (vmaInfo vdsoVvarPageOffset mm last cur).name = getPathFromDentry file.dentry := by
  have hne : getPathFromDentry file.dentry ≠ "" := by
    intro hempty
    rcases head?_getPathFromDentry file.not_root with ⟨hb, heq⟩ | ⟨-, hslash⟩
    · rw [← heq, hempty] at hb
      exact absurd hb (by decide)
    · rw [hempty] at hslash
      exact absurd hslash (by decide)
  simp only [vmaInfo, h, Option.map_some, Option.getD_some, if_neg hne]

/-- A bracket in front of the name of a mapping with a file is that of its last component. -/
theorem bracketed_of_file {file : VmFile} (h : cur.vm_file = some file)
    (hb : Bracketed (vmaInfo vdsoVvarPageOffset mm last cur).name) :
    Bracketed file.dentry.d_name ∧
      (vmaInfo vdsoVvarPageOffset mm last cur).name = file.dentry.d_name := by
  rw [vmaInfo_name_of_file h] at hb ⊢
  rcases head?_getPathFromDentry file.not_root with hleaf | ⟨-, hslash⟩
  · exact hleaf
  · exact absurd hb (not_bracketed_of_slash hslash)

/-- The labels of the kernel. -/
def kernelLabels : List String := ["[vdso]", "[vvar]", "[heap]", "[stack]"]

/-- Without a file the name is a label, that of the mapping in front, or unknown. -/
theorem vmaInfo_name_of_no_file (h : cur.vm_file = none)
    (hlast : ∀ back, last = some back → Bracketed back.name → back.name ∈ kernelLabels)
    (hb : Bracketed (vmaInfo vdsoVvarPageOffset mm last cur).name) :
    (vmaInfo vdsoVvarPageOffset mm last cur).name ∈ kernelLabels := by
  have hname : (vmaInfo vdsoVvarPageOffset mm last cur).name =
      labelOf vdsoVvarPageOffset mm last cur 0 := by
    simp only [vmaInfo, h, Option.map_none, Option.getD_none, if_true]
  rw [hname] at hb ⊢
  unfold labelOf at hb ⊢
  split
  · decide
  split
  · decide
  split
  · decide
  split
  · decide
  rename_i h1 h2 h3 h4
  rw [if_neg h1, if_neg h2, if_neg h3, if_neg h4] at hb
  cases last with
  | none =>
      have hunknown : Bracketed "<unknown>" := hb
      exact absurd hunknown (by decide)
  | some back =>
      simp only at hb ⊢
      split
      · rename_i hin
        rw [if_pos hin] at hb
        exact hlast back rfl hb
      · rename_i hin
        rw [if_neg hin] at hb
        exact absurd hb (by decide)

variable (vdsoVvarPageOffset mm) in
/-- Each element of the guest's list has its mapping at the same place. -/
theorem exists_mem_zip {l : List VmArea} (h : cur ∈ l) (last : Option VMAInfo) :
    ∃ last', (cur, vmaInfo vdsoVvarPageOffset mm last' cur) ∈
      l.zip (vmaInfos vdsoVvarPageOffset mm last l) := by
  induction l generalizing last with
  | nil => cases h
  | cons c rest ih =>
      rcases List.mem_cons.mp h with rfl | h
      · exact ⟨last, List.mem_cons_self⟩
      · obtain ⟨last', hmem⟩ := ih h (some (vmaInfo vdsoVvarPageOffset mm last c))
        exact ⟨last', List.mem_cons_of_mem _ hmem⟩

end

/-! ## What is validated -/

/-- The mapping is passed over because of its name. -/
def PassedOver (vma : VMAInfo) : Prop :=
  vma.name ≠ "[stack]" ∧ vma.name ≠ "[heap]" ∧ Bracketed vma.name

theorem bracketed_of_stack_or_heap {name : String} (h : name = "[stack]" ∨ name = "[heap]") :
    Bracketed name := by
  rcases h with h | h
  · rw [h]
    decide
  · rw [h]
    decide

theorem sectionCheck_eq_codePage_iff {vma : VMAInfo} :
    sectionCheck vma = .codePage ↔ ¬ Bracketed vma.name ∧ vma.flags &&& VM_EXEC ≠ 0 := by
  unfold sectionCheck
  by_cases hb : Bracketed vma.name
  · have hhead : vma.name.toList.head? = some '[' := hb
    constructor
    · intro h
      rw [if_pos hhead] at h
      split at h
      · cases h
      · cases h
    · intro h
      exact absurd hb h.1
  · have hhead : ¬ vma.name.toList.head? = some '[' := hb
    have hlabel : ¬ (vma.name = "[stack]" ∨ vma.name = "[heap]") :=
      fun h => hb (bracketed_of_stack_or_heap h)
    -- neither test of the name applies, so the flag decides
    rw [if_neg hlabel, if_neg hhead]
    by_cases hexec : vma.flags &&& VM_EXEC ≠ 0
    · rw [if_pos hexec]
      exact ⟨fun _ => ⟨hb, hexec⟩, fun _ => rfl⟩
    · rw [if_neg hexec]
      constructor
      · intro h
        split at h
        · cases h
        · cases h
      · intro h
        exact absurd h.2 hexec

/-- Each executable mapping of a file has its code compared, and only mappings without a file
that have one of the labels of the kernel are passed over. -/
structure FileMappingsValidated (vdsoVvarPageOffset : U64) (mm : MmStruct) : Prop where
  validated : ∀ p ∈ mm.mmap.zip (getVMAInfo vdsoVvarPageOffset (some mm)),
    p.1.vm_file ≠ none → p.1.vm_flags &&& VM_EXEC ≠ 0 → sectionCheck p.2 = .codePage
  passed_over : ∀ p ∈ mm.mmap.zip (getVMAInfo vdsoVvarPageOffset (some mm)),
    PassedOver p.2 → p.1.vm_file = none ∧ p.2.name ∈ kernelLabels

/-- No file has a last component with a bracket in front, unless it is the name of the heap or
of the stack and the mapping is not executable. -/
def NoBracketedFile (cur : VmArea) : Prop :=
  ∀ file, cur.vm_file = some file → Bracketed file.dentry.d_name →
    cur.vm_flags &&& VM_EXEC = 0 ∧
      (file.dentry.d_name = "[heap]" ∨ file.dentry.d_name = "[stack]")

section

variable {vdsoVvarPageOffset : U64} {mm : MmStruct} {last : Option VMAInfo} {cur : VmArea}

/-- Behind such mappings a name with a bracket in front is a label. -/
def LabelsOnly (last : Option VMAInfo) : Prop :=
  ∀ back, last = some back → Bracketed back.name → back.name ∈ kernelLabels

variable (vdsoVvarPageOffset mm) in
theorem labelsOnly_vmaInfo (hcur : NoBracketedFile cur) (hlast : LabelsOnly last) :
    LabelsOnly (some (vmaInfo vdsoVvarPageOffset mm last cur)) := by
  intro back heq hb
  cases heq
  cases hfile : cur.vm_file with
  | none => exact vmaInfo_name_of_no_file hfile hlast hb
  | some file =>
      obtain ⟨hleaf, hname⟩ := bracketed_of_file hfile hb
      rw [hname]
      rcases (hcur file hfile hleaf).2 with h | h
      · rw [h]
        decide
      · rw [h]
        decide

/-- Each mapping is made of its element of the guest's list and of a mapping in front. -/
theorem exists_labelsOnly_of_mem_zip {l : List VmArea} (hl : ∀ cur ∈ l, NoBracketedFile cur)
    (hlast : LabelsOnly last) {p : VmArea × VMAInfo}
    (hp : p ∈ l.zip (vmaInfos vdsoVvarPageOffset mm last l)) :
    p.1 ∈ l ∧ ∃ last', LabelsOnly last' ∧ p.2 = vmaInfo vdsoVvarPageOffset mm last' p.1 := by
  induction l generalizing last with
  | nil => cases hp
  | cons cur rest ih =>
      rw [vmaInfos, List.zip_cons_cons] at hp
      rcases List.mem_cons.mp hp with heq | hp
      · rw [heq]
        exact ⟨List.mem_cons_self, last, hlast, rfl⟩
      · have hback := labelsOnly_vmaInfo vdsoVvarPageOffset mm (hl cur List.mem_cons_self) hlast
        have hrest := ih (fun c hc => hl c (List.mem_cons_of_mem cur hc)) hback hp
        exact ⟨List.mem_cons_of_mem cur hrest.1, hrest.2⟩

theorem noBracketedFile_of_validated (h : FileMappingsValidated vdsoVvarPageOffset mm)
    (hcur : cur ∈ mm.mmap) : NoBracketedFile cur := by
  intro file hfile hleaf
  obtain ⟨last, hmem⟩ := exists_mem_zip vdsoVvarPageOffset mm hcur none
  have hname : (vmaInfo vdsoVvarPageOffset mm last cur).name = file.dentry.d_name := by
    rw [vmaInfo_name_of_file hfile]
    exact if_pos hleaf
  have hsome : cur.vm_file ≠ none := by
    rw [hfile]
    exact Option.some_ne_none file
  have hb : Bracketed (vmaInfo vdsoVvarPageOffset mm last cur).name := by
    rw [hname]
    exact hleaf
  constructor
  · -- an executable one would have to be compared, which the bracket prevents
    by_contra hexec
    have hcode := h.validated _ hmem hsome hexec
    exact (sectionCheck_eq_codePage_iff.mp hcode).1 hb
  · -- another name with a bracket would be passed over
    by_contra hother
    rw [not_or] at hother
    rw [← hname] at hother
    have hpassed := h.passed_over _ hmem ⟨hother.2, hother.1, hb⟩
    exact hsome hpassed.1

theorem validated_of_noBracketedFile (h : ∀ cur ∈ mm.mmap, NoBracketedFile cur) :
    FileMappingsValidated vdsoVvarPageOffset mm := by
  have hfirst : LabelsOnly none := by simp [LabelsOnly]
  constructor
  · intro p hp hsome hexec
    obtain ⟨hmem, last, -, heq⟩ := exists_labelsOnly_of_mem_zip h hfirst hp
    obtain ⟨file, hfile⟩ := Option.ne_none_iff_exists'.mp hsome
    rw [heq]
    apply sectionCheck_eq_codePage_iff.mpr
    refine ⟨fun hb => ?_, hexec⟩
    have hleaf := (bracketed_of_file hfile hb).1
    exact hexec (h p.1 hmem file hfile hleaf).1
  · intro p hp hpassed
    obtain ⟨hmem, last, hlast, heq⟩ := exists_labelsOnly_of_mem_zip h hfirst hp
    rw [heq] at hpassed ⊢
    constructor
    · -- the name of a file with a bracket is that of the heap or of the stack
      by_contra hsome
      obtain ⟨file, hfile⟩ := Option.ne_none_iff_exists'.mp hsome
      obtain ⟨hleaf, hname⟩ := bracketed_of_file hfile hpassed.2.2
      rcases (h p.1 hmem file hfile hleaf).2 with hlabel | hlabel
      · exact hpassed.2.1 (hname.trans hlabel)
      · exact hpassed.1 (hname.trans hlabel)
    · exact labelsOnly_vmaInfo vdsoVvarPageOffset mm (h p.1 hmem) hlast _ rfl hpassed.2.2

end

/-- **The mappings of files are validated if no file looks like a label**, and only then. -/
theorem fileMappings_validated_iff (vdsoVvarPageOffset : U64) (mm : MmStruct) :
    FileMappingsValidated vdsoVvarPageOffset mm ↔ ∀ cur ∈ mm.mmap, NoBracketedFile cur :=
  ⟨fun h _ hcur => noBracketedFile_of_validated h hcur, validated_of_noBracketedFile⟩

/-- The code of a library whose file has such a name. -/
def bracketedLibrary : VmArea where
  vm_start := 0x7f0000000000
  vm_end := 0x7f0000001000
  vm_flags := VM_READ ||| VM_EXEC
  vm_pgoff := 0
  vm_file := some ⟨1, .entry "[evil.so" (.entry "lib" .root), by decide⟩
  vm_start_lt := by decide

def bracketedProcess : MmStruct where
  mmap := [bracketedLibrary]
  vdsoPage := 0x7fff00000000
  brk := 0x602000
  start_brk := 0x601000
  start_stack := 0x7ffe00000000

/-- The library is not compared: its name stands without the directory. -/
theorem bracketed_library_passed_over :
    (getVMAInfo 0x2000 (some bracketedProcess)).map VMAInfo.name = ["[evil.so"] ∧
      (getVMAInfo 0x2000 (some bracketedProcess)).map sectionCheck = [.skipped] ∧
      ¬ FileMappingsValidated 0x2000 bracketedProcess := by
  refine ⟨by decide, by decide, fun h => ?_⟩
  let vma := vmaInfo 0x2000 bracketedProcess none bracketedLibrary
  have hcode := h.validated (bracketedLibrary, vma) List.mem_cons_self
    (by simp [bracketedLibrary]) (by decide)
  exact absurd hcode (by decide)

end KernInt
