import KernInt.Kernel.CallTargets
import KernInt.Kernel.CodePageSound
import KernInt.Kernel.IdtPage
import KernInt.Kernel.PageRouting
import KernInt.Kernel.RoData
import KernInt.Kernel.StackAddresses
import KernInt.Lib.Runs

set_option autoImplicit false

/-! # The validation loop

`validatePages` goes again and again over the stacks and the pages of a running guest, until the
handler of SIGINT and SIGTERM takes all its options away. The guest goes on while this happens, so
each step reads a guest of its own, and the signal may come between any two of them. It may come
inside of a step as well: the only options that a step reads twice are those of `validatePage`, and
there a signal between the two reads does what a signal behind or in front of them does.

Reads behind a buffer find what the host has there. The standard gives the program no meaning any
more where a step walks beside the recorded calls of a stack, or compares a page with something
beside the read-only data of a module: the loop does not go on there (`Place.undefined`).

`signal_stops` says what is still done behind a signal, and `validatePages_returns` that the loop is
left then.
-/

namespace KernInt

open Lib

/-- A page of the guest, which has one of the sizes of the hardware. -/
structure GuestPage extends PageInfo where
  size : Nat
  size_mem : size ∈ [0x1000, 0x200000, 0x400000, 0x40000000]
  aligned : size ∣ vaddr.toNat

theorem GuestPage.four_le_size (page : GuestPage) : 4 ≤ page.size := by
  have h := page.size_mem
  simp only [List.mem_cons, List.not_mem_nil, or_false] at h
  omega

/-- What is found in the guest at one moment: the mapped pages, the stacks that the walk over its
tasks puts down, and its memory. -/
structure GuestView where
  getPages : List GuestPage
  updateStackAddresses : OrderedMap U64 U64
  readVectorFromVA : U64 → Nat → List Byte
  length_read : ∀ address size, (readVectorFromVA address size).length = size

/-- The validator with what its checks read besides, and the memory of the host around a buffer
that has been read. -/
structure ValidationSetup extends KernelValidator where
  getName : KernelspaceLoaderRef → String
  genericUnrolledAddress : U64
  nops : NopTable
  idt_tableAddress : U64
  nmi_idt_tableAddress : U64
  sinittextAddress : U64
  irq_entries_startAddress : U64
  getFunctionAddress : String → U64
  roDataSection : KernelspaceLoaderRef → SectionInfo
  kernelRoData : List Byte
  hostRoData : Nat → Byte
  hostMemory : Int → Byte

/-- What a check has found. -/
inductive Finding where
  | stack (stackBottom : U64) (stackInteresting : Except ChainError Bool)
  | noModuleFound (page : PageInfo)
  | executableDataPage
  | code (page : PageInfo) (elf : KernelspaceLoaderRef)
      (result : Except CodeAbort (List CodeReport))
  | idt (page : PageInfo) (reports : Option (List IdtReport))
  | roData (page : PageInfo) (reports : List Nat)
  /-- The page is compared with something in front of or behind the data of a module. -/
  | moduleRoData (page : PageInfo) (elf : KernelspaceLoaderRef)
  /-- The undecidable pointers; `none` where the program exits. -/
  | codePtrs (page : PageInfo) (elf : KernelspaceLoaderRef) (found : Option (List Nat))
  | doneValidatingPages

namespace Finding

/-- What is added to `globalCodePtrs`. -/
def ptrs : Finding → Nat
  | .codePtrs _ _ (some found) => found.length
  | _ => 0

/-- The program exits here, or an assertion aborts it. -/
def exits : Finding → Bool
  | .codePtrs _ _ none => true
  | .code _ _ (.error _) => true
  | _ => false

/-- What follows is undefined. -/
def isUndefined : Finding → Bool
  | .stack _ (.error _) => true
  | .moduleRoData _ _ => true
  | _ => false

/-- It is the warning that comes once. -/
def isWarning : Finding → Bool
  | .executableDataPage => true
  | _ => false

/-- The stack that has been validated. -/
def stackBottom? : Finding → Option U64
  | .stack stackBottom _ => some stackBottom
  | _ => none

/-- No code and no data has been validated. -/
def Idle : Finding → Prop
  | .stack _ _ => True
  | .noModuleFound _ => True
  | .doneValidatingPages => True
  | _ => False

end Finding

namespace ValidationSetup

variable (v : ValidationSetup)

/-- Memory of the host behind a buffer. -/
def hostPage (k : Nat) : Byte := v.hostMemory k

/-- The loader, as the comparison of a code page asks it. -/
def codeLoader (elf : KernelspaceLoaderRef) : KernelspaceLoader where
  name := v.getName elf
  memindex := (v.textSegment elf).memindex
  textSegmentContent := (v.text elf).textSegmentContent
  jumpEntries := (v.text elf).jumpEntries
  smpOffsets := (v.text elf).smpOffsets
  cls :=
    match elf with
    | .kernel => .kernel v.genericUnrolledAddress
    | .module _ => .module

def idtTargets : IdtTargets where
  symbols := v.symbols
  idt_tableAddress := v.idt_tableAddress
  nmi_idt_tableAddress := v.nmi_idt_tableAddress
  sinittextAddress := v.sinittextAddress
  irq_entries_startAddress := v.irq_entries_startAddress

section

variable (guest : GuestView)

/-- The comparison of a code page with what the guest has there. -/
def codeCheck (page : GuestPage) (elf : KernelspaceLoaderRef) : CodeCheck where
  elf := v.codeLoader elf
  nops := v.nops
  vaddr := page.vaddr
  size := page.size
  page := guest.readVectorFromVA page.vaddr page.size
  page_length := guest.length_read _ _
  hostReference := fun k => (v.text elf).hostText (BitVec.ofNat 64 k)
  hostPage := v.hostPage

def idtPage (page : GuestPage) : IdtPage where
  vaddr := page.vaddr
  size := page.size
  page := guest.readVectorFromVA page.vaddr page.size
  hostPage := v.hostPage
  page_length := guest.length_read _ _
  size_mem := page.size_mem

/-- The page begins inside of the read-only data of the loader. -/
def isRoData (page : GuestPage) (elf : KernelspaceLoaderRef) : Bool :=
  contains ((v.roDataSection elf).memindex &&& 0xffffffffffff) (v.roDataSection elf).size page.vaddr

def roPage (page : GuestPage) (h : v.isRoData page .kernel = true) : RoPage where
  vaddr := page.vaddr
  size := page.size
  page := guest.readVectorFromVA page.vaddr page.size
  hostPage := v.hostPage
  roDataSection := v.roDataSection .kernel
  roData := v.kernelRoData
  hostRoData := v.hostRoData
  getFunctionAddress := v.getFunctionAddress
  page_length := guest.length_read _ _
  size_mem := page.size_mem
  aligned := page.aligned
  inRange := h

def dataPage (page : GuestPage) : DataPage where
  vaddr := page.vaddr
  size := page.size
  pageInMem := bufferOf (guest.readVectorFromVA page.vaddr page.size) v.hostPage
  four_le_size := page.four_le_size

/-- The stack that begins at the address, of 8 KiB. -/
def stackPage (stackBottom rsp : U64) : StackPage where
  memory i :=
    if 0 ≤ i then bufferOf (guest.readVectorFromVA stackBottom 0x2000) v.hostPage i.toNat
    else v.hostMemory i
  stackBottom := stackBottom
  stackEnd := rsp

/-- What is found in a stack of the map. -/
def stackFinding (entry : U64 × U64) : Finding :=
  .stack entry.1 (v.validateStackPage (v.stackPage guest entry.1 entry.2))

variable (stackAddresses : OrderedMap U64 U64)

/-- `validateDataPage`. -/
def validateDataPage (page : GuestPage) (elf : KernelspaceLoaderRef) : Finding :=
  if v.idtTargets.isIdt page.vaddr then
    .idt page.toPageInfo (v.idtTargets.validateIdt (v.idtPage guest page))
  else
    match elf with
    | .kernel =>
        if h : v.isRoData page .kernel = true then
          .roData page.toPageInfo (v.roPage guest page h).reports
        else codePtrs page .kernel
    | .module m =>
        if v.isRoData page (.module m) then .moduleRoData page.toPageInfo (.module m)
        else codePtrs page (.module m)
where
  codePtrs (page : GuestPage) (elf : KernelspaceLoaderRef) : Finding :=
    .codePtrs page.toPageInfo elf
      (({ v.toKernelValidator with stackAddresses := stackAddresses.get } :
        KernelValidator).findCodePtrs (v.dataPage guest page))

/-- What is found where `validatePage` goes. -/
def finding (page : GuestPage) : PageEvent → Finding
  | .noModuleFound info => .noModuleFound info
  | .executableDataPage => .executableDataPage
  | .validateCodePage info elf => .code info elf (v.codeCheck guest page elf).validateCodePage
  | .validateDataPage _ elf => v.validateDataPage guest stackAddresses page elf

end

end ValidationSetup

/-! ## The loop -/

/-- Where the loop is: in front of an iteration, or in front of the next stack or page. -/
inductive Place where
  | head
  | nextStack (left : List (U64 × U64))
  | nextPage (left : List GuestPage)
  | returned
  | exited
  /-- The program has no meaning from here on; the stacks are those that are not validated. -/
  | undefined (left : List (U64 × U64))

/-- The loop has come to its end in one way or the other, or it has not. -/
def Place.Alive : Place → Prop
  | .exited => False
  | .undefined _ => False
  | _ => True

structure ValidationLoop where
  loopMode : Bool
  options : ValidationOptions
  iterations : Nat
  globalCodePtrs : Nat
  /-- The static variable of `validatePage`. -/
  execData : Bool
  stackAddresses : OrderedMap U64 U64
  place : Place

/-- The next step of the loop, which finds this guest, or a signal. -/
inductive LoopAction where
  | proceed (guest : GuestView)
  | signal

namespace ValidationLoop

/-- In front of the first iteration, with the options that are set before. -/
def start (lm cv pe : Bool) : ValidationLoop where
  loopMode := lm
  options := ⟨cv, pe⟩
  iterations := 0
  globalCodePtrs := 0
  execData := false
  stackAddresses := OrderedMap.empty
  place := .head

/-- `setOptions(false, false, false)`, as the handler of the signals calls it. -/
def signalled (s : ValidationLoop) : ValidationLoop :=
  { s with loopMode := false, options := ⟨false, false⟩ }

/-- The head of the loop, up to the loop over the stacks. -/
def beginIteration (s : ValidationLoop) (guest : GuestView) : ValidationLoop :=
  { s with
    iterations := s.iterations + 1
    globalCodePtrs := 0
    stackAddresses :=
      if s.options.pointerExamination then guest.updateStackAddresses else s.stackAddresses
    place := .nextStack
      (if s.options.pointerExamination then guest.updateStackAddresses.entries else []) }

variable (v : ValidationSetup)

/-- The round of the loop over the stacks. -/
def checkStack (s : ValidationLoop) (guest : GuestView) (entry : U64 × U64)
    (left : List (U64 × U64)) : ValidationLoop :=
  { s with
    place := if (v.stackFinding guest entry).isUndefined then .undefined left else .nextStack left }

/-- What is found in a page. -/
def pageFindings (s : ValidationLoop) (guest : GuestView) (page : GuestPage) : List Finding :=
  if page.vaddr &&& 0xff0000000000 = 0x8800000000000 then []
  else (v.validatePage s.options s.execData page.toPageInfo).2.map
    (v.finding guest s.stackAddresses page)

/-- The round of the loop over the pages. -/
def checkPage (s : ValidationLoop) (guest : GuestView) (page : GuestPage)
    (left : List GuestPage) : ValidationLoop :=
  { s with
    globalCodePtrs := s.globalCodePtrs + ((s.pageFindings v guest page).map Finding.ptrs).sum
    execData :=
      if page.vaddr &&& 0xff0000000000 = 0x8800000000000 then s.execData
      else (v.validatePage s.options s.execData page.toPageInfo).1
    place :=
      if (s.pageFindings v guest page).any Finding.exits then .exited
      else if (s.pageFindings v guest page).any Finding.isUndefined then .undefined []
      else .nextPage left }

/-- One step of `validatePages`, and what it finds. -/
def step (s : ValidationLoop) : LoopAction → Option (ValidationLoop × List Finding)
  | .signal => some (s.signalled, [])
  | .proceed guest =>
      match s.place with
      | .head => some (s.beginIteration guest, [])
      | .nextStack [] => some ({ s with place := .nextPage guest.getPages }, [])
      | .nextStack (entry :: left) =>
          some (s.checkStack v guest entry left, [v.stackFinding guest entry])
      | .nextPage [] =>
          some ({ s with place := if s.loopMode then .head else .returned },
            [.doneValidatingPages])
      | .nextPage (page :: left) =>
          some (s.checkPage v guest page left, s.pageFindings v guest page)
      | .returned => none
      | .exited => none
      | .undefined _ => none

/-! ## What a step does -/

/-- The steps, one by one. -/
inductive Stepped (s : ValidationLoop) : LoopAction → ValidationLoop → List Finding → Prop
  | signal : Stepped s .signal s.signalled []
  | head (guest : GuestView) : s.place = .head →
      Stepped s (.proceed guest) (s.beginIteration guest) []
  | getPages (guest : GuestView) : s.place = .nextStack [] →
      Stepped s (.proceed guest) { s with place := .nextPage guest.getPages } []
  | stack (guest : GuestView) {entry : U64 × U64} {left : List (U64 × U64)} :
      s.place = .nextStack (entry :: left) →
      Stepped s (.proceed guest) (s.checkStack v guest entry left) [v.stackFinding guest entry]
  | done (guest : GuestView) : s.place = .nextPage [] →
      Stepped s (.proceed guest) { s with place := if s.loopMode then .head else .returned }
        [.doneValidatingPages]
  | page (guest : GuestView) {page : GuestPage} {left : List GuestPage} :
      s.place = .nextPage (page :: left) →
      Stepped s (.proceed guest) (s.checkPage v guest page left) (s.pageFindings v guest page)

variable {v} {s s' : ValidationLoop} {a : LoopAction} {es : List Finding}

section

variable {guest : GuestView}

theorem step_head (h : s.place = .head) :
    s.step v (.proceed guest) = some (s.beginIteration guest, []) := by
  rw [step, h]

theorem step_getPages (h : s.place = .nextStack []) :
    s.step v (.proceed guest) = some ({ s with place := .nextPage guest.getPages }, []) := by
  simp only [step, h]

theorem step_stack {entry : U64 × U64} {left : List (U64 × U64)}
    (h : s.place = .nextStack (entry :: left)) :
    s.step v (.proceed guest) =
      some (s.checkStack v guest entry left, [v.stackFinding guest entry]) := by
  simp only [step, h]

theorem step_done (h : s.place = .nextPage []) :
    s.step v (.proceed guest) =
      some ({ s with place := if s.loopMode then .head else .returned },
        [.doneValidatingPages]) := by
  simp only [step, h]

theorem step_page {page : GuestPage} {left : List GuestPage}
    (h : s.place = .nextPage (page :: left)) :
    s.step v (.proceed guest) =
      some (s.checkPage v guest page left, s.pageFindings v guest page) := by
  simp only [step, h]

end

theorem stepped_of_step (h : s.step v a = some (s', es)) : s.Stepped v a s' es := by
  cases a with
  | signal =>
      cases h
      exact .signal
  | proceed guest =>
      cases hplace : s.place with
      | head =>
          rw [step_head hplace] at h
          cases h
          exact .head guest hplace
      | nextStack left =>
          cases left with
          | nil =>
              rw [step_getPages hplace] at h
              cases h
              exact .getPages guest hplace
          | cons entry left =>
              rw [step_stack hplace] at h
              cases h
              exact .stack guest hplace
      | nextPage left =>
          cases left with
          | nil =>
              rw [step_done hplace] at h
              cases h
              exact .done guest hplace
          | cons page left =>
              rw [step_page hplace] at h
              cases h
              exact .page guest hplace
      | returned => simp [step, hplace] at h
      | exited => simp [step, hplace] at h
      | undefined left => simp [step, hplace] at h

/-! ## Behind a signal -/

/-- All options are off. -/
def Stopped (s : ValidationLoop) : Prop := s.loopMode = false ∧ s.options = ⟨false, false⟩

theorem signalled_stopped (s : ValidationLoop) : s.signalled.Stopped := ⟨rfl, rfl⟩

/-- Further signals change nothing. -/
theorem signalled_of_stopped (h : s.Stopped) : s.signalled = s := by
  obtain ⟨hloop, hoptions⟩ := h
  cases s
  simp only at hloop hoptions
  subst hloop hoptions
  rfl

/-- The stacks that are still to be validated in this iteration. -/
def stacksLeft (s : ValidationLoop) : List (U64 × U64) :=
  match s.place with
  | .nextStack left => left
  | .undefined left => left
  | _ => []

/-- The iterations that have begun, with the one at whose head the loop is. -/
def iterationsBegun (s : ValidationLoop) : Nat :=
  match s.place with
  | .head => s.iterations + 1
  | _ => s.iterations

theorem iterationsBegun_eq (h : s.place ≠ .head) : s.iterationsBegun = s.iterations := by
  unfold iterationsBegun
  split
  · exact absurd ‹_› h
  · rfl

theorem checkPage_place (guest : GuestView) (page : GuestPage) (left : List GuestPage) :
    (s.checkPage v guest page left).place ≠ .head ∧
      (s.checkPage v guest page left).place ≠ .returned := by
  unfold checkPage
  dsimp only
  split
  · simp
  · split <;> simp

/-- The round of a stack is the first one in which the program has no meaning, or the loop goes on
to the next one. -/
theorem checkStack_place (guest : GuestView) (entry : U64 × U64) (left : List (U64 × U64)) :
    ((s.checkStack v guest entry left).place = .undefined left ∧
        (v.stackFinding guest entry).isUndefined = true) ∨
      ((s.checkStack v guest entry left).place = .nextStack left ∧
        (v.stackFinding guest entry).isUndefined = false) := by
  unfold checkStack
  dsimp only
  cases (v.stackFinding guest entry).isUndefined with
  | true => exact .inl ⟨rfl, rfl⟩
  | false => exact .inr ⟨rfl, rfl⟩

theorem checkStack_running (guest : GuestView) (entry : U64 × U64) (left : List (U64 × U64)) :
    (s.checkStack v guest entry left).place ≠ .head ∧
      (s.checkStack v guest entry left).place ≠ .returned := by
  rcases s.checkStack_place (v := v) guest entry left with ⟨hnext, -⟩ | ⟨hnext, -⟩ <;>
    simp [hnext]

theorem stacksLeft_checkStack (guest : GuestView) (entry : U64 × U64) (left : List (U64 × U64)) :
    (s.checkStack v guest entry left).stacksLeft = left := by
  rcases s.checkStack_place (v := v) guest entry left with ⟨hnext, -⟩ | ⟨hnext, -⟩ <;>
    rw [stacksLeft, hnext]

/-- Without options a page is reported at most for having no loader. -/
theorem pageFindings_of_stopped (h : s.Stopped) (guest : GuestView) (page : GuestPage) :
    s.pageFindings v guest page = [] ∨
      s.pageFindings v guest page = [.noModuleFound page.toPageInfo] := by
  unfold pageFindings KernelValidator.validatePage
  rw [h.2]
  split
  · exact .inl rfl
  split
  · exact .inl rfl
  split
  · split
    · exact .inr rfl
    · exact .inl rfl
  · exact .inl (by simp)

/-- So the loop goes on to the next page. -/
theorem checkPage_place_of_stopped (h : s.Stopped) (guest : GuestView) (page : GuestPage)
    (left : List GuestPage) : (s.checkPage v guest page left).place = .nextPage left := by
  rcases pageFindings_of_stopped (v := v) h guest page with h | h <;>
    simp [checkPage, h, Finding.exits, Finding.isUndefined]

/-- What an action keeps when the options are off. -/
theorem step_stopped (hs : s.Stopped) (h : s.step v a = some (s', es)) :
    s'.Stopped ∧ s'.iterationsBegun ≤ s.iterationsBegun ∧ s'.globalCodePtrs ≤ s.globalCodePtrs ∧
      es.filterMap Finding.stackBottom? ++ s'.stacksLeft.map Prod.fst =
        s.stacksLeft.map Prod.fst ∧
      (∀ f ∈ es, f.Idle) ∧ (s'.place = .exited → s.place = .exited) ∧
      (∀ left, s'.place = .undefined left →
        s.place = .undefined left ∨ es.any Finding.isUndefined = true) := by
  obtain ⟨hloop, hoptions⟩ := hs
  cases stepped_of_step h with
  | signal =>
      rw [signalled_of_stopped ⟨hloop, hoptions⟩]
      exact ⟨⟨hloop, hoptions⟩, Nat.le_refl _, Nat.le_refl _, rfl, by simp, id, fun _ => .inl⟩
  | head guest hplace =>
      refine ⟨⟨hloop, hoptions⟩, ?_, Nat.zero_le _, ?_, by simp, by simp [beginIteration],
        by simp [beginIteration]⟩
      · simp [iterationsBegun, beginIteration, hplace]
      · simp [stacksLeft, beginIteration, hplace, hoptions]
  | getPages guest hplace =>
      refine ⟨⟨hloop, hoptions⟩, ?_, Nat.le_refl _, ?_, by simp, by simp, by simp⟩
      · simp [iterationsBegun, hplace]
      · simp [stacksLeft, hplace]
  | stack guest hplace =>
      rename_i entry left
      refine ⟨⟨hloop, hoptions⟩, ?_, Nat.le_refl _, ?_, ?_, ?_, ?_⟩
      · rw [iterationsBegun_eq (checkStack_running guest entry left).1,
          iterationsBegun_eq (by simp [hplace])]
        exact Nat.le_refl _
      · rw [stacksLeft_checkStack]
        simp [stacksLeft, hplace, ValidationSetup.stackFinding, Finding.stackBottom?]
      · simp [ValidationSetup.stackFinding, Finding.Idle]
      · rcases s.checkStack_place (v := v) guest entry left with ⟨hnext, -⟩ | ⟨hnext, -⟩ <;>
          simp [hnext]
      · rcases s.checkStack_place (v := v) guest entry left with ⟨-, hfinding⟩ | ⟨hnext, -⟩
        · simp [hfinding]
        · simp [hnext]
  | done guest hplace =>
      refine ⟨⟨hloop, hoptions⟩, ?_, Nat.le_refl _, ?_, ?_, by simp [hloop], by simp [hloop]⟩
      · simp [iterationsBegun, hplace, hloop]
      · simp [stacksLeft, hplace, hloop, Finding.stackBottom?]
      · simp [Finding.Idle]
  | page guest hplace =>
      rename_i page left
      have hfindings := pageFindings_of_stopped (v := v) ⟨hloop, hoptions⟩ guest page
      have hptrs : ((s.pageFindings v guest page).map Finding.ptrs).sum = 0 := by
        rcases hfindings with h | h <;> simp [h, Finding.ptrs]
      have hnext := checkPage_place_of_stopped (v := v) ⟨hloop, hoptions⟩ guest page left
      refine ⟨⟨hloop, hoptions⟩, ?_, ?_, ?_, ?_, ?_, ?_⟩
      · rw [iterationsBegun_eq (by simp [hnext]), iterationsBegun_eq (by simp [hplace])]
        exact Nat.le_refl _
      · simp [checkPage, hptrs]
      · rcases hfindings with h | h <;>
          simp [stacksLeft, hplace, hnext, h, Finding.stackBottom?]
      · rcases hfindings with h | h <;> simp [h, Finding.Idle]
      · simp [hnext]
      · simp [hnext]

/-- **A signal ends the validation**: behind it no page of code or data is validated, no iteration
begins but the one at whose head the loop may be, and of the stacks only those are validated, each
once and in their order, that were left in the iteration. -/
theorem signal_stops (v : ValidationSetup) {s s' : ValidationLoop} {acts : List LoopAction}
    {es : List Finding} (h : Run (step v) s.signalled acts es s') :
    s'.Stopped ∧ s'.iterationsBegun ≤ s.iterationsBegun ∧ s'.globalCodePtrs ≤ s.globalCodePtrs ∧
      es.filterMap Finding.stackBottom? ++ s'.stacksLeft.map Prod.fst =
        s.stacksLeft.map Prod.fst ∧
      (∀ f ∈ es, f.Idle) ∧ (s'.place = .exited → s.place = .exited) ∧
      (∀ left, s'.place = .undefined left →
        s.place = .undefined left ∨ es.any Finding.isUndefined = true) := by
  have hsame : s.signalled.iterationsBegun = s.iterationsBegun ∧
      s.signalled.stacksLeft = s.stacksLeft ∧ s.signalled.place = s.place ∧
      s.signalled.globalCodePtrs = s.globalCodePtrs := ⟨rfl, rfl, rfl, rfl⟩
  rw [← hsame.1, ← hsame.2.1, ← hsame.2.2.1, ← hsame.2.2.2]
  have hstopped := signalled_stopped s
  generalize s.signalled = s₀ at h hstopped
  clear hsame
  induction h with
  | nil => exact ⟨hstopped, Nat.le_refl _, Nat.le_refl _, rfl, by simp, id, fun _ => .inl⟩
  | cons hstep _ ih =>
      obtain ⟨hstopped', hbegun, hptrs, hstacks, hidle, hexited, hundefined⟩ :=
        step_stopped hstopped hstep
      obtain ⟨hlast, hbegun', hptrs', hstacks', hidle', hexited', hundefined'⟩ := ih hstopped'
      refine ⟨hlast, hbegun'.trans hbegun, hptrs'.trans hptrs, ?_, ?_, hexited ∘ hexited', ?_⟩
      · rw [List.filterMap_append, List.append_assoc, hstacks', hstacks]
      · intro f hf
        exact (List.mem_append.mp hf).elim (hidle f) (hidle' f)
      · intro left hplace
        rw [List.any_append, Bool.or_eq_true]
        rcases hundefined' left hplace with hbefore | hlater
        · exact (hundefined left hbefore).imp_right .inl
        · exact .inr (.inr hlater)

/-! ## The end of the loop -/

/-- The first actions of a sequence that goes on for ever. -/
def firstActions (acts : Nat → LoopAction) (n : Nat) : List LoopAction := (List.range n).map acts

theorem firstActions_succ (acts : Nat → LoopAction) (n : Nat) :
    firstActions acts (n + 1) = acts 0 :: firstActions (fun k => acts (k + 1)) n := by
  simp [firstActions, List.range_succ_eq_map]

/-- The loop is not kept from going on. -/
def GoesOn (acts : Nat → LoopAction) : Prop := ∀ n, ∃ m ≥ n, ∃ guest, acts m = .proceed guest

/-- Taking the actions one by one, the loop comes to its end. -/
def Returns (v : ValidationSetup) (s : ValidationLoop) (acts : Nat → LoopAction) : Prop :=
  ∃ n es s', Run (step v) s (firstActions acts n) es s' ∧ s'.place = .returned

variable {acts : Nat → LoopAction}

theorem GoesOn.drop (h : GoesOn acts) (m : Nat) : GoesOn fun k => acts (k + m) := by
  intro n
  obtain ⟨j, hj, guest, hact⟩ := h (n + m)
  refine ⟨j - m, by omega, guest, ?_⟩
  show acts (j - m + m) = _
  rw [Nat.sub_add_cancel (by omega), hact]

theorem returns_of_step (h : s.step v (acts 0) = some (s', es))
    (hrest : Returns v s' fun k => acts (k + 1)) : Returns v s acts := by
  obtain ⟨n, es', s'', hrun, hplace⟩ := hrest
  refine ⟨n + 1, es ++ es', s'', ?_, hplace⟩
  rw [firstActions_succ]
  exact .cons h hrun

/-- When the options are off, the loop returns if it does so from its next step on. -/
theorem returns_of_proceed (hs : s.Stopped) (hacts : GoesOn acts)
    (h : ∀ m guest, acts m = .proceed guest → ∃ s' es, s.step v (.proceed guest) = some (s', es) ∧
      Returns v s' fun k => acts (k + (m + 1))) : Returns v s acts := by
  obtain ⟨m, -, guest, hact⟩ := hacts 0
  induction m generalizing acts with
  | zero =>
      obtain ⟨s', es, hstep, hrest⟩ := h 0 guest hact
      rw [← hact] at hstep
      exact returns_of_step hstep hrest
  | succ m ih =>
      cases hfirst : acts 0 with
      | signal =>
          have hstep : s.step v (acts 0) = some (s, []) := by
            rw [hfirst, step, signalled_of_stopped hs]
          refine returns_of_step hstep (ih (hacts.drop 1) ?_ hact)
          intro n guest' hn
          exact h (n + 1) guest' hn
      | proceed guest' =>
          obtain ⟨s', es, hstep, hrest⟩ := h 0 guest' hfirst
          rw [← hfirst] at hstep
          exact returns_of_step hstep hrest

/-- The stacks that are left in the iteration are checked to their ends, whenever they have their
turn. -/
def StacksChecked (v : ValidationSetup) (s : ValidationLoop) (acts : Nat → LoopAction) : Prop :=
  ∀ entry ∈ s.stacksLeft, ∀ m guest, acts m = .proceed guest →
    ∃ interesting, v.validateStackPage (v.stackPage guest entry.1 entry.2) = .ok interesting

/-- They are if the recorded calls reach over every return address on them. -/
theorem stacksChecked_of_reach
    (h : ∀ entry ∈ s.stacksLeft, ∀ m guest, acts m = .proceed guest → ∀ ptrs,
      v.stackPointers (v.stackPage guest entry.1 entry.2) = some ptrs →
      ∀ retAddr ∈ KernelValidator.returnAddresses ptrs, v.TargetsReach retAddr) :
    StacksChecked v s acts :=
  fun entry hentry m guest hact =>
    v.validateStackPage_ok _ (h entry hentry m guest hact)

/-- From the loop over the pages on, by induction on the pages that are left. -/
theorem returns_of_nextPage {left : List GuestPage} (hs : s.Stopped)
    (hplace : s.place = .nextPage left) (hacts : GoesOn acts) : Returns v s acts := by
  induction left generalizing s acts with
  | nil =>
      refine returns_of_proceed hs hacts fun m guest _ =>
        ⟨_, _, step_done hplace, 0, [], _, .nil _, ?_⟩
      show (if s.loopMode then Place.head else Place.returned) = _
      rw [hs.1]
      rfl
  | cons page left ih =>
      exact returns_of_proceed hs hacts fun m guest _ =>
        ⟨_, _, step_page hplace, ih (s := s.checkPage v guest page left) ⟨hs.1, hs.2⟩
          (checkPage_place_of_stopped hs guest page left) (hacts.drop (m + 1))⟩

/-- From the loop over the stacks on, by induction on the stacks that are left. -/
theorem returns_of_nextStack {left : List (U64 × U64)} (hs : s.Stopped)
    (hplace : s.place = .nextStack left) (hacts : GoesOn acts)
    (hchecked : StacksChecked v s acts) : Returns v s acts := by
  induction left generalizing s acts with
  | nil =>
      exact returns_of_proceed hs hacts fun m guest _ =>
        ⟨_, _, step_getPages hplace,
          returns_of_nextPage (s := { s with place := .nextPage guest.getPages })
            ⟨hs.1, hs.2⟩ rfl (hacts.drop (m + 1))⟩
  | cons entry left ih =>
      have hleft : s.stacksLeft = entry :: left := by rw [stacksLeft, hplace]
      refine returns_of_proceed hs hacts fun m guest hact =>
        ⟨_, _, step_stack hplace, ih (s := s.checkStack v guest entry left) ⟨hs.1, hs.2⟩ ?_
          (hacts.drop (m + 1)) ?_⟩
      · obtain ⟨interesting, hok⟩ :=
          hchecked entry (hleft ▸ List.mem_cons_self) m guest hact
        simp [checkStack, ValidationSetup.stackFinding, hok, Finding.isUndefined]
      · intro other hother n guest' hn
        rw [stacksLeft_checkStack] at hother
        exact hchecked other (hleft ▸ List.mem_cons_of_mem _ hother) _ guest' hn

/-- From any place at which the program still runs. -/
theorem returns_of_stopped (hs : s.Stopped) (hplace : s.place.Alive) (hacts : GoesOn acts)
    (hchecked : StacksChecked v s acts) : Returns v s acts := by
  cases hp : s.place with
  | head =>
      refine returns_of_proceed hs hacts fun m guest _ =>
        ⟨_, _, step_head hp, returns_of_nextStack (s := s.beginIteration guest) ⟨hs.1, hs.2⟩ rfl
          (hacts.drop (m + 1)) ?_⟩
      -- without options no stack is put down
      intro entry hentry
      simp [stacksLeft, beginIteration, hs.2] at hentry
  | nextStack left => exact returns_of_nextStack hs hp hacts hchecked
  | nextPage left => exact returns_of_nextPage hs hp hacts
  | returned => exact ⟨0, [], s, .nil s, hp⟩
  | exited => exact absurd hplace (by simp [hp, Place.Alive])
  | undefined left => exact absurd hplace (by simp [hp, Place.Alive])

/-- Without a signal the loop is not left in loop mode. -/
theorem not_returned_of_loopMode {acts : List LoopAction} (h : Run (step v) s acts es s')
    (hacts : .signal ∉ acts) (hloop : s.loopMode = true) (hplace : s.place ≠ .returned) :
    s'.place ≠ .returned := by
  induction h with
  | nil => exact hplace
  | @cons s s₁ _ a acts _ _ hstep _ ih =>
      have hrest : .signal ∉ acts := fun h => hacts (List.mem_cons_of_mem a h)
      cases stepped_of_step hstep with
      | signal => exact absurd List.mem_cons_self hacts
      | head guest _ => exact ih hrest hloop (by simp [beginIteration])
      | getPages guest _ => exact ih hrest hloop (by simp)
      | stack guest _ =>
          exact ih hrest hloop (s.checkStack_running guest _ _).2
      | done guest _ => exact ih hrest hloop (by simp [hloop])
      | page guest _ =>
          exact ih hrest hloop (checkPage_place guest _ _).2

/-- In single mode only one iteration begins. -/
theorem step_single (hs : s.loopMode = false ∧ s.iterationsBegun ≤ 1)
    (h : s.step v a = some (s', es)) : s'.loopMode = false ∧ s'.iterationsBegun ≤ 1 := by
  obtain ⟨hloop, hbegun⟩ := hs
  cases stepped_of_step h with
  | signal => exact ⟨rfl, hbegun⟩
  | head guest hplace =>
      exact ⟨hloop, by simpa [iterationsBegun, beginIteration, hplace] using hbegun⟩
  | getPages guest hplace => exact ⟨hloop, by simpa [iterationsBegun, hplace] using hbegun⟩
  | stack guest hplace =>
      rw [iterationsBegun_eq (by simp [hplace])] at hbegun
      exact ⟨hloop, by rwa [iterationsBegun_eq (checkStack_running guest _ _).1]⟩
  | done guest hplace => exact ⟨hloop, by simpa [iterationsBegun, hplace, hloop] using hbegun⟩
  | page guest hplace =>
      rw [iterationsBegun_eq (by simp [hplace])] at hbegun
      exact ⟨hloop, by rwa [iterationsBegun_eq (checkPage_place guest _ _).1]⟩

/-- **When the validation returns**: in single mode there is one iteration; in loop mode it does
not return without a signal; and behind a signal it does return, whatever the guest does and
however many signals follow, if the program still runs and the stacks that are left are checked to
their ends. -/
theorem validatePages_returns (v : ValidationSetup) (lm cv pe : Bool) {acts : List LoopAction}
    {es : List Finding} {s : ValidationLoop} (h : Run (step v) (start lm cv pe) acts es s) :
    (s.place = .returned → lm = false ∨ .signal ∈ acts) ∧
      (lm = false → s.iterationsBegun ≤ 1) ∧
      (s.place.Alive → ∀ acts', GoesOn acts' → StacksChecked v s acts' →
        Returns v s.signalled acts') := by
  refine ⟨fun hreturned => ?_, fun hlm => ?_, fun hplace acts' hacts' hchecked =>
    returns_of_stopped (signalled_stopped s) hplace hacts' hchecked⟩
  · by_contra hno
    push Not at hno
    have hloop : (start lm cv pe).loopMode = true := by
      cases lm with
      | true => rfl
      | false => exact absurd rfl hno.1
    exact not_returned_of_loopMode h hno.2 hloop (by simp [start]) hreturned
  · have hrun := h.invariant (fun s => s.loopMode = false ∧ s.iterationsBegun ≤ 1) (fun _ => True)
      (fun s a s' es hs hstep => ⟨step_single hs hstep, fun _ _ => trivial⟩)
      ⟨hlm, Nat.le_refl 1⟩
    exact hrun.1.2

/-! ## A guest with a stack and a page -/

/-- The plain validator, with nothing more than it needs. -/
def plainSetup : ValidationSetup where
  toKernelValidator := plainValidator
  getName := fun _ => "kernel"
  genericUnrolledAddress := 0
  nops := k8_nops
  idt_tableAddress := 0xffffffff81c00000
  nmi_idt_tableAddress := 0xffffffff81c01000
  sinittextAddress := 0xffffffff81d00000
  irq_entries_startAddress := 0xffffffff81500000
  getFunctionAddress := fun _ => 0
  roDataSection := fun _ => pageAt 0xffffffff81800000
  kernelRoData := []
  hostRoData := fun _ => 0
  hostMemory := fun _ => 0

/-- The page of the text of the plain kernel. -/
def textPage : GuestPage where
  vaddr := 0xffff81000000
  executable := true
  size := 0x1000
  size_mem := by simp
  aligned := by decide

/-- The stack of a task, and the stack pointer that is saved. -/
def plainStack : U64 × U64 := (0xffff880000010000, 0xffff880000011f00)

/-- A guest with the page and the stack, which is full of zeros. -/
def plainGuest : GuestView where
  getPages := [textPage]
  updateStackAddresses := OrderedMap.empty.assign plainStack.1 plainStack.2
  readVectorFromVA := fun _ size => List.replicate size 0
  length_read := fun _ _ => List.length_replicate

/-- In front of the stack, in loop mode. -/
def atStack : ValidationLoop := (start true true true).beginIteration plainGuest

theorem atStack_place : atStack.place = .nextStack [plainStack] := rfl

/-- There are no recorded calls, so that the chain of the stack is checked to its end. -/
theorem plainStack_checked (guest : GuestView) :
    ∃ interesting, plainSetup.validateStackPage
      (plainSetup.stackPage guest plainStack.1 plainStack.2) = .ok interesting :=
  plainSetup.validateStackPage_ok _ fun _ _ _ _ => .inl rfl

/-- The rest of an iteration without options, in front of the last stack and with one page. -/
theorem run_rest {v : ValidationSetup} {s : ValidationLoop} {guest : GuestView} {entry : U64 × U64}
    {page : GuestPage} (hs : s.Stopped) (hplace : s.place = .nextStack [entry])
    (hpages : guest.getPages = [page])
    (hchecked : ∃ interesting,
      v.validateStackPage (v.stackPage guest entry.1 entry.2) = .ok interesting) :
    ∃ es s', Run (step v) s
      [.proceed guest, .proceed guest, .proceed guest, .proceed guest] es s' ∧
      s'.place = .returned := by
  obtain ⟨interesting, hok⟩ := hchecked
  have hplace₁ : (s.checkStack v guest entry []).place = .nextStack [] := by
    simp [checkStack, ValidationSetup.stackFinding, hok, Finding.isUndefined]
  have hstack : s.step v (.proceed guest) = _ := step_stack hplace
  have hstopped₁ : (s.checkStack v guest entry []).Stopped := ⟨hs.1, hs.2⟩
  generalize s.checkStack v guest entry [] = s₁ at hstack hplace₁ hstopped₁
  have hget : s₁.step v (.proceed guest) = _ := step_getPages hplace₁
  rw [hpages] at hget
  have hstopped₂ : { s₁ with place := .nextPage [page] }.Stopped := ⟨hstopped₁.1, hstopped₁.2⟩
  have hplace₂ : { s₁ with place := .nextPage [page] }.place = .nextPage [page] := rfl
  generalize { s₁ with place := .nextPage [page] } = s₂ at hget hplace₂ hstopped₂
  have hpage : s₂.step v (.proceed guest) = _ := step_page hplace₂
  have hplace₃ := checkPage_place_of_stopped (v := v) hstopped₂ guest page []
  have hdone : (s₂.checkPage v guest page []).step v (.proceed guest) = _ := step_done hplace₃
  have hrun := Run.cons hstack (.cons hget (.cons hpage (.single hdone)))
  refine ⟨_, _, hrun, ?_⟩
  show (if s₂.loopMode then Place.head else Place.returned) = _
  rw [hstopped₂.1]
  rfl

/-- The rest of the iteration behind a signal. -/
theorem atStack_run :
    ∃ es s', Run (step plainSetup) atStack.signalled
      [.proceed plainGuest, .proceed plainGuest, .proceed plainGuest, .proceed plainGuest] es s' ∧
      s'.place = .returned :=
  run_rest (signalled_stopped atStack) atStack_place rfl (plainStack_checked plainGuest)

/-- The stack is validated, the page is not. -/
theorem signal_stops_atStack :
    ∃ es s', Run (step plainSetup) atStack.signalled
        [.proceed plainGuest, .proceed plainGuest, .proceed plainGuest, .proceed plainGuest] es s' ∧
      s'.place = .returned ∧ es.filterMap Finding.stackBottom? = [plainStack.1] ∧
      (∀ f ∈ es, f.Idle) ∧ s'.iterationsBegun ≤ 1 := by
  obtain ⟨es, s', hrun, hplace⟩ := atStack_run
  obtain ⟨-, hbegun, -, hstacks, hidle, -, -⟩ := signal_stops plainSetup hrun
  have hleft : s'.stacksLeft = [] := by rw [stacksLeft, hplace]
  rw [hleft, List.map_nil, List.append_nil] at hstacks
  exact ⟨es, s', hrun, hplace, hstacks, hidle, hbegun⟩

theorem validatePages_returns_atStack :
    Returns plainSetup atStack.signalled fun _ => .proceed plainGuest := by
  have hrun : Run (step plainSetup) (start true true true) [.proceed plainGuest] [] atStack :=
    .single (step_head rfl)
  obtain ⟨-, -, hreturns⟩ := validatePages_returns plainSetup true true true hrun
  refine hreturns trivial _ (fun n => ⟨n, Nat.le_refl n, plainGuest, rfl⟩) ?_
  intro entry hentry m guest _
  obtain rfl := List.mem_singleton.mp hentry
  exact plainStack_checked guest

end ValidationLoop

end KernInt
