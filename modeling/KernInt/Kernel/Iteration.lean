import KernInt.Kernel.ValidationLoop

set_option autoImplicit false

/-! # One iteration

Between two signals an iteration validates each stack of the map and each page of the list, in
their order, and each of them as it is in the guest when its turn comes. It ends before that only
at a page at which the program exits, as `findCodePtrs` does at one value, or at a stack or a page
behind which the program has no meaning; what comes behind is not looked at (`iteration_exact`).
-/

namespace KernInt

open Lib

namespace ValidationSetup

variable (v : ValidationSetup)

/-- What is to be found in a page, as it is when its turn comes. -/
def expected (options : ValidationOptions) (stackAddresses : OrderedMap U64 U64)
    (turn : GuestPage × GuestView) : List Finding :=
  (v.pageEvents options turn.1.toPageInfo).map (v.finding turn.2 stackAddresses turn.1)

/-- The program exits at the page. -/
def exitsAt (options : ValidationOptions) (stackAddresses : OrderedMap U64 U64)
    (turn : GuestPage × GuestView) : Bool :=
  (v.expected options stackAddresses turn).any Finding.exits

/-- The page is the last one. -/
def endsAt (options : ValidationOptions) (stackAddresses : OrderedMap U64 U64)
    (turn : GuestPage × GuestView) : Bool :=
  v.exitsAt options stackAddresses turn ||
    (v.expected options stackAddresses turn).any Finding.isUndefined

/-- Where the loop over the pages ends. -/
def placeBehind (options : ValidationOptions) (stackAddresses : OrderedMap U64 U64)
    (turns : List (GuestPage × GuestView)) : Place :=
  if turns.any (v.endsAt options stackAddresses) then
    if (upTo (v.endsAt options stackAddresses) turns).any (v.exitsAt options stackAddresses) then
      .exited
    else .undefined []
  else .nextPage []

/-- What is found in the stack. -/
def expectedStack (turn : (U64 × U64) × GuestView) : Finding := v.stackFinding turn.2 turn.1

/-- The stack is the last one. -/
def lastStack (turn : (U64 × U64) × GuestView) : Bool := (v.expectedStack turn).isUndefined

end ValidationSetup

/-- The guests that an iteration finds: at its head, at each stack, when it asks for the pages, at
each page, and at its end. -/
structure IterationViews where
  atHead : GuestView
  atStacks : List GuestView
  atGetPages : GuestView
  atPages : List GuestView
  atEnd : GuestView

/-- Each page with the guest at its turn. -/
def IterationViews.turns (w : IterationViews) : List (GuestPage × GuestView) :=
  w.atGetPages.getPages.zip w.atPages

namespace ValidationLoop

section

variable (v : ValidationSetup) (s : ValidationLoop) (w : IterationViews)

/-- Each stack with the guest at its turn. -/
def stackTurns : List ((U64 × U64) × GuestView) :=
  (s.beginIteration w.atHead).stacksLeft.zip w.atStacks

/-- The stacks that have their turn. -/
def stacksTaken : List ((U64 × U64) × GuestView) := upTo v.lastStack (s.stackTurns w)

/-- The pages are reached. -/
def reachesPages : Bool := !(s.stackTurns w).any v.lastStack

/-- The page is the last one, in the iteration that begins. -/
def endsAt (turn : GuestPage × GuestView) : Bool :=
  v.endsAt s.options (s.beginIteration w.atHead).stackAddresses turn

/-- The pages that have their turn. -/
def turnsTaken : List (GuestPage × GuestView) :=
  if s.reachesPages v w then upTo (s.endsAt v w) w.turns else []

/-- The end of the iteration is reached. -/
def reachesEnd : Bool := s.reachesPages v w && !w.turns.any (s.endsAt v w)

/-- The steps of the iteration. -/
def iterationActions : List LoopAction :=
  .proceed w.atHead :: ((s.stacksTaken v w).map (fun turn => .proceed turn.2) ++
    ((if s.reachesPages v w then [.proceed w.atGetPages] else []) ++
      ((s.turnsTaken v w).map (fun turn => .proceed turn.2) ++
        if s.reachesEnd v w then [.proceed w.atEnd] else [])))

/-- What is to be found in it. -/
def iterationFindings : List Finding :=
  (s.stacksTaken v w).map v.expectedStack ++
    ((s.turnsTaken v w).flatMap
      (v.expected s.options (s.beginIteration w.atHead).stackAddresses) ++
      if s.reachesEnd v w then [.doneValidatingPages] else [])

/-- Where the loop is behind it: at the end of the iteration, or where it ends early. -/
def PlaceBehind (place : Place) : Prop :=
  if s.reachesEnd v w then place = if s.loopMode then .head else .returned
  else if (s.turnsTaken v w).any
      (v.exitsAt s.options (s.beginIteration w.atHead).stackAddresses) then place = .exited
  else ∃ left, place = .undefined left

end

variable {v : ValidationSetup} {s : ValidationLoop}

/-! ## A page -/

theorem not_isWarning_validateDataPage {guest : GuestView}
    {stackAddresses : OrderedMap U64 U64} {page : GuestPage} {elf : KernelspaceLoaderRef} :
    (v.validateDataPage guest stackAddresses page elf).isWarning = false := by
  unfold ValidationSetup.validateDataPage
  split
  · rfl
  · split
    · split <;> rfl
    · split <;> rfl

/-- The warning apart, the findings of a page are those that are to be found. -/
theorem filter_pageFindings (guest : GuestView) (page : GuestPage) :
    (s.pageFindings v guest page).filter (fun f => !f.isWarning) =
      v.expected s.options s.stackAddresses (page, guest) := by
  have hmask : page.vaddr &&& 0xff0000000000 ≠ 0x8800000000000 :=
    KernelValidator.masked_ne (by decide)
  have hmask' : page.vaddr &&& 0xff0000000000 ≠ 0xc900000000000 :=
    KernelValidator.masked_ne (by decide)
  unfold pageFindings KernelValidator.validatePage ValidationSetup.expected
    KernelValidator.pageEvents
  rw [if_neg hmask, if_neg hmask']
  dsimp only
  cases v.getModuleForAddress page.vaddr with
  | none =>
      cases page.executable with
      | true => rfl
      | false => rfl
  | some module =>
      dsimp only
      split
      · rfl
      split
      · have hwarning : Finding.executableDataPage.isWarning = true := rfl
        split <;> simp [ValidationSetup.finding, not_isWarning_validateDataPage, hwarning]
      · rfl

/-- A property that the warning does not have holds of some finding exactly if it is expected to. -/
theorem any_pageFindings {p : Finding → Bool} (hp : ∀ f, f.isWarning = true → p f = false)
    (guest : GuestView) (page : GuestPage) :
    (s.pageFindings v guest page).any p =
      (v.expected s.options s.stackAddresses (page, guest)).any p := by
  rw [← filter_pageFindings, List.any_filter]
  congr 1
  funext f
  cases hf : f.isWarning with
  | true => simp [hp f hf]
  | false => simp

/-- The place behind a page. -/
theorem checkPage_place_eq (guest : GuestView) (page : GuestPage) (left : List GuestPage) :
    (s.checkPage v guest page left).place =
      if v.exitsAt s.options s.stackAddresses (page, guest) then .exited
      else if v.endsAt s.options s.stackAddresses (page, guest) then .undefined []
      else .nextPage left := by
  have hexits := any_pageFindings (v := v) (s := s) (p := Finding.exits)
    (fun f hf => by cases f <;> simp_all [Finding.isWarning, Finding.exits]) guest page
  have hundefined := any_pageFindings (v := v) (s := s) (p := Finding.isUndefined)
    (fun f hf => by cases f <;> simp_all [Finding.isWarning, Finding.isUndefined]) guest page
  unfold checkPage ValidationSetup.endsAt ValidationSetup.exitsAt
  dsimp only
  rw [hexits, hundefined]
  cases (v.expected s.options s.stackAddresses (page, guest)).any Finding.exits with
  | true => rfl
  | false => rfl

/-! ## The loops -/

/-- **The loop over the stacks** validates each of them once, up to the first one behind which the
program has no meaning. -/
theorem run_stacks {entries : List (U64 × U64)} (h : s.place = .nextStack entries)
    (views : List GuestView) (hviews : views.length = entries.length) :
    ∃ place, Run (step v) s ((upTo v.lastStack (entries.zip views)).map fun turn => .proceed turn.2)
        ((upTo v.lastStack (entries.zip views)).map v.expectedStack) { s with place := place } ∧
      if (entries.zip views).any v.lastStack then ∃ left, place = .undefined left
      else place = .nextStack [] := by
  induction entries generalizing s views with
  | nil =>
      obtain rfl := List.length_eq_zero_iff.mp hviews
      refine ⟨.nextStack [], ?_, rfl⟩
      have hs : { s with place := .nextStack [] } = s := by rw [← h]
      rw [hs]
      exact .nil s
  | cons entry entries ih =>
      obtain ⟨view, views, rfl⟩ := List.exists_cons_of_length_eq_add_one hviews
      have hstep : s.step v (.proceed view) = _ := step_stack h
      rcases s.checkStack_place (v := v) view entry entries with ⟨hplace, hlast⟩ | ⟨hplace, hlast⟩
      · replace hlast : v.lastStack (entry, view) = true := hlast
        refine ⟨.undefined entries, ?_, ?_⟩
        · have hrun := Run.single hstep
          have hs : s.checkStack v view entry entries = { s with place := .undefined entries } := by
            rw [← hplace]
            rfl
          rw [hs] at hrun
          simp only [List.zip_cons_cons, upTo, hlast, if_true, List.map_singleton]
          exact hrun
        · simp [hlast]
      · replace hlast : v.lastStack (entry, view) = false := hlast
        obtain ⟨place, hrun, hwhere⟩ := ih hplace views (by simpa using hviews)
        refine ⟨place, ?_, ?_⟩
        · have hrun' := Run.cons hstep hrun
          simp only [List.zip_cons_cons, upTo, hlast]
          exact hrun'
        · rw [List.zip_cons_cons, List.any_cons, hlast, Bool.false_or]
          exact hwhere

/-- **The loop over the pages** finds in each page, up to the first one at which it ends, what is to
be found there when its turn comes. -/
theorem run_pages {pages : List GuestPage} (h : s.place = .nextPage pages)
    (views : List GuestView) (hviews : views.length = pages.length) :
    ∃ es s', Run (step v) s
        ((upTo (v.endsAt s.options s.stackAddresses) (pages.zip views)).map
          fun turn => .proceed turn.2) es s' ∧
      es.filter (fun f => !f.isWarning) =
        (upTo (v.endsAt s.options s.stackAddresses) (pages.zip views)).flatMap
          (v.expected s.options s.stackAddresses) ∧
      s'.place = v.placeBehind s.options s.stackAddresses (pages.zip views) ∧
      s'.globalCodePtrs = s.globalCodePtrs + (es.map Finding.ptrs).sum ∧
      s'.loopMode = s.loopMode ∧ s'.options = s.options ∧ s'.iterations = s.iterations ∧
      s'.stackAddresses = s.stackAddresses := by
  induction pages generalizing s views with
  | nil =>
      refine ⟨[], s, .nil s, rfl, ?_, by simp, rfl, rfl, rfl, rfl⟩
      rw [h]
      rfl
  | cons page pages ih =>
      obtain ⟨view, views, rfl⟩ := List.exists_cons_of_length_eq_add_one hviews
      have hstep : s.step v (.proceed view) =
          some (s.checkPage v view page pages, s.pageFindings v view page) := step_page h
      have hplace := s.checkPage_place_eq (v := v) view page pages
      cases hend : v.endsAt s.options s.stackAddresses (page, view) with
      | true =>
          have hrun := Run.single hstep
          refine ⟨s.pageFindings v view page, s.checkPage v view page pages, ?_, ?_, ?_, rfl, rfl,
            rfl, rfl, rfl⟩
          · simpa [upTo, hend] using hrun
          · simp [upTo, hend, filter_pageFindings]
          · simpa [ValidationSetup.placeBehind, upTo, hend] using hplace
      | false =>
          have hexit : v.exitsAt s.options s.stackAddresses (page, view) = false :=
            (Bool.or_eq_false_iff.mp hend).1
          have hnext : (s.checkPage v view page pages).place = .nextPage pages := by
            simpa [hend, hexit] using hplace
          obtain ⟨es, s', hrun, hfilter, hplace', hptrs, hsame⟩ :=
            ih hnext views (by simpa using hviews)
          refine ⟨s.pageFindings v view page ++ es, s', ?_, ?_, ?_, ?_, hsame⟩
          · have hrun' := Run.cons hstep hrun
            simp only [List.zip_cons_cons, upTo, hend]
            exact hrun'
          · rw [List.filter_append, filter_pageFindings, hfilter]
            simp only [List.zip_cons_cons, upTo, hend]
            rfl
          · rw [hplace']
            show v.placeBehind s.options s.stackAddresses (pages.zip views) = _
            unfold ValidationSetup.placeBehind
            rw [List.zip_cons_cons, List.any_cons, hend, Bool.false_or, upTo, hend,
              if_neg Bool.false_ne_true, List.any_cons, hexit, Bool.false_or]
          · rw [hptrs, List.map_append, List.sum_append, ← Nat.add_assoc]
            rfl

/-! ## The iteration -/

/-- The pages, and the end of the iteration if the loop over them does not end early. -/
theorem run_pagesEnd (w : IterationViews)
    (hpages : w.atPages.length = w.atGetPages.getPages.length)
    (hreaches : s.reachesPages v w = true) :
    ∃ es s', Run (step v)
        { s.beginIteration w.atHead with place := .nextPage w.atGetPages.getPages }
        ((s.turnsTaken v w).map (fun turn => .proceed turn.2) ++
          if s.reachesEnd v w then [.proceed w.atEnd] else []) es s' ∧
      es.filter (fun f => !f.isWarning) = (s.turnsTaken v w).flatMap
        (v.expected s.options (s.beginIteration w.atHead).stackAddresses) ++
        (if s.reachesEnd v w then [.doneValidatingPages] else []) ∧
      s.PlaceBehind v w s'.place ∧
      s'.globalCodePtrs = (es.map Finding.ptrs).sum ∧ s'.iterations = s.iterations + 1 := by
  obtain ⟨es, s', hpagesRun, hfilter, hplace, hptrs, hloop, hoptions, hiterations, -⟩ :=
    run_pages (v := v) (s := { s.beginIteration w.atHead with
      place := .nextPage w.atGetPages.getPages }) rfl w.atPages hpages
  have hturns : s.turnsTaken v w = upTo (s.endsAt v w) w.turns := by
    rw [turnsTaken, if_pos hreaches]
  have hpagesRun : Run (step v)
      { s.beginIteration w.atHead with place := .nextPage w.atGetPages.getPages }
      ((s.turnsTaken v w).map fun turn => .proceed turn.2) es s' := hturns ▸ hpagesRun
  have hfilter : es.filter (fun f => !f.isWarning) = (s.turnsTaken v w).flatMap
      (v.expected s.options (s.beginIteration w.atHead).stackAddresses) := hturns ▸ hfilter
  have hplace : s'.place = if w.turns.any (s.endsAt v w) then
      if (s.turnsTaken v w).any
        (v.exitsAt s.options (s.beginIteration w.atHead).stackAddresses) then Place.exited
      else .undefined [] else .nextPage [] := hturns ▸ hplace
  cases hany : w.turns.any (s.endsAt v w) with
  | true =>
      have hend : s.reachesEnd v w = false := by simp [reachesEnd, hany]
      rw [hany, if_pos rfl] at hplace
      refine ⟨es, s', ?_, ?_, ?_, ?_, hiterations⟩
      · simpa [hend] using hpagesRun
      · simpa [hend] using hfilter
      · rw [PlaceBehind, hend, if_neg Bool.false_ne_true, hplace]
        split
        · rfl
        · exact ⟨[], rfl⟩
      · simpa [beginIteration] using hptrs
  | false =>
      have hend : s.reachesEnd v w = true := by simp [reachesEnd, hany, hreaches]
      rw [hany, if_neg Bool.false_ne_true] at hplace
      have hdone : s'.step v (.proceed w.atEnd) =
          some ({ s' with place := if s'.loopMode then .head else .returned },
            [.doneValidatingPages]) := step_done hplace
      refine ⟨es ++ [.doneValidatingPages],
        { s' with place := if s'.loopMode then .head else .returned }, ?_, ?_, ?_, ?_, hiterations⟩
      · rw [hend]
        exact hpagesRun.append (.single hdone)
      · rw [hend, List.filter_append]
        exact congrArg (· ++ [.doneValidatingPages]) hfilter
      · rw [PlaceBehind, hend, if_pos rfl]
        show (if s'.loopMode then Place.head else Place.returned) = _
        rw [hloop]
        rfl
      · rw [List.map_append, List.sum_append]
        simpa [beginIteration, Finding.ptrs] using hptrs

/-- A stack has no part in the warning and in the number of pointers. -/
theorem stackFindings_plain (turns : List ((U64 × U64) × GuestView)) :
    (turns.map v.expectedStack).filter (fun f => !f.isWarning) = turns.map v.expectedStack ∧
      ((turns.map v.expectedStack).map Finding.ptrs).sum = 0 := by
  constructor
  · rw [List.filter_eq_self]
    intro f hf
    obtain ⟨turn, -, rfl⟩ := List.mem_map.mp hf
    rfl
  · rw [List.sum_eq_zero]
    intro n hn
    obtain ⟨f, hf, rfl⟩ := List.mem_map.mp hn
    obtain ⟨turn, -, rfl⟩ := List.mem_map.mp hf
    rfl

/-- The loops one behind the other. -/
theorem run_iteration (h : s.place = .head) (w : IterationViews)
    (hstacks : w.atStacks.length = (s.beginIteration w.atHead).stacksLeft.length)
    (hpages : w.atPages.length = w.atGetPages.getPages.length) :
    ∃ es s', Run (step v) s (s.iterationActions v w) es s' ∧
      es.filter (fun f => !f.isWarning) = s.iterationFindings v w ∧
      s.PlaceBehind v w s'.place ∧
      s'.iterations = s.iterations + 1 ∧ s'.globalCodePtrs = (es.map Finding.ptrs).sum := by
  obtain ⟨place, hstacksRun, hplace⟩ :=
    run_stacks (v := v) (s := s.beginIteration w.atHead) rfl w.atStacks hstacks
  have hstacksRun : Run (step v) (s.beginIteration w.atHead)
      ((s.stacksTaken v w).map fun turn => .proceed turn.2)
      ((s.stacksTaken v w).map v.expectedStack)
      { s.beginIteration w.atHead with place := place } := hstacksRun
  have hplace : if (s.stackTurns w).any v.lastStack then ∃ left, place = .undefined left
      else place = .nextStack [] := hplace
  obtain ⟨hplain, hsum⟩ := stackFindings_plain (v := v) (s.stacksTaken v w)
  cases hany : (s.stackTurns w).any v.lastStack with
  | true =>
      have hreaches : s.reachesPages v w = false := by simp [reachesPages, hany]
      have hturns : s.turnsTaken v w = [] := by simp [turnsTaken, hreaches]
      have hend : s.reachesEnd v w = false := by simp [reachesEnd, hreaches]
      rw [if_pos hany] at hplace
      obtain ⟨left, rfl⟩ := hplace
      refine ⟨(s.stacksTaken v w).map v.expectedStack,
        { s.beginIteration w.atHead with place := .undefined left }, ?_, ?_, ?_, rfl, hsum.symm⟩
      · have hrun := Run.cons (step_head h) hstacksRun
        simpa [iterationActions, hreaches, hturns, hend] using hrun
      · simpa [iterationFindings, hturns, hend] using hplain
      · rw [PlaceBehind, hend, hturns]
        exact ⟨left, rfl⟩
  | false =>
      have hreaches : s.reachesPages v w = true := by simp [reachesPages, hany]
      rw [hany, if_neg Bool.false_ne_true] at hplace
      subst hplace
      obtain ⟨es, s', hend, hfilter, hplace', hptrs, hiterations⟩ :=
        run_pagesEnd (v := v) (s := s) w hpages hreaches
      have hrun := Run.cons (step_head h) (hstacksRun.append (.cons (step_getPages rfl) hend))
      refine ⟨(s.stacksTaken v w).map v.expectedStack ++ es, s', ?_, ?_, hplace', hiterations, ?_⟩
      · rw [iterationActions, hreaches]
        exact hrun
      · rw [List.filter_append, hplain, hfilter]
        rfl
      · rw [List.map_append, List.sum_append, hsum, hptrs, Nat.zero_add]

/-- A code page that has its turn gets one entry, with what the comparison with it reports. -/
theorem code_mem_iterationFindings {w : IterationViews} {turn : GuestPage × GuestView}
    {elf : KernelspaceLoaderRef} (hturn : turn ∈ s.turnsTaken v w)
    (hcv : s.options.codeValidation = true)
    (hfound : v.getModuleForAddress turn.1.vaddr = some elf)
    (hcode : v.isCodeAddress elf turn.1.vaddr = true) :
    .code turn.1.toPageInfo elf (v.codeCheck turn.2 turn.1 elf).validateCodePage ∈
      s.iterationFindings v w := by
  have hevents : v.pageEvents s.options turn.1.toPageInfo =
      [.validateCodePage turn.1.toPageInfo elf] := by
    simp [KernelValidator.pageEvents, hfound, hcv, hcode]
  refine List.mem_append_right _ (List.mem_append_left _ (List.mem_flatMap.mpr ⟨turn, hturn, ?_⟩))
  rw [ValidationSetup.expected, hevents]
  exact List.mem_singleton_self _

/-- The guest has zeros in the page of the text. -/
def plainViews : IterationViews where
  atHead := plainGuest
  atStacks := [plainGuest]
  atGetPages := plainGuest
  atPages := [plainGuest]
  atEnd := plainGuest

/-- Its first byte is neither intended nor hidden. -/
theorem plainGuest_first :
    (plainSetup.codeCheck plainGuest textPage .kernel).Differs 0 ∧
      ¬ (plainSetup.codeCheck plainGuest textPage .kernel).Intended 0 ∧
      ∀ F, (plainSetup.codeCheck plainGuest textPage .kernel).Tiling F →
        ¬ (plainSetup.codeCheck plainGuest textPage .kernel).HiddenIn F 0 := by
  refine ⟨by decide, fun h => ?_, fun F _ h => ?_⟩
  · cases h with
    | hypercall h => exact absurd h (by decide)
    | atomicNop w hl _ hw =>
        obtain rfl := Nat.le_zero.mp hw
        exact absurd hl (by decide)
    | fixedNop w h hw =>
        obtain rfl := Nat.le_zero.mp hw
        exact absurd h (by decide)
    | cutNop h => exact absurd h (by decide)
    | jmpLabel w h => cases h
    | unrolledCall a target _ _ _ ha => exact absurd ha (Nat.not_lt_zero a)
    | smpLock h => exact absurd h (by decide)
    | zeroJump w h hw =>
        obtain rfl := Nat.le_zero.mp hw
        exact absurd h (by decide)
  · rcases h with ⟨h, -⟩ | ⟨j, -, h, -⟩ | h
    · exact absurd h (Nat.lt_irrefl 0)
    · exact absurd h (Nat.not_lt_zero j)
    · exact absurd h (by decide)

end ValidationLoop

end KernInt
