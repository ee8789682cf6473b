import KernInt.Kernel.CodePtrs

set_option autoImplicit false

/-! # Which check a page gets

`validatePages` goes through the pages of the kernel, and `validatePage` asks the loader of each
of them whether it is code or data. Two areas of the address space are to be left out, by the bits
40 to 47 of the address, but the constants that the masked addresses are compared with have a bit
outside of the mask. So no page is left out, and a page gets what a loader has for it, even if it
has it only because the address behind a section counts as part of it (`pagesRouted_iff`).
-/

namespace KernInt

open Lib

/-- A page of the guest. `executable` is what `isPageExecutable` says of it. -/
structure PageInfo where
  vaddr : U64
  executable : Bool
  deriving DecidableEq

structure ValidationOptions where
  codeValidation : Bool
  pointerExamination : Bool

/-- What is done with a page or printed about it. -/
inductive PageEvent where
  | noModuleFound (page : PageInfo)
  | executableDataPage
  | validateCodePage (page : PageInfo) (elf : KernelspaceLoaderRef)
  | validateDataPage (page : PageInfo) (elf : KernelspaceLoaderRef)

/-- The page that it is about. The warning about executable data comes once for all pages. -/
def PageEvent.page : PageEvent → Option PageInfo
  | .noModuleFound page => some page
  | .executableDataPage => none
  | .validateCodePage page _ => some page
  | .validateDataPage page _ => some page

/-- In the direct mapping or the vmalloc area. -/
def PageInfo.Excluded (page : PageInfo) : Prop :=
  page.vaddr.extractLsb' 40 8 = 0x88 ∨ page.vaddr.extractLsb' 40 8 = 0xc9

instance (page : PageInfo) : Decidable page.Excluded := inferInstanceAs (Decidable (_ ∨ _))

namespace KernelValidator

variable (v : KernelValidator) (options : ValidationOptions)

def isDataAddress : KernelspaceLoaderRef → U64 → Bool
  | .kernel, address => v.kernelLoader.isDataAddress address
  | .module m, address => m.isDataAddress address

/-- `execData` is the static variable, which tells that the warning has been printed. -/
def validatePage (execData : Bool) (page : PageInfo) : Bool × List PageEvent :=
  if page.vaddr &&& 0xff0000000000 = 0xc900000000000 then (execData, [])
  else
    match v.getModuleForAddress page.vaddr with
    | none => (execData, if page.executable then [.noModuleFound page] else [])
    | some module =>
        if options.codeValidation && v.isCodeAddress module page.vaddr then
          (execData, [.validateCodePage page module])
        else if options.pointerExamination && v.isDataAddress module page.vaddr then
          if page.executable && !execData then
            (true, [.executableDataPage, .validateDataPage page module])
          else (execData, [.validateDataPage page module])
        else (execData, [])

/-- The loop over the pages, and what happens in it. -/
def validatePages (execData : Bool) : List PageInfo → List PageEvent
  | [] => []
  | page :: pages =>
      if page.vaddr &&& 0xff0000000000 = 0x8800000000000 then validatePages execData pages
      else
        (v.validatePage options execData page).2 ++
          validatePages (v.validatePage options execData page).1 pages

/-! ## What is to happen with a page -/

/-- The loader has a byte of this kind at the address. -/
def Holds (address : U64) : KernelspaceLoaderRef → AddressKind → Prop
  | .kernel, .code => v.kernelLoader.textSegment.Holds (kernelAddress address)
  | .kernel, .data => v.kernelLoader.elffile.isDataAddress (kernelAddress address) = true
  | .module m, kind => m ∈ v.moduleMap ∧
      ∃ s ∈ m.sectionsOf kind, s.Holds (kernelAddress address)

/-- Of the events about the page, this one happens and no other. -/
def OnlyEvent (events : List PageEvent) (page : PageInfo) (event : PageEvent) : Prop :=
  ∀ e : PageEvent, e.page = some page → (e ∈ events ↔ e = event)

structure PageRouted (events : List PageEvent) (page : PageInfo) : Prop where
  excluded : page.Excluded → ∀ elf,
    .validateCodePage page elf ∉ events ∧ .validateDataPage page elf ∉ events
  code : ¬ page.Excluded → ∀ elf, v.getModuleForAddress page.vaddr = some elf →
    v.Holds page.vaddr elf .code → OnlyEvent events page (.validateCodePage page elf)
  data : ¬ page.Excluded → ∀ elf, v.getModuleForAddress page.vaddr = some elf →
    v.Holds page.vaddr elf .data → ¬ v.Holds page.vaddr elf .code →
    OnlyEvent events page (.validateDataPage page elf)
  report : ¬ page.Excluded → (.noModuleFound page ∈ events ↔
    page.executable = true ∧ ∀ elf kind, ¬ v.Holds page.vaddr elf kind)

/-- The loader takes the address for one of its own. -/
def Claims (address : U64) (elf : KernelspaceLoaderRef) (kind : AddressKind) : Prop :=
  v.kernelLoader.Claims v.moduleMap address elf kind

/-- No loader takes a page of the two areas, or the end of a section, for its own, where this
makes a difference. -/
structure Routable (page : PageInfo) : Prop where
  excluded : page.Excluded → ∀ elf kind, ¬ v.Claims page.vaddr elf kind
  text_end : ¬ page.Excluded → ∀ elf, v.getModuleForAddress page.vaddr = some elf →
    (v.textSegment elf).EndsAt (kernelAddress page.vaddr) → ¬ v.Holds page.vaddr elf .data
  executable : ¬ page.Excluded → page.executable = true →
    (∃ elf kind, v.Claims page.vaddr elf kind) → ∃ elf kind, v.Holds page.vaddr elf kind

section

variable {v} {options} {execData : Bool} {page : PageInfo} {address : U64}
  {elf : KernelspaceLoaderRef} {kind : AddressKind}

/-! ## Claims and sections -/

theorem containsMemAddress_of_holds {s : SectionInfo} {a : U64} (h : s.Holds a) :
    s.containsMemAddress a = true := by
  simp only [SectionInfo.Holds, contains, Bool.and_eq_true, decide_eq_true_iff] at h
  exact SectionInfo.containsMemAddress_iff.mpr ⟨h.1, BitVec.le_of_lt h.2⟩

theorem claims_of_holds (h : v.Holds address elf kind) : v.Claims address elf kind := by
  cases elf with
  | kernel =>
      cases kind with
      | code => exact containsMemAddress_of_holds h
      | data => exact h
  | module m =>
      obtain ⟨hm, s, hs, hholds⟩ := h
      have hcontains := containsMemAddress_of_holds hholds
      cases kind with
      | code =>
          obtain rfl := List.mem_singleton.mp hs
          exact ⟨hm, hcontains⟩
      | data =>
          refine ⟨hm, Bool.or_eq_true_iff.mpr ?_⟩
          rcases List.mem_cons.mp hs with rfl | hs
          · exact .inl hcontains
          · obtain rfl := List.mem_singleton.mp hs
            exact .inr hcontains

/-- What a loader takes for its code without having it there is the end of its text. -/
theorem endsAt_of_claims (h : v.Claims address elf .code) (hno : ¬ v.Holds address elf .code) :
    (v.textSegment elf).EndsAt (kernelAddress address) := by
  by_contra hend
  cases elf with
  | kernel => exact hno (SectionInfo.holds_of_containsMemAddress h hend)
  | module m =>
      exact hno ⟨h.1, m.textSegment, List.mem_cons_self,
        SectionInfo.holds_of_containsMemAddress h.2 hend⟩

theorem not_holds_of_endsAt (h : (v.textSegment elf).EndsAt (kernelAddress address)) :
    ¬ v.Holds address elf .code := by
  have hno : ¬ (v.textSegment elf).Holds (kernelAddress address) := by
    intro hholds
    simp only [SectionInfo.Holds, contains, Bool.and_eq_true, decide_eq_true_iff] at hholds
    rw [h.2] at hholds
    exact BitVec.lt_irrefl _ hholds.2
  cases elf with
  | kernel => exact hno
  | module m =>
      rintro ⟨-, s, hs, hholds⟩
      obtain rfl := List.mem_singleton.mp hs
      exact hno hholds

/-- The loader that is found is asked for what it takes for its own. -/
theorem claims_iff_of_found (h : v.getModuleForAddress address = some elf) :
    (v.Claims address elf .code ↔ v.isCodeAddress elf address = true) ∧
      (v.Claims address elf .data ↔ v.isDataAddress elf address = true) := by
  cases elf with
  | kernel => exact ⟨Iff.rfl, Iff.rfl⟩
  | module m =>
      have hm : m ∈ v.moduleMap := by
        unfold getModuleForAddress ElfKernelLoader.getModuleForAddress at h
        split at h
        · cases h
        · obtain ⟨m', hfind, heq⟩ := Option.map_eq_some_iff.mp h
          cases heq
          exact List.mem_of_find?_eq_some hfind
      exact ⟨⟨fun hc => hc.2, fun hc => ⟨hm, hc⟩⟩, ⟨fun hd => hd.2, fun hd => ⟨hm, hd⟩⟩⟩

/-- It takes the address for its code or its data. -/
theorem claims_of_found (h : v.getModuleForAddress address = some elf) :
    v.Claims address elf .code ∨ v.Claims address elf .data := by
  rw [(claims_iff_of_found h).1, (claims_iff_of_found h).2]
  unfold getModuleForAddress ElfKernelLoader.getModuleForAddress at h
  split at h
  · rename_i hkernel
    cases h
    exact Bool.or_eq_true_iff.mp hkernel
  · obtain ⟨m, hfind, rfl⟩ := Option.map_eq_some_iff.mp h
    have hm := List.find?_some hfind
    exact Bool.or_eq_true_iff.mp hm

/-- An address that a loader claims is not without one. -/
theorem not_claims_of_not_found (h : v.getModuleForAddress address = none) :
    ¬ v.Claims address elf kind := by
  intro hclaims
  unfold getModuleForAddress ElfKernelLoader.getModuleForAddress at h
  split at h
  · cases h
  rename_i hkernel
  rw [Option.map_eq_none_iff, List.find?_eq_none] at h
  cases elf with
  | kernel =>
      apply hkernel
      cases kind with
      | code => exact Bool.or_eq_true_iff.mpr (.inl hclaims)
      | data => exact Bool.or_eq_true_iff.mpr (.inr hclaims)
  | module m =>
      cases kind with
      | code => exact h m hclaims.1 (Bool.or_eq_true_iff.mpr (.inl hclaims.2))
      | data => exact h m hclaims.1 (Bool.or_eq_true_iff.mpr (.inr hclaims.2))

theorem exists_claims_iff :
    (∃ elf kind, v.Claims address elf kind) ↔ ∃ elf, v.getModuleForAddress address = some elf := by
  constructor
  · rintro ⟨elf, kind, h⟩
    cases hfound : v.getModuleForAddress address with
    | some found => exact ⟨found, rfl⟩
    | none => exact absurd h (not_claims_of_not_found hfound)
  · rintro ⟨elf, hfound⟩
    rcases claims_of_found hfound with h | h
    · exact ⟨elf, .code, h⟩
    · exact ⟨elf, .data, h⟩

/-! ## What happens with a page -/

/-- A masked address has no bit outside of the mask. -/
theorem masked_ne {a mask c : U64} (h : mask < c) : a &&& mask ≠ c := by
  intro heq
  have hle : (a &&& mask).toNat ≤ mask.toNat := by
    rw [BitVec.toNat_and]
    exact Nat.and_le_right
  rw [heq] at hle
  exact absurd (BitVec.lt_def.mp h) (Nat.not_lt.mpr hle)

/-- What happens with a page, apart from the warning. -/
def pageEvents (v : KernelValidator) (options : ValidationOptions) (page : PageInfo) :
    List PageEvent :=
  match v.getModuleForAddress page.vaddr with
  | none => if page.executable then [.noModuleFound page] else []
  | some module =>
      if options.codeValidation && v.isCodeAddress module page.vaddr then
        [.validateCodePage page module]
      else if options.pointerExamination && v.isDataAddress module page.vaddr then
        [.validateDataPage page module]
      else []

theorem mem_validatePage_iff {e : PageEvent} (he : e ≠ .executableDataPage) :
    e ∈ (v.validatePage options execData page).2 ↔ e ∈ v.pageEvents options page := by
  unfold validatePage pageEvents
  rw [if_neg (masked_ne (by decide))]
  split
  · exact Iff.rfl
  split
  · exact Iff.rfl
  split
  · split
    · simp [he]
    · exact Iff.rfl
  · exact Iff.rfl

/-- No page is left out, and what happens with one does not depend on the others. -/
theorem mem_validatePages_iff {pages : List PageInfo} {e : PageEvent}
    (he : e ≠ .executableDataPage) : e ∈ v.validatePages options execData pages ↔
      ∃ page ∈ pages, e ∈ v.pageEvents options page := by
  induction pages generalizing execData with
  | nil => simp [validatePages]
  | cons page pages ih =>
      rw [validatePages, if_neg (masked_ne (by decide)), List.mem_append,
        mem_validatePage_iff he, ih, List.exists_mem_cons_iff]

theorem page_of_mem_pageEvents {e : PageEvent} (h : e ∈ v.pageEvents options page) :
    e.page = some page := by
  unfold pageEvents at h
  split at h
  · split at h
    · obtain rfl := List.mem_singleton.mp h
      rfl
    · cases h
  split at h
  · obtain rfl := List.mem_singleton.mp h
    rfl
  split at h
  · obtain rfl := List.mem_singleton.mp h
    rfl
  · cases h

/-- The events about a page of the list. -/
theorem mem_validatePages_of_page {pages : List PageInfo} (hpage : page ∈ pages) {e : PageEvent}
    (he : e.page = some page) :
    e ∈ v.validatePages options execData pages ↔ e ∈ v.pageEvents options page := by
  have hne : e ≠ .executableDataPage := fun heq => by simp [heq, PageEvent.page] at he
  rw [mem_validatePages_iff hne]
  constructor
  · rintro ⟨page', -, hmem⟩
    have hsame := (page_of_mem_pageEvents hmem).symm.trans he
    rwa [Option.some.inj hsame] at hmem
  · intro hmem
    exact ⟨page, hpage, hmem⟩

theorem onlyEvent_of_pageEvents {pages : List PageInfo} (hpage : page ∈ pages)
    {event : PageEvent} (h : v.pageEvents options page = [event]) :
    OnlyEvent (v.validatePages options execData pages) page event := by
  intro e he
  rw [mem_validatePages_of_page hpage he, h, List.mem_singleton]

end

/-! ## All pages -/

/-- Both checks are switched on. -/
def bothOptions : ValidationOptions := ⟨true, true⟩

section

variable {v} {execData : Bool} {page : PageInfo} {pages : List PageInfo}
  {elf : KernelspaceLoaderRef}

theorem pageEvents_of_code (h : v.getModuleForAddress page.vaddr = some elf)
    (hcode : v.Claims page.vaddr elf .code) :
    v.pageEvents bothOptions page = [.validateCodePage page elf] := by
  have hcode := (claims_iff_of_found h).1.mp hcode
  simp [pageEvents, h, bothOptions, hcode]

theorem pageEvents_of_data (h : v.getModuleForAddress page.vaddr = some elf)
    (hcode : ¬ v.Claims page.vaddr elf .code) (hdata : v.Claims page.vaddr elf .data) :
    v.pageEvents bothOptions page = [.validateDataPage page elf] := by
  have hcode := mt (claims_iff_of_found h).1.mpr hcode
  have hdata := (claims_iff_of_found h).2.mp hdata
  simp [pageEvents, h, bothOptions, hcode, hdata]

theorem pageEvents_of_none (h : v.getModuleForAddress page.vaddr = none) :
    v.pageEvents bothOptions page = if page.executable then [.noModuleFound page] else [] := by
  simp [pageEvents, h]

theorem noModuleFound_mem_iff (hpage : page ∈ pages) :
    .noModuleFound page ∈ v.validatePages bothOptions execData pages ↔
      page.executable = true ∧ v.getModuleForAddress page.vaddr = none := by
  rw [mem_validatePages_of_page hpage rfl]
  cases h : v.getModuleForAddress page.vaddr with
  | none => simp [pageEvents_of_none h]
  | some elf =>
      by_cases hcode : v.Claims page.vaddr elf .code
      · simp [pageEvents_of_code h hcode]
      · simp [pageEvents_of_data h hcode ((claims_of_found h).resolve_left hcode)]

theorem routable_of_routed (hpage : page ∈ pages)
    (h : v.PageRouted (v.validatePages bothOptions execData pages) page) : v.Routable page := by
  refine ⟨fun hexcluded elf kind hclaims => ?_, fun hother elf hfound hend hdata => ?_,
    fun hother hexecutable hclaimed => ?_⟩
  · -- the loader that is found gets the page
    obtain ⟨elf, hfound⟩ := exists_claims_iff.mp ⟨elf, kind, hclaims⟩
    obtain ⟨hnocode, hnodata⟩ := h.excluded hexcluded elf
    rw [mem_validatePages_of_page hpage rfl] at hnocode hnodata
    by_cases hcode : v.Claims page.vaddr elf .code
    · exact hnocode (by simp [pageEvents_of_code hfound hcode])
    · have hdata := (claims_of_found hfound).resolve_left hcode
      exact hnodata (by simp [pageEvents_of_data hfound hcode hdata])
  · -- the end of the text is taken for code
    have hcode : v.Claims page.vaddr elf .code := by
      by_contra hno
      have hcontains := SectionInfo.containsMemAddress_of_endsAt hend
      rw [(claims_iff_of_found hfound).1] at hno
      cases elf with
      | kernel => exact hno hcontains
      | module m => exact hno hcontains
    have honly := h.data hother elf hfound hdata (not_holds_of_endsAt hend)
    have hmem := (honly (.validateDataPage page elf) rfl).mpr rfl
    rw [mem_validatePages_of_page hpage rfl, pageEvents_of_code hfound hcode] at hmem
    simp at hmem
  · -- no report is printed for a page that has a loader
    obtain ⟨elf, hfound⟩ := exists_claims_iff.mp hclaimed
    by_contra hno
    push Not at hno
    have hreport := (h.report hother).mpr ⟨hexecutable, hno⟩
    rw [noModuleFound_mem_iff hpage, hfound] at hreport
    cases hreport.2

theorem routed_of_routable (hpage : page ∈ pages) (h : v.Routable page) :
    v.PageRouted (v.validatePages bothOptions execData pages) page := by
  refine ⟨fun hexcluded elf => ?_, fun _ elf hfound hcode => ?_,
    fun hother elf hfound hdata hcode => ?_, fun hother => ?_⟩
  · rw [mem_validatePages_of_page hpage rfl, mem_validatePages_of_page hpage rfl]
    cases hfound : v.getModuleForAddress page.vaddr with
    | none =>
        rw [pageEvents_of_none hfound]
        split <;> simp
    | some elf =>
        obtain ⟨elf, kind, hclaims⟩ := exists_claims_iff.mpr ⟨elf, hfound⟩
        exact absurd hclaims (h.excluded hexcluded elf kind)
  · exact onlyEvent_of_pageEvents hpage (pageEvents_of_code hfound (claims_of_holds hcode))
  · -- the code is asked for first, but does not have the page, its end included
    have hnocode : ¬ v.Claims page.vaddr elf .code := fun hclaims =>
      h.text_end hother elf hfound (endsAt_of_claims hclaims hcode) hdata
    exact onlyEvent_of_pageEvents hpage
      (pageEvents_of_data hfound hnocode (claims_of_holds hdata))
  · rw [noModuleFound_mem_iff hpage]
    refine and_congr_right fun hexecutable => ⟨fun hnone elf kind hholds => ?_, fun hno => ?_⟩
    · exact not_claims_of_not_found hnone (claims_of_holds hholds)
    · by_contra hfound
      obtain ⟨elf, hfound⟩ := Option.ne_none_iff_exists'.mp hfound
      obtain ⟨elf, kind, hholds⟩ :=
        h.executable hother hexecutable (exists_claims_iff.mpr ⟨elf, hfound⟩)
      exact hno elf kind hholds

/-- **Every page of a list is routed** as it is to be exactly if the filters and the ends of
sections make no difference for any of them. -/
theorem pagesRouted_iff (v : KernelValidator) (execData : Bool) (pages : List PageInfo) :
    (∀ page ∈ pages, v.PageRouted (v.validatePages bothOptions execData pages) page) ↔
      ∀ page ∈ pages, v.Routable page :=
  forall₂_congr fun _ hpage => ⟨routable_of_routed hpage, routed_of_routable hpage⟩

end

/-- A kernel with a module, and with another one in the direct mapping. -/
def mappedModule : ElfModuleLoader := moduleAt "mapped" 0xffff880000000000

def twoModules : KernelValidator := { plainValidator with moduleMap := [firstModule, mappedModule] }

/-- The first page of the data of a module, which lies behind its text. -/
def firstDataPage : PageInfo := ⟨0xffffa0001000, false⟩

/-- Two pages of the direct mapping, one of them without a loader. -/
def mappedTextPage : PageInfo := ⟨0x880000000000, false⟩
def mappedOtherPage : PageInfo := ⟨0x881000000000, true⟩

theorem twoModules_events : twoModules.validatePages bothOptions false
      [firstDataPage, mappedTextPage, mappedOtherPage] =
    [.validateCodePage firstDataPage (.module firstModule),
      .validateCodePage mappedTextPage (.module mappedModule),
      .noModuleFound mappedOtherPage] := rfl

/-- A page of data is taken for code, and none of the two other pages is left out. -/
theorem twoModules_misrouted :
    mappedTextPage.Excluded ∧ mappedOtherPage.Excluded ∧
    ¬ twoModules.PageRouted (twoModules.validatePages bothOptions false
      [firstDataPage, mappedTextPage, mappedOtherPage]) mappedTextPage ∧
    ¬ twoModules.PageRouted (twoModules.validatePages bothOptions false
      [firstDataPage, mappedTextPage, mappedOtherPage]) firstDataPage := by
  have hfound : twoModules.getModuleForAddress firstDataPage.vaddr =
      some (.module firstModule) := by decide
  have hdata : twoModules.Holds firstDataPage.vaddr (.module firstModule) .data :=
    ⟨List.mem_cons_self, firstModule.dataSection, List.mem_cons_self, rfl⟩
  have hcode : ¬ twoModules.Holds firstDataPage.vaddr (.module firstModule) .code := by
    rintro ⟨-, s, hs, hholds⟩
    obtain rfl := List.mem_singleton.mp hs
    cases hholds
  refine ⟨.inl (by decide), .inl (by decide), fun h => ?_, fun h => ?_⟩
  · have hno := (h.excluded (.inl (by decide)) (.module mappedModule)).1
    rw [twoModules_events] at hno
    simp at hno
  · have honly := h.data (by decide) _ hfound hdata hcode
    have hmem := (honly (.validateDataPage firstDataPage (.module firstModule)) rfl).mpr rfl
    rw [twoModules_events] at hmem
    simp at hmem

end KernelValidator

end KernInt
