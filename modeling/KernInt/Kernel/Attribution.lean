import KernInt.Elf.ElfFile
import KernInt.Lib.Overlay
import Mathlib.Data.List.Pairwise

set_option autoImplicit false

/-! # To which loader an address belongs

`getModuleForCodeAddress` and `getModuleForAddress` ask the kernel first and then the modules,
in the order of an unordered map. A section counts the address behind its end as its own. So of
disjoint sections two may claim the same address, and the answer may depend on the order; this
happens at the ends of sections and nowhere else (`attribution_unambiguous_iff`).
-/

namespace KernInt

open Lib

structure ElfModuleLoader where
  name : String
  textSegment : SectionInfo
  dataSection : SectionInfo
  bssSection : SectionInfo
  deriving DecidableEq

structure ElfKernelLoader where
  elffile : ElfFile
  textSegment : SectionInfo

inductive AddressKind where
  | code
  | data
  deriving DecidableEq

/-- The upper bits that are set in every address before it is looked up. -/
def kernelAddress (addr : U64) : U64 := addr ||| 0xffff000000000000

namespace ElfModuleLoader

variable (m : ElfModuleLoader)

def isCodeAddress (addr : U64) : Bool := m.textSegment.containsMemAddress (kernelAddress addr)

def isDataAddress (addr : U64) : Bool :=
  m.dataSection.containsMemAddress (kernelAddress addr) ||
    m.bssSection.containsMemAddress (kernelAddress addr)

def sectionsOf : AddressKind → List SectionInfo
  | .code => [m.textSegment]
  | .data => [m.dataSection, m.bssSection]

def sections : List SectionInfo := m.sectionsOf .code ++ m.sectionsOf .data

variable {m}

theorem mem_sections {s : SectionInfo} {kind : AddressKind} (h : s ∈ m.sectionsOf kind) :
    s ∈ m.sections := by
  cases kind with
  | code => exact List.mem_append_left _ h
  | data => exact List.mem_append_right _ h

end ElfModuleLoader

/-- What the lookups return: the kernel or a module. -/
inductive KernelspaceLoaderRef where
  | kernel
  | module (m : ElfModuleLoader)
  deriving DecidableEq

namespace ElfKernelLoader

variable (k : ElfKernelLoader)

def isCodeAddress (addr : U64) : Bool := k.textSegment.containsMemAddress (kernelAddress addr)

def isDataAddress (addr : U64) : Bool := k.elffile.isDataAddress (kernelAddress addr)

/-- The iteration over `moduleMap` is in the order of the list. -/
def getModuleForCodeAddress (moduleMap : List ElfModuleLoader) (address : U64) :
    Option KernelspaceLoaderRef :=
  if k.isCodeAddress address then some .kernel
  else (moduleMap.find? fun m => m.isCodeAddress address).map .module

def getModuleForAddress (moduleMap : List ElfModuleLoader) (address : U64) :
    Option KernelspaceLoaderRef :=
  if k.isCodeAddress address || k.isDataAddress address then some .kernel
  else (moduleMap.find? fun m => m.isCodeAddress address || m.isDataAddress address).map .module

/-! ## Claims -/

/-- The loader takes the address for one of its own, of this kind. -/
def Claims (moduleMap : List ElfModuleLoader) (address : U64) :
    KernelspaceLoaderRef → AddressKind → Prop
  | .kernel, .code => k.isCodeAddress address
  | .kernel, .data => k.isDataAddress address
  | .module m, .code => m ∈ moduleMap ∧ m.isCodeAddress address
  | .module m, .data => m ∈ moduleMap ∧ m.isDataAddress address

/-- The sections that are compared with their ends included. -/
def closedSections (moduleMap : List ElfModuleLoader) : List SectionInfo :=
  k.textSegment :: moduleMap.flatMap ElfModuleLoader.sections

/-- An address belongs to at most one loader and kind, the lookups do not depend on the order of
the modules, and no section has the address behind its end. -/
structure Unambiguous (moduleMap : List ElfModuleLoader) (address : U64) : Prop where
  unique : ∀ l kind l' kind', k.Claims moduleMap address l kind →
    k.Claims moduleMap address l' kind' → l = l' ∧ kind = kind'
  order : ∀ order order', order.Perm moduleMap → order'.Perm moduleMap →
    k.getModuleForAddress order address = k.getModuleForAddress order' address ∧
    k.getModuleForCodeAddress order address = k.getModuleForCodeAddress order' address
  half_open : ∀ s ∈ k.closedSections moduleMap, kernelAddress address = s.memindex + s.size →
    s.containsMemAddress (kernelAddress address) = false

end ElfKernelLoader

/-! ## Disjoint sections -/

/-- The bytes of a section, without the address behind its end. -/
def SectionInfo.Holds (s : SectionInfo) (a : U64) : Prop := contains s.memindex s.size a

/-- The address behind the end of a section. -/
def SectionInfo.EndsAt (s : SectionInfo) (a : U64) : Prop :=
  s.memindex ≤ a ∧ a = s.memindex + s.size

def SectionInfo.Disjoint (s s' : SectionInfo) : Prop := ∀ a, s.Holds a → ¬ s'.Holds a

/-- No two of the code and data areas of the kernel and the modules share a byte. -/
structure DisjointAreas (k : ElfKernelLoader) (moduleMap : List ElfModuleLoader) : Prop where
  kernel : ∀ a, k.textSegment.Holds a → k.elffile.isDataAddress a = false
  kernel_module : ∀ m ∈ moduleMap, ∀ s ∈ m.sections, s.Disjoint k.textSegment ∧
    ∀ a, s.Holds a → k.elffile.isDataAddress a = false
  module : ∀ m ∈ moduleMap, m.sections.Pairwise SectionInfo.Disjoint
  modules : moduleMap.Pairwise fun m m' =>
    ∀ s ∈ m.sections, ∀ s' ∈ m'.sections, s.Disjoint s'

theorem SectionInfo.containsMemAddress_iff {s : SectionInfo} {a : U64} :
    s.containsMemAddress a = true ↔ s.memindex ≤ a ∧ a ≤ s.memindex + s.size := by
  rw [containsMemAddress, Bool.and_eq_true, decide_eq_true_iff, decide_eq_true_iff]

theorem SectionInfo.containsMemAddress_of_endsAt {s : SectionInfo} {a : U64} (h : s.EndsAt a) :
    s.containsMemAddress a = true :=
  containsMemAddress_iff.mpr ⟨h.1, h.2 ▸ BitVec.le_refl _⟩

/-- In front of its end, a section counts exactly its bytes. -/
theorem SectionInfo.holds_of_containsMemAddress {s : SectionInfo} {a : U64}
    (h : s.containsMemAddress a = true) (hend : ¬ s.EndsAt a) : s.Holds a := by
  obtain ⟨hle, hge⟩ := containsMemAddress_iff.mp h
  have hne : a ≠ s.memindex + s.size := fun heq => hend ⟨hle, heq⟩
  have hlt : a < s.memindex + s.size := by
    rw [Ne, ← BitVec.toNat_inj] at hne
    rw [BitVec.le_def] at hge
    rw [BitVec.lt_def]
    omega
  rw [Holds, contains, Bool.and_eq_true, decide_eq_true_iff, decide_eq_true_iff]
  exact ⟨hle, hlt⟩

namespace ElfKernelLoader

section

variable {k : ElfKernelLoader} {moduleMap : List ElfModuleLoader} {address : U64}

/-- A module claims an address, away from the ends of its sections, through one that holds it. -/
theorem exists_holds_of_claims {m : ElfModuleLoader} {kind : AddressKind}
    (hends : ∀ s ∈ k.closedSections moduleMap, ¬ s.EndsAt (kernelAddress address))
    (h : k.Claims moduleMap address (.module m) kind) :
    m ∈ moduleMap ∧ ∃ s ∈ m.sectionsOf kind, s.Holds (kernelAddress address) := by
  obtain ⟨hm, s, hs, hc⟩ : m ∈ moduleMap ∧
      ∃ s ∈ m.sectionsOf kind, s.containsMemAddress (kernelAddress address) = true := by
    cases kind with
    | code => exact ⟨h.1, _, List.mem_cons_self, h.2⟩
    | data =>
        rcases Bool.or_eq_true_iff.mp h.2 with hc | hc
        · exact ⟨h.1, _, List.mem_cons_self, hc⟩
        · exact ⟨h.1, _, List.mem_cons_of_mem _ List.mem_cons_self, hc⟩
  have hmem : s ∈ k.closedSections moduleMap :=
    List.mem_cons_of_mem _ (List.mem_flatMap.mpr ⟨m, hm, ElfModuleLoader.mem_sections hs⟩)
  exact ⟨hm, s, hs, SectionInfo.holds_of_containsMemAddress hc (hends s hmem)⟩

theorem kernel_not_module (hdisj : DisjointAreas k moduleMap)
    (hends : ∀ s ∈ k.closedSections moduleMap, ¬ s.EndsAt (kernelAddress address))
    {kind kind' : AddressKind} {m : ElfModuleLoader}
    (hk : k.Claims moduleMap address .kernel kind)
    (hm : k.Claims moduleMap address (.module m) kind') : False := by
  obtain ⟨hmem, s, hs, hholds⟩ := exists_holds_of_claims hends hm
  obtain ⟨htext, hdata⟩ := hdisj.kernel_module m hmem s (ElfModuleLoader.mem_sections hs)
  cases kind with
  | code =>
      refine htext _ hholds (SectionInfo.holds_of_containsMemAddress hk (hends _ ?_))
      exact List.mem_cons_self
  | data =>
      have hno : k.elffile.isDataAddress (kernelAddress address) = true := hk
      rw [hdata _ hholds] at hno
      cases hno

/-- The text of a module and its data are apart. -/
theorem module_kind_unique (hdisj : DisjointAreas k moduleMap)
    (hends : ∀ s ∈ k.closedSections moduleMap, ¬ s.EndsAt (kernelAddress address))
    {m : ElfModuleLoader} (hc : k.Claims moduleMap address (.module m) .code)
    (hd : k.Claims moduleMap address (.module m) .data) : False := by
  obtain ⟨hmem, s, hs, hholds⟩ := exists_holds_of_claims hends hc
  obtain ⟨-, s', hs', hholds'⟩ := exists_holds_of_claims hends hd
  have hapart := (List.pairwise_append.mp (hdisj.module m hmem)).2.2
  exact hapart s hs s' hs' _ hholds hholds'

theorem module_unique (hdisj : DisjointAreas k moduleMap)
    (hends : ∀ s ∈ k.closedSections moduleMap, ¬ s.EndsAt (kernelAddress address))
    {m m' : ElfModuleLoader} {kind kind' : AddressKind}
    (h : k.Claims moduleMap address (.module m) kind)
    (h' : k.Claims moduleMap address (.module m') kind') : m = m' := by
  obtain ⟨hm, s, hs, hholds⟩ := exists_holds_of_claims hends h
  obtain ⟨hm', s', hs', hholds'⟩ := exists_holds_of_claims hends h'
  by_contra hne
  have : Std.Symm fun m m' : ElfModuleLoader =>
      ∀ s ∈ m.sections, ∀ s' ∈ m'.sections, s.Disjoint s' :=
    ⟨fun m m' hd s hs s' hs' a ha ha' => hd s' hs' s hs a ha' ha⟩
  exact hdisj.modules.forall hm hm' hne s (ElfModuleLoader.mem_sections hs) s'
    (ElfModuleLoader.mem_sections hs') _ hholds hholds'

theorem claims_unique (hdisj : DisjointAreas k moduleMap)
    (hends : ∀ s ∈ k.closedSections moduleMap, ¬ s.EndsAt (kernelAddress address))
    {l l' : KernelspaceLoaderRef} {kind kind' : AddressKind}
    (h : k.Claims moduleMap address l kind) (h' : k.Claims moduleMap address l' kind') :
    l = l' ∧ kind = kind' := by
  cases l with
  | kernel =>
      cases l' with
      | kernel =>
          -- `isCodeAddress` counts the end of `.text` too, which may be a byte of the data
          have htext : ∀ hc : k.isCodeAddress address = true,
              k.isDataAddress address = false := by
            intro hc
            refine hdisj.kernel _ (SectionInfo.holds_of_containsMemAddress hc (hends _ ?_))
            exact List.mem_cons_self
          cases kind <;> cases kind'
          · exact ⟨rfl, rfl⟩
          · exact absurd ((htext h).symm.trans h') (by decide)
          · exact absurd ((htext h').symm.trans h) (by decide)
          · exact ⟨rfl, rfl⟩
      | module m => exact (kernel_not_module hdisj hends h h').elim
  | module m =>
      cases l' with
      | kernel => exact (kernel_not_module hdisj hends h' h).elim
      | module m' =>
          obtain rfl := module_unique hdisj hends h h'
          cases kind <;> cases kind'
          · exact ⟨rfl, rfl⟩
          · exact (module_kind_unique hdisj hends h h').elim
          · exact (module_kind_unique hdisj hends h' h).elim
          · exact ⟨rfl, rfl⟩

theorem exists_claims_of_isAddress {m : ElfModuleLoader} (hm : m ∈ moduleMap)
    (h : (m.isCodeAddress address || m.isDataAddress address) = true) :
    ∃ kind, k.Claims moduleMap address (.module m) kind := by
  rcases Bool.or_eq_true_iff.mp h with hc | hd
  · exact ⟨.code, hm, hc⟩
  · exact ⟨.data, hm, hd⟩

/-- Where at most one module claims the address, the modules can be asked in any order. -/
theorem lookups_perm
    (hunique : ∀ l kind l' kind', k.Claims moduleMap address l kind →
      k.Claims moduleMap address l' kind' → l = l' ∧ kind = kind')
    {order : List ElfModuleLoader} (hp : order.Perm moduleMap) :
    k.getModuleForAddress order address = k.getModuleForAddress moduleMap address ∧
    k.getModuleForCodeAddress order address = k.getModuleForCodeAddress moduleMap address := by
  have hmodule : ∀ m m', (∃ kind, k.Claims moduleMap address (.module m) kind) →
      (∃ kind, k.Claims moduleMap address (.module m') kind) → m = m' := by
    rintro m m' ⟨kind, h⟩ ⟨kind', h'⟩
    exact KernelspaceLoaderRef.module.inj (hunique _ _ _ _ h h').1
  constructor
  · unfold getModuleForAddress
    rw [find?_perm hp fun m hm m' hm' h h' => hmodule m m' (exists_claims_of_isAddress hm h)
      (exists_claims_of_isAddress hm' h')]
  · unfold getModuleForCodeAddress
    rw [find?_perm hp fun m hm m' hm' h h' => hmodule m m' ⟨.code, hm, h⟩ ⟨.code, hm', h'⟩]

/-- **Attribution is unambiguous** at an address exactly if it is not the address behind the end
of a section. -/
theorem attribution_unambiguous_iff (hdisj : DisjointAreas k moduleMap) :
    k.Unambiguous moduleMap address ↔
      ∀ s ∈ k.closedSections moduleMap, ¬ s.EndsAt (kernelAddress address) := by
  constructor
  · intro h s hs hend
    have hno := h.half_open s hs hend.2
    rw [SectionInfo.containsMemAddress_of_endsAt hend] at hno
    cases hno
  · intro hends
    have hunique : ∀ l kind l' kind', k.Claims moduleMap address l kind →
        k.Claims moduleMap address l' kind' → l = l' ∧ kind = kind' :=
      fun l kind l' kind' h h' => claims_unique hdisj hends h h'
    refine ⟨hunique, fun order order' hp hp' => ?_, fun s hs heq => ?_⟩
    · obtain ⟨hall, hcode⟩ := lookups_perm hunique hp
      obtain ⟨hall', hcode'⟩ := lookups_perm hunique hp'
      exact ⟨hall.trans hall'.symm, hcode.trans hcode'.symm⟩
    · by_contra hc
      have hc' := SectionInfo.containsMemAddress_iff.mp (Bool.not_eq_false _ ▸ hc)
      exact hends s hs ⟨hc'.1, heq⟩

end

end ElfKernelLoader

/-! ## Two modules side by side -/

theorem SectionInfo.disjoint_of_le {s s' : SectionInfo}
    (h : s.memindex.toNat + s.size.toNat ≤ s'.memindex.toNat) :
    s.Disjoint s' ∧ s'.Disjoint s := by
  have key : ∀ a, s.Holds a → s'.Holds a → False := by
    intro a ha ha'
    simp only [Holds, contains, Bool.and_eq_true, decide_eq_true_iff, BitVec.le_def, BitVec.lt_def,
      BitVec.toNat_add] at ha ha'
    have hmod := Nat.mod_le (s.memindex.toNat + s.size.toNat) (2 ^ 64)
    omega
  exact ⟨key, fun a ha ha' => key a ha' ha⟩

/-- One page. -/
def pageAt (memindex : U64) : SectionInfo :=
  { SectionInfo.empty with memindex := memindex, size := 0x1000 }

def moduleAt (name : String) (memindex : U64) : ElfModuleLoader where
  name := name
  textSegment := pageAt memindex
  dataSection := pageAt (memindex + 0x1000)
  bssSection := pageAt (memindex + 0x2000)

/-- A kernel without data. -/
def vmlinux : ElfKernelLoader where
  elffile := {
    e_type := ET_EXEC
    e_entry := 0
    fileContent := 0
    elf64Shdr := []
    shnum_lt := ElfFile.shnum_lt_nil
    rela := fun _ => []
    sym := fun _ _ => default
    symbolName := fun _ _ => "" }
  textSegment := pageAt 0xffffffff81000000

def firstModule : ElfModuleLoader := moduleAt "first" 0xffffffffa0000000
def secondModule : ElfModuleLoader := moduleAt "second" 0xffffffffa0003000

theorem mem_sections_moduleAt {name : String} {a : U64} {s : SectionInfo}
    (h : s ∈ (moduleAt name a).sections) :
    s = pageAt a ∨ s = pageAt (a + 0x1000) ∨ s = pageAt (a + 0x2000) := by
  simpa [ElfModuleLoader.sections, ElfModuleLoader.sectionsOf, moduleAt] using h

theorem disjointAreas_modules : DisjointAreas vmlinux [firstModule, secondModule] := by
  have hapart : ∀ a b : U64, a.toNat + 0x1000 ≤ b.toNat → (pageAt a).Disjoint (pageAt b) ∧
      (pageAt b).Disjoint (pageAt a) := fun a b h => SectionInfo.disjoint_of_le h
  refine ⟨fun _ _ => rfl, fun m hm s hs => ⟨?_, fun _ _ => rfl⟩, fun m hm => ?_, ?_⟩
  · simp only [List.mem_cons, List.not_mem_nil, or_false] at hm
    rcases hm with rfl | rfl
    · rcases mem_sections_moduleAt hs with rfl | rfl | rfl
      · exact (hapart _ _ (by decide)).2
      · exact (hapart _ _ (by decide)).2
      · exact (hapart _ _ (by decide)).2
    · rcases mem_sections_moduleAt hs with rfl | rfl | rfl
      · exact (hapart _ _ (by decide)).2
      · exact (hapart _ _ (by decide)).2
      · exact (hapart _ _ (by decide)).2
  · have hthree : ∀ a : U64, a.toNat + 0x2000 < 2 ^ 64 → ∀ name,
        (moduleAt name a).sections.Pairwise SectionInfo.Disjoint := by
      intro a ha name
      have h1 : (a + 0x1000).toNat = a.toNat + 0x1000 := by bv_omega
      have h2 : (a + 0x2000).toNat = a.toNat + 0x2000 := by bv_omega
      simp only [ElfModuleLoader.sections, ElfModuleLoader.sectionsOf, moduleAt, List.cons_append,
        List.nil_append, List.pairwise_cons, List.mem_cons, List.not_mem_nil, or_false,
        forall_eq_or_imp, forall_eq]
      exact ⟨⟨(hapart _ _ (by omega)).1, (hapart _ _ (by omega)).1⟩, (hapart _ _ (by omega)).1,
        fun _ h => h.elim, List.Pairwise.nil⟩
    simp only [List.mem_cons, List.not_mem_nil, or_false] at hm
    rcases hm with rfl | rfl
    · exact hthree _ (by decide) "first"
    · exact hthree _ (by decide) "second"
  · simp only [List.pairwise_cons, List.mem_cons, List.not_mem_nil, or_false, forall_eq]
    refine ⟨fun s hs s' hs' => ?_, fun _ h => h.elim, List.Pairwise.nil⟩
    have hlow : ∃ a : U64, s = pageAt a ∧ a.toNat + 0x1000 ≤ 0xffffffffa0003000 := by
      rcases mem_sections_moduleAt hs with rfl | rfl | rfl
      · exact ⟨_, rfl, by decide⟩
      · exact ⟨_, rfl, by decide⟩
      · exact ⟨_, rfl, by decide⟩
    have hhigh : ∃ a : U64, s' = pageAt a ∧ 0xffffffffa0003000 ≤ a.toNat := by
      rcases mem_sections_moduleAt hs' with rfl | rfl | rfl
      · exact ⟨_, rfl, by decide⟩
      · exact ⟨_, rfl, by decide⟩
      · exact ⟨_, rfl, by decide⟩
    obtain ⟨a, rfl, ha⟩ := hlow
    obtain ⟨b, rfl, hb⟩ := hhigh
    exact (hapart a b (by omega)).1

namespace ElfKernelLoader

theorem attribution_unambiguous_inside :
    vmlinux.Unambiguous [firstModule, secondModule] 0xffffffffa0003010 := by
  refine (attribution_unambiguous_iff disjointAreas_modules).mpr ?_
  intro s hs hend
  obtain ⟨a, rfl, ha⟩ : ∃ a, s = pageAt a ∧ a + 0x1000 ≠ 0xffffffffa0003010 := by
    simp only [closedSections, List.flatMap_cons, List.flatMap_nil, List.append_nil, List.mem_cons,
      List.mem_append] at hs
    rcases hs with rfl | hs | hs
    · exact ⟨_, rfl, by decide⟩
    · rcases mem_sections_moduleAt hs with rfl | rfl | rfl
      · exact ⟨_, rfl, by decide⟩
      · exact ⟨_, rfl, by decide⟩
      · exact ⟨_, rfl, by decide⟩
    · rcases mem_sections_moduleAt hs with rfl | rfl | rfl
      · exact ⟨_, rfl, by decide⟩
      · exact ⟨_, rfl, by decide⟩
      · exact ⟨_, rfl, by decide⟩
  exact ha hend.2.symm

/-- The first byte of the second module lies behind the end of the first one. Which of them it
is attributed to depends on the order of the map. -/
theorem attribution_depends_on_order :
    DisjointAreas vmlinux [firstModule, secondModule] ∧
    vmlinux.getModuleForAddress [firstModule, secondModule] 0xffffffffa0003000 =
      some (.module firstModule) ∧
    vmlinux.getModuleForAddress [secondModule, firstModule] 0xffffffffa0003000 =
      some (.module secondModule) ∧
    ¬ vmlinux.Unambiguous [firstModule, secondModule] 0xffffffffa0003000 := by
  have hfirst : vmlinux.getModuleForAddress [firstModule, secondModule] 0xffffffffa0003000 =
      some (.module firstModule) := by decide
  have hsecond : vmlinux.getModuleForAddress [secondModule, firstModule] 0xffffffffa0003000 =
      some (.module secondModule) := by decide
  refine ⟨disjointAreas_modules, hfirst, hsecond, fun h => ?_⟩
  have hsame := (h.order _ _ (List.Perm.refl _) (List.Perm.swap _ _ _)).1
  rw [hfirst, hsecond] at hsame
  exact absurd hsame (by decide)

end ElfKernelLoader

end KernInt
