import KernInt.Lib.Memory
import KernInt.Lib.Rearrange
import Mathlib.Data.List.TakeWhile

set_option autoImplicit false

/-! # Patches

A list of patches is applied to a memory. Each patch brings a cell that it may share with other
patches up to date and stores a word that depends on the cell; a patch that cannot be applied
ends the run. The order of a list matters for two reasons: of two patches that reach the same
byte the later one decides, and the words depend on how often a cell was updated before.
`settled_iff` says exactly when neither has an effect.
-/

namespace Lib

universe u v w

/-- What there is to know about patches `ι` with cells `κ`: the cell of a patch and how it is
updated, where and how wide the patch is, the word it stores, and whether it can be applied. -/
structure Patching (ι : Type u) (κ : Type v) (υ : Type w) where
  key : ι → κ
  step : κ → υ → υ
  addr : ι → U64
  width : ι → Nat
  word : ι → υ → U64
  applies : ι → Bool

namespace Patching

variable {ι : Type u} {κ : Type v} {υ : Type w} (P : Patching ι κ υ)

def store (e : ι) (v : υ) : Store := ⟨P.addr e, P.width e, P.word e v⟩

/-- The patch writes the address. -/
def Reaches (e : ι) (a : U64) : Prop := (a - P.addr e).toNat < P.width e

instance (a : U64) : DecidablePred fun e => P.Reaches e a :=
  fun _ => inferInstanceAs (Decidable (_ < _))

/-- The byte that the patch puts at an address, when its cell holds `v`. -/
def byteAt (e : ι) (v : υ) (a : U64) : Byte := (P.store e v).byteAt a

/-- The patches that are applied. -/
def applied (l : List ι) : List ι := l.takeWhile P.applies

variable {P} in
theorem applied_eq_self {l : List ι} (h : ∀ e ∈ l, P.applies e) : P.applied l = l := by
  rw [applied, List.takeWhile_eq_self_iff]
  exact h

variable [DecidableEq κ] (cells : κ → υ) (mem : Memory)

/-- The cells in the end. -/
def finalCells (l : List ι) : κ → υ := updates P.key P.step cells (P.applied l)

/-- The memory in the end. -/
def finalMem (l : List ι) : Memory :=
  applyStores (emits P.key P.step P.store cells (P.applied l)) mem

/-- The cell of a patch, when the patch is the one behind `m` others with the same cell. -/
def cellAfter (m : Nat) (e : ι) : υ := (P.step (P.key e))^[m + 1] (cells (P.key e))

/-! ## The properties -/

/-- No byte outside the fields of the patches changes. -/
def OnlyFields (Field : ι → U64 → Prop) (l : List ι) : Prop :=
  ∀ a, (∀ e ∈ l, ¬ Field e a) → P.finalMem cells mem l a = mem a

/-- Any other order gives the same memory and the same cells. -/
def OrderIndependent (l : List ι) : Prop :=
  ∀ l', l'.Perm l →
    P.finalMem cells mem l' = P.finalMem cells mem l ∧ P.finalCells cells l' = P.finalCells cells l

/-- The patch can be the last one to write the address, behind `m` patches with its cell. -/
def DecidesLast [DecidableEq ι] (l : List ι) (a : U64) (e : ι) (m : Nat) : Prop :=
  CanComeLast P.key (fun e => P.Reaches e a) l e m ∧ P.Reaches e a

/-- Whichever patch comes last at an address, the byte is the same; outside the fields it is
the byte that was there. -/
def LastAgree [DecidableEq ι] (Field : ι → U64 → Prop) (l : List ι) : Prop :=
  ∀ a e m, P.DecidesLast l a e m →
    (∀ e' m', P.DecidesLast l a e' m' →
      P.byteAt e (P.cellAfter cells m e) a = P.byteAt e' (P.cellAfter cells m' e') a) ∧
    ((∀ e' ∈ l, ¬ Field e' a) → P.byteAt e (P.cellAfter cells m e) a = mem a)

/-- The patches that can be applied change neither their cell nor the memory. -/
def Idle (l : List ι) : Prop :=
  ∀ e ∈ l, P.applies e → P.step (P.key e) (cells (P.key e)) = cells (P.key e) ∧
    ∀ a, P.Reaches e a → P.byteAt e (cells (P.key e)) a = mem a

variable {P cells mem}

/-! ## One patch after the other -/

theorem final_cons_of_applies (cells : κ → υ) (mem : Memory) {e : ι} {l : List ι}
    (h : P.applies e) :
    P.finalMem cells mem (e :: l) =
        P.finalMem (update P.key P.step cells e)
          ((P.store e (P.step (P.key e) (cells (P.key e)))).apply mem) l ∧
      P.finalCells cells (e :: l) = P.finalCells (update P.key P.step cells e) l := by
  have happlied : P.applied (e :: l) = e :: P.applied l := List.takeWhile_cons_of_pos h
  rw [finalMem, finalCells, happlied]
  exact ⟨rfl, rfl⟩

theorem final_cons_of_stop (cells : κ → υ) (mem : Memory) {e : ι} {l : List ι}
    (h : P.applies e = false) :
    P.finalMem cells mem (e :: l) = mem ∧ P.finalCells cells (e :: l) = cells := by
  have happlied : P.applied (e :: l) = [] := List.takeWhile_cons_of_neg (by rw [h]; decide)
  rw [finalMem, finalCells, happlied]
  exact ⟨rfl, rfl⟩

/-! ## Bytes in the end -/

/-- The byte that the last patch at an address has put there. -/
theorem byte_of_last {l pre post : List ι} {e : ι} {a : U64} (hl : P.applied l = pre ++ e :: post)
    (he : P.Reaches e a) (hpost : ∀ x ∈ post, ¬ P.Reaches x a) :
    P.finalMem cells mem l a = P.byteAt e (P.cellAfter cells (uses P.key (P.key e) pre) e) a := by
  rw [finalMem, hl, emits_split]
  refine applyStores_of_last (by exact he) (fun s hs => ?_) mem
  obtain ⟨x, hx, v, rfl⟩ := exists_of_mem_emits hs
  exact hpost x hx

theorem byte_of_unreached {l : List ι} {a : U64} (h : ∀ e ∈ P.applied l, ¬ P.Reaches e a) :
    P.finalMem cells mem l a = mem a := by
  refine applyStores_of_untouched (fun s hs => ?_) mem
  obtain ⟨x, hx, v, rfl⟩ := exists_of_mem_emits hs
  exact h x hx

theorem finalCells_perm {l l' : List ι} (happlies : ∀ e ∈ l, P.applies e) (hperm : l'.Perm l) :
    P.finalCells cells l' = P.finalCells cells l := by
  rw [finalCells, finalCells, applied_eq_self happlies,
    applied_eq_self fun e he => happlies e (hperm.subset he)]
  exact updates_perm cells hperm

/-- Patches that are idle leave everything as it was, in whatever order. -/
theorem final_of_idle {l : List ι} (hidle : P.Idle cells mem l) {l' : List ι}
    (hsub : ∀ e ∈ l', e ∈ l) :
    P.finalMem cells mem l' = mem ∧ P.finalCells cells l' = cells := by
  have happlied : ∀ e ∈ P.applied l', e ∈ l ∧ P.applies e := fun e he =>
    ⟨hsub e ((List.takeWhile_prefix _).subset he), List.mem_takeWhile_imp he⟩
  have hcell : ∀ e ∈ P.applied l', ∀ n, (P.step (P.key e))^[n] (cells (P.key e)) =
      cells (P.key e) := fun e he n =>
    Function.iterate_fixed (hidle e (happlied e he).1 (happlied e he).2).1 n
  constructor
  · funext a
    by_cases hreach : ∃ e ∈ P.applied l', P.Reaches e a
    · obtain ⟨pre, e, post, hl', he, hpost⟩ := exists_last hreach
      have hmem : e ∈ P.applied l' := hl' ▸ List.mem_append_right pre List.mem_cons_self
      rw [byte_of_last hl' he hpost, cellAfter, hcell e hmem]
      exact (hidle e (happlied e hmem).1 (happlied e hmem).2).2 a he
    · exact byte_of_unreached fun e he hr => hreach ⟨e, he, hr⟩
  · funext k
    rw [finalCells, updates_apply]
    by_cases hk : ∃ e ∈ P.applied l', P.key e = k
    · obtain ⟨e, he, rfl⟩ := hk
      exact hcell e he _
    · have hnone : uses P.key k (P.applied l') = 0 := by
        rw [uses, List.countP_eq_zero]
        intro e he
        simpa using fun hkey => hk ⟨e, he, hkey⟩
      rw [hnone]
      rfl

variable [DecidableEq ι] {Field : ι → U64 → Prop} {l : List ι}

/-! ## All patches can be applied -/

section

variable (happlies : ∀ e ∈ l, P.applies e)

include happlies

/-- In every order, a byte is the one of a patch that can come last there, or no patch reaches
it. -/
theorem decidesLast_or_unreached (cells : κ → υ) (mem : Memory) {l' : List ι}
    (hperm : l'.Perm l) (a : U64) :
    (∃ e m, P.DecidesLast l a e m ∧
      P.finalMem cells mem l' a = P.byteAt e (P.cellAfter cells m e) a) ∨
    (∀ e ∈ l, ¬ P.Reaches e a) ∧ P.finalMem cells mem l' a = mem a := by
  have happlied : P.applied l' = l' := applied_eq_self fun e he => happlies e (hperm.subset he)
  by_cases hreach : ∃ e ∈ l', P.Reaches e a
  · obtain ⟨pre, e, post, hl', he, hpost⟩ := exists_last hreach
    have hlast : CanComeLast P.key (fun e => P.Reaches e a) l e (uses P.key (P.key e) pre) :=
      exists_arrangement_iff.mp ⟨pre, post, hl' ▸ hperm, rfl, hpost⟩
    exact .inl ⟨e, _, ⟨hlast, he⟩, byte_of_last (happlied.trans hl') he hpost⟩
  · have hnone : ∀ e ∈ l', ¬ P.Reaches e a := fun e he hr => hreach ⟨e, he, hr⟩
    refine .inr ⟨fun e he => hnone e (hperm.mem_iff.mpr he), byte_of_unreached ?_⟩
    rw [happlied]
    exact hnone

/-- Every patch that can come last at an address does so in some order. -/
theorem exists_order_of_decidesLast (cells : κ → υ) (mem : Memory) {a : U64} {e : ι} {m : Nat}
    (h : P.DecidesLast l a e m) :
    ∃ l', l'.Perm l ∧ P.finalMem cells mem l' a = P.byteAt e (P.cellAfter cells m e) a := by
  obtain ⟨pre, post, hperm, rfl, hpost⟩ := exists_arrangement_iff.mpr h.1
  have happlied : P.applied (pre ++ e :: post) = pre ++ e :: post :=
    applied_eq_self fun x hx => happlies x (hperm.subset hx)
  exact ⟨_, hperm, byte_of_last happlied h.2 hpost⟩

theorem lastAgree_iff_of_applies :
    (P.OnlyFields cells mem Field l ∧ P.OrderIndependent cells mem l) ↔
      P.LastAgree cells mem Field l := by
  constructor
  · rintro ⟨hfields, horder⟩ a e m he
    obtain ⟨l₁, hl₁, hbyte₁⟩ := exists_order_of_decidesLast happlies cells mem he
    rw [(horder l₁ hl₁).1] at hbyte₁
    refine ⟨fun e' m' he' => ?_, fun hout => ?_⟩
    · obtain ⟨l₂, hl₂, hbyte₂⟩ :=
        exists_order_of_decidesLast happlies cells mem he'
      rw [(horder l₂ hl₂).1] at hbyte₂
      exact hbyte₁.symm.trans hbyte₂
    · exact hbyte₁.symm.trans (hfields a hout)
  · intro hagree
    constructor
    · intro a hout
      rcases decidesLast_or_unreached happlies cells mem (List.Perm.refl l) a
        with ⟨e, m, he, hbyte⟩ | ⟨_, hbyte⟩
      · exact hbyte.trans ((hagree a e m he).2 hout)
      · exact hbyte
    · intro l' hperm
      refine ⟨funext fun a => ?_, finalCells_perm happlies hperm⟩
      rcases decidesLast_or_unreached happlies cells mem hperm a
        with ⟨e, m, he, hbyte⟩ | ⟨hnone, hbyte⟩
      · rcases decidesLast_or_unreached happlies cells mem (List.Perm.refl l) a
          with ⟨e', m', he', hbyte'⟩ | ⟨hnone', _⟩
        · exact hbyte.trans (((hagree a e m he).1 e' m' he').trans hbyte'.symm)
        · exact absurd he.2 (hnone' e he.1.1)
      · rcases decidesLast_or_unreached happlies cells mem (List.Perm.refl l) a
          with ⟨e', m', he', _⟩ | ⟨_, hbyte'⟩
        · exact absurd he'.2 (hnone e' he'.1.1)
        · exact hbyte.trans hbyte'.symm

end

/-! ## Some patch cannot be applied -/

theorem idle_iff_of_not_applies {f : ι} (hf : f ∈ l) (hstop : P.applies f = false) :
    (P.OnlyFields cells mem Field l ∧ P.OrderIndependent cells mem l) ↔ P.Idle cells mem l := by
  constructor
  · rintro ⟨_, horder⟩
    -- with `f` in front nothing is done, and with `e` in front of `f` only `e` is applied
    have hfirst : P.applied (f :: l.erase f) = [] :=
      List.takeWhile_cons_of_neg (by rw [hstop]; decide)
    obtain ⟨hmem, hcells⟩ := horder _ (List.perm_cons_erase hf).symm
    intro e he happly
    have hne : e ≠ f := by
      rintro rfl
      rw [hstop] at happly
      cases happly
    have hperm : (e :: f :: (l.erase f).erase e).Perm l :=
      ((List.Perm.swap f e _).trans
        ((List.perm_cons_erase ((List.mem_erase_of_ne hne).mpr he)).symm.cons f)).trans
        (List.perm_cons_erase hf).symm
    have hone : P.applied (e :: f :: (l.erase f).erase e) = [e] := by
      rw [applied, List.takeWhile_cons_of_pos happly,
        List.takeWhile_cons_of_neg (by rw [hstop]; decide)]
    obtain ⟨hmem', hcells'⟩ := horder _ hperm
    rw [← hmem] at hmem'
    rw [← hcells] at hcells'
    rw [finalCells, finalCells, hfirst, hone] at hcells'
    rw [finalMem, finalMem, hfirst, hone] at hmem'
    have hcell : P.step (P.key e) (cells (P.key e)) = cells (P.key e) := by
      have := congrFun hcells' (P.key e)
      simpa [updates, update] using this
    refine ⟨hcell, fun a ha => ?_⟩
    have hbyte : (P.store e (P.step (P.key e) (cells (P.key e)))).apply mem a = mem a :=
      congrFun hmem' a
    rw [Store.apply_of_covers (by exact ha), hcell] at hbyte
    exact hbyte
  · intro hidle
    constructor
    · intro a _
      exact congrFun (final_of_idle hidle fun _ he => he).1 a
    · intro l' hperm
      obtain ⟨hmem, hcells⟩ := final_of_idle hidle fun _ he => he
      obtain ⟨hmem', hcells'⟩ := final_of_idle hidle fun e he => hperm.subset he
      exact ⟨hmem'.trans hmem.symm, hcells'.trans hcells.symm⟩

/-! ## The condition -/

variable (P cells mem Field l) in
/-- Either all patches can be applied and agree wherever several can come last, or those that
can be applied are idle. -/
def Settled : Prop :=
  ((∀ e ∈ l, P.applies e) → P.LastAgree cells mem Field l) ∧
    ((∃ e ∈ l, P.applies e = false) → P.Idle cells mem l)

/-- **When patches only touch their fields and their order does not matter.** -/
theorem settled_iff :
    (P.OnlyFields cells mem Field l ∧ P.OrderIndependent cells mem l) ↔
      P.Settled cells mem Field l := by
  by_cases hstop : ∃ e ∈ l, P.applies e = false
  · obtain ⟨f, hf, hfstop⟩ := hstop
    rw [idle_iff_of_not_applies hf hfstop]
    refine ⟨fun h => ⟨fun happlies => ?_, fun _ => h⟩, fun h => h.2 ⟨f, hf, hfstop⟩⟩
    have := happlies f hf
    rw [hfstop] at this
    cases this
  · have happlies : ∀ e ∈ l, P.applies e := by
      intro e he
      by_contra hne
      exact hstop ⟨e, he, by simpa using hne⟩
    rw [lastAgree_iff_of_applies happlies]
    exact ⟨fun h => ⟨fun _ => h, fun hs => absurd hs hstop⟩, fun h => h.1 happlies⟩

end Patching

end Lib
