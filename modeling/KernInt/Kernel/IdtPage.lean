import KernInt.Kernel.KernelValidator
import KernInt.Lib.Blocks
import KernInt.Lib.Scan

set_option autoImplicit false

/-! # The interrupt descriptor tables

`validateDataPage` takes the page at `idt_table`, and the one at `nmi_idt_table`, for a table of
gates of 16 bytes, and looks where each of them leads. The target of a gate is spread over three
places: its lowest two bytes are in front of the selector and the flags, the others behind them.

A gate is passed if its target is a function, a symbol or null, or the entry stub that its place in
the table has. `validateIdt_exact` says of the whole page what is reported, and of the selector
and the flags that they are not looked at.
-/

namespace KernInt

open Lib

/-- A gate of an interrupt descriptor table. -/
structure Gate where
  offset : U64
  selector : BitVec 16
  ist : Byte
  typeAttr : Byte
  reserved : U32
  deriving DecidableEq

/-- The 16 bytes of a gate. -/
def Gate.encode (g : Gate) : List Byte :=
  (bytes64 g.offset).take 2 ++ bytes16 g.selector ++ [g.ist, g.typeAttr] ++
    (bytes64 g.offset).drop 2 ++ bytes32 g.reserved

theorem Gate.length_encode (g : Gate) : g.encode.length = 16 := rfl

example : Gate.encode ⟨0xffffffff81501234, 0x10, 0, 0x8e, 0⟩ =
    [0x34, 0x12, 0x10, 0, 0, 0x8e, 0x50, 0x81, 0xff, 0xff, 0xff, 0xff, 0, 0, 0, 0] := by decide

/-- The page as `readVectorFromVA` has read it, of one of the sizes of the hardware, and what the
host has behind its end. -/
structure IdtPage where
  vaddr : U64
  size : Nat
  page : List Byte
  hostPage : Nat → Byte
  page_length : page.length = size
  size_mem : size ∈ [0x1000, 0x200000, 0x400000, 0x40000000]

/-- What `initData` has looked up, and the symbols that are asked for a target. -/
structure IdtTargets where
  symbols : KernelSymbols
  idt_tableAddress : U64
  nmi_idt_tableAddress : U64
  sinittextAddress : U64
  irq_entries_startAddress : U64

/-- A gate that could not be verified, with what is printed of it. -/
structure IdtReport where
  idtPtr : U64
  address : U64
  padding : U32
  deriving DecidableEq

namespace IdtPage

variable (p : IdtPage)

/-- `pageInMem[i]`. -/
def pageInMem (i : Nat) : Byte := bufferOf p.page p.hostPage i

/-- The eight bytes at `pagePtr + 4`, the lowest two of them replaced by those at `pagePtr`. -/
def idtPtr (i : Nat) : U64 :=
  (load64 p.pageInMem (i + 4)).extractLsb' 16 48 ++ (p.pageInMem (i + 1) ++ p.pageInMem i)

/-- The four bytes at `pagePtr + 12`. -/
def padding (i : Nat) : U32 := load32 p.pageInMem (i + 12)

end IdtPage

namespace IdtTargets

variable (t : IdtTargets)

/-- The page is one of the two tables. -/
def isIdt (vaddr : U64) : Bool :=
  vaddr == (t.idt_tableAddress &&& 0xffffffffffff) ||
    vaddr == (t.nmi_idt_tableAddress &&& 0xffffffffffff)

/-- Where the entries from 33 on may lead: seven stubs of four bytes in each 32 bytes. -/
def irqEntry (k : Nat) : U64 :=
  t.irq_entries_startAddress + BitVec.ofNat 64 ((k - 0x20) % 7 * 4 + (k - 0x20) / 7 * 0x20)

/-- The gate at index `i` of the page is passed. -/
def accepts (i : Nat) (idtPtr : U64) (padding : U32) : Bool :=
  (t.symbols.isFunction idtPtr || t.symbols.isSymbol idtPtr || idtPtr == 0) && padding == 0 ||
  (decide (0x140 ≤ i) && decide (i < 0x210)) &&
    idtPtr == t.sinittextAddress + BitVec.ofNat 64 (i / 0x10 * 9) ||
  decide (0x210 ≤ i) && idtPtr == t.irqEntry (i / 0x10)

/-- The round of the loop at index `i`. -/
def idtStep (p : IdtPage) (i : Nat) : ScanStep IdtReport :=
  .pass 15 (if t.accepts i (p.idtPtr i) (p.padding i) then none
    else some ⟨p.idtPtr i, p.vaddr + BitVec.ofNat 64 i, p.padding i⟩)

/-- What is printed about a table. The scan never stops. -/
def validateIdt (p : IdtPage) : Option (List IdtReport) := scan (t.idtStep p) p.size 0

/-! ## What is to be reported -/

/-- The target is known, and the gate is filled up with zeros. -/
def KnownTarget (g : Gate) : Prop :=
  (t.symbols.isFunction g.offset = true ∨ t.symbols.isSymbol g.offset = true ∨ g.offset = 0) ∧
    g.reserved = 0

/-- The gate leads to the early handler or the entry stub of its number. -/
def OwnStub (k : Nat) (g : Gate) : Prop :=
  (0x14 ≤ k ∧ k < 0x21 ∧ g.offset = t.sinittextAddress + BitVec.ofNat 64 (k * 9)) ∨
    (0x21 ≤ k ∧ g.offset = t.irqEntry k)

/-- Gate number `k` is verified. -/
def Verified (k : Nat) (g : Gate) : Prop := t.KnownTarget g ∨ t.OwnStub k g

instance (g : Gate) : Decidable (t.KnownTarget g) := inferInstanceAs (Decidable (_ ∧ _))

instance (k : Nat) (g : Gate) : Decidable (t.OwnStub k g) := inferInstanceAs (Decidable (_ ∨ _))

instance (k : Nat) (g : Gate) : Decidable (t.Verified k g) := inferInstanceAs (Decidable (_ ∨ _))

/-- The report about gate number `k` of a table. -/
def gateReport (vaddr : U64) (g : Gate) (k : Nat) : Option IdtReport :=
  if t.Verified k g then none
  else some ⟨g.offset, vaddr + BitVec.ofNat 64 (16 * k), g.reserved⟩

end IdtTargets

/-! ## Gates and their bytes -/

theorem Gate.encode_injective : Function.Injective Gate.encode := by
  intro g g' h
  have hparts : ∀ k n, (g.encode.drop k).take n = (g'.encode.drop k).take n := by
    intro k n
    rw [h]
  have htarget : bytes64 g.offset = bytes64 g'.offset := by
    rw [← List.take_append_drop 2 (bytes64 g.offset), ← List.take_append_drop 2 (bytes64 g'.offset)]
    exact congrArg₂ (· ++ ·) (hparts 0 2) (hparts 6 6)
  have hselector : bytes16 g.selector = bytes16 g'.selector := hparts 2 2
  have hist : [g.ist] = [g'.ist] := hparts 4 1
  have htypeAttr : [g.typeAttr] = [g'.typeAttr] := hparts 5 1
  have hreserved : bytes32 g.reserved = bytes32 g'.reserved := hparts 12 4
  cases g
  cases g'
  simp only [Gate.mk.injEq]
  exact ⟨bytes64_injective htarget, bytes16_injective hselector, List.singleton_inj.mp hist,
    List.singleton_inj.mp htypeAttr, bytes32_injective hreserved⟩

/-- The lowest two bytes of a value, replaced by others. -/
theorem replaceLow (hi : U32) (b3 b2 b1 b0 c1 c0 : Byte) :
    ((hi ++ (b3 ++ b2 ++ b1 ++ b0) : U64).extractLsb' 16 48 ++ (c1 ++ c0) : U64) =
      hi ++ (b3 ++ b2 ++ c1 ++ c0) := by
  apply BitVec.eq_of_getLsbD_eq
  intro j hj
  simp only [BitVec.getLsbD_append, BitVec.getLsbD_extractLsb']
  by_cases hlow : j < 16
  · by_cases hlowest : j < 8
    · simp [hlow, hlowest, show j < 32 by omega]
    · simp [hlow, hlowest, show j < 32 by omega, show j - 8 < 8 by omega]
  · have hindex : 16 + (j - (8 + 8)) = j := by omega
    have hfits : j - (8 + 8) < 48 := by omega
    rw [hindex]
    simp [hlow, hfits, show ¬ j < 8 by omega, show ¬ j - 8 < 8 by omega]

namespace IdtPage

variable (p : IdtPage)

/-- The gate at index `i`. -/
def gateAt (i : Nat) : Gate where
  offset := p.idtPtr i
  selector := p.pageInMem (i + 3) ++ p.pageInMem (i + 2)
  ist := p.pageInMem (i + 4)
  typeAttr := p.pageInMem (i + 5)
  reserved := p.padding i

variable {p} {i : Nat} {gates : List Gate}

/-- Its bytes are those of the page. -/
theorem encode_gateAt (i : Nat) :
    (p.gateAt i).encode = (List.range 16).map fun j => p.pageInMem (i + j) := by
  have htarget : bytes64 (p.idtPtr i) =
      [p.pageInMem i, p.pageInMem (i + 1), p.pageInMem (i + 6), p.pageInMem (i + 7),
        p.pageInMem (i + 8), p.pageInMem (i + 9), p.pageInMem (i + 10), p.pageInMem (i + 11)] := by
    rw [idtPtr, load64]
    unfold load32
    rw [replaceLow, bytes64_append, bytes32_append, bytes32_append]
    rfl
  have hselector : bytes16 (p.gateAt i).selector =
      [p.pageInMem (i + 2), p.pageInMem (i + 3)] := bytes16_append _ _
  have hpadding : bytes32 (p.padding i) =
      [p.pageInMem (i + 12), p.pageInMem (i + 13), p.pageInMem (i + 14), p.pageInMem (i + 15)] := by
    rw [padding, load32, bytes32_append]
  show (bytes64 (p.idtPtr i)).take 2 ++ bytes16 (p.gateAt i).selector ++ [_, _] ++
    (bytes64 (p.idtPtr i)).drop 2 ++ bytes32 (p.padding i) = _
  rw [htarget, hselector, hpadding]
  rfl

theorem pageInMem_of_getElem? {k : Nat} {b : Byte} (h : p.page[k]? = some b) :
    p.pageInMem k = b := by
  rw [pageInMem, bufferOf, List.getD_eq_getElem?_getD, h, Option.getD_some]

/-- A page that is made of gates. -/
theorem gateAt_of_gates (h : p.page = gates.flatMap Gate.encode) {k : Nat} (hk : k < gates.length) :
    p.gateAt (16 * k) = gates[k] := by
  apply Gate.encode_injective
  rw [encode_gateAt]
  apply List.ext_getElem?
  intro j
  by_cases hj : j < 16
  · have hbyte := getElem?_records Gate.length_encode gates hk hj
    have hread : gates[k].encode[j]? = some gates[k].encode[j] := List.getElem?_eq_getElem hj
    rw [← h, hread] at hbyte
    rw [hread, List.getElem?_map, List.getElem?_range hj, Option.map_some,
      pageInMem_of_getElem? hbyte]
  · rw [List.getElem?_eq_none (by simpa using hj), List.getElem?_eq_none (Nat.not_lt.mp hj)]

theorem dvd_size (p : IdtPage) : 16 ∣ p.size := by
  have h := p.size_mem
  simp only [List.mem_cons, List.not_mem_nil, or_false] at h
  omega

/-- Every page is made of the gates that are read from it, and of no others. -/
theorem existsUnique_gates (p : IdtPage) :
    ∃ gates : List Gate, p.page = gates.flatMap Gate.encode ∧ p.size = 16 * gates.length ∧
      ∀ gates' : List Gate, p.page = gates'.flatMap Gate.encode → gates' = gates := by
  obtain ⟨m, hm⟩ := p.dvd_size
  have hlength : ∀ gates : List Gate, (gates.flatMap Gate.encode).length = 16 * gates.length := by
    intro gates
    induction gates with
    | nil => rfl
    | cons g gates ih =>
        rw [List.flatMap_cons, List.length_append, ih, Gate.length_encode, List.length_cons]
        omega
  let gates := (List.range m).map fun k => p.gateAt (16 * k)
  have hgates : gates.length = m := by simp [gates]
  refine ⟨gates, ?_, by rw [hgates, hm], fun gates' hgates' => ?_⟩
  · apply List.ext_getElem?
    intro n
    by_cases hn : n < p.size
    · have hk : n / 16 < gates.length := by omega
      have hbyte := getElem?_records Gate.length_encode gates hk (Nat.mod_lt n (by decide : 0 < 16))
      have hget : gates[n / 16] = p.gateAt (16 * (n / 16)) := by simp [gates]
      rw [Nat.div_add_mod, hget, encode_gateAt, List.getElem?_map,
        List.getElem?_range (Nat.mod_lt n (by decide)), Option.map_some, Nat.div_add_mod] at hbyte
      have hlt : n < p.page.length := p.page_length ▸ hn
      have hpage : p.page[n]? = some p.page[n] := List.getElem?_eq_getElem hlt
      rw [hbyte, pageInMem_of_getElem? hpage, hpage]
    · have hpage : p.page.length ≤ n := by
        rw [p.page_length]
        omega
      have hall : (gates.flatMap Gate.encode).length ≤ n := by
        rw [hlength, hgates]
        omega
      rw [List.getElem?_eq_none hpage, List.getElem?_eq_none hall]
  · have hsize : gates'.length = m := by
      have hpage := p.page_length
      rw [hgates', hlength] at hpage
      omega
    apply List.ext_getElem (by rw [hsize, hgates])
    intro k hk hk'
    rw [← gateAt_of_gates hgates' hk]
    simp [gates]

end IdtPage

namespace IdtTargets

variable {t : IdtTargets} {p : IdtPage} {g : Gate} {k : Nat} {gates : List Gate}

/-! ## One gate -/

theorem accepts_iff : t.accepts (16 * k) g.offset g.reserved = true ↔ t.Verified k g := by
  have hk : 16 * k / 0x10 = k := Nat.mul_div_cancel_left k (by decide)
  have hfirst : 0x140 ≤ 16 * k ↔ 0x14 ≤ k := by omega
  have hlast : 16 * k < 0x210 ↔ k < 0x21 := by omega
  have hirq : 0x210 ≤ 16 * k ↔ 0x21 ≤ k := by omega
  simp only [accepts, Verified, KnownTarget, OwnStub, hk, Bool.or_eq_true, Bool.and_eq_true,
    decide_eq_true_iff, beq_iff_eq, hfirst, hlast, hirq, or_assoc, and_assoc]

theorem note_idtStep (h : p.gateAt (16 * k) = g) :
    (t.idtStep p (16 * k)).note = t.gateReport p.vaddr g k := by
  subst h
  show (if t.accepts (16 * k) (p.gateAt (16 * k)).offset (p.gateAt (16 * k)).reserved then none
    else some _) = _
  unfold gateReport
  by_cases hv : t.Verified k (p.gateAt (16 * k))
  · rw [if_pos hv, if_pos (accepts_iff.mpr hv)]
  · rw [if_neg hv, if_neg (mt accepts_iff.mp hv)]
    rfl

/-- **What is printed about a table** is what its gates are to be reported for. -/
theorem validateIdt_of_gates (h : p.page = gates.flatMap Gate.encode)
    (hsize : p.size = 16 * gates.length) :
    t.validateIdt p = some (gates.zipIdx.filterMap fun x => t.gateReport p.vaddr x.1 x.2) := by
  have hscan := scan_of_stride (fun i => ⟨_, rfl⟩ : ∀ i, ∃ note, t.idtStep p i = .pass 15 note)
    gates.length
  have hmap : (List.range gates.length).map (fun k => (t.idtStep p (16 * k)).note) =
      gates.zipIdx.map fun x => t.gateReport p.vaddr x.1 x.2 := by
    apply List.ext_getElem (by simp)
    intro k hk _
    have hlt : k < gates.length := by simpa using hk
    simp [note_idtStep (p.gateAt_of_gates h hlt)]
  have hnotes := congrArg (List.filterMap id) hmap
  rw [List.filterMap_map, List.filterMap_map] at hnotes
  rw [validateIdt, hsize]
  exact hscan.trans (congrArg some hnotes)

/-- No two gates from number 33 on have the same stub. -/
theorem irqEntry_injective {k k' : Nat} (hk : k < 2 ^ 26) (hk' : k' < 2 ^ 26)
    (hfirst : 0x21 ≤ k) (hfirst' : 0x21 ≤ k') (h : t.irqEntry k = t.irqEntry k') : k = k' := by
  have hoffset := congrArg BitVec.toNat ((BitVec.add_right_inj _).mp h)
  rw [BitVec.toNat_ofNat, BitVec.toNat_ofNat] at hoffset
  omega

theorem gateReport_congr {vaddr : U64} {g g' : Gate} (hoffset : g'.offset = g.offset)
    (hreserved : g'.reserved = g.reserved) : t.gateReport vaddr g' k = t.gateReport vaddr g k := by
  have hverified : t.Verified k g' ↔ t.Verified k g := by
    unfold Verified KnownTarget OwnStub
    rw [hoffset, hreserved]
  unfold gateReport
  rw [hoffset, hreserved]
  exact if_congr hverified rfl rfl

/-- What is printed depends on the targets and the last four bytes of the gates only. -/
theorem gateReports_congr {vaddr : U64} {gates gates' : List Gate}
    (h : gates'.map (fun g => (g.offset, g.reserved)) = gates.map fun g => (g.offset, g.reserved)) :
    (gates'.zipIdx.filterMap fun x => t.gateReport vaddr x.1 x.2) =
      gates.zipIdx.filterMap fun x => t.gateReport vaddr x.1 x.2 := by
  have hlength : gates'.length = gates.length := by simpa using congrArg List.length h
  have hmap : gates'.zipIdx.map (fun x => t.gateReport vaddr x.1 x.2) =
      gates.zipIdx.map fun x => t.gateReport vaddr x.1 x.2 := by
    apply List.ext_getElem (by simp [hlength])
    intro k hk hk'
    have hlt : k < gates'.length := by simpa using hk
    have hsame := List.getElem_of_eq h (i := k) (by simpa using hlt)
    simp only [List.getElem_map, Prod.mk.injEq] at hsame
    simp only [List.getElem_map, List.getElem_zipIdx, Nat.zero_add]
    exact gateReport_congr hsame.1 hsame.2
  have hreports := congrArg (List.filterMap id) hmap
  rwa [List.filterMap_map, List.filterMap_map] at hreports

/-- **What is found out about an interrupt table**: a page is made of the gates that are read from
it, and exactly those are reported, each with its target and its place, that are not verified.
The selectors and the flags make no difference; and a foreign target is verified in one of the
gates from number 33 on at most, the one whose stub it is. -/
theorem validateIdt_exact (t : IdtTargets) (p : IdtPage) :
    ∃ gates : List Gate, p.page = gates.flatMap Gate.encode ∧
      (∀ gates' : List Gate, p.page = gates'.flatMap Gate.encode → gates' = gates) ∧
      t.validateIdt p = some (gates.zipIdx.filterMap fun x => t.gateReport p.vaddr x.1 x.2) ∧
      (∀ p' : IdtPage, p'.vaddr = p.vaddr → ∀ gates' : List Gate, p'.page = gates'.flatMap Gate.encode →
        gates'.map (fun g => (g.offset, g.reserved)) = gates.map (fun g => (g.offset, g.reserved)) →
        t.validateIdt p' = t.validateIdt p) ∧
      ∀ g, ¬ t.KnownTarget g → ∀ k k', 0x21 ≤ k → 0x21 ≤ k' → k < gates.length →
        k' < gates.length → t.Verified k g → t.Verified k' g → k = k' := by
  obtain ⟨gates, hpage, hsize, hunique⟩ := p.existsUnique_gates
  refine ⟨gates, hpage, hunique, validateIdt_of_gates hpage hsize, ?_, ?_⟩
  · intro p' hvaddr gates' hpage' hsame
    obtain ⟨gates'', hpage'', hsize'', hunique'⟩ := p'.existsUnique_gates
    obtain rfl := hunique' gates' hpage'
    rw [validateIdt_of_gates hpage hsize, validateIdt_of_gates hpage' hsize'', hvaddr,
      gateReports_congr hsame]
  · intro g hforeign k k' hfirst hfirst' hk hk' hverified hverified'
    have hstub : ∀ n, 0x21 ≤ n → t.Verified n g → g.offset = t.irqEntry n := by
      intro n hn h
      rcases h.resolve_left hforeign with ⟨-, hlt, -⟩ | ⟨-, h⟩
      · omega
      · exact h
    have hbound : gates.length ≤ 2 ^ 26 := by
      have hmem := p.size_mem
      simp only [List.mem_cons, List.not_mem_nil, or_false] at hmem
      omega
    apply irqEntry_injective (by omega) (by omega) hfirst hfirst'
    exact (hstub k hfirst hverified).symm.trans (hstub k' hfirst' hverified')

end IdtTargets

end KernInt
