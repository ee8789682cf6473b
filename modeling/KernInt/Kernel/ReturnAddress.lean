import KernInt.Kernel.StackPage

set_option autoImplicit false

/-! # Return addresses

`isReturnAddress` tries the lengths 2 to 7 for a call that ends at an offset of the text. The
disassembler prints the target of a direct call in hexadecimal, and the text is read back with
`strtol`, which has no value from `2^63` on: a target there, such as every address of the kernel,
becomes `0x7fffffffffffffff` (`isReturnAddress_exact_iff`).

The bytes that the disassembler is given begin at the offset or up to seven bytes in front of it,
and there are 10 or 20 of them, whatever the text has (`probesInside_iff`).
-/

namespace KernInt

open Lib

/-! ## Hexadecimal digits -/

/-- The text of an address, as the disassembler prints it. -/
def hexAddress (t : U64) : List Char := '0' :: 'x' :: Nat.toDigits 16 t.toNat

theorem hexDigit_digitChar {d : Nat} (hd : d < 16) : hexDigit (Nat.digitChar d) = some d :=
  (by decide : ∀ d : Fin 16, hexDigit (Nat.digitChar d) = some d.val) ⟨d, hd⟩

theorem mem_toDigits {m : Nat} {ch : Char} (h : ch ∈ Nat.toDigits 16 m) :
    ∃ d < 16, ch = Nat.digitChar d := by
  induction m using Nat.strongRecOn with
  | ind m ih =>
      by_cases hm : m < 16
      · rw [Nat.toDigits_of_lt_base hm, List.mem_singleton] at h
        exact ⟨m, hm, h⟩
      · rw [Nat.toDigits_of_base_le (by decide) (Nat.not_lt.mp hm), List.mem_append,
          List.mem_singleton] at h
        rcases h with h | h
        · exact ih (m / 16) (by omega) h
        · exact ⟨m % 16, by omega, h⟩

theorem hexValue_cons {s : List Char} {n d : Nat} (hd : d < 16) :
    hexValue n (Nat.digitChar d :: s) = hexValue (16 * n + d) s := by
  rw [hexValue, hexDigit_digitChar hd]

/-- A further digit. -/
theorem hexValue_append_digit {s : List Char} {n d : Nat}
    (hs : ∀ ch ∈ s, ∃ d < 16, ch = Nat.digitChar d) (hd : d < 16) :
    hexValue n (s ++ [Nat.digitChar d]) = 16 * hexValue n s + d := by
  induction s generalizing n with
  | nil => rw [List.nil_append, hexValue_cons hd, hexValue, hexValue]
  | cons ch s ih =>
      obtain ⟨d', hd', rfl⟩ := hs ch List.mem_cons_self
      rw [List.cons_append, hexValue_cons hd', hexValue_cons hd']
      exact ih fun ch hch => hs ch (List.mem_cons_of_mem _ hch)

/-- The digits of a number are read back. -/
theorem hexValue_toDigits (m : Nat) : hexValue 0 (Nat.toDigits 16 m) = m := by
  induction m using Nat.strongRecOn with
  | ind m ih =>
      by_cases hm : m < 16
      · rw [Nat.toDigits_of_lt_base hm, hexValue_cons hm, hexValue]
        omega
      · rw [Nat.toDigits_of_base_le (by decide) (Nat.not_lt.mp hm),
          hexValue_append_digit (fun ch => mem_toDigits) (by omega), ih (m / 16) (by omega)]
        omega

/-- `strtol` reads the digits back as far as a `long` goes. -/
theorem strtol16_toDigits (m : Nat) :
    strtol16 (Nat.toDigits 16 m) = BitVec.ofNat 64 (min m (2 ^ 63 - 1)) := by
  have hplain : ∀ d : Fin 16, isSpace (Nat.digitChar d) = false ∧ Nat.digitChar d ≠ '-' ∧
      Nat.digitChar d ≠ '+' ∧ Nat.digitChar d ≠ 'x' ∧ Nat.digitChar d ≠ 'X' := by decide
  have hvalue := hexValue_toDigits m
  have hmem : ∀ ch ∈ Nat.toDigits 16 m, ∃ d < 16, ch = Nat.digitChar d := fun ch => mem_toDigits
  generalize Nat.toDigits 16 m = s at hvalue hmem
  -- nothing in front of the digits is skipped
  have hno : ∀ ch ∈ s, isSpace ch = false ∧ ch ≠ '-' ∧ ch ≠ '+' ∧ ch ≠ 'x' ∧ ch ≠ 'X' := by
    intro ch hch
    obtain ⟨d, hd, rfl⟩ := hmem ch hch
    exact hplain ⟨d, hd⟩
  have hprefixed : hexPrefixed s = m := by
    rw [← hvalue]
    unfold hexPrefixed
    split
    · exact absurd rfl (hno 'x' (by simp)).2.2.2.1
    · exact absurd rfl (hno 'X' (by simp)).2.2.2.2
    · rfl
  have hdrop : s.dropWhile isSpace = s := by
    cases s with
    | nil => rfl
    | cons ch s =>
        apply List.dropWhile_cons_of_neg
        rw [(hno ch List.mem_cons_self).1]
        decide
  unfold strtol16
  rw [hdrop]
  split
  · exact absurd rfl (hno '-' (by simp)).2.1
  · exact absurd rfl (hno '+' (by simp)).2.2.1
  · rw [hprefixed]

namespace Disassembler

variable (d : Disassembler)

/-! ## The called function -/

def IsCall (insn : Insn) : Prop := insn.mnemonic = "call" ∨ insn.mnemonic = "lcall"

instance (insn : Insn) : Decidable (IsCall insn) := inferInstanceAs (Decidable (_ ∨ _))

/-- How calls are printed. `target` is the absolute target of a direct call that some bytes at an
address encode, and `none` for an indirect one. -/
structure PrintsTargets (target : List Byte → U64 → Option U64) : Prop where
  direct : ∀ bs a insn t, d.disasm bs a = some insn → IsCall insn → target bs a = some t →
    insn.opStr.toList = hexAddress t
  indirect : ∀ bs a insn, d.disasm bs a = some insn → IsCall insn → target bs a = none →
    ∀ s, insn.opStr.toList ≠ '0' :: 'x' :: s

variable (mem : U64 → Byte) (offset : U32) (index : U64)

/-- The bytes that are tried for an instruction of length `i` in front of the offset. -/
def bytesBefore (i : Nat) : List Byte :=
  window mem (offset.setWidth 64 - BitVec.ofNat 64 i) 20

/-- Their address. -/
def addressBefore (i : Nat) : U64 := index + offset.setWidth 64 - BitVec.ofNat 64 i

/-- A valid instruction begins at the offset. -/
def Decodes : Prop :=
  ∃ insn, d.disasm (window mem (offset.setWidth 64) 10) (index + offset.setWidth 64) = some insn

/-- A call of length `i` ends at the offset. -/
def CallEnds (i : Nat) : Prop :=
  ∃ insn, d.disasm (bytesBefore mem offset i) (addressBefore offset index i) = some insn ∧
    insn.size = i ∧ IsCall insn

/-- The shortest call that ends at the offset has length `i`. -/
structure FirstCall (i : Nat) : Prop where
  two_le : 2 ≤ i
  le_seven : i ≤ 7
  ends : d.CallEnds mem offset index i
  first : ∀ j, 2 ≤ j → j < i → ¬ d.CallEnds mem offset index j

/-- The result tells the function that the shortest call calls, `1` if the call is indirect, and
`0` if there is no call. -/
def ReportsCall (target : List Byte → U64 → Option U64) : Prop :=
  (∀ i, d.FirstCall mem offset index i → d.isReturnAddress mem offset index =
    (target (bytesBefore mem offset i) (addressBefore offset index i)).getD 1) ∧
  ((∀ i, 2 ≤ i → i ≤ 7 → ¬ d.CallEnds mem offset index i) →
    d.isReturnAddress mem offset index = 0)

variable {d mem offset index} {target : List Byte → U64 → Option U64} {i : Nat}

theorem isValidInstruction_iff :
    d.isValidInstruction mem offset index = true ↔ d.Decodes mem offset index :=
  Option.isSome_iff_exists

theorem callBefore_eq_none_iff :
    d.callBefore mem offset index i = none ↔ ¬ d.CallEnds mem offset index i := by
  unfold callBefore CallEnds
  dsimp only [bytesBefore, addressBefore]
  cases d.disasm (window mem (offset.setWidth 64 - BitVec.ofNat 64 i) 20)
      (index + offset.setWidth 64 - BitVec.ofNat 64 i) with
  | none => simp
  | some insn =>
      dsimp only
      split
      · rename_i hcall
        refine iff_of_false ?_ (not_not_intro ⟨insn, rfl, hcall⟩)
        split
        · exact fun h => by cases h
        · exact fun h => by cases h
      · rename_i hcall
        refine iff_of_true rfl ?_
        rintro ⟨insn', heq, hcall'⟩
        cases heq
        exact hcall hcall'

/-- What a call reports: its target as far as a `long` goes. -/
theorem callBefore_of_callEnds (hprint : d.PrintsTargets target)
    (h : d.CallEnds mem offset index i) : d.callBefore mem offset index i = some
      (match target (bytesBefore mem offset i) (addressBefore offset index i) with
        | some t => BitVec.ofNat 64 (min t.toNat (2 ^ 63 - 1))
        | none => 1) := by
  obtain ⟨insn, hinsn, hcall⟩ := h
  have hcalls : insn.size = i ∧ (insn.mnemonic = "call" ∨ insn.mnemonic = "lcall") := hcall
  unfold callBefore
  dsimp only
  unfold bytesBefore addressBefore at hinsn
  rw [hinsn]
  dsimp only
  rw [if_pos hcalls]
  cases ht : target (bytesBefore mem offset i) (addressBefore offset index i) with
  | none =>
      have hno := hprint.indirect _ _ _ hinsn hcall.2 ht
      split
      · rename_i s hs
        exact absurd hs (hno s)
      · rfl
  | some t =>
      rw [hprint.direct _ _ _ _ hinsn hcall.2 ht]
      show some (strtol16 (Nat.toDigits 16 t.toNat)) = _
      rw [strtol16_toDigits]

/-- The search over the lengths. -/
theorem findSome?_eq_of_first {α : Type} {f : Nat → Option α} {l : List Nat} {a : α}
    (hl : l.Pairwise (· < ·)) (hi : i ∈ l) (ha : f i = some a)
    (hfirst : ∀ j ∈ l, j < i → f j = none) : l.findSome? f = some a := by
  induction l with
  | nil => cases hi
  | cons j l ih =>
      rw [List.pairwise_cons] at hl
      rw [List.findSome?_cons]
      rcases List.mem_cons.mp hi with rfl | hi
      · rw [ha]
      · rw [hfirst j List.mem_cons_self (hl.1 i hi)]
        exact ih hl.2 hi fun k hk => hfirst k (List.mem_cons_of_mem j hk)

theorem mem_lengths : i ∈ [2, 3, 4, 5, 6, 7] ↔ 2 ≤ i ∧ i ≤ 7 := by
  simp only [List.mem_cons, List.not_mem_nil, or_false]
  omega

theorem lengths_pairwise : [2, 3, 4, 5, 6, 7].Pairwise (· < ·) := by decide

theorem isReturnAddress_of_firstCall (hprint : d.PrintsTargets target)
    (hvalid : d.Decodes mem offset index)
    (h : d.FirstCall mem offset index i) : d.isReturnAddress mem offset index =
      match target (bytesBefore mem offset i) (addressBefore offset index i) with
      | some t => BitVec.ofNat 64 (min t.toNat (2 ^ 63 - 1))
      | none => 1 := by
  have hfind := findSome?_eq_of_first lengths_pairwise (mem_lengths.mpr ⟨h.two_le, h.le_seven⟩)
    (callBefore_of_callEnds hprint h.ends)
    (fun j hj hlt => callBefore_eq_none_iff.mpr (h.first j (mem_lengths.mp hj).1 hlt))
  rw [isReturnAddress, if_pos (isValidInstruction_iff.mpr hvalid), hfind]
  rfl

theorem isReturnAddress_of_no_call (hvalid : d.Decodes mem offset index)
    (h : ∀ i, 2 ≤ i → i ≤ 7 → ¬ d.CallEnds mem offset index i) :
    d.isReturnAddress mem offset index = 0 := by
  have hfind : [2, 3, 4, 5, 6, 7].findSome? (d.callBefore mem offset index) = none := by
    rw [List.findSome?_eq_none_iff]
    intro i hi
    have hrange := mem_lengths.mp hi
    exact callBefore_eq_none_iff.mpr (h i hrange.1 hrange.2)
  rw [isReturnAddress, if_pos (isValidInstruction_iff.mpr hvalid), hfind]
  rfl

/-- **When the called function is reported**, at the beginning of a valid instruction: the target
of the shortest call in front of it, if the call is direct, is below `2^63`. -/
theorem isReturnAddress_exact_iff (hprint : d.PrintsTargets target)
    (hvalid : d.Decodes mem offset index) :
    d.ReportsCall mem offset index target ↔
      ∀ i t, d.FirstCall mem offset index i →
        target (bytesBefore mem offset i) (addressBefore offset index i) = some t →
        t.toNat < 2 ^ 63 := by
  constructor
  · rintro ⟨hcall, -⟩ i t hfirst ht
    -- a larger target would be cut to `2^63 - 1`
    have hresult := hcall i hfirst
    rw [isReturnAddress_of_firstCall hprint hvalid hfirst, ht] at hresult
    have := congrArg BitVec.toNat hresult
    rw [Option.getD_some, BitVec.toNat_ofNat] at this
    omega
  · intro h
    refine ⟨fun i hfirst => ?_, isReturnAddress_of_no_call hvalid⟩
    rw [isReturnAddress_of_firstCall hprint hvalid hfirst]
    cases ht : target (bytesBefore mem offset i) (addressBefore offset index i) with
    | none => rfl
    | some t =>
        have hlt := h i t hfirst ht
        apply BitVec.eq_of_toNat_eq
        rw [Option.getD_some, BitVec.toNat_ofNat]
        omega

/-! ## The bytes that are decoded -/

variable (d mem offset index)

/-- The lengths that are tried, up to the first at which a call is found. -/
def triedLengths : List Nat → List Nat
  | [] => []
  | i :: l => i :: if (d.callBefore mem offset index i).isSome then [] else triedLengths l

/-- What `isReturnAddress` gives to the disassembler: beginnings, as distances from the beginning
of the text, and numbers of bytes. -/
def probes : List (Int × Nat) :=
  (offset.toNat, 10) ::
    if d.isValidInstruction mem offset index then
      (d.triedLengths mem offset index [2, 3, 4, 5, 6, 7]).map fun i : Nat =>
        ((offset.toNat : Int) - i, 20)
    else []

/-- All of them are bytes of a text of `n` bytes. -/
def ProbesInside (n : Nat) : Prop :=
  ∀ p ∈ d.probes mem offset index, 0 ≤ p.1 ∧ p.1 + p.2 ≤ n

/-- The offset is far enough from the ends of a text of `n` bytes. -/
structure ProbesFit (n : Nat) : Prop where
  ahead : offset.toNat + 10 ≤ n
  around : d.Decodes mem offset index → offset.toNat + 18 ≤ n
  back : d.Decodes mem offset index → offset.toNat < 7 →
    ∃ i, 2 ≤ i ∧ i ≤ 7 ∧ i ≤ offset.toNat ∧ d.CallEnds mem offset index i

variable {d mem offset index}

theorem isSome_callBefore_iff :
    (d.callBefore mem offset index i).isSome = true ↔ d.CallEnds mem offset index i := by
  rw [← not_iff_not, ← callBefore_eq_none_iff]
  simp

theorem mem_triedLengths_iff {l : List Nat} (hl : l.Pairwise (· < ·)) :
    i ∈ d.triedLengths mem offset index l ↔
      i ∈ l ∧ ∀ j ∈ l, j < i → ¬ d.CallEnds mem offset index j := by
  induction l with
  | nil => simp [triedLengths]
  | cons k l ih =>
      rw [List.pairwise_cons] at hl
      rw [triedLengths, List.mem_cons, List.mem_cons]
      constructor
      · rintro (rfl | hi)
        · refine ⟨.inl rfl, fun j hj hlt => ?_⟩
          rcases List.mem_cons.mp hj with rfl | hj
          · omega
          · have := hl.1 j hj
            omega
        · split at hi
          · cases hi
          · -- there is no call of length `k`, and the search goes on
            rename_i hnone
            obtain ⟨hmem, hrest⟩ := (ih hl.2).mp hi
            refine ⟨.inr hmem, fun j hj hlt => ?_⟩
            rcases List.mem_cons.mp hj with rfl | hj
            · rwa [isSome_callBefore_iff] at hnone
            · exact hrest j hj hlt
      · rintro ⟨rfl | hi, hrest⟩
        · exact .inl rfl
        · have hnone := hrest k List.mem_cons_self (hl.1 i hi)
          rw [← isSome_callBefore_iff] at hnone
          rw [if_neg hnone]
          exact .inr ((ih hl.2).mpr ⟨hi, fun j hj => hrest j (List.mem_cons_of_mem k hj)⟩)

theorem mem_tried_iff : i ∈ d.triedLengths mem offset index [2, 3, 4, 5, 6, 7] ↔
    (2 ≤ i ∧ i ≤ 7) ∧ ∀ j, 2 ≤ j → j < i → ¬ d.CallEnds mem offset index j := by
  rw [mem_triedLengths_iff lengths_pairwise, mem_lengths]
  apply and_congr_right
  intro hi
  constructor
  · intro h j hj hlt
    exact h j (mem_lengths.mpr ⟨hj, by omega⟩) hlt
  · intro h j hj hlt
    exact h j (mem_lengths.mp hj).1 hlt

/-- Of the calls that end at the offset there is a shortest one, and its length is tried. -/
theorem exists_tried_of_callEnds (h2 : 2 ≤ i) (h7 : i ≤ 7) (h : d.CallEnds mem offset index i) :
    ∃ j, j ≤ i ∧ j ∈ d.triedLengths mem offset index [2, 3, 4, 5, 6, 7] ∧
      d.CallEnds mem offset index j := by
  induction i using Nat.strongRecOn with
  | ind i ih =>
      by_cases hfirst : ∀ j, 2 ≤ j → j < i → ¬ d.CallEnds mem offset index j
      · exact ⟨i, Nat.le_refl i, mem_tried_iff.mpr ⟨⟨h2, h7⟩, hfirst⟩, h⟩
      · push Not at hfirst
        obtain ⟨j, hj, hlt, hends⟩ := hfirst
        obtain ⟨k, hk, hmem⟩ := ih j hlt hj (by omega) hends
        exact ⟨k, by omega, hmem⟩

/-- **When the disassembler is given bytes of the text only.** -/
theorem probesInside_iff (n : Nat) :
    d.ProbesInside mem offset index n ↔ d.ProbesFit mem offset index n := by
  unfold ProbesInside probes
  rw [List.forall_mem_cons]
  constructor
  · rintro ⟨⟨-, hahead⟩, hrest⟩
    have hlengths : d.Decodes mem offset index →
        ∀ i ∈ d.triedLengths mem offset index [2, 3, 4, 5, 6, 7],
          i ≤ offset.toNat ∧ offset.toNat + 20 ≤ n + i := by
      intro hvalid i hi
      rw [if_pos (isValidInstruction_iff.mpr hvalid)] at hrest
      have := hrest _ (List.mem_map_of_mem hi)
      dsimp only at this
      omega
    refine ⟨by dsimp only at hahead; omega, fun hvalid => ?_, fun hvalid hlt => ?_⟩
    · have := hlengths hvalid 2 (mem_tried_iff.mpr ⟨by omega, fun j hj hlt => by omega⟩)
      omega
    · -- otherwise the length 7 would be tried
      by_contra hnone
      have htried : 7 ∈ d.triedLengths mem offset index [2, 3, 4, 5, 6, 7] := by
        refine mem_tried_iff.mpr ⟨by omega, fun j hj hj7 hends => ?_⟩
        obtain ⟨k, hk, hmem, hends'⟩ := exists_tried_of_callEnds hj (by omega) hends
        have hrange := (mem_tried_iff.mp hmem).1
        exact hnone ⟨k, hrange.1, hrange.2, (hlengths hvalid k hmem).1, hends'⟩
      have := (hlengths hvalid 7 htried).1
      omega
  · rintro ⟨hahead, haround, hback⟩
    refine ⟨⟨by dsimp only; omega, by dsimp only; omega⟩, ?_⟩
    split
    · rename_i hvalid
      rw [isValidInstruction_iff] at hvalid
      intro p hp
      obtain ⟨i, hi, rfl⟩ := List.mem_map.mp hp
      obtain ⟨⟨h2, h7⟩, hfirst⟩ := mem_tried_iff.mp hi
      have hend := haround hvalid
      have hle : i ≤ offset.toNat := by
        by_cases hlt : offset.toNat < 7
        · obtain ⟨k, hk2, -, hk, hends⟩ := hback hvalid hlt
          by_contra hgt
          exact hfirst k hk2 (by omega) hends
        · omega
      dsimp only
      omega
    · simp

theorem window_congr {mem' : U64 → Byte} {a : U64} {p : Int} {n : Nat}
    (ha : a = BitVec.ofInt 64 p)
    (h : ∀ k < n, mem' (BitVec.ofInt 64 (p + k)) = mem (BitVec.ofInt 64 (p + k))) :
    window mem' a n = window mem a n := by
  apply List.map_congr_left
  intro k hk
  have haddress : a + BitVec.ofNat 64 k = BitVec.ofInt 64 (p + k) := by
    rw [ha, BitVec.ofInt_add, BitVec.ofInt_natCast]
  rw [haddress]
  exact h k (List.mem_range.mp hk)

theorem findSome?_congr {mem' : U64 → Byte} {l : List Nat}
    (h : ∀ i ∈ d.triedLengths mem offset index l,
      d.callBefore mem' offset index i = d.callBefore mem offset index i) :
    l.findSome? (d.callBefore mem' offset index) = l.findSome? (d.callBefore mem offset index) := by
  induction l with
  | nil => rfl
  | cons i l ih =>
      rw [triedLengths] at h
      rw [List.findSome?_cons, List.findSome?_cons, h i List.mem_cons_self]
      cases hi : d.callBefore mem offset index i with
      | some t => rfl
      | none =>
          rw [hi] at h
          exact ih fun j hj => h j (List.mem_cons_of_mem i hj)

/-- **Other bytes have no influence**: `probes` tells all that is decoded. -/
theorem isReturnAddress_congr {mem' : U64 → Byte}
    (h : ∀ p ∈ d.probes mem offset index, ∀ k < p.2,
      mem' (BitVec.ofInt 64 (p.1 + k)) = mem (BitVec.ofInt 64 (p.1 + k))) :
    d.isReturnAddress mem' offset index = d.isReturnAddress mem offset index := by
  have hoffset : offset.setWidth 64 = BitVec.ofInt 64 (offset.toNat : Int) := by
    rw [BitVec.ofInt_natCast, BitVec.ofNat_toNat]
  unfold probes at h
  rw [List.forall_mem_cons] at h
  have hvalid : d.isValidInstruction mem' offset index = d.isValidInstruction mem offset index := by
    unfold isValidInstruction
    rw [window_congr hoffset h.1]
  unfold isReturnAddress
  rw [hvalid]
  split
  · rename_i hv
    rw [if_pos hv] at h
    congr 1
    apply findSome?_congr
    intro i hi
    have hback : offset.setWidth 64 - BitVec.ofNat 64 i =
        BitVec.ofInt 64 ((offset.toNat : Int) - i) := by
      have hsum : BitVec.ofInt 64 ((offset.toNat : Int) - i) + BitVec.ofNat 64 i =
          offset.setWidth 64 := by
        rw [hoffset, ← BitVec.ofInt_natCast, ← BitVec.ofInt_add, Int.sub_add_cancel]
      rw [← hsum, BitVec.add_sub_cancel]
    unfold callBefore
    dsimp only
    rw [window_congr hback (h.2 _ (List.mem_map_of_mem hi))]
  · rfl

end Disassembler

/-- **A pointer right behind the text** is let through, and the first ten bytes that are decoded
for it are not bytes of the text. -/
theorem plainValidator_probes_outside :
    plainValidator.isCodePtr 0xffffffff81001000 = true ∧
      plainValidator.stackPtr 0 0xffffffff81001000 = some (.returnAddress 0 0xffffffff81001000) ∧
      ¬ plainValidator.disassembler.ProbesInside (plainValidator.text .kernel).mem
        ((plainValidator.textOffset .kernel 0xffffffff81001000).setWidth 32)
        (plainValidator.textSegment .kernel).memindex
        (plainValidator.text .kernel).textSegmentContent.length := by
  have hlength : (plainValidator.text .kernel).textSegmentContent.length = 0x1000 :=
    List.length_replicate
  have hoffset : (plainValidator.textOffset .kernel 0xffffffff81001000).setWidth 32 = 0x1000#32 :=
    by decide
  refine ⟨by decide, ?_, fun h => ?_⟩
  · have hfound : plainValidator.getModuleForAddress 0xffffffff81001000 = some .kernel := by decide
    unfold KernelValidator.stackPtr
    rw [hfound, Option.map_some, hlength]
    decide
  · have hfirst := (h _ List.mem_cons_self).2
    rw [hlength, hoffset] at hfirst
    revert hfirst
    decide

/-! ## A call in the kernel -/

/-- Where a call goes that is encoded with a displacement of 32 bits. -/
def rel32Target (bs : List Byte) (a : U64) : U64 :=
  a + 5 + (load32 (fun k => bs.getD k 0) 1).signExtend 64

/-- The disassembler, as far as NOPs of one byte and such calls go. -/
def rel32Disasm (bs : List Byte) (a : U64) : Option Insn :=
  if bs.head? = some 0x90 then some { size := 1, mnemonic := "nop", opStr := "" }
  else if bs.head? = some 0xe8 ∧ 5 ≤ bs.length then
    some { size := 5, mnemonic := "call", opStr := String.ofList (hexAddress (rel32Target bs a)) }
  else none

theorem rel32Disasm_cases {bs : List Byte} {a : U64} {insn : Insn}
    (h : rel32Disasm bs a = some insn) :
    (0 < bs.length ∧ insn = ⟨1, "nop", ""⟩) ∨
    (5 ≤ bs.length ∧
      insn = ⟨5, "call", String.ofList (hexAddress (rel32Target bs a))⟩) := by
  unfold rel32Disasm at h
  split at h
  · rename_i hhead
    cases h
    refine .inl ⟨?_, rfl⟩
    cases bs with
    | nil => cases hhead
    | cons b bs => exact Nat.succ_pos _
  · split at h
    · rename_i hcall
      cases h
      exact .inr ⟨hcall.2, rfl⟩
    · cases h

def rel32Disassembler : Disassembler where
  disasm := rel32Disasm
  size_pos := by
    intro bs a insn h
    rcases rel32Disasm_cases h with ⟨-, rfl⟩ | ⟨-, rfl⟩
    · exact Nat.one_pos
    · exact Nat.succ_pos 4
  size_le := by
    intro bs a insn h
    rcases rel32Disasm_cases h with ⟨hlen, rfl⟩ | ⟨hlen, rfl⟩
    · exact hlen
    · exact hlen

theorem rel32_printsTargets :
    rel32Disassembler.PrintsTargets fun bs a => some (rel32Target bs a) := by
  constructor
  · intro bs a insn t h hcall ht
    cases ht
    rcases rel32Disasm_cases h with ⟨-, rfl⟩ | ⟨-, rfl⟩
    · exact absurd hcall (by decide)
    · exact String.toList_ofList
  · intro bs a insn h hcall ht
    cases ht

/-- The text of a kernel at `0xffffffff81000000` that begins with a call of
`0xffffffff81001000`. -/
def callText (k : U64) : Byte := [0xe8, 0xfb, 0x0f, 0x00, 0x00].getD k.toNat 0x90

theorem callText_firstCall :
    rel32Disassembler.FirstCall callText 5 0xffffffff81000000 5 := by
  refine ⟨by decide, by decide, ⟨_, rfl, rfl, .inl rfl⟩, fun j hj hlt => ?_⟩
  rintro ⟨insn, hinsn, -⟩
  have hnone : ∀ j : Fin 5, 2 ≤ j.val → rel32Disasm
      (Disassembler.bytesBefore callText 5 j) (Disassembler.addressBefore 5 0xffffffff81000000 j) =
      none := by decide
  have := (hnone ⟨j, hlt⟩ hj).symm.trans hinsn
  cases this

/-- **A call into the kernel is reported as another address.** -/
theorem callText_not_reported :
    rel32Disassembler.PrintsTargets (fun bs a => some (rel32Target bs a)) ∧
      rel32Disassembler.Decodes callText 5 0xffffffff81000000 ∧
      rel32Disassembler.FirstCall callText 5 0xffffffff81000000 5 ∧
      rel32Target (Disassembler.bytesBefore callText 5 5)
        (Disassembler.addressBefore 5 0xffffffff81000000 5) = 0xffffffff81001000 ∧
      rel32Disassembler.isReturnAddress callText 5 0xffffffff81000000 = 0x7fffffffffffffff ∧
      ¬ rel32Disassembler.ReportsCall callText 5 0xffffffff81000000
        fun bs a => some (rel32Target bs a) := by
  have hvalid : rel32Disassembler.Decodes callText 5 0xffffffff81000000 := ⟨_, rfl⟩
  have htarget : rel32Target (Disassembler.bytesBefore callText 5 5)
      (Disassembler.addressBefore 5 0xffffffff81000000 5) = 0xffffffff81001000 := by decide
  have hresult : rel32Disassembler.isReturnAddress callText 5 0xffffffff81000000 =
      0x7fffffffffffffff := by
    rw [Disassembler.isReturnAddress_of_firstCall rel32_printsTargets hvalid callText_firstCall,
      htarget]
    decide
  refine ⟨rel32_printsTargets, hvalid, callText_firstCall, htarget, hresult, fun h => ?_⟩
  have hreported := h.1 5 callText_firstCall
  dsimp only at hreported
  rw [hresult, htarget] at hreported
  cases hreported

theorem callText_exact_iff :
    rel32Disassembler.ReportsCall callText 5 0xffffffff81000000
        (fun bs a => some (rel32Target bs a)) ↔
      ∀ i t, rel32Disassembler.FirstCall callText 5 0xffffffff81000000 i →
        some (rel32Target (Disassembler.bytesBefore callText 5 i)
          (Disassembler.addressBefore 5 0xffffffff81000000 i)) = some t → t.toNat < 2 ^ 63 :=
  Disassembler.isReturnAddress_exact_iff rel32_printsTargets ⟨_, rfl⟩

end KernInt
