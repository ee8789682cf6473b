import KernInt.Process.DataPage

set_option autoImplicit false

/-! # Pointers to gadgets

For a pointer in no known role, `showPtrs` lets `printInstructions` disassemble the text from
the pointer on, up to a `ret`, and flags it as a gadget (`PTR_GADGET`) or prints that it ends in
an invalid instruction. The sweep ends in one of three ways (`SweepEnd`): behind a `ret`, in front
of bytes that are no instruction, or at the end of the bytes. `printInstructions` returns only
whether the bytes have been used up. So a sweep into invalid bytes counts as a gadget, and a `ret`
that ends with the text does not; apart from these two, the flag is right (`gadget_iff`).
-/

namespace KernInt

open Lib

/-! ## Linear sweeps -/

/-- How a linear sweep ends; `left` is the number of bytes from there on. -/
inductive SweepEnd where
  | ret (left : Nat)
  | undecodable (left : Nat)
  | consumed

/-- The sweep over `bs`, which are at the address `a`, ends in this way. -/
inductive Sweeps (d : Disassembler) : List Byte → U64 → SweepEnd → Prop
  | consumed {a : U64} : Sweeps d [] a .consumed
  | undecodable {bs : List Byte} {a : U64} :
      bs ≠ [] → d.disasm bs a = none → Sweeps d bs a (.undecodable bs.length)
  | ret {bs : List Byte} {a : U64} {insn : Insn} :
      d.disasm bs a = some insn → insn.mnemonic = "ret" →
      Sweeps d bs a (.ret (bs.length - insn.size))
  | next {bs : List Byte} {a : U64} {insn : Insn} {e : SweepEnd} :
      d.disasm bs a = some insn → insn.mnemonic ≠ "ret" →
      Sweeps d (bs.drop insn.size) (a + BitVec.ofNat 64 insn.size) e → Sweeps d bs a e

/-- The sweep reaches a `ret`, before undecodable bytes and before the end. -/
def ReachesRet (d : Disassembler) (bs : List Byte) (a : U64) : Prop :=
  ∃ left, Sweeps d bs a (.ret left)

section

variable {d : Disassembler} {bs : List Byte} {a : U64}

/-- There is no instruction in front of the end. -/
theorem Disassembler.disasm_nil (d : Disassembler) (a : U64) : d.disasm [] a = none := by
  cases h : d.disasm [] a with
  | none => rfl
  | some insn =>
      have hpos := d.size_pos _ _ _ h
      have hle := d.size_le _ _ _ h
      rw [List.length_nil] at hle
      omega

theorem Sweeps.unique {e e' : SweepEnd} (h : Sweeps d bs a e) (h' : Sweeps d bs a e') :
    e = e' := by
  induction h with
  | consumed =>
      cases h' with
      | consumed => rfl
      | undecodable hne _ => exact absurd rfl hne
      | ret hinsn _ => rw [d.disasm_nil] at hinsn; cases hinsn
      | next hinsn _ _ => rw [d.disasm_nil] at hinsn; cases hinsn
  | undecodable hne hnone =>
      cases h' with
      | consumed => exact absurd rfl hne
      | undecodable _ _ => rfl
      | ret hinsn _ => rw [hnone] at hinsn; cases hinsn
      | next hinsn _ _ => rw [hnone] at hinsn; cases hinsn
  | ret hinsn hret =>
      cases h' with
      | consumed => rw [d.disasm_nil] at hinsn; cases hinsn
      | undecodable _ hnone => rw [hnone] at hinsn; cases hinsn
      | ret hinsn' _ =>
          rw [hinsn] at hinsn'
          cases hinsn'
          rfl
      | next hinsn' hret' _ =>
          rw [hinsn] at hinsn'
          cases hinsn'
          exact absurd hret hret'
  | next hinsn hret _ ih =>
      cases h' with
      | consumed => rw [d.disasm_nil] at hinsn; cases hinsn
      | undecodable _ hnone => rw [hnone] at hinsn; cases hinsn
      | ret hinsn' hret' =>
          rw [hinsn] at hinsn'
          cases hinsn'
          exact absurd hret' hret
      | next hinsn' _ hrest =>
          rw [hinsn] at hinsn'
          cases hinsn'
          exact ih hrest

/-- Every sweep ends. -/
theorem exists_sweeps (d : Disassembler) (bs : List Byte) (a : U64) : ∃ e, Sweeps d bs a e := by
  -- an instruction is not empty, so the bytes behind it are fewer
  induction hn : bs.length using Nat.strong_induction_on generalizing bs a with
  | _ n ih =>
      cases hinsn : d.disasm bs a with
      | none =>
          cases bs with
          | nil => exact ⟨_, .consumed⟩
          | cons b bs => exact ⟨_, .undecodable (List.cons_ne_nil b bs) hinsn⟩
      | some insn =>
          by_cases hret : insn.mnemonic = "ret"
          · exact ⟨_, .ret hinsn hret⟩
          · have hpos := d.size_pos _ _ _ hinsn
            have hle := d.size_le _ _ _ hinsn
            have hlt : (bs.drop insn.size).length < n := by
              rw [List.length_drop]
              omega
            obtain ⟨e, he⟩ := ih _ hlt (bs.drop insn.size) (a + BitVec.ofNat 64 insn.size) rfl
            exact ⟨e, .next hinsn hret he⟩

/-- Undecodable bytes are left over. -/
theorem Sweeps.left_pos {left : Nat} (h : Sweeps d bs a (.undecodable left)) : 0 < left := by
  generalize he : SweepEnd.undecodable left = e at h
  induction h with
  | consumed => cases he
  | undecodable hne _ =>
      cases he
      exact List.length_pos_iff.mpr hne
  | ret _ _ => cases he
  | next _ _ _ ih => exact ih he

theorem window_drop (mem : U64 → Byte) (k : U64) (n m : Nat) :
    (window mem k n).drop m = window mem (k + BitVec.ofNat 64 m) (n - m) := by
  apply List.ext_getElem
  · simp
  · intro i hi hi'
    simp only [length_window] at hi'
    simp only [window, List.getElem_drop, List.getElem_map, List.getElem_range]
    rw [BitVec.ofNat_add, BitVec.add_assoc]

/-- What `printInstructions` returns about the end of the sweep: all bytes have been used up. -/
def SweepEnd.UsedUp : SweepEnd → Prop
  | .ret left => left = 0
  | .undecodable left => left = 0
  | .consumed => True

/-- That bytes are left over tells of a `ret` unless the sweep ends in invalid bytes, or with a
`ret` at the end. -/
theorem Sweeps.leaves_iff_reachesRet_iff {e : SweepEnd} (h : Sweeps d bs a e) :
    (¬ e.UsedUp ↔ ReachesRet d bs a) ↔
      (∀ left, ¬ Sweeps d bs a (.undecodable left)) ∧ ¬ Sweeps d bs a (.ret 0) := by
  cases e with
  | ret left =>
      have hreach : ReachesRet d bs a := ⟨left, h⟩
      have hnone : ∀ left', ¬ Sweeps d bs a (.undecodable left') :=
        fun left' h' => nomatch h.unique h'
      constructor
      · intro hexact
        refine ⟨hnone, fun h0 => hexact.mpr hreach ?_⟩
        cases h.unique h0
        rfl
      · rintro ⟨-, hnot⟩
        refine ⟨fun _ => hreach, fun _ h0 => hnot ?_⟩
        have hleft : left = 0 := h0
        rwa [hleft] at h
  | undecodable left =>
      have hpos := h.left_pos
      constructor
      · intro hexact
        obtain ⟨left', h'⟩ := hexact.mp (Nat.ne_of_gt hpos)
        cases h.unique h'
      · rintro ⟨hnot, -⟩
        exact absurd h (hnot left)
  | consumed =>
      constructor
      · intro _
        exact ⟨fun _ h' => (nomatch h.unique h'), fun h' => nomatch h.unique h'⟩
      · intro _
        refine ⟨fun hleft => absurd trivial hleft, ?_⟩
        rintro ⟨left', h'⟩
        cases h.unique h'

/-- The loop in `printInstructions` is the linear sweep over the bytes that are left. -/
theorem printRound_sweeps {mem : U64 → Byte} {index : U64} {e : SweepEnd} (h : Sweeps d bs a e) :
    ∀ s : Disassembler.Printed, bs = window mem s.code s.size → a = index + s.code →
      ((loop (d.printRound mem index) _ (d.printRound_decreases mem index) s).2.1 = true ↔
        e.UsedUp) := by
  induction h with
  | @consumed a =>
      intro s hbs ha
      have hsize : s.size = 0 := by simpa using (congrArg List.length hbs).symm
      rw [loop_of_leave (r := (s.nr_inst, s.size == 0, s.text))]
      · simp [hsize, SweepEnd.UsedUp]
      · rw [Disassembler.printRound, ← hbs, ← ha, d.disasm_nil]
  | @undecodable bs a hne hnone =>
      intro s hbs ha
      have hsize : s.size = bs.length := by rw [hbs, length_window]
      rw [loop_of_leave (r := (s.nr_inst, s.size == 0, s.text))]
      · simp [hsize, SweepEnd.UsedUp]
      · rw [Disassembler.printRound, ← hbs, ← ha, hnone]
  | @ret bs a insn hinsn hret =>
      intro s hbs ha
      have hsize : s.size = bs.length := by rw [hbs, length_window]
      rw [loop_of_leave (r := (s.nr_inst + 1, s.size - insn.size == 0,
        s.text ++ insn.mnemonic ++ "\t" ++ insn.opStr ++ "\n"))]
      · simp [hsize, SweepEnd.UsedUp]
      · rw [Disassembler.printRound, ← hbs, ← ha, hinsn]
        exact if_pos hret
  | @next bs a insn e hinsn hret _ ih =>
      intro s hbs ha
      have hround : d.printRound mem index s = .again ⟨s.code + BitVec.ofNat 64 insn.size,
          s.size - insn.size, s.nr_inst + 1,
          s.text ++ insn.mnemonic ++ "\t" ++ insn.opStr ++ "\n"⟩ := by
        rw [Disassembler.printRound, ← hbs, ← ha, hinsn]
        exact if_neg hret
      rw [loop_of_again _ hround]
      apply ih
      · rw [hbs, window_drop]
      · rw [ha, BitVec.add_assoc]

theorem printInstructions_usedUp {mem : U64 → Byte} {offset : U32} {e : SweepEnd}
    (h : Sweeps d (window mem 0 offset.toNat) a e) :
    (d.printInstructions mem offset a).2.1 = true ↔ e.UsedUp :=
  printRound_sweeps h ⟨0, offset.toNat, 0, ""⟩ rfl (by simp)

end

/-! ## The end of the loop body -/

section

variable (d : Disassembler) (symbols : SymbolManager) (toVMA : VMAInfo)
  (toLoader : ElfUserspaceLoader) (ptr : U64)

/-- No rule of the loop body in `showPtrs` is done with the pointer: it comes to the end. -/
structure ReachesEnd : Prop where
  in_section : ∃ toSec, toLoader.elffile.findSectionByOffset (ptr - toVMA.start) = some toSec ∧
    ptr - toVMA.start - toSec.offset ≠ 0 ∧ toSec.name ∉ allowedSections ∧
    ¬ (toSec.name = ".text" ∧ toLoader.textSegmentContent = [])
  no_symbol : symbols.getElfSymbolName ptr = ""
  not_entry : toLoader.elffile.entryPoint ≠ ptr - toVMA.start
  valid : d.isValidInstruction toLoader.data ((ptr - toVMA.start).setWidth 32) toVMA.start = true
  not_return : d.isReturnAddress toLoader.data ((ptr - toVMA.start).setWidth 32) toVMA.start = 0 ∨
    ¬ ptr - symbols.getContainingSymbol ptr > 0x4000 ∧
    d.isIntendedInstruction
      (fun k => toLoader.data (symbols.getContainingSymbol ptr - toVMA.start + k))
      ((ptr - symbols.getContainingSymbol ptr).setWidth 32)
      (symbols.getContainingSymbol ptr) = false

/-- The text image from the pointer on. -/
def imageFrom : List Byte :=
  toLoader.textSegmentContent.drop (ptr - toVMA.start).toNat

/-- The bytes that `printInstructions` is given; its parameter for their number has 32 bits. -/
def handedOver : List Byte :=
  window (fun k => toLoader.data (ptr - toVMA.start + k)) 0
    ((BitVec.ofNat 64 toLoader.textSegmentContent.length - (ptr - toVMA.start)).setWidth 32).toNat

/-- `PTR_GADGET` is set exactly if the sweep from the pointer reaches a `ret`. -/
def GadgetExact : Prop :=
  ∃ flags, ptrFlags d symbols toVMA toLoader ptr = .ok flags ∧
    (checkFlags flags PTR_GADGET = true ↔ ReachesRet d (imageFrom toVMA toLoader ptr) ptr)

/-- The sweep over the rest of the image neither ends in invalid bytes nor with a `ret` at the end
of the image. Where other bytes are handed over, a `ret` is reached in the image exactly if the
sweep over those does not use them up. -/
def SweepTold : Prop :=
  if handedOver toVMA toLoader ptr = imageFrom toVMA toLoader ptr then
    (∀ left, ¬ Sweeps d (imageFrom toVMA toLoader ptr) ptr (.undecodable left)) ∧
      ¬ Sweeps d (imageFrom toVMA toLoader ptr) ptr (.ret 0)
  else
    ReachesRet d (imageFrom toVMA toLoader ptr) ptr ↔
      ∃ e, Sweeps d (handedOver toVMA toLoader ptr) ptr e ∧ ¬ e.UsedUp

variable {d symbols toVMA toLoader ptr}

theorem checkFlags_gadget (flags : U64) : checkFlags flags PTR_GADGET = flags.getLsbD 13 := by
  have hbit : PTR_GADGET = BitVec.twoPow 64 13 := by decide
  rw [hbit, checkFlags_twoPow (by decide)]

theorem checkFlags_unint_instr (flags : U64) :
    checkFlags flags PTR_UNINT_INSTR = flags.getLsbD 9 := by
  have hbit : PTR_UNINT_INSTR = BitVec.twoPow 64 9 := by decide
  rw [hbit, checkFlags_twoPow (by decide)]

/-- The end of the loop body sets the flag exactly if the sweep leaves bytes. -/
theorem unknownPtrFlags_gadget {flags : U64} {e : SweepEnd} (hflags : flags.getLsbD 13 = false)
    (h : Sweeps d (handedOver toVMA toLoader ptr) ptr e) :
    checkFlags (unknownPtrFlags d toVMA toLoader flags ptr) PTR_GADGET = true ↔ ¬ e.UsedUp := by
  rw [← printInstructions_usedUp h, checkFlags_gadget, unknownPtrFlags]
  have hunknown : (flags ||| PTR_UNKNOWN).getLsbD 13 = false := by
    rw [getLsbD_or_of_eq (by decide), hflags]
  have hprintable : (if endsPrintable ptr = true then flags ||| PTR_UNKNOWN ||| PTR_END_PRINTABLE
      else flags ||| PTR_UNKNOWN).getLsbD 13 = false :=
    getLsbD_ite (by rw [getLsbD_or_of_eq (by decide), hunknown]) hunknown
  split
  · rename_i hused
    rw [hprintable, hused]
    simp
  · rename_i hused
    have hset : PTR_GADGET.getLsbD 13 = true := by decide
    rw [BitVec.getLsbD_or, hset, Bool.or_true]
    simp [hused]

/-- None of the flags that are set before the end is `PTR_GADGET`. -/
theorem instructionPtrFlags_of_reachesEnd (h : ReachesEnd d symbols toVMA toLoader ptr)
    {flags : U64} (hflags : flags.getLsbD 13 = false) :
    ∃ flags', flags'.getLsbD 13 = false ∧ instructionPtrFlags d symbols toVMA toLoader flags ptr =
      unknownPtrFlags d toVMA toLoader flags' ptr := by
  have hreturn : ∀ flags' : U64, flags'.getLsbD 13 = false →
      (flags' ||| PTR_RETURN).getLsbD 13 = false := by
    intro flags' h'
    rw [getLsbD_or_of_eq (by decide), h']
  unfold instructionPtrFlags
  dsimp only
  rw [h.valid, Bool.not_true, if_neg Bool.false_ne_true]
  by_cases hcall : d.isReturnAddress toLoader.data ((ptr - toVMA.start).setWidth 32)
      toVMA.start = 0
  · -- not behind a call
    rw [if_neg (not_not.mpr hcall), if_neg fun hboth => hboth.1 hcall]
    refine ⟨_, getLsbD_ite ?_ (getLsbD_ite ?_ hflags), rfl⟩
    · rw [getLsbD_or_of_eq (by decide), hflags]
    · rw [getLsbD_or_of_eq (by decide), getLsbD_or_of_eq (by decide), hflags]
  · -- behind a call, but not an instruction of the function
    obtain ⟨hnear, hunintended⟩ := h.not_return.resolve_left hcall
    rw [if_neg hnear, hunintended, Bool.not_false, if_pos rfl, if_pos hcall, if_neg ?_]
    · refine ⟨_, hreturn _ ?_, rfl⟩
      rw [getLsbD_or_of_eq (by decide), getLsbD_or_of_eq (by decide), hflags]
    · rintro ⟨-, hnone⟩
      rw [checkFlags_unint_instr, getLsbD_or_of_eq (by decide), BitVec.getLsbD_or] at hnone
      have hset : PTR_UNINT_INSTR.getLsbD 9 = true := by decide
      rw [hset, Bool.or_true] at hnone
      cases hnone

/-- What the flags are at the end of the loop body. -/
theorem ptrFlags_of_reachesEnd (h : ReachesEnd d symbols toVMA toLoader ptr) :
    ∃ flags, flags.getLsbD 13 = false ∧ ptrFlags d symbols toVMA toLoader ptr =
      .ok (unknownPtrFlags d toVMA toLoader flags ptr) := by
  obtain ⟨toSec, hfind, hstart, hallowed, htext⟩ := h.in_section
  obtain ⟨flags, hflags, hrest⟩ :=
    @ptrFlags_of_section d symbols toVMA toLoader ptr toSec hfind hstart
  obtain ⟨flags', hflags', heq⟩ := instructionPtrFlags_of_reachesEnd h (hflags 13 (by decide))
  refine ⟨flags', hflags', ?_⟩
  rw [hrest, if_neg hallowed, if_neg (not_not.mpr h.no_symbol), if_neg h.not_entry,
    if_neg htext, heq]

/-- Up to 4 GiB, the bytes from a pointer into the image on are handed over. -/
theorem handedOver_eq_imageFrom (hlen : toLoader.textSegmentContent.length < 2 ^ 64)
    (hin : (ptr - toVMA.start).toNat ≤ toLoader.textSegmentContent.length)
    (hsize : toLoader.textSegmentContent.length - (ptr - toVMA.start).toNat < 2 ^ 32) :
    handedOver toVMA toLoader ptr = imageFrom toVMA toLoader ptr := by
  unfold handedOver imageFrom
  generalize ptr - toVMA.start = offset at hin hsize
  have hnum : ((BitVec.ofNat 64 toLoader.textSegmentContent.length - offset).setWidth 32).toNat =
      toLoader.textSegmentContent.length - offset.toNat := by
    have hsub : (BitVec.ofNat 64 toLoader.textSegmentContent.length - offset).toNat =
        toLoader.textSegmentContent.length - offset.toNat := by
      rw [BitVec.toNat_sub_of_le, BitVec.toNat_ofNat, Nat.mod_eq_of_lt hlen]
      rw [BitVec.le_def, BitVec.toNat_ofNat, Nat.mod_eq_of_lt hlen]
      exact hin
    rw [BitVec.toNat_setWidth, hsub, Nat.mod_eq_of_lt hsize]
  rw [hnum]
  apply List.ext_getElem
  · simp
  · intro k hk hk'
    rw [length_window] at hk
    have haddr : (offset + (0 + BitVec.ofNat 64 k)).toNat = offset.toNat + k := by
      have hzero : (0 : U64) + BitVec.ofNat 64 k = BitVec.ofNat 64 k := BitVec.zero_add _
      rw [hzero, BitVec.toNat_add, BitVec.toNat_ofNat]
      omega
    simp only [window, List.getElem_map, List.getElem_range, List.getElem_drop,
      ElfUserspaceLoader.data, haddr]
    rw [List.getD_eq_getElem?_getD, List.getElem?_eq_getElem (by omega), Option.getD_some]

theorem gadgetExact_iff_of_sweeps (h : ReachesEnd d symbols toVMA toLoader ptr) {e : SweepEnd}
    (he : Sweeps d (handedOver toVMA toLoader ptr) ptr e) :
    GadgetExact d symbols toVMA toLoader ptr ↔
      (¬ e.UsedUp ↔ ReachesRet d (imageFrom toVMA toLoader ptr) ptr) := by
  obtain ⟨flags, hflags, heq⟩ := ptrFlags_of_reachesEnd h
  have hgadget := unknownPtrFlags_gadget hflags he
  constructor
  · rintro ⟨flags', hok, hexact⟩
    rw [heq] at hok
    cases hok
    rw [← hgadget]
    exact hexact
  · intro hexact
    exact ⟨_, heq, hgadget.trans hexact⟩

/-- **The gadget flag follows the sweep** exactly if the sweep neither ends in invalid bytes nor
with a `ret` at the end of the image. -/
theorem gadget_iff (h : ReachesEnd d symbols toVMA toLoader ptr) :
    GadgetExact d symbols toVMA toLoader ptr ↔ SweepTold d toVMA toLoader ptr := by
  obtain ⟨e, he⟩ := exists_sweeps d (handedOver toVMA toLoader ptr) ptr
  rw [gadgetExact_iff_of_sweeps h he, SweepTold]
  split
  · rename_i himage
    rw [himage] at he
    exact he.leaves_iff_reachesRet_iff
  · have hleaves : (∃ e', Sweeps d (handedOver toVMA toLoader ptr) ptr e' ∧ ¬ e'.UsedUp) ↔
        ¬ e.UsedUp := by
      constructor
      · rintro ⟨e', he', hleft⟩
        rwa [he.unique he']
      · exact fun hleft => ⟨e, he, hleft⟩
    rw [hleaves]
    exact Iff.comm

end

/-! ## A program with few instructions -/

/-- A disassembler that knows `nop` and `ret`. -/
def decodeNopRet : List Byte → U64 → Option Insn
  | [], _ => none
  | b :: _, _ =>
      if b = 0x90 then some ⟨1, "nop", ""⟩
      else if b = 0xc3 then some ⟨1, "ret", ""⟩
      else none

theorem decodeNopRet_size {bs : List Byte} {a : U64} {insn : Insn}
    (h : decodeNopRet bs a = some insn) : insn.size = 1 ∧ 1 ≤ bs.length := by
  unfold decodeNopRet at h
  split at h
  · cases h
  · split at h
    · cases h
      exact ⟨rfl, Nat.succ_pos _⟩
    · split at h
      · cases h
        exact ⟨rfl, Nat.succ_pos _⟩
      · cases h

theorem decodeNopRet_size_pos (bs : List Byte) (a : U64) (insn : Insn)
    (h : decodeNopRet bs a = some insn) : 0 < insn.size := by
  rw [(decodeNopRet_size h).1]
  exact Nat.one_pos

theorem decodeNopRet_size_le (bs : List Byte) (a : U64) (insn : Insn)
    (h : decodeNopRet bs a = some insn) : insn.size ≤ bs.length := by
  rw [(decodeNopRet_size h).1]
  exact (decodeNopRet_size h).2

def nopRet : Disassembler where
  disasm := decodeNopRet
  size_pos := decodeNopRet_size_pos
  size_le := decodeNopRet_size_le

/-- A mapping at `0x7f0000400000` of a file whose `.text` begins at offset `0x10`. -/
def nopVMA : VMAInfo :=
  textOf "/lib/nop.so" 0x7f0000400000 0x7f0000401000 (by decide)

def nopText : Elf64_Shdr :=
  { (default : Elf64_Shdr) with
    sh_name := ".text", sh_type := SHT_PROGBITS, sh_offset := 0x10, sh_size := 0x100 }

def nopFile : ElfFile where
  e_type := ET_DYN
  e_entry := 0
  fileContent := 0
  elf64Shdr := [default, default, nopText]
  shnum_lt := ElfFile.shnum_lt_three _ _ _
  rela := fun _ => []
  sym := fun _ _ => default
  symbolName := fun _ _ => ""

/-- Its loader: `nop`s up to offset `0x13`, and then `tail`. -/
def nopLoader (tail : List Byte) : ElfUserspaceLoader where
  name := "/lib/nop.so"
  textSegmentContent := List.replicate 0x13 0x90 ++ tail
  hostMemory := fun _ => 0
  elffile := nopFile

def noSymbols : SymbolManager where
  getElfSymbolName := fun _ => ""
  getContainingSymbol := fun _ => 0

/-- The pointer to the last `nop` comes to the end of the loop body. -/
theorem nopLoader_reachesEnd (tail : List Byte) :
    ReachesEnd nopRet noSymbols nopVMA (nopLoader tail) 0x7f0000400012 where
  in_section := by
    refine ⟨nopFile.sectionInfo 2 nopText, rfl, by decide, by decide, ?_⟩
    rintro ⟨-, hnil⟩
    cases hnil
  no_symbol := rfl
  not_entry := by
    show nopFile.entryPoint ≠ 0x7f0000400012 - nopVMA.start
    decide
  valid := rfl
  not_return := .inl rfl

theorem nopLoader_handedOver (tail : List Byte) (htail : tail.length ≤ 4) :
    handedOver nopVMA (nopLoader tail) 0x7f0000400012 =
      imageFrom nopVMA (nopLoader tail) 0x7f0000400012 := by
  have hlen : (nopLoader tail).textSegmentContent.length = 0x13 + tail.length := by
    rw [nopLoader, List.length_append, List.length_replicate]
  have hoffset : ((0x7f0000400012 : U64) - nopVMA.start).toNat = 0x12 := by decide
  exact handedOver_eq_imageFrom (by omega) (by omega) (by omega)

theorem nopRet_disasm_nop (bs : List Byte) (a : U64) :
    nopRet.disasm (0x90 :: bs) a = some ⟨1, "nop", ""⟩ :=
  rfl

/-- A `nop` in front of a byte that is no instruction counts as a gadget. -/
theorem nopLoader_undecodable_flagged :
    ReachesEnd nopRet noSymbols nopVMA (nopLoader [0x06]) 0x7f0000400012 ∧
    Sweeps nopRet (imageFrom nopVMA (nopLoader [0x06]) 0x7f0000400012) 0x7f0000400012
      (.undecodable 1) ∧
    ¬ GadgetExact nopRet noSymbols nopVMA (nopLoader [0x06]) 0x7f0000400012 := by
  have hsweep : Sweeps nopRet (imageFrom nopVMA (nopLoader [0x06]) 0x7f0000400012)
      0x7f0000400012 (.undecodable 1) :=
    .next (nopRet_disasm_nop [0x06] _) (by decide) (.undecodable (by decide) rfl)
  have hhanded := nopLoader_handedOver [0x06] (by decide)
  refine ⟨nopLoader_reachesEnd _, hsweep, fun hexact => ?_⟩
  have hiff := (gadgetExact_iff_of_sweeps (nopLoader_reachesEnd _) (hhanded ▸ hsweep)).mp hexact
  obtain ⟨left, hleft⟩ := hiff.mp Nat.one_ne_zero
  cases hsweep.unique hleft

/-- With a `ret` in front of another byte, the flag is right. -/
theorem gadget_iff_ret :
    GadgetExact nopRet noSymbols nopVMA (nopLoader [0xc3, 0x90]) 0x7f0000400012 := by
  have hret : nopRet.disasm [0xc3, 0x90] (0x7f0000400012 + 1) = some ⟨1, "ret", ""⟩ := rfl
  have hsweep : Sweeps nopRet (imageFrom nopVMA (nopLoader [0xc3, 0x90]) 0x7f0000400012)
      0x7f0000400012 (.ret 1) :=
    .next (nopRet_disasm_nop [0xc3, 0x90] _) (by decide) (.ret hret rfl)
  refine (gadget_iff (nopLoader_reachesEnd _)).mpr ?_
  rw [SweepTold, if_pos (nopLoader_handedOver [0xc3, 0x90] (by decide))]
  refine ⟨fun left hleft => ?_, fun hzero => ?_⟩
  · cases hsweep.unique hleft
  · cases hsweep.unique hzero

end KernInt
