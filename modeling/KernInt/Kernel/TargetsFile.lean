import KernInt.Kernel.CallTargets

set_option autoImplicit false

/-! # The file of recorded calls

The constructor of `KernelValidator` reads the recorded calls from a file of 16-byte records, the
address of the call and its target. Its loop asks the stream for the end of the file in front of a
record and between the two words of a record, and not for anything else. So a file that ends
within a second word adds a record with what was in the variable, and a stream that fails without
the end of the file keeps the loop going (`decodesFile_iff`).
-/

namespace KernInt

open Lib

/-- A binary `std::ifstream`: the bytes that it still delivers, whether the end of the file is
behind them or reading fails there, and its state. `failbit` stands for `badbit` as well. -/
structure IfStream where
  rest : List Byte
  endsRegularly : Bool
  eofbit : Bool
  failbit : Bool

namespace IfStream

/-- The stream behind `open`. -/
def openFile (content : List Byte) (endsRegularly opens : Bool) : IfStream where
  rest := content
  endsRegularly := endsRegularly
  eofbit := false
  failbit := !opens

/-- `read` of `n` bytes: those that are there, and the stream behind them. -/
def read (infile : IfStream) (n : Nat) : List Byte × IfStream :=
  if infile.eofbit || infile.failbit then ([], { infile with failbit := true })
  else if n ≤ infile.rest.length then
    (infile.rest.take n, { infile with rest := infile.rest.drop n })
  else (infile.rest, { infile with rest := [], eofbit := infile.endsRegularly, failbit := true })

end IfStream

/-- The variables of the loop. `callAddr` and `callDest` are not initialized, and a read that is
cut short leaves their last bytes. -/
structure TargetsState where
  infile : IfStream
  callAddr : Nat → Byte
  callDest : Nat → Byte
  callTargets : CallTargets

/-- The variables when both words have been read, and the entry has been inserted. -/
def TargetsState.next (s : TargetsState) : TargetsState :=
  let first := s.infile.read 8
  let second := first.2.read 8
  let callAddr := bufferOf first.1 s.callAddr
  let callDest := bufferOf second.1 s.callDest
  { infile := second.2, callAddr, callDest
    callTargets := s.callTargets.insert (load64 callAddr 0, load64 callDest 0) }

/-- A round of the loop in the constructor. -/
def targetsRound (s : TargetsState) : Round TargetsState CallTargets :=
  if s.infile.eofbit then .leave s.callTargets
  else if (s.infile.read 8).2.eofbit then .leave s.callTargets
  else .again s.next

/-- The complete records of a file, in their order. -/
def records (content : List Byte) : List (U64 × U64) :=
  if 16 ≤ content.length then
    (load64 (fun k => content.getD k 0) 0, load64 (fun k => content.getD k 0) 8) ::
      records (content.drop 16)
  else []
termination_by content.length
decreasing_by
  rw [List.length_drop]
  omega

/-- The loop ends, and if the stream delivers the whole file, with exactly its records. -/
def DecodesFile (infile : IfStream) (callAddr callDest : Nat → Byte) : Prop :=
  ∃ callTargets, Returns targetsRound ⟨infile, callAddr, callDest, Multimap.empty⟩ callTargets ∧
    (infile.failbit = false → infile.endsRegularly = true →
      callTargets = CallTargets.ofList (records infile.rest))

/-! ## Streams that fail -/

/-- The stream will not have reached the end of the file. -/
def IfStream.Fails (infile : IfStream) : Prop :=
  infile.eofbit = false ∧ (infile.failbit = true ∨ infile.endsRegularly = false)

theorem IfStream.fails_read {infile : IfStream} (h : infile.Fails) (n : Nat) :
    (infile.read n).2.Fails := by
  obtain ⟨heof, hfail⟩ := h
  unfold IfStream.read
  split
  · exact ⟨heof, .inl rfl⟩
  · split
    · exact ⟨heof, hfail⟩
    · rename_i hgood _
      have hends : infile.endsRegularly = false := by
        rcases hfail with h | h
        · exact absurd (by rw [h, Bool.or_true]) hgood
        · exact h
      exact ⟨hends, .inl rfl⟩

/-- The loop goes on with a stream that fails. -/
theorem targetsRound_of_fails {s : TargetsState} (h : s.infile.Fails) :
    ∃ s', targetsRound s = .again s' ∧ s'.infile.Fails := by
  have hread := IfStream.fails_read h 8
  refine ⟨s.next, ?_, IfStream.fails_read hread 8⟩
  unfold targetsRound
  rw [h.1, hread.1, if_neg Bool.false_ne_true, if_neg Bool.false_ne_true]

/-! ## Streams that deliver the file -/

/-- The stream delivers bytes up to the end of the file. -/
structure IfStream.Delivers (infile : IfStream) : Prop where
  eofbit : infile.eofbit = false
  failbit : infile.failbit = false
  ends : infile.endsRegularly = true

section

variable {infile : IfStream} {n : Nat}

theorem IfStream.read_of_le (h : infile.Delivers) (hn : n ≤ infile.rest.length) :
    infile.read n = (infile.rest.take n, { infile with rest := infile.rest.drop n }) := by
  unfold IfStream.read
  rw [if_neg (by rw [h.eofbit, h.failbit]; decide), if_pos hn]

theorem IfStream.read_of_lt (h : infile.Delivers) (hn : infile.rest.length < n) :
    (infile.read n).2.eofbit = true := by
  unfold IfStream.read
  rw [if_neg (by rw [h.eofbit, h.failbit]; decide), if_neg (Nat.not_le.mpr hn)]
  exact h.ends

/-- A word that has been read as a whole. -/
theorem load64_take {content : List Byte} {i : Nat} {old : Nat → Byte}
    (h : i + 8 ≤ content.length) :
    load64 (bufferOf ((content.drop i).take 8) old) 0 = load64 (fun k => content.getD k 0) i := by
  apply load64_congr
  intro k hk
  have hlt : i + k < content.length := by omega
  rw [Nat.zero_add, bufferOf, List.getD_eq_getElem?_getD, List.getD_eq_getElem?_getD,
    List.getElem?_take_of_lt hk, List.getElem?_drop, List.getElem?_eq_getElem hlt]
  rfl

end

theorem targetsRound_of_lt {s : TargetsState} (h : s.infile.Delivers)
    (hlen : s.infile.rest.length < 8) : targetsRound s = .leave s.callTargets := by
  unfold targetsRound
  rw [h.eofbit, if_neg Bool.false_ne_true, IfStream.read_of_lt h hlen, if_pos rfl]

theorem targetsRound_of_le {s : TargetsState} (h : s.infile.Delivers)
    (hlen : 8 ≤ s.infile.rest.length) : targetsRound s = .again s.next := by
  have heof : (s.infile.read 8).2.eofbit = false := by
    rw [IfStream.read_of_le h hlen]
    exact h.eofbit
  unfold targetsRound
  rw [h.eofbit, heof, if_neg Bool.false_ne_true, if_neg Bool.false_ne_true]

/-- The stream behind the first word. -/
theorem IfStream.Delivers.drop {infile : IfStream} (h : infile.Delivers) (n : Nat) :
    IfStream.Delivers { infile with rest := infile.rest.drop n } := ⟨h.eofbit, h.failbit, h.ends⟩

/-- A complete record is inserted, and the stream is behind it. -/
theorem next_of_le {s : TargetsState} (h : s.infile.Delivers) (hlen : 16 ≤ s.infile.rest.length) :
    s.next.infile = { s.infile with rest := s.infile.rest.drop 16 } ∧
      s.next.callTargets = s.callTargets.insert
        (load64 (fun k => s.infile.rest.getD k 0) 0,
          load64 (fun k => s.infile.rest.getD k 0) 8) := by
  have hsecond : 8 ≤ (s.infile.rest.drop 8).length := by
    rw [List.length_drop]
    omega
  unfold TargetsState.next
  dsimp only
  rw [IfStream.read_of_le h (by omega), IfStream.read_of_le (h.drop 8) hsecond]
  constructor
  · dsimp only
    rw [List.drop_drop]
  · dsimp only
    have hfirst : load64 (bufferOf (s.infile.rest.take 8) s.callAddr) 0 =
        load64 (fun k => s.infile.rest.getD k 0) 0 :=
      load64_take (i := 0) (by omega)
    rw [hfirst, load64_take (i := 8) (by omega)]

/-- The second word is cut short: the entry is inserted all the same, and the loop ends. -/
theorem returns_of_cut {s : TargetsState} (h : s.infile.Delivers)
    (hle : 8 ≤ s.infile.rest.length) (hlt : s.infile.rest.length < 16) :
    ∃ e, Returns targetsRound s (s.callTargets.insert e) := by
  have hsecond : (s.infile.rest.drop 8).length < 8 := by
    rw [List.length_drop]
    omega
  have heof : s.next.infile.eofbit = true := by
    unfold TargetsState.next
    dsimp only
    rw [IfStream.read_of_le h hle]
    exact IfStream.read_of_lt (h.drop 8) hsecond
  have hleave : targetsRound s.next = .leave s.next.callTargets := by
    unfold targetsRound
    rw [heof, if_pos rfl]
  exact ⟨_, .of_again (targetsRound_of_le h hle) (returns_of_leave hleave)⟩

/-- What the loop adds behind the records of a file: nothing, or one entry for a last record that
ends within its second word. -/
theorem returns_targetsRound (s : TargetsState) (h : s.infile.Delivers) :
    ∃ extra, Returns targetsRound s
        ((records s.infile.rest ++ extra).foldl CallTargets.insert s.callTargets) ∧
      (extra = [] ↔ s.infile.rest.length % 16 < 8) := by
  generalize hlen : s.infile.rest.length = len
  induction len using Nat.strongRecOn generalizing s with
  | ind len ih =>
      subst hlen
      by_cases hshort : s.infile.rest.length < 16
      · have hrecords : records s.infile.rest = [] := by
          rw [records, if_neg (Nat.not_le.mpr hshort)]
        rw [hrecords, Nat.mod_eq_of_lt hshort]
        by_cases hfirst : s.infile.rest.length < 8
        · exact ⟨[], returns_of_leave (targetsRound_of_lt h hfirst), iff_of_true rfl hfirst⟩
        · obtain ⟨e, hreturns⟩ := returns_of_cut h (Nat.not_lt.mp hfirst) hshort
          exact ⟨[e], hreturns, iff_of_false (List.cons_ne_nil e []) hfirst⟩
      · have hlong := Nat.not_lt.mp hshort
        obtain ⟨hinfile, htargets⟩ := next_of_le h hlong
        have hnext : s.next.infile.Delivers := by
          rw [hinfile]
          exact h.drop 16
        have hrest : s.next.infile.rest = s.infile.rest.drop 16 := by rw [hinfile]
        have hlength : s.next.infile.rest.length = s.infile.rest.length - 16 := by
          rw [hrest, List.length_drop]
        obtain ⟨extra, hreturns, hiff⟩ := ih _ (by omega) s.next hnext rfl
        refine ⟨extra, .of_again (targetsRound_of_le h (by omega)) ?_, ?_⟩
        · rw [records, if_pos hlong, List.cons_append, List.foldl_cons, ← htargets, ← hrest]
          exact hreturns
        · rw [hiff, hlength]
          omega

/-- **When the file is decoded**: it is opened, reading it ends at the end of the file, and no
second word of a record is cut short. -/
theorem decodesFile_iff (content : List Byte) (endsRegularly opens : Bool)
    (callAddr callDest : Nat → Byte) :
    DecodesFile (IfStream.openFile content endsRegularly opens) callAddr callDest ↔
      opens = true ∧ endsRegularly = true ∧ content.length % 16 < 8 := by
  by_cases hdelivers : opens = true ∧ endsRegularly = true
  · obtain ⟨rfl, rfl⟩ := hdelivers
    have h : (IfStream.openFile content true true).Delivers := ⟨rfl, rfl, rfl⟩
    obtain ⟨extra, hreturns, hiff⟩ : ∃ extra,
        Returns targetsRound
          ⟨IfStream.openFile content true true, callAddr, callDest, Multimap.empty⟩
          (CallTargets.ofList (records content ++ extra)) ∧
        (extra = [] ↔ content.length % 16 < 8) := returns_targetsRound ⟨_, _, _, _⟩ h
    rw [← hiff, and_iff_right rfl, and_iff_right rfl]
    constructor
    · rintro ⟨callTargets, hreturns', hall⟩
      have heq := (hreturns.unique hreturns').trans (hall rfl rfl)
      -- the two multimaps have the same number of entries
      have hlength := congrArg (fun m : CallTargets => m.entries.length) heq
      have hperm := (CallTargets.perm_ofList (records content ++ extra)).length_eq
      have hperm' := (CallTargets.perm_ofList (records content)).length_eq
      rw [List.length_append] at hperm
      have hzero : extra.length = 0 := by
        have : (CallTargets.ofList (records content ++ extra)).entries.length =
            (CallTargets.ofList (records content)).entries.length := hlength
        omega
      exact List.eq_nil_of_length_eq_zero hzero
    · rintro rfl
      refine ⟨_, hreturns, fun _ _ => ?_⟩
      rw [List.append_nil]
      rfl
  · have hfails : (IfStream.openFile content endsRegularly opens).Fails := by
      refine ⟨rfl, ?_⟩
      cases opens with
      | false => exact .inl rfl
      | true =>
          cases endsRegularly with
          | false => exact .inr rfl
          | true => exact absurd ⟨rfl, rfl⟩ hdelivers
    constructor
    · rintro ⟨callTargets, hreturns, -⟩
      exact absurd hreturns (not_returns (fun s => s.infile.Fails)
        (fun _ => targetsRound_of_fails) hfails callTargets)
    · rintro ⟨hopens, hends, -⟩
      exact absurd ⟨hopens, hends⟩ hdelivers

/-- The targets of a call are then found in the order of the file. -/
theorem DecodesFile.equalRange {infile : IfStream} {callAddr callDest : Nat → Byte}
    (h : DecodesFile infile callAddr callDest) (hdelivers : infile.Delivers) :
    ∃ callTargets, Returns targetsRound ⟨infile, callAddr, callDest, Multimap.empty⟩ callTargets ∧
      ∀ call, callTargets.equalRange call =
        ((records infile.rest).filter fun e => e.1 = call).map Prod.snd := by
  obtain ⟨callTargets, hreturns, hall⟩ := h
  refine ⟨callTargets, hreturns, fun call => ?_⟩
  rw [hall hdelivers.failbit hdelivers.ends]
  exact Multimap.equalRange_ofList _ call

/-! ## A record that is cut short -/

/-- A file of one word. -/
def oneWordFile : IfStream := .openFile [0x00, 0x01, 0x00, 0x81, 0xff, 0xff, 0xff, 0xff] true true

/-- **A record that is not in the file**: its target is what was in the variable. -/
theorem oneWordFile_not_decoded :
    records oneWordFile.rest = [] ∧ ¬ DecodesFile oneWordFile (fun _ => 0) (fun _ => 0) := by
  have h : oneWordFile.Delivers := ⟨rfl, rfl, rfl⟩
  have hrecords : records oneWordFile.rest = [] := by
    rw [records]
    rfl
  refine ⟨hrecords, ?_⟩
  rintro ⟨callTargets, hreturns, hall⟩
  obtain ⟨e, hcut⟩ := returns_of_cut
    (s := ⟨oneWordFile, fun _ => 0, fun _ => 0, Multimap.empty⟩) h (by decide) (by decide)
  have heq := (hcut.unique hreturns).trans (hall rfl rfl)
  rw [hrecords] at heq
  have hperm := (CallTargets.perm_insert Multimap.empty e).length_eq
  rw [heq] at hperm
  cases hperm

end KernInt
