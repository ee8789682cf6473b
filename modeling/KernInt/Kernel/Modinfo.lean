import KernInt.Elf.ElfFile
import KernInt.Kernel.ModuleLoad
import KernInt.Lib.CString

set_option autoImplicit false

/-! # The dependencies of a module

`ElfModuleLoader::loadDependencies` walks over the strings of the `.modinfo` section, and takes
the first one that begins with `depends` apart by `strtok_r`, which writes into the section.
`loadModule` is called for each token, and parses the sections of other modules before it returns;
so do other threads. A module is parsed once, so all that happens meanwhile is in sections other
than this one, or in none: the parsers take turns in any order, with writes in between that are in
no section (`Turn`). None of them reads outside of its section, each ends after a bounded number
of turns, and has then called `loadModule` for the names of its first `depends=` string
(`loadDependencies_exact`).
-/

namespace KernInt

open Lib

/-- `"depends"` -/
def dependsKey : List Byte := [0x64, 0x65, 0x70, 0x65, 0x6e, 0x64, 0x73]

theorem nulFree_dependsKey : NulFree dependsKey := by decide

def SectionInfo.Inside (miS : SectionInfo) (a : U64) : Prop :=
  miS.index.toNat ≤ a.toNat ∧ a.toNat < miS.index.toNat + miS.size.toNat

instance (miS : SectionInfo) (a : U64) : Decidable (miS.Inside a) :=
  inferInstanceAs (Decidable (_ ∧ _))

/-- The memory of the host, of which only the section may be read. -/
def SectionInfo.reader (miS : SectionInfo) (mem : Memory) : Reader := fun a =>
  if miS.Inside a then some (mem a) else none

/-! ## One parser -/

/-- The points between two rounds of the loops, and behind a call of `loadModule`. `token` has
the result of `strtok_r`, which is missing where that is the null pointer. -/
inductive ModinfoPhase where
  | scan (modinfo : U64)
  | token (module : Option U64) (saveptr : U64)
  | called (saveptr : U64)
  | returned
  /-- A byte outside of the section would have been read. -/
  | outside
  deriving DecidableEq

/-- What a turn of a parser does: its next phase, the address that becomes NUL, and the name for
which `loadModule` is called. -/
structure ModinfoRound where
  phase : ModinfoPhase
  cut : Option U64
  call : Option StdString
  deriving DecidableEq

/-- The next turn of a parser that has not ended; there is none if it would leave the section. No
string in the section is longer than the section. -/
def loadDependenciesRound (miS : SectionInfo) (mem : Memory) :
    ModinfoPhase → Option ModinfoRound
  | .scan modinfo =>
      if modinfo < miS.index + miS.size then do
        let c ← miS.reader mem modinfo
        if c = 0 then return ⟨.scan (modinfo + 1), none, none⟩
        let depends ← startsWithAt (miS.reader mem) dependsKey modinfo
        if depends then
          let t ← strtokR (miS.reader mem) miS.size.toNat 0x2c (modinfo + 8)
          return ⟨.token t.token t.saveptr, t.cut, none⟩
        let s ← bytesWhile (miS.reader mem) (· != 0) miS.size.toNat modinfo
        return ⟨.scan (modinfo + BitVec.ofNat 64 (s.length + 1)), none, none⟩
      else some ⟨.returned, none, none⟩
  | .token none _ => some ⟨.returned, none, none⟩
  | .token (some module) saveptr => do
      let c ← miS.reader mem module
      if c = 0 then return ⟨.returned, none, none⟩
      let name ← bytesWhile (miS.reader mem) (· != 0) miS.size.toNat module
      return ⟨.called saveptr, none, some name⟩
  | .called saveptr => do
      let t ← strtokR (miS.reader mem) miS.size.toNat 0x2c saveptr
      return ⟨.token t.token t.saveptr, t.cut, none⟩
  | .returned => none
  | .outside => none

/-- A parser, with the names for which it has called `loadModule`. -/
structure ModinfoParser where
  phase : ModinfoPhase
  calls : List StdString
  deriving DecidableEq

/-- The beginning of `loadDependencies`. -/
def ModinfoParser.loadDependencies (miS : SectionInfo) : ModinfoParser where
  phase := if miS.index = 0 then .returned else .scan miS.index
  calls := []

/-! ## All parsers -/

/-- The memory and the parser of each module. -/
structure ModinfoState (M : Type) where
  mem : Memory
  parsers : M → ModinfoParser

/-- A turn of the parser of a module, or a write of anyone that is in none of the sections. -/
inductive Turn {M : Type} (miS : M → SectionInfo) where
  | parser (t : M)
  | elsewhere (a : { a : U64 // ∀ t, ¬ (miS t).Inside a }) (b : Byte)

section

variable {M : Type} (miS : M → SectionInfo)

def cutAt (mem : Memory) : Option U64 → Memory
  | some c => Function.update mem c 0
  | none => mem

/-- Each parser is at its start. -/
def ModinfoState.start (mem : Memory) : ModinfoState M where
  mem := mem
  parsers t := .loadDependencies (miS t)

variable [DecidableEq M] {miS}

/-- The state behind a turn of the parser of `t`. -/
def ModinfoState.moved (s : ModinfoState M) (t : M) (r : ModinfoRound) : ModinfoState M where
  mem := cutAt s.mem r.cut
  parsers := Function.update s.parsers t ⟨r.phase, (s.parsers t).calls ++ r.call.toList⟩

def ModinfoState.turn (s : ModinfoState M) : Turn miS → Option (ModinfoState M)
  | .elsewhere a b => some { s with mem := Function.update s.mem a b }
  | .parser t =>
      if (s.parsers t).phase = .returned ∨ (s.parsers t).phase = .outside then none
      else
        match loadDependenciesRound (miS t) s.mem (s.parsers t).phase with
        | some r => some (s.moved t r)
        | none => some (s.moved t ⟨.outside, none, none⟩)

/-- The state behind the turns of a schedule. -/
def ModinfoState.run (s : ModinfoState M) (schedule : List (Turn miS)) :
    Option (ModinfoState M) :=
  schedule.foldlM ModinfoState.turn s

end

/-! ## What the section tells -/

/-- The nonempty names in the first `depends=` string, separated by commas. -/
def dependencyNames (strings : List StdString) : List StdString :=
  match strings.find? fun s => (dependsKey ++ [0x3d]).isPrefixOf s with
  | some s => tokens 0x2c (s.drop 8)
  | none => []

/-- Only the key `depends` begins with `depends`. -/
def OnlyDependsKey (s : StdString) : Prop :=
  dependsKey.isPrefixOf s = true → (dependsKey ++ [0x3d]).isPrefixOf s = true

theorem dependencyNames_cons_of_not {s : StdString} {strings : List StdString}
    (h : dependsKey.isPrefixOf s = false) :
    dependencyNames (s :: strings) = dependencyNames strings := by
  have hlong : (dependsKey ++ [0x3d]).isPrefixOf s = false := by
    rw [Bool.eq_false_iff, ne_eq, List.isPrefixOf_iff_prefix]
    intro hprefix
    have hshort := (List.prefix_append dependsKey [0x3d]).trans hprefix
    rw [← List.isPrefixOf_iff_prefix, h] at hshort
    cases hshort
  rw [dependencyNames, dependencyNames,
    List.find?_cons_of_neg (by rw [hlong]; exact Bool.false_ne_true)]

theorem dependencyNames_cons {value : StdString} {strings : List StdString} :
    dependencyNames ((dependsKey ++ 0x3d :: value) :: strings) = tokens 0x2c value := by
  have hprefix : (dependsKey ++ [0x3d]).isPrefixOf (dependsKey ++ 0x3d :: value) = true := by
    rw [List.isPrefixOf_iff_prefix]
    exact ⟨value, by simp⟩
  rw [dependencyNames, List.find?_cons_of_pos hprefix]
  rfl

/-! ## One string -/

section

variable {miS : SectionInfo} {mem mem' : Memory} {a : U64} {s : StdString}

/-- Only the bytes of the section are read. -/
theorem reader_congr (h : ∀ a, miS.Inside a → mem' a = mem a) :
    miS.reader mem' = miS.reader mem := by
  funext a
  by_cases ha : miS.Inside a
  · rw [SectionInfo.reader, SectionInfo.reader, if_pos ha, if_pos ha, h a ha]
  · rw [SectionInfo.reader, SectionInfo.reader, if_neg ha, if_neg ha]

/-- The section has the string at the address, with its NUL. -/
structure StringIn (miS : SectionInfo) (read : Reader) (a : U64) (s : StdString) : Prop where
  nul_free : NulFree s
  reads : Reads read a (s ++ [0])
  start_le : miS.index.toNat ≤ a.toNat
  lt_stop : a.toNat + s.length < miS.index.toNat + miS.size.toNat

theorem StringIn.length_lt {read : Reader} (h : StringIn miS read a s) :
    s.length < miS.size.toNat := by
  have hstart := h.start_le
  have hstop := h.lt_stop
  omega

/-- Within a string, addresses do not wrap around. -/
theorem StringIn.toNat_add {read : Reader} {front back : StdString}
    (h : StringIn miS read a (front ++ back))
    (hwrap : miS.index.toNat + miS.size.toNat < 2 ^ 64) :
    (a + BitVec.ofNat 64 front.length).toNat = a.toNat + front.length := by
  have hstop := h.lt_stop
  rw [List.length_append] at hstop
  exact toNat_add_ofNat (by omega)

/-- What is behind the first characters. -/
theorem StringIn.drop {read : Reader} {front back : StdString}
    (h : StringIn miS read a (front ++ back))
    (hwrap : miS.index.toNat + miS.size.toNat < 2 ^ 64) :
    StringIn miS read (a + BitVec.ofNat 64 front.length) back := by
  have hstart := h.start_le
  have hstop := h.lt_stop
  have hreads := h.reads
  have haddr := h.toNat_add hwrap
  rw [List.length_append] at hstop
  rw [List.append_assoc, reads_append] at hreads
  exact ⟨fun h0 => h.nul_free (List.mem_append_right _ h0), hreads.2, by omega, by omega⟩

/-- A byte of a string becomes NUL: the string ends there, and another one begins behind it. -/
theorem StringIn.split {front back : StdString} {d : Byte} {stop : U64}
    (h : StringIn miS (miS.reader mem) a (front ++ d :: back))
    (hwrap : miS.index.toNat + miS.size.toNat < 2 ^ 64)
    (hstop : stop = a + BitVec.ofNat 64 front.length) :
    miS.Inside stop ∧
      StringIn miS (miS.reader (Function.update mem stop 0)) a front ∧
      StringIn miS (miS.reader (Function.update mem stop 0)) (stop + 1) back ∧
      (stop + 1).toNat = a.toNat + front.length + 1 := by
  have hstart := h.start_le
  have hlt := h.lt_stop
  rw [List.length_append, List.length_cons] at hlt
  have haddr : stop.toNat = a.toNat + front.length := by
    rw [hstop]
    exact h.toNat_add hwrap
  have hnext : (stop + 1).toNat = a.toNat + front.length + 1 := by
    rw [← haddr]
    exact toNat_add_ofNat (k := 1) (by omega)
  have hinside : miS.Inside stop := ⟨by omega, by omega⟩
  -- only the byte at `stop` is another one
  have hreads : Reads (miS.reader (Function.update mem stop 0)) a
      ((front ++ [0]) ++ (back ++ [0])) := by
    rw [List.append_assoc, List.singleton_append]
    refine Reads.replace (by simpa using h.reads) (by simp; omega) ?_ fun b hb => ?_
    · rw [← hstop, SectionInfo.reader, if_pos hinside, Function.update_self]
    · rw [← hstop] at hb
      simp only [SectionInfo.reader, Function.update_of_ne hb]
  obtain ⟨hfront, hback⟩ := reads_append.mp hreads
  rw [List.length_append, List.length_singleton, BitVec.ofNat_add, ← BitVec.add_assoc, ← hstop]
    at hback
  refine ⟨hinside, ⟨?_, hfront, hstart, by omega⟩, ⟨?_, hback, by omega, by omega⟩, hnext⟩
  · exact fun h0 => h.nul_free (List.mem_append_left _ h0)
  · exact fun h0 => h.nul_free (List.mem_append_right _ (List.mem_cons_of_mem _ h0))

/-- The bytes of a string up to its NUL. -/
theorem StringIn.bytesWhile_eq {read : Reader} (h : StringIn miS read a s) :
    bytesWhile read (· != 0) miS.size.toNat a = some s := by
  refine Lib.bytesWhile_eq h.reads ?_ (by simp) h.length_lt
  intro x hx
  have hne : x ≠ 0 := fun h0 => h.nul_free (h0 ▸ hx)
  exact bne_iff_ne.mpr hne

/-- A string that is not empty begins with a byte other than NUL. -/
theorem StringIn.first {read : Reader} (h : StringIn miS read a s) (hne : s ≠ []) :
    ∃ b, read a = some b ∧ b ≠ 0 := by
  obtain ⟨b, rest, rfl⟩ := List.exists_cons_of_ne_nil hne
  exact ⟨b, (reads_cons.mp h.reads).1, fun h0 => h.nul_free (h0 ▸ List.mem_cons_self)⟩

/-! ## The next token -/

/-- What holds between two tokens: the names that have been called for, the token that comes next,
and what is left of the list. -/
def TokensLeft (miS : SectionInfo) (read : Reader) (names calls : List StdString) :
    Option U64 → U64 → Prop
  | none, _ => calls = names
  | some module, saveptr => ∃ tok rest, tok ≠ [] ∧ StringIn miS read module tok ∧
      StringIn miS read saveptr rest ∧ calls ++ tok :: tokens 0x2c rest = names

/-- `strtok_r` finds the next name. It writes inside the section, and moves on if it finds one. -/
theorem strtokR_next {names calls : List StdString} {value : StdString}
    (hwrap : miS.index.toNat + miS.size.toNat < 2 ^ 64)
    (h : StringIn miS (miS.reader mem) a value) (hnames : calls ++ tokens 0x2c value = names) :
    ∃ t, strtokR (miS.reader mem) miS.size.toNat 0x2c a = some t ∧
      (∀ c, t.cut = some c → miS.Inside c) ∧
      TokensLeft miS (miS.reader (cutAt mem t.cut)) names calls t.token t.saveptr ∧
      (t.token.isSome = true → a.toNat < t.saveptr.toNat) := by
  have hdelim : (0x2c : Byte) ≠ 0 := by decide
  obtain ⟨t, ht, hspec⟩ := strtokR_spec h.reads h.nul_free hdelim h.length_lt
  refine ⟨t, ht, ?_⟩
  cases hspec with
  | nothing hall =>
      -- there are only commas left
      have hnone : tokens 0x2c value = [] := by
        have hskip := tokens_skip hall []
        rwa [List.append_nil, tokens_nil] at hskip
      rw [hnone, List.append_nil] at hnames
      exact ⟨by simp, hnames, by simp⟩
  | @last skipped tok heq hskipped hne htok =>
      subst heq
      rw [tokens_skip hskipped, tokens_of_not_mem hne htok] at hnames
      have hlen := List.length_pos_iff.mpr hne
      have hskip := h.toNat_add hwrap
      have hmodule := h.drop hwrap
      -- behind the last token there is only its NUL
      have hmodule' : StringIn miS (miS.reader mem)
          (a + BitVec.ofNat 64 skipped.length) (tok ++ []) := by
        rwa [List.append_nil]
      have hstop := hmodule'.toNat_add hwrap
      refine ⟨by simp, ⟨tok, [], hne, hmodule, hmodule'.drop hwrap, hnames⟩, fun _ => ?_⟩
      rw [hstop]
      omega
  | @cut skipped tok rest heq hskipped hne htok =>
      subst heq
      rw [tokens_skip hskipped, tokens_cut hne htok] at hnames
      have hskip := h.toNat_add hwrap
      -- the delimiter has become the NUL of the token
      obtain ⟨hinside, hmodule, hrest, hsave⟩ := (h.drop hwrap).split hwrap rfl
      refine ⟨fun c hc => ?_, ⟨tok, rest, hne, hmodule, hrest, hnames⟩, fun _ => ?_⟩
      · cases hc
        exact hinside
      · rw [hsave]
        omega

/-! ## The invariant of a parser -/

/-- The strings that are left, up to the end of the section. -/
structure StringsLeft (miS : SectionInfo) (read : Reader) (modinfo : U64)
    (todo : List StdString) : Prop where
  nul_free : ∀ s ∈ todo, NulFree s
  only_depends : ∀ s ∈ todo, OnlyDependsKey s
  reads : Reads read modinfo (nulBlock todo)
  start_le : miS.index.toNat ≤ modinfo.toNat
  stop_eq : modinfo.toNat + (nulBlock todo).length = miS.index.toNat + miS.size.toNat

theorem StringsLeft.head {read : Reader} {todo : List StdString}
    (h : StringsLeft miS read a (s :: todo)) : StringIn miS read a s := by
  have hreads := h.reads
  have hstop := h.stop_eq
  rw [nulBlock_cons, reads_append] at hreads
  rw [length_nulBlock_cons] at hstop
  exact ⟨h.nul_free s List.mem_cons_self, hreads.1, h.start_le, by omega⟩

/-- The end of the section, as the program computes it. -/
theorem toNat_stop (hwrap : miS.index.toNat + miS.size.toNat < 2 ^ 64) :
    (miS.index + miS.size).toNat = miS.index.toNat + miS.size.toNat := by
  rw [BitVec.toNat_add]
  exact Nat.mod_eq_of_lt hwrap

theorem StringsLeft.lt_stop {read : Reader} {todo : List StdString}
    (h : StringsLeft miS read a (s :: todo))
    (hwrap : miS.index.toNat + miS.size.toNat < 2 ^ 64) : a < miS.index + miS.size := by
  have hstop := h.stop_eq
  rw [length_nulBlock_cons] at hstop
  rw [BitVec.lt_def, toNat_stop hwrap]
  omega

theorem StringsLeft.toNat_tail {read : Reader} {todo : List StdString}
    (h : StringsLeft miS read a (s :: todo))
    (hwrap : miS.index.toNat + miS.size.toNat < 2 ^ 64) :
    (a + BitVec.ofNat 64 (s.length + 1)).toNat = a.toNat + (s.length + 1) := by
  have hstop := h.stop_eq
  rw [length_nulBlock_cons] at hstop
  exact toNat_add_ofNat (by omega)

theorem StringsLeft.tail {read : Reader} {todo : List StdString}
    (h : StringsLeft miS read a (s :: todo))
    (hwrap : miS.index.toNat + miS.size.toNat < 2 ^ 64) :
    StringsLeft miS read (a + BitVec.ofNat 64 (s.length + 1)) todo := by
  have hreads := h.reads
  have hstop := h.stop_eq
  have hstart := h.start_le
  rw [nulBlock_cons, reads_append, List.length_append, List.length_singleton] at hreads
  rw [length_nulBlock_cons] at hstop
  have haddr := h.toNat_tail hwrap
  exact ⟨fun s' hs' => h.nul_free s' (List.mem_cons_of_mem s hs'),
    fun s' hs' => h.only_depends s' (List.mem_cons_of_mem s hs'), hreads.2, by omega, by omega⟩

/-- What holds of a parser in front of each of its turns, if `names` are to be called for and
`calls` have been. -/
def PhaseInv (miS : SectionInfo) (read : Reader) (names calls : List StdString) :
    ModinfoPhase → Prop
  | .scan modinfo => calls = [] ∧
      ∃ todo, StringsLeft miS read modinfo todo ∧ dependencyNames todo = names
  | .token module saveptr => TokensLeft miS read names calls module saveptr
  | .called saveptr => ∃ rest, StringIn miS read saveptr rest ∧
      calls ++ tokens 0x2c rest = names
  | .returned => calls = names
  | .outside => False

theorem PhaseInv.ne_outside {read : Reader} {names calls : List StdString} {phase : ModinfoPhase}
    (h : PhaseInv miS read names calls phase) : phase ≠ .outside := by
  rintro rfl
  exact h

/-- A bound for the number of turns that a parser still takes. -/
def turnsLeft (miS : SectionInfo) : ModinfoPhase → Nat
  | .scan modinfo => 2 * (miS.index.toNat + miS.size.toNat - modinfo.toNat) + 3
  | .token none _ => 1
  | .token (some _) saveptr => 2 * (miS.index.toNat + miS.size.toNat - saveptr.toNat) + 2
  | .called saveptr => 2 * (miS.index.toNat + miS.size.toNat - saveptr.toNat) + 1
  | .returned => 0
  | .outside => 0

variable {names calls : List StdString}

/-- A turn goes well: it stays inside the section, keeps the invariant and makes progress. -/
def RoundOk (miS : SectionInfo) (mem : Memory) (names calls : List StdString)
    (phase : ModinfoPhase) : Prop :=
  ∃ r, loadDependenciesRound miS mem phase = some r ∧ (∀ c, r.cut = some c → miS.Inside c) ∧
    PhaseInv miS (miS.reader (cutAt mem r.cut)) names (calls ++ r.call.toList) r.phase ∧
    turnsLeft miS r.phase < turnsLeft miS phase

/-- The next string takes fewer turns. -/
theorem StringsLeft.turnsLeft_tail {read : Reader} {todo : List StdString}
    (h : StringsLeft miS read a (s :: todo))
    (hwrap : miS.index.toNat + miS.size.toNat < 2 ^ 64) :
    turnsLeft miS (.scan (a + BitVec.ofNat 64 (s.length + 1))) < turnsLeft miS (.scan a) := by
  have hstop := h.stop_eq
  rw [length_nulBlock_cons] at hstop
  simp only [turnsLeft, h.toNat_tail hwrap]
  omega

/-- A token that has been looked for takes fewer turns than what has been in front of it. -/
theorem turnsLeft_token {t : Strtok} {n : Nat}
    (hmoves : t.token.isSome = true → a.toNat < t.saveptr.toNat)
    (hn : 2 * (miS.index.toNat + miS.size.toNat - a.toNat) + 1 ≤ n)
    (ha : a.toNat < miS.index.toNat + miS.size.toNat) :
    turnsLeft miS (.token t.token t.saveptr) < n := by
  cases htoken : t.token with
  | none =>
      show 1 < n
      omega
  | some module =>
      have hlt := hmoves (by rw [htoken]; rfl)
      show 2 * (miS.index.toNat + miS.size.toNat - t.saveptr.toNat) + 2 < n
      omega

theorem roundOk_token {module : Option U64} {saveptr : U64}
    (h : TokensLeft miS (miS.reader mem) names calls module saveptr) :
    RoundOk miS mem names calls (.token module saveptr) := by
  cases module with
  | none => exact ⟨_, rfl, by simp, (List.append_nil calls).trans h, Nat.one_pos⟩
  | some module =>
      obtain ⟨tok, rest, hne, hmodule, hsave, hnames⟩ := h
      obtain ⟨b, hfirst, hb⟩ := hmodule.first hne
      refine ⟨⟨.called saveptr, none, some tok⟩, ?_, by simp, ?_, ?_⟩
      · simp only [loadDependenciesRound, hfirst, Option.bind_eq_bind, Option.bind_some, if_neg hb,
          hmodule.bytesWhile_eq]
        rfl
      · exact ⟨rest, hsave, by simpa using hnames⟩
      · exact Nat.lt_succ_self _

theorem roundOk_called {saveptr : U64} (hwrap : miS.index.toNat + miS.size.toNat < 2 ^ 64)
    {rest : StdString} (h : StringIn miS (miS.reader mem) saveptr rest)
    (hnames : calls ++ tokens 0x2c rest = names) :
    RoundOk miS mem names calls (.called saveptr) := by
  obtain ⟨t, ht, hcut, htokens, hmoves⟩ := strtokR_next hwrap h hnames
  refine ⟨⟨.token t.token t.saveptr, t.cut, none⟩, ?_, hcut, by simpa [PhaseInv] using htokens, ?_⟩
  · simp only [loadDependenciesRound, ht, Option.bind_eq_bind, Option.bind_some]
    rfl
  · have hstop := h.lt_stop
    exact turnsLeft_token hmoves (Nat.le_refl _) (by omega)

/-- A NUL of its own. -/
theorem roundOk_empty {modinfo : U64} (hwrap : miS.index.toNat + miS.size.toNat < 2 ^ 64)
    {todo : List StdString} (h : StringsLeft miS (miS.reader mem) modinfo ([] :: todo))
    (hnames : dependencyNames ([] :: todo) = names) :
    RoundOk miS mem names [] (.scan modinfo) := by
  have hzero : miS.reader mem modinfo = some 0 := (reads_cons.mp h.head.reads).1
  have hskip : dependencyNames ([] :: todo) = dependencyNames todo :=
    dependencyNames_cons_of_not (by decide)
  refine ⟨⟨.scan (modinfo + 1), none, none⟩, ?_, by simp,
    ⟨rfl, todo, h.tail hwrap, by rw [← hskip, hnames]⟩, h.turnsLeft_tail hwrap⟩
  simp only [loadDependenciesRound, if_pos (h.lt_stop hwrap), hzero, Option.bind_eq_bind,
    Option.bind_some, if_true]
  rfl

/-- A string with another key. -/
theorem roundOk_other {modinfo : U64} (hwrap : miS.index.toNat + miS.size.toNat < 2 ^ 64)
    {todo : List StdString} (h : StringsLeft miS (miS.reader mem) modinfo (s :: todo))
    (hne : s ≠ []) (hkey : dependsKey.isPrefixOf s = false)
    (hnames : dependencyNames (s :: todo) = names) :
    RoundOk miS mem names [] (.scan modinfo) := by
  obtain ⟨b, hfirst, hb⟩ := h.head.first hne
  have hstarts := startsWithAt_eq nulFree_dependsKey h.head.reads
  rw [hkey] at hstarts
  refine ⟨⟨.scan (modinfo + BitVec.ofNat 64 (s.length + 1)), none, none⟩, ?_, by simp,
    ⟨rfl, todo, h.tail hwrap, ?_⟩, h.turnsLeft_tail hwrap⟩
  · simp only [loadDependenciesRound, if_pos (h.lt_stop hwrap), hfirst, Option.bind_eq_bind,
      Option.bind_some, if_neg hb, hstarts, h.head.bytesWhile_eq]
    rfl
  · rw [← dependencyNames_cons_of_not hkey, hnames]

/-- The string that lists the dependencies. -/
theorem roundOk_depends {modinfo : U64} (hwrap : miS.index.toNat + miS.size.toNat < 2 ^ 64)
    {todo : List StdString} (h : StringsLeft miS (miS.reader mem) modinfo (s :: todo))
    (hkey : dependsKey.isPrefixOf s = true) (hnames : dependencyNames (s :: todo) = names) :
    RoundOk miS mem names [] (.scan modinfo) := by
  -- the list begins behind the `=`, which is not compared
  obtain ⟨value, rfl⟩ :=
    List.isPrefixOf_iff_prefix.mp (h.only_depends _ List.mem_cons_self hkey)
  obtain ⟨b, hfirst, hb⟩ := h.head.first (by simp)
  have hstarts := startsWithAt_eq nulFree_dependsKey h.head.reads
  rw [hkey] at hstarts
  rw [List.append_assoc, List.singleton_append, dependencyNames_cons] at hnames
  have hlist := h.head.drop hwrap
  have hbehind := h.head.toNat_add hwrap
  have hnames' : [] ++ tokens 0x2c value = names := hnames
  obtain ⟨t, ht, hcut, htokens, hmoves⟩ := strtokR_next hwrap hlist hnames'
  have ht' : strtokR (miS.reader mem) miS.size.toNat 0x2c (modinfo + 8) = some t := ht
  refine ⟨⟨.token t.token t.saveptr, t.cut, none⟩, ?_, hcut, htokens, ?_⟩
  · simp only [loadDependenciesRound, if_pos (h.lt_stop hwrap), hfirst, Option.bind_eq_bind,
      Option.bind_some, if_neg hb, hstarts, if_true, ht']
    rfl
  · have hstop := hlist.lt_stop
    refine turnsLeft_token hmoves ?_ (by omega)
    show _ ≤ 2 * (miS.index.toNat + miS.size.toNat - modinfo.toNat) + 3
    omega

theorem roundOk_scan {modinfo : U64} (hwrap : miS.index.toNat + miS.size.toNat < 2 ^ 64)
    {todo : List StdString} (h : StringsLeft miS (miS.reader mem) modinfo todo)
    (hnames : dependencyNames todo = names) : RoundOk miS mem names [] (.scan modinfo) := by
  cases todo with
  | nil =>
      -- behind the last string
      have hstop := h.stop_eq
      have hge : ¬ modinfo < miS.index + miS.size := by
        rw [BitVec.lt_def, toNat_stop hwrap]
        simp at hstop
        omega
      refine ⟨⟨.returned, none, none⟩, ?_, by simp, hnames, by simp [turnsLeft]⟩
      simp only [loadDependenciesRound, if_neg hge]
  | cons s todo =>
      by_cases hne : s = []
      · subst hne
        exact roundOk_empty hwrap h hnames
      · cases hkey : dependsKey.isPrefixOf s with
        | false => exact roundOk_other hwrap h hne hkey hnames
        | true => exact roundOk_depends hwrap h hkey hnames

/-- A parser that has not ended has a turn that goes well. -/
theorem PhaseInv.roundOk {phase : ModinfoPhase}
    (h : PhaseInv miS (miS.reader mem) names calls phase)
    (hwrap : miS.index.toNat + miS.size.toNat < 2 ^ 64) (hgoes : phase ≠ .returned) :
    RoundOk miS mem names calls phase := by
  cases phase with
  | scan modinfo =>
      obtain ⟨rfl, todo, htodo, hnames⟩ := h
      exact roundOk_scan hwrap htodo hnames
  | token module saveptr => exact roundOk_token h
  | called saveptr =>
      obtain ⟨rest, hrest, hnames⟩ := h
      exact roundOk_called hwrap hrest hnames
  | returned => exact absurd rfl hgoes
  | outside => exact h.elim

end

/-! ## All parsers together -/

/-- The sections are in memory, apart from each other, each with its strings. -/
structure ModinfoSections {M : Type} (miS : M → SectionInfo) (strings : M → List StdString)
    (mem : Memory) : Prop where
  index_ne : ∀ t, (miS t).index ≠ 0
  no_wrap : ∀ t, (miS t).index.toNat + (miS t).size.toNat < 2 ^ 64
  size_eq : ∀ t, (nulBlock (strings t)).length = (miS t).size.toNat
  holds : ∀ t, HoldsAt mem (miS t).index (nulBlock (strings t))
  nul_free : ∀ t, ∀ s ∈ strings t, NulFree s
  only_depends : ∀ t, ∀ s ∈ strings t, OnlyDependsKey s
  apart : ∀ t t', t ≠ t' → ∀ a, ¬ ((miS t).Inside a ∧ (miS t').Inside a)

section

variable {M : Type} {miS : M → SectionInfo} {strings : M → List StdString} {mem : Memory}
  {s s' : ModinfoState M}

/-- The invariant of each parser, about the bytes of its own section. -/
def ParsersInv (miS : M → SectionInfo) (strings : M → List StdString)
    (s : ModinfoState M) : Prop :=
  ∀ t, PhaseInv (miS t) ((miS t).reader s.mem) (dependencyNames (strings t))
    (s.parsers t).calls (s.parsers t).phase

theorem parsersInv_start (h : ModinfoSections miS strings mem) :
    ParsersInv miS strings (.start miS mem) := by
  intro t
  have hsize := h.size_eq t
  have hreads : Reads ((miS t).reader mem) (miS t).index (nulBlock (strings t)) := by
    intro k hk
    have hwrap := h.no_wrap t
    have haddr : ((miS t).index + BitVec.ofNat 64 k).toNat = (miS t).index.toNat + k :=
      toNat_add_ofNat (by omega)
    have hinside : (miS t).Inside ((miS t).index + BitVec.ofNat 64 k) := ⟨by omega, by omega⟩
    rw [SectionInfo.reader, if_pos hinside, (h.holds t).get hk]
  simp only [ModinfoState.start, ModinfoParser.loadDependencies, if_neg (h.index_ne t)]
  exact ⟨rfl, strings t, ⟨h.nul_free t, h.only_depends t, hreads, Nat.le_refl _, by omega⟩, rfl⟩

variable [DecidableEq M]

def Turn.isOf (t : M) : Turn miS → Bool
  | .parser t' => t' = t
  | .elsewhere _ _ => false

/-- A parser that has not ended takes its turn. -/
theorem turn_of_goesOn (h : ModinfoSections miS strings mem) (hinv : ParsersInv miS strings s)
    {t : M} (hgoes : (s.parsers t).phase ≠ .returned) :
    ∃ s', s.turn (.parser t : Turn miS) = some s' ∧ ParsersInv miS strings s' ∧
      (∀ t', t' ≠ t → s'.parsers t' = s.parsers t') ∧
      turnsLeft (miS t) (s'.parsers t).phase < turnsLeft (miS t) (s.parsers t).phase := by
  obtain ⟨r, hr, hcut, hkeeps, hless⟩ := (hinv t).roundOk (h.no_wrap t) hgoes
  have hinside := (hinv t).ne_outside
  refine ⟨s.moved t r, ?_, ?_, ?_, ?_⟩
  · simp only [ModinfoState.turn, hgoes, hinside, or_self, if_false, hr]
  · intro t'
    by_cases heq : t' = t
    · subst heq
      simpa [ModinfoState.moved] using hkeeps
    · -- what becomes NUL is in another section
      have hmem : ∀ a, (miS t').Inside a → cutAt s.mem r.cut a = s.mem a := by
        intro a ha
        cases hc : r.cut with
        | none => rfl
        | some c =>
            have hne : a ≠ c := by
              rintro rfl
              exact h.apart t' t heq a ⟨ha, hcut a hc⟩
            exact Function.update_of_ne hne 0 s.mem
      simp only [ModinfoState.moved, Function.update_of_ne heq, reader_congr hmem]
      exact hinv t'
  · intro t' heq
    exact Function.update_of_ne heq _ _
  · simpa [ModinfoState.moved] using hless

/-- Every turn keeps the invariant, and uses up a turn of its parser. -/
theorem turn_keeps (h : ModinfoSections miS strings mem) (hinv : ParsersInv miS strings s)
    {turn : Turn miS} (hturn : s.turn turn = some s') :
    ParsersInv miS strings s' ∧ ∀ t, (if turn.isOf t = true then 1 else 0) +
      turnsLeft (miS t) (s'.parsers t).phase ≤ turnsLeft (miS t) (s.parsers t).phase := by
  cases turn with
  | elsewhere a b =>
      cases hturn
      refine ⟨fun t => ?_, fun t => by simp [Turn.isOf]⟩
      have hmem : ∀ a', (miS t).Inside a' → Function.update s.mem a.val b a' = s.mem a' := by
        intro a' ha'
        have hne : a' ≠ a.val := by
          rintro rfl
          exact a.property t ha'
        exact Function.update_of_ne hne b s.mem
      simp only [reader_congr hmem]
      exact hinv t
  | parser t =>
      have hgoes : (s.parsers t).phase ≠ .returned := by
        intro hp
        simp [ModinfoState.turn, hp] at hturn
      obtain ⟨s₁, hs₁, hkeeps, hothers, hless⟩ := turn_of_goesOn h hinv hgoes
      rw [hturn] at hs₁
      cases hs₁
      refine ⟨hkeeps, fun t' => ?_⟩
      by_cases heq : t = t'
      · subst heq
        simp only [Turn.isOf, decide_true, if_true]
        omega
      · rw [hothers t' (Ne.symm heq)]
        simp [Turn.isOf, heq]

/-- A whole run. -/
theorem run_keeps (h : ModinfoSections miS strings mem) (schedule : List (Turn miS))
    (hinv : ParsersInv miS strings s) (hrun : s.run schedule = some s') :
    ParsersInv miS strings s' ∧ ∀ t, schedule.countP (Turn.isOf t) +
      turnsLeft (miS t) (s'.parsers t).phase ≤ turnsLeft (miS t) (s.parsers t).phase := by
  induction schedule generalizing s with
  | nil =>
      cases hrun
      exact ⟨hinv, fun t => by simp⟩
  | cons turn schedule ih =>
      rw [ModinfoState.run, List.foldlM_cons] at hrun
      obtain ⟨s₁, hturn, hrun⟩ := Option.bind_eq_some_iff.mp hrun
      obtain ⟨hinv₁, hfirst⟩ := turn_keeps h hinv hturn
      obtain ⟨hkeeps, hrest⟩ := ih hinv₁ hrun
      refine ⟨hkeeps, fun t => ?_⟩
      have h1 := hfirst t
      have h2 := hrest t
      rw [List.countP_cons]
      omega

/-- A parser that is alone from some point on returns. -/
theorem returns_alone (h : ModinfoSections miS strings mem) (hinv : ParsersInv miS strings s)
    (t : M) : ∃ n s', s.run (List.replicate n (.parser t : Turn miS)) = some s' ∧
      (s'.parsers t).phase = .returned := by
  induction hn : turnsLeft (miS t) (s.parsers t).phase using Nat.strong_induction_on
    generalizing s with
  | _ n ih =>
      by_cases hp : (s.parsers t).phase = .returned
      · exact ⟨0, s, rfl, hp⟩
      · obtain ⟨s₁, hturn, hinv₁, -, hless⟩ := turn_of_goesOn h hinv hp
        obtain ⟨k, s', hrun, hreturned⟩ := ih _ (hn ▸ hless) hinv₁ rfl
        refine ⟨k + 1, s', ?_, hreturned⟩
        rw [List.replicate_succ, ModinfoState.run, List.foldlM_cons, hturn]
        exact hrun

/-- What is asked of the parser of a module behind the turns of a schedule. -/
structure DependenciesExact (strings : M → List StdString) (schedule : List (Turn miS))
    (s : ModinfoState M) (t : M) : Prop where
  inside : (s.parsers t).phase ≠ .outside
  in_order : (s.parsers t).calls <+: dependencyNames (strings t)
  all_called : (s.parsers t).phase = .returned →
    (s.parsers t).calls = dependencyNames (strings t)
  bounded : schedule.countP (Turn.isOf t) ≤ 2 * (miS t).size.toNat + 3
  goes_on : (s.parsers t).phase ≠ .returned → ∃ s', s.turn (.parser t : Turn miS) = some s'
  returns : ∃ n s', s.run (List.replicate n (.parser t : Turn miS)) = some s' ∧
    (s'.parsers t).phase = .returned

/-- The names that have been called for are the first ones of the list. -/
theorem PhaseInv.isPrefix {miS : SectionInfo} {read : Reader} {names calls : List StdString}
    {phase : ModinfoPhase} (h : PhaseInv miS read names calls phase) : calls <+: names := by
  cases phase with
  | scan modinfo =>
      rw [h.1]
      exact List.nil_prefix
  | token module saveptr =>
      cases module with
      | none => exact h ▸ List.prefix_refl calls
      | some module =>
          obtain ⟨tok, rest, -, -, -, hnames⟩ := h
          exact ⟨_, hnames⟩
  | called saveptr =>
      obtain ⟨rest, -, hnames⟩ := h
      exact ⟨_, hnames⟩
  | returned => exact h ▸ List.prefix_refl calls
  | outside => exact h.elim

/-- The names for which `loadModule` is still to be called. -/
def namesLeft (strings : M → List StdString) (s : ModinfoState M) (t : M) : List StdString :=
  (dependencyNames (strings t)).drop (s.parsers t).calls.length

/-- In the model of the parallel loading, whose files have these lists as `depends`, a turn of a
parser is the step that loads the next dependency, or none. -/
theorem turn_loadStep (h : ModinfoSections miS strings mem) (hinv : ParsersInv miS strings s)
    {t : M} (hturn : s.turn (.parser t : Turn miS) = some s') (m : ModuleFiles) (k : Shared)
    (n : StdString) (l : Loader) (rest : List Frame) :
    namesLeft strings s' t = namesLeft strings s t ∨
    ∃ d, (s'.parsers t).calls = (s.parsers t).calls ++ [d] ∧
      LoadStep m k (.parse n l (.loadDependencies (namesLeft strings s t)) :: rest)
        (.call d :: .parse n l (.loadDependencies (namesLeft strings s' t)) :: rest) k := by
  have hprefix := ((turn_keeps h hinv hturn).1 t).isPrefix
  obtain ⟨r, hr⟩ : ∃ r, s' = s.moved t r := by
    simp only [ModinfoState.turn] at hturn
    split at hturn
    · cases hturn
    · split at hturn
      · cases hturn
        exact ⟨_, rfl⟩
      · cases hturn
        exact ⟨_, rfl⟩
  have hcalls : (s'.parsers t).calls = (s.parsers t).calls ++ r.call.toList := by
    rw [hr]
    simp [ModinfoState.moved]
  cases hcall : r.call with
  | none =>
      rw [hcall, Option.toList_none, List.append_nil] at hcalls
      exact .inl (by rw [namesLeft, namesLeft, hcalls])
  | some d =>
      rw [hcall, Option.toList_some] at hcalls
      refine .inr ⟨d, hcalls, ?_⟩
      obtain ⟨todo, htodo⟩ := hprefix
      have hafter : namesLeft strings s' t = todo := by
        rw [namesLeft, ← htodo, List.drop_left]
      have hbefore : namesLeft strings s t = d :: todo := by
        rw [namesLeft, ← htodo, hcalls, List.append_assoc, List.drop_left]
        rfl
      rw [hafter, hbefore]
      exact .loadDependency

/-- **Exactly the listed dependencies are loaded**, whatever the parsers of other modules do in
between: no parser leaves its section, it calls `loadModule` for the names of its first `depends=`
string in their order, and it ends. -/
theorem loadDependencies_exact (h : ModinfoSections miS strings mem)
    (schedule : List (Turn miS)) (hrun : (ModinfoState.start miS mem).run schedule = some s)
    (t : M) : DependenciesExact strings schedule s t := by
  obtain ⟨hinv, hturns⟩ := run_keeps h schedule (parsersInv_start h) hrun
  have hphase := hinv t
  refine ⟨hphase.ne_outside, hphase.isPrefix, ?_, ?_, ?_, returns_alone h hinv t⟩
  · intro hp
    rw [hp] at hphase
    exact hphase
  · have hbound := hturns t
    have hstart : turnsLeft (miS t) ((ModinfoState.start miS mem).parsers t).phase =
        2 * (miS t).size.toNat + 3 := by
      simp only [ModinfoState.start, ModinfoParser.loadDependencies, if_neg (h.index_ne t),
        turnsLeft]
      omega
    omega
  · intro hp
    obtain ⟨s', hturn, -⟩ := turn_of_goesOn h hinv hp
    exact ⟨s', hturn⟩

end

/-! ## Two modules -/

/-- The one that is `true` has `"a=b"` and `"depends=b,,c"`, the other an empty string and `"x"`. -/
def twoModinfoStrings : Bool → List StdString
  | true => [[0x61, 0x3d, 0x62], dependsKey ++ [0x3d, 0x62, 0x2c, 0x2c, 0x63]]
  | false => [[], [0x78]]

def twoModinfo (t : Bool) : SectionInfo :=
  { SectionInfo.empty with
    index := if t then 0x1000 else 0x2000
    size := if t then 17 else 3 }

def twoModinfoMemory : Memory := fun a =>
  if a < 0x2000 then (nulBlock (twoModinfoStrings true)).getD (a - 0x1000).toNat 0
  else (nulBlock (twoModinfoStrings false)).getD (a - 0x2000).toNat 0

theorem twoModinfo_sections : ModinfoSections twoModinfo twoModinfoStrings twoModinfoMemory where
  index_ne := by decide
  no_wrap := by decide
  size_eq := by decide
  holds := by
    intro t
    cases t with
    | true =>
        show ∀ k, (h : k < 17) → _
        decide
    | false =>
        show ∀ k, (h : k < 3) → _
        decide
  nul_free := by decide
  only_depends := by
    intro t
    cases t with
    | true => simp [twoModinfoStrings, OnlyDependsKey, dependsKey]
    | false => simp [twoModinfoStrings, OnlyDependsKey, dependsKey]
  apart := by
    have hno : ∀ a, ¬ ((twoModinfo true).Inside a ∧ (twoModinfo false).Inside a) := by
      rintro a ⟨htrue, hfalse⟩
      have hlt : a.toNat < 0x1000 + 17 := htrue.2
      have hle : 0x2000 ≤ a.toNat := hfalse.1
      omega
    intro t t' hne a hboth
    cases t with
    | true =>
        cases t' with
        | true => exact hne rfl
        | false => exact hno a hboth
    | false =>
        cases t' with
        | true => exact hno a hboth.symm
        | false => exact hne rfl

/-- The other section is parsed within a call, and the parser goes on with `"c"`. -/
def twoModinfoSchedule : List (Turn twoModinfo) :=
  [.parser true, .parser true, .parser true, .parser false, .parser false, .parser false,
    .parser true, .parser true, .parser true, .parser true]

theorem loadDependencies_two : ∃ s,
    (ModinfoState.start twoModinfo twoModinfoMemory).run twoModinfoSchedule = some s ∧
    (s.parsers true).phase = .returned ∧ (s.parsers true).calls = [[0x62], [0x63]] ∧
    DependenciesExact twoModinfoStrings twoModinfoSchedule s true := by
  have hphase : ((ModinfoState.start twoModinfo twoModinfoMemory).run
      twoModinfoSchedule).map (fun s => (s.parsers true).phase) = some .returned := by decide
  obtain ⟨s, hrun, hs⟩ := Option.map_eq_some_iff.mp hphase
  have hexact := loadDependencies_exact twoModinfo_sections twoModinfoSchedule hrun true
  have hnames : dependencyNames (twoModinfoStrings true) = [[0x62], [0x63]] := by decide
  exact ⟨s, hrun, hs, hnames ▸ hexact.all_called hs, hexact⟩

end KernInt
