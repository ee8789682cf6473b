import KernInt.Helpers
import Mathlib.Data.List.TakeWhile

set_option autoImplicit false

/-! # The symbols of System.map

`parseSystemMap` asks the stream whether it is good, and then reads a line and takes it apart by a
second stream. A stream that has delivered its last newline is still good, so a file that ends
with one has a further round: nothing is read in it, and a symbol without a name and with an
address that has never been written is added. Without the last newline the stream is at its end
when the last line has been read, and exactly the lines are added (`parseSystemMap_exact_iff`).
-/

namespace KernInt

open Lib

/-! ## Streams of text -/

/-- An input stream: what it still delivers, and its state. -/
structure TextStream where
  rest : List Char
  eofbit : Bool
  failbit : Bool
  deriving DecidableEq

namespace TextStream

def ofText (text : List Char) : TextStream where
  rest := text
  eofbit := false
  failbit := false

def good (is : TextStream) : Bool := !is.eofbit && !is.failbit

/-- `std::getline`: the line, without its newline. A line that the end of the file terminates
leaves the stream at its end, and an empty one there is a failure. -/
def getline (is : TextStream) (line : List Char) : List Char × TextStream :=
  if is.good then
    let line := is.rest.takeWhile (· ≠ '\n')
    match is.rest.dropWhile (· ≠ '\n') with
    | _ :: rest => (line, { is with rest })
    | [] => (line, { rest := [], eofbit := true, failbit := line.isEmpty })
  else (line, { is with failbit := true })

/-- What is done in front of an extraction: white space is skipped. -/
def sentry (is : TextStream) : TextStream :=
  if is.good then
    match is.rest.dropWhile isSpace with
    | [] => { rest := [], eofbit := true, failbit := true }
    | ch :: rest => { is with rest := ch :: rest }
  else { is with failbit := true }

end TextStream

def splitSign : List Char → Bool × List Char
  | '-' :: s => (true, s)
  | '+' :: s => (false, s)
  | s => (false, s)

def dropHexPrefix : List Char → List Char
  | '0' :: 'x' :: s => s
  | '0' :: 'X' :: s => s
  | s => s

def isHexDigit (ch : Char) : Bool := (hexDigit ch).isSome

namespace TextStream

/-- `is >> std::hex >> address`. Nothing is written to `address`, which may have no value yet, if
there is nothing to read; where no number is read it becomes 0, and one that is too large becomes
the largest. -/
def extractHex (is : TextStream) (address : Option U64) : Option U64 × TextStream :=
  let is := is.sentry
  if is.good then
    let signed := splitSign is.rest
    let s := dropHexPrefix signed.2
    let digits := s.takeWhile isHexDigit
    let rest := s.dropWhile isHexDigit
    let value := hexValue 0 digits
    if digits = [] then (some 0, { rest, eofbit := rest.isEmpty, failbit := true })
    else if 2 ^ 64 ≤ value then (some (-1), { rest, eofbit := rest.isEmpty, failbit := true })
    else
      let value := BitVec.ofNat 64 value
      (some (if signed.1 then -value else value),
        { rest, eofbit := rest.isEmpty, failbit := false })
  else (address, is)

/-- `is >> mode` -/
def extractChar (is : TextStream) (mode : Char) : Char × TextStream :=
  let is := is.sentry
  if is.good then
    match is.rest with
    | ch :: rest => (ch, { is with rest })
    | [] => (mode, is)
  else (mode, is)

/-- `is >> varname` -/
def extractString (is : TextStream) (varname : List Char) : List Char × TextStream :=
  let is := is.sentry
  if is.good then
    let rest := is.rest.dropWhile fun ch => !isSpace ch
    (is.rest.takeWhile fun ch => !isSpace ch, { is with rest, eofbit := rest.isEmpty })
  else (varname, is)

end TextStream

/-! ## The loop -/

/-- The arguments of a call of `addSysmapSymbol`; an address without a value is a variable that
has not been written. -/
structure SysmapSymbol where
  varname : List Char
  address : Option U64
  isLocal : Bool
  deriving DecidableEq

/-- What the second stream makes of a line. -/
def parseLine (line : List Char) : SysmapSymbol :=
  let (address, iss) := (TextStream.ofText line).extractHex none
  let (mode, iss) := iss.extractChar '\x00'
  let (varname, _) := iss.extractString []
  { varname, address, isLocal := !mode.isUpper }

structure SysMapState where
  sysMapFile : TextStream
  line : List Char
  added : List SysmapSymbol

def parseSystemMapRound (s : SysMapState) : Round SysMapState (List SysmapSymbol) :=
  if s.sysMapFile.good then
    let (line, sysMapFile) := s.sysMapFile.getline s.line
    .again { sysMapFile, line, added := s.added ++ [parseLine line] }
  else .leave s.added

/-- The symbols that are added, in their order, for a file with this content; there is none if it
cannot be opened. -/
def parseSystemMap (content : Option (List Char)) (rounds : Nat) : Option (List SysmapSymbol) :=
  match content with
  | some text => within parseSystemMapRound rounds ⟨TextStream.ofText text, [], []⟩
  | none => some []

/-! ## Lines -/

/-- A well-formed line, `<hex address> <mode letter> <name>`. -/
structure SysmapLine where
  digits : List Char
  mode : Char
  name : List Char
  digits_ne : digits ≠ []
  digits_hex : ∀ ch ∈ digits, isHexDigit ch = true
  fits : hexValue 0 digits < 2 ^ 64
  mode_letter : mode.isAlpha = true
  name_ne : name ≠ []
  name_noSpace : ∀ ch ∈ name, isSpace ch = false

namespace SysmapLine

variable (l : SysmapLine)

def text : List Char := l.digits ++ ' ' :: l.mode :: ' ' :: l.name

/-- The symbol that the line tells of. -/
def symbol : SysmapSymbol where
  varname := l.name
  address := some (BitVec.ofNat 64 (hexValue 0 l.digits))
  isLocal := !l.mode.isUpper

end SysmapLine

/-! ## One line -/

theorem toNat_of_isHexDigit {ch : Char} (h : isHexDigit ch = true) : 48 ≤ ch.toNat := by
  have hle : ∀ {a b : Char}, a ≤ b → a.toNat ≤ b.toNat := fun hab => hab
  unfold isHexDigit hexDigit at h
  split at h
  · rename_i hdigit
    exact hle hdigit.1
  · split at h
    · rename_i hlower
      exact Nat.le_trans (by decide) (hle hlower.1)
    · split at h
      · rename_i hupper
        exact Nat.le_trans (by decide) (hle hupper.1)
      · cases h

theorem toNat_of_isAlpha {ch : Char} (h : ch.isAlpha = true) : 65 ≤ ch.toNat := by
  have hcases : ch.isUpper = true ∨ ch.isLower = true := (Bool.or_eq_true _ _).mp h
  rcases hcases with hupper | hlower
  · have hbounds : 'A'.val ≤ ch.val ∧ ch.val ≤ 'Z'.val := of_decide_eq_true hupper
    exact hbounds.1
  · have hbounds := (Bool.and_eq_true _ _).mp hlower
    have hle : 'a'.val ≤ ch.val := of_decide_eq_true hbounds.1
    exact Nat.le_trans (by decide) hle

/-- White space is in front of the printable characters. -/
theorem isSpace_eq_false {ch : Char} (h : 33 ≤ ch.toNat) : isSpace ch = false := by
  have hne : ch ≠ ' ' := by
    rintro rfl
    exact absurd h (by decide)
  simp only [isSpace, hne, decide_false, Bool.false_or, Bool.and_eq_false_iff,
    decide_eq_false_iff_not]
  omega

namespace TextStream

theorem sentry_of_not_space {ch : Char} (rest : List Char) (h : isSpace ch = false) :
    (ofText (ch :: rest)).sentry = ofText (ch :: rest) := by
  simp [sentry, ofText, good, h]

theorem sentry_of_space {ch : Char} (rest : List Char) (h : isSpace ch = false) :
    (ofText (' ' :: ch :: rest)).sentry = ofText (ch :: rest) := by
  have hspace : isSpace ' ' = true := by decide
  simp [sentry, ofText, good, h, hspace]

theorem extractChar_space {ch : Char} (rest : List Char) (h : isSpace ch = false) (mode : Char) :
    (ofText (' ' :: ch :: rest)).extractChar mode = (ch, ofText rest) := by
  rw [extractChar, sentry_of_space rest h]
  rfl

theorem extractString_space {name : List Char} (hne : name ≠ [])
    (hname : ∀ ch ∈ name, isSpace ch = false) (varname : List Char) :
    ((ofText (' ' :: name)).extractString varname).1 = name := by
  cases name with
  | nil => exact absurd rfl hne
  | cons ch rest =>
      have htake : (ch :: rest).takeWhile (fun ch => !isSpace ch) = ch :: rest := by
        rw [List.takeWhile_eq_self_iff]
        intro b hb
        simp [hname b hb]
      rw [extractString, sentry_of_space rest (hname ch List.mem_cons_self)]
      exact htake

end TextStream

/-- Digits do not begin with a sign or with `0x`. -/
theorem splitSign_digit {ch : Char} (rest : List Char) (h : isHexDigit ch = true) :
    splitSign (ch :: rest) = (false, ch :: rest) := by
  unfold splitSign
  split
  -- a sign is not a digit
  · rename_i heq
    cases heq
    cases h
  · rename_i heq
    cases heq
    cases h
  · rfl

theorem dropHexPrefix_digits {digits : List Char} (rest : List Char) (hne : digits ≠ [])
    (h : ∀ ch ∈ digits, isHexDigit ch = true) :
    dropHexPrefix (digits ++ ' ' :: rest) = digits ++ ' ' :: rest := by
  have hsecond : ∀ s, digits ++ ' ' :: rest ≠ '0' :: 'x' :: s ∧
      digits ++ ' ' :: rest ≠ '0' :: 'X' :: s := by
    intro s
    match digits, hne with
    | [d], _ => simp
    -- the `x` would be the second digit
    | d :: d' :: ds, _ =>
        have hd' : isHexDigit d' = true := h d' (by simp)
        constructor
        · rintro ⟨⟩
          cases hd'
        · rintro ⟨⟩
          cases hd'
  unfold dropHexPrefix
  split
  · rename_i s heq
    exact absurd heq (hsecond s).1
  · rename_i s heq
    exact absurd heq (hsecond s).2
  · rfl

theorem extractHex_digits {digits : List Char} (rest : List Char) (hne : digits ≠ [])
    (h : ∀ ch ∈ digits, isHexDigit ch = true) (hfits : hexValue 0 digits < 2 ^ 64)
    (address : Option U64) :
    (TextStream.ofText (digits ++ ' ' :: rest)).extractHex address =
      (some (BitVec.ofNat 64 (hexValue 0 digits)), TextStream.ofText (' ' :: rest)) := by
  have hspace : isHexDigit ' ' = false := by decide
  have htake : (digits ++ ' ' :: rest).takeWhile isHexDigit = digits := by
    rw [List.takeWhile_append_of_pos h, List.takeWhile_cons_of_neg (by simp [hspace]),
      List.append_nil]
  have hdrop : (digits ++ ' ' :: rest).dropWhile isHexDigit = ' ' :: rest := by
    rw [List.dropWhile_append_of_pos h, List.dropWhile_cons_of_neg (by simp [hspace])]
  have hsentry : (TextStream.ofText (digits ++ ' ' :: rest)).sentry =
      TextStream.ofText (digits ++ ' ' :: rest) := by
    cases digits with
    | nil => exact absurd rfl hne
    | cons d ds =>
        have hd := toNat_of_isHexDigit (h d List.mem_cons_self)
        exact TextStream.sentry_of_not_space _ (isSpace_eq_false (by omega))
  have hsign : splitSign (digits ++ ' ' :: rest) = (false, digits ++ ' ' :: rest) := by
    cases digits with
    | nil => exact absurd rfl hne
    | cons d ds => exact splitSign_digit _ (h d List.mem_cons_self)
  have hlt : ¬ 2 ^ 64 ≤ hexValue 0 digits := Nat.not_le.mpr hfits
  simp only [TextStream.extractHex, hsentry]
  simp only [TextStream.ofText, TextStream.good, hsign, dropHexPrefix_digits rest hne h, htake,
    hdrop, if_neg hne, if_neg hlt]
  rfl

/-- A line is taken apart into what it tells. -/
theorem parseLine_text (l : SysmapLine) : parseLine l.text = l.symbol := by
  have hmode := toNat_of_isAlpha l.mode_letter
  rw [parseLine, SysmapLine.text,
    extractHex_digits _ l.digits_ne l.digits_hex l.fits]
  dsimp only
  rw [TextStream.extractChar_space _ (isSpace_eq_false (by omega))]
  dsimp only
  rw [TextStream.extractString_space l.name_ne l.name_noSpace]
  rfl

example : parseLine "ffffffff81000000 T _text".toList =
    ⟨"_text".toList, some 0xffffffff81000000, false⟩ := by decide

/-- The content of a file; `newline` tells whether there is one behind the last line. -/
def sysMapText : List SysmapLine → Bool → List Char
  | [], _ => []
  | [l], newline => if newline then l.text ++ ['\n'] else l.text
  | l :: l' :: lines, newline => l.text ++ '\n' :: sysMapText (l' :: lines) newline

/-- The call of the round in which nothing is read. -/
def SysmapSymbol.unread : SysmapSymbol where
  varname := []
  address := none
  isLocal := true

theorem SysmapLine.text_noNewline (l : SysmapLine) : ∀ ch ∈ l.text, ch ≠ '\n' := by
  have hnewline : isSpace '\n' = true := by decide
  have hdigit : isHexDigit '\n' = false := by decide
  have hmode := toNat_of_isAlpha l.mode_letter
  rintro _ hch rfl
  simp only [SysmapLine.text, List.mem_append, List.mem_cons] at hch
  -- a digit, a blank, the mode, a blank, or a character of the name
  rcases hch with hch | hch | hch | hch | hch
  · rw [l.digits_hex _ hch] at hdigit
    cases hdigit
  · cases hch
  · rw [← hch] at hmode
    exact absurd hmode (by decide)
  · cases hch
  · rw [l.name_noSpace _ hch] at hnewline
    cases hnewline

namespace TextStream

theorem getline_newline {text : List Char} (h : ∀ ch ∈ text, ch ≠ '\n') (rest line : List Char) :
    (ofText (text ++ '\n' :: rest)).getline line = (text, ofText rest) := by
  have htext : ∀ ch ∈ text, (decide (ch ≠ '\n')) = true := fun ch hch => by
    simpa using h ch hch
  have htake : (text ++ '\n' :: rest).takeWhile (· ≠ '\n') = text := by
    rw [List.takeWhile_append_of_pos htext, List.takeWhile_cons_of_neg (by simp), List.append_nil]
  have hdrop : (text ++ '\n' :: rest).dropWhile (· ≠ '\n') = '\n' :: rest := by
    rw [List.dropWhile_append_of_pos htext, List.dropWhile_cons_of_neg (by simp)]
  simp only [getline, ofText, good, htake, hdrop]
  rfl

/-- The last line, without a newline, brings the stream to its end. -/
theorem getline_last {text : List Char} (hne : text ≠ []) (h : ∀ ch ∈ text, ch ≠ '\n')
    (line : List Char) :
    (ofText text).getline line = (text, { rest := [], eofbit := true, failbit := false }) := by
  have htake : text.takeWhile (· ≠ '\n') = text := by
    rw [List.takeWhile_eq_self_iff]
    simpa using h
  have hdrop : text.dropWhile (· ≠ '\n') = [] := by
    rw [List.dropWhile_eq_nil_iff]
    simpa using h
  cases text with
  | nil => exact absurd rfl hne
  | cons ch text =>
      simp only [getline, ofText, good, htake, hdrop]
      rfl

end TextStream

/-! ## The whole file -/

/-- What is added behind the symbols of the lines. -/
def extraSymbols (lines : List SysmapLine) (newline : Bool) : List SysmapSymbol :=
  if lines = [] ∨ newline = true then [SysmapSymbol.unread] else []

/-- A stream that is good but has nothing left gives one more symbol. -/
theorem parseSystemMapRound_nil (line : List Char) (added : List SysmapSymbol) :
    Returns parseSystemMapRound ⟨TextStream.ofText [], line, added⟩
      (added ++ [SysmapSymbol.unread]) :=
  .of_again rfl (returns_of_leave rfl)

/-- A line with a newline. -/
theorem parseSystemMapRound_newline (l : SysmapLine) (rest line : List Char)
    (added : List SysmapSymbol) :
    parseSystemMapRound ⟨TextStream.ofText (l.text ++ '\n' :: rest), line, added⟩ =
      .again ⟨TextStream.ofText rest, l.text, added ++ [l.symbol]⟩ := by
  have hgood : (TextStream.ofText (l.text ++ '\n' :: rest)).good = true := rfl
  simp only [parseSystemMapRound, hgood, if_true,
    TextStream.getline_newline l.text_noNewline, parseLine_text]

/-- The last line without a newline. -/
theorem parseSystemMapRound_last (l : SysmapLine) (line : List Char)
    (added : List SysmapSymbol) :
    Returns parseSystemMapRound ⟨TextStream.ofText l.text, line, added⟩
      (added ++ [l.symbol]) := by
  have hne : l.text ≠ [] := by simp [SysmapLine.text]
  have hgood : (TextStream.ofText l.text).good = true := rfl
  have hround : parseSystemMapRound ⟨TextStream.ofText l.text, line, added⟩ =
      .again ⟨{ rest := [], eofbit := true, failbit := false }, l.text, added ++ [l.symbol]⟩ := by
    simp only [parseSystemMapRound, hgood, if_true,
      TextStream.getline_last hne l.text_noNewline, parseLine_text]
  exact .of_again hround (returns_of_leave rfl)

theorem parseSystemMapRound_returns (lines : List SysmapLine) (newline : Bool)
    (line : List Char) (added : List SysmapSymbol) :
    Returns parseSystemMapRound ⟨TextStream.ofText (sysMapText lines newline), line, added⟩
      (added ++ lines.map SysmapLine.symbol ++ extraSymbols lines newline) := by
  induction lines generalizing line added with
  | nil =>
      have h := parseSystemMapRound_nil line added
      simpa [sysMapText, extraSymbols] using h
  | cons l lines ih =>
      cases lines with
      | nil =>
          -- the state in which the last line leaves the stream decides about the round behind it
          cases newline with
          | false =>
              have h := parseSystemMapRound_last l line added
              simpa [sysMapText, extraSymbols] using h
          | true =>
              have h := Returns.of_again (parseSystemMapRound_newline l [] line added)
                (parseSystemMapRound_nil l.text (added ++ [l.symbol]))
              simpa [sysMapText, extraSymbols] using h
      | cons l' lines =>
          have h := Returns.of_again
            (parseSystemMapRound_newline l (sysMapText (l' :: lines) newline) line added)
            (ih l.text (added ++ [l.symbol]))
          simpa [sysMapText, extraSymbols] using h

/-- The loop ends, the symbols are those of the lines in their order, and each of them has a name
and an address that has been read. -/
def ParsesExactly (lines : List SysmapLine) (newline : Bool) : Prop :=
  ∃ n added, parseSystemMap (some (sysMapText lines newline)) n = some added ∧
    added = lines.map SysmapLine.symbol ∧
    ∀ symbol ∈ added, symbol.varname ≠ [] ∧ symbol.address.isSome = true

/-- **Exactly the lines are added** if and only if there is a line, and no newline behind the
last one. -/
theorem parseSystemMap_exact_iff (lines : List SysmapLine) (newline : Bool) :
    ParsesExactly lines newline ↔ lines ≠ [] ∧ newline = false := by
  have hreturns := parseSystemMapRound_returns lines newline [] []
  rw [List.nil_append] at hreturns
  constructor
  · rintro ⟨n, added, hn, rfl, -⟩
    have heq := hreturns.unique ⟨n, hn⟩
    have hextra : extraSymbols lines newline = [] := by simpa using heq
    by_contra hnot
    rw [extraSymbols, if_pos (by cases newline <;> simp_all)] at hextra
    cases hextra
  · rintro ⟨hne, rfl⟩
    have hextra : extraSymbols lines false = [] := by simp [extraSymbols, hne]
    rw [hextra, List.append_nil] at hreturns
    obtain ⟨n, hn⟩ := hreturns
    refine ⟨n, _, hn, rfl, ?_⟩
    intro symbol hsymbol
    obtain ⟨l, -, rfl⟩ := List.mem_map.mp hsymbol
    exact ⟨l.name_ne, rfl⟩

/-! ## A file of one line -/

theorem textLine_digits : ∀ ch ∈ "ffffffff81000000".toList, isHexDigit ch = true :=
  List.all_eq_true.mp (by decide)

theorem textLine_name : ∀ ch ∈ "_text".toList, isSpace ch = false := by
  have hall : "_text".toList.all (fun ch => !isSpace ch) = true := by decide
  intro ch hch
  simpa using List.all_eq_true.mp hall ch hch

def textLine : SysmapLine where
  digits := "ffffffff81000000".toList
  mode := 'T'
  name := "_text".toList
  digits_ne := by decide
  digits_hex := textLine_digits
  fits := by decide
  mode_letter := by decide
  name_ne := by decide
  name_noSpace := textLine_name

/-- The newline behind the only line makes a second symbol. -/
theorem textLine_newline :
    sysMapText [textLine] true = "ffffffff81000000 T _text\n".toList ∧
    parseSystemMap (some (sysMapText [textLine] true)) 3 =
      some [⟨"_text".toList, some 0xffffffff81000000, false⟩, ⟨[], none, true⟩] ∧
    ¬ ParsesExactly [textLine] true := by
  have hrun : parseSystemMap (some (sysMapText [textLine] true)) 3 =
      some [⟨"_text".toList, some 0xffffffff81000000, false⟩, ⟨[], none, true⟩] := by decide
  refine ⟨by decide, hrun, ?_⟩
  rintro ⟨n, added, hn, hadded, -⟩
  have heq := Returns.unique ⟨n, hn⟩ ⟨3, hrun⟩
  rw [hadded] at heq
  exact absurd (congrArg List.length heq) (by decide)

end KernInt
