import Mathlib.Computability.RegularExpressions

set_option autoImplicit false

/-! # Patterns of regular expressions

A pattern in the ECMAScript grammar is read from the left to the right, with a stack for the
groups that are still open, and gives a regular expression over the characters of one byte.
Read are characters, escapes of characters that are neither letters nor digits, `.`, classes
with ranges, groups, `|`, and the quantifiers `*`, `+` and `?` (a second `?` only chooses
among the matches and does not change the language). A pattern that is wrong is not read, nor
is one with an assertion, a count in braces, an escape of a letter or a digit, a named class
or a special group.

A pattern that gives every character of a word an expression of its own matches the words that
agree with it character by character (`parse_flatMap`).
-/

namespace Lib

namespace Regex

/-- The characters that fit a byte. -/
def bytes : List Char := (List.range 256).map Char.ofNat

/-- One of the characters `chars`. -/
def anyOf : List Char → RegularExpression Char
  | [] => 0
  | c :: chars => RegularExpression.char c + anyOf chars

/-- `.` -/
def anyChar : RegularExpression Char := anyOf (bytes.filter (fun c => c ≠ '\n' ∧ c ≠ '\r'))

theorem mem_matches_anyOf {chars : List Char} {word : List Char} :
    word ∈ (anyOf chars).matches' ↔ ∃ c ∈ chars, word = [c] := by
  induction chars with
  | nil =>
    show word ∈ (0 : RegularExpression Char).matches' ↔ _
    simp only [RegularExpression.matches'_zero, Language.notMem_zero, List.not_mem_nil,
      false_and, exists_false]
  | cons c chars ih =>
    show word ∈ (RegularExpression.char c + anyOf chars).matches' ↔ _
    rw [RegularExpression.matches'_add, Language.mem_add, RegularExpression.matches'_char, ih]
    simp only [List.mem_cons, exists_eq_or_imp]
    exact Iff.rfl

/-- The alternatives of a group that are closed by `|`, the terms of the open alternative before
its last atom, and that atom, which a quantifier may still follow. -/
structure Frame where
  alternatives : RegularExpression Char
  terms : RegularExpression Char
  atom : RegularExpression Char

/-- What the next character is read as: `start` at the begin of an alternative, where no
quantifier can stand, `term` after an atom, `repeated` after a quantifier; in a class, whether it
is negated, its characters, the last one if a range may begin with it, and whether a `-` follows
that one. -/
inductive Mode where
  | start
  | term
  | repeated
  | escape
  | classStart
  | inClass (negated : Bool) (chars : List Char) (last : Option Char) (dash : Bool)
  | classEscape (negated : Bool) (chars : List Char) (last : Option Char) (dash : Bool)
  deriving DecidableEq

structure Parser where
  mode : Mode
  frame : Frame
  /-- The groups around the one that is read. -/
  enclosing : List Frame

namespace Frame

def empty : Frame where
  alternatives := 0
  terms := 1
  atom := 1

variable (frame : Frame)

/-- The expression of the group if it ends here. -/
def close : RegularExpression Char := frame.alternatives + frame.terms * frame.atom

def push (atom : RegularExpression Char) : Frame :=
  { frame with terms := frame.terms * frame.atom, atom := atom }

def alternative : Frame :=
  { alternatives := frame.close, terms := 1, atom := 1 }

end Frame

namespace Parser

def init : Parser where
  mode := .start
  frame := Frame.empty
  enclosing := []

variable (parser : Parser)

def push (atom : RegularExpression Char) : Parser :=
  { parser with mode := .term, frame := parser.frame.push atom }

/-- The class `[chars]` or `[^chars]`. -/
def pushClass (negated : Bool) (chars : List Char) : Parser :=
  parser.push (anyOf (if negated then bytes.filter (· ∉ chars) else chars))

def quantify (f : RegularExpression Char → RegularExpression Char) : Option Parser :=
  match parser.mode with
  | .term | .repeated =>
    some { parser with
      mode := .repeated
      frame := { parser.frame with atom := f parser.frame.atom } }
  | _ => none

/-- A character outside of classes and escapes. -/
def stepTerm (c : Char) : Option Parser :=
  match c with
  | '\\' => some { parser with mode := .escape }
  | '[' => some { parser with mode := .classStart }
  | '(' => some ⟨.start, Frame.empty, parser.frame :: parser.enclosing⟩
  | ')' =>
    match parser.enclosing with
    | [] => none
    | outer :: enclosing => some ⟨.term, outer.push parser.frame.close, enclosing⟩
  | '|' => some { parser with mode := .start, frame := parser.frame.alternative }
  | '*' => parser.quantify RegularExpression.star
  | '+' => parser.quantify (fun r => r * r.star)
  | '?' =>
    if parser.mode = .repeated then some { parser with mode := .term }
    else parser.quantify (fun r => r + 1)
  | '.' => some (parser.push anyChar)
  | '^' | '$' | '{' => none
  | c => some (parser.push (RegularExpression.char c))

/-- A character of a class that stands for itself: it ends a range or is a member. -/
def stepMember (negated : Bool) (chars : List Char) (last : Option Char) (dash : Bool)
    (c : Char) : Option Parser :=
  match dash, last with
  | true, some low =>
    -- the order of characters that are no ASCII depends on the sign of `char`
    if c < low ∨ 128 ≤ c.toNat then none
    else
      some { parser with
        mode := .inClass negated (chars ++ bytes.filter (fun d => low ≤ d ∧ d ≤ c)) none false }
  | _, _ => some { parser with mode := .inClass negated (chars ++ [c]) (some c) false }

def stepClass (negated : Bool) (chars : List Char) (last : Option Char) (dash : Bool)
    (c : Char) : Option Parser :=
  match c with
  | ']' => some (parser.pushClass negated (chars ++ if dash then ['-'] else []))
  | '\\' => some { parser with mode := .classEscape negated chars last dash }
  | '-' =>
    if last.isSome ∧ ¬ dash then some { parser with mode := .inClass negated chars last true }
    else parser.stepMember negated chars last dash '-'
  | c =>
    -- a name such as `[:alpha:]`
    if last = some '[' ∧ c ∈ ['.', ':', '='] then none
    else parser.stepMember negated chars last dash c

def step (c : Char) : Option Parser :=
  match parser.mode with
  | .start | .term | .repeated => parser.stepTerm c
  | .escape => if c.isAlphanum then none else some (parser.push (RegularExpression.char c))
  | .classStart =>
    if c = '^' then some { parser with mode := .inClass true [] none false }
    else parser.stepClass false [] none false c
  | .inClass negated chars last dash => parser.stepClass negated chars last dash c
  | .classEscape negated chars last dash =>
    if c.isAlphanum then none else parser.stepMember negated chars last dash c

def run (pattern : List Char) : Option Parser := pattern.foldlM step parser

/-- The expression of the whole pattern, if no escape, class or group is open. -/
def finish : Option (RegularExpression Char) :=
  match parser.mode, parser.enclosing with
  | .start, [] | .term, [] | .repeated, [] => some parser.frame.close
  | _, _ => none

end Parser

/-- `std::regex(pattern)` -/
def parse (pattern : List Char) : Option (RegularExpression Char) :=
  (Parser.init.run pattern).bind Parser.finish

/-! ## Patterns that are read one character of a word after the other -/

/-- The modes in which an atom can begin. -/
def Mode.Reading (mode : Mode) : Prop := mode = .start ∨ mode = .term ∨ mode = .repeated

/-- Wherever an atom can begin, `pattern` is read as one of the characters of `chars`. -/
def Reads (pattern : List Char) (chars : Set Char) : Prop :=
  ∀ parser : Parser, parser.mode.Reading → ∃ r, parser.run pattern = some (parser.push r) ∧
    ∀ word, word ∈ r.matches' ↔ ∃ a ∈ chars, word = [a]

/-- The words with a character of `chars c` at the place of each character `c` of `word`. -/
def wordsOf (chars : Char → Set Char) (word : List Char) : Language Char :=
  {w | List.Forall₂ (fun c a => a ∈ chars c) word w}

theorem mem_wordsOf {chars : Char → Set Char} {word w : List Char} :
    w ∈ wordsOf chars word ↔ List.Forall₂ (fun c a => a ∈ chars c) word w := Iff.rfl

theorem wordsOf_nil (chars : Char → Set Char) : wordsOf chars [] = 1 := by
  refine Language.ext fun w => ?_
  rw [mem_wordsOf, Language.mem_one, List.forall₂_nil_left_iff]

theorem mul_wordsOf_cons {chars : Char → Set Char} {c : Char} {word : List Char}
    {l : Language Char} (hl : ∀ w, w ∈ l ↔ ∃ a ∈ chars c, w = [a]) :
    wordsOf chars (c :: word) = l * wordsOf chars word := by
  refine Language.ext fun w => ?_
  rw [mem_wordsOf, Language.mem_mul, List.forall₂_cons_left_iff]
  constructor
  · rintro ⟨a, w', ha, hw', rfl⟩
    exact ⟨[a], (hl [a]).mpr ⟨a, ha, rfl⟩, w', hw', rfl⟩
  · rintro ⟨v, hv, w', hw', rfl⟩
    obtain ⟨a, ha, rfl⟩ := (hl v).mp hv
    exact ⟨a, w', ha, hw', rfl⟩

theorem Parser.run_append (parser : Parser) (first second : List Char) :
    parser.run (first ++ second) = (parser.run first).bind (fun p => p.run second) :=
  List.foldlM_append

theorem Parser.matches_push {parser : Parser} (h : parser.frame.alternatives = 0)
    (r : RegularExpression Char) :
    (parser.push r).frame.close.matches' = parser.frame.close.matches' * r.matches' := by
  show (parser.frame.alternatives + parser.frame.terms * parser.frame.atom * r).matches' =
    (parser.frame.alternatives + parser.frame.terms * parser.frame.atom).matches' * r.matches'
  rw [h]
  simp only [RegularExpression.matches'_add, RegularExpression.matches'_mul,
    RegularExpression.matches'_zero, zero_add]

/-- Reading goes on where a pattern ended that was read character by character, and the language
of the open alternative is continued by `wordsOf`. -/
theorem Parser.run_flatMap {f : Char → List Char} {chars : Char → Set Char} {word : List Char}
    (h : ∀ c ∈ word, Reads (f c) (chars c)) {parser : Parser} (hmode : parser.mode.Reading)
    (halt : parser.frame.alternatives = 0) :
    ∃ parser', parser.run (word.flatMap f) = some parser' ∧ parser'.mode.Reading ∧
      parser'.enclosing = parser.enclosing ∧
      parser'.frame.close.matches' = parser.frame.close.matches' * wordsOf chars word := by
  induction word generalizing parser with
  | nil =>
    refine ⟨parser, rfl, hmode, rfl, ?_⟩
    rw [wordsOf_nil, mul_one]
  | cons c word ih =>
    obtain ⟨r, hrun, hr⟩ := h c (List.mem_cons_self ..) parser hmode
    have htail : ∀ d ∈ word, Reads (f d) (chars d) := fun d hd =>
      h d (List.mem_cons_of_mem _ hd)
    have hpush : (parser.push r).frame.alternatives = 0 := halt
    obtain ⟨parser', hrun', hmode', hencl, hmatch⟩ := ih htail (Or.inr (Or.inl rfl)) hpush
    refine ⟨parser', ?_, hmode', hencl, ?_⟩
    · rw [List.flatMap_cons, Parser.run_append, hrun]
      exact hrun'
    · rw [hmatch, Parser.matches_push halt, mul_wordsOf_cons hr, mul_assoc]

theorem Parser.finish_of_reading {parser : Parser} (hmode : parser.mode.Reading)
    (hencl : parser.enclosing = []) : parser.finish = some parser.frame.close := by
  obtain ⟨mode, frame, enclosing⟩ := parser
  subst hencl
  obtain rfl | rfl | rfl := hmode <;> rfl

/-- A pattern that is read character by character matches the words that agree with it character
by character. -/
theorem parse_flatMap {f : Char → List Char} {chars : Char → Set Char} {word : List Char}
    (h : ∀ c ∈ word, Reads (f c) (chars c)) :
    ∃ r, parse (word.flatMap f) = some r ∧
      ∀ w, r.rmatch w = true ↔ List.Forall₂ (fun c a => a ∈ chars c) word w := by
  obtain ⟨parser, hrun, hmode, hencl, hmatch⟩ :=
    Parser.run_flatMap h (Or.inl rfl : Parser.init.mode.Reading) rfl
  refine ⟨parser.frame.close, ?_, fun w => ?_⟩
  · rw [parse, hrun]
    exact Parser.finish_of_reading hmode hencl
  · have hinit : Parser.init.frame.close.matches' = 1 := by
      show ((0 : RegularExpression Char) + 1 * 1).matches' = 1
      simp only [RegularExpression.matches'_add, RegularExpression.matches'_mul,
        RegularExpression.matches'_zero, RegularExpression.matches'_epsilon, zero_add, mul_one]
    rw [RegularExpression.rmatch_iff_matches', hmatch, hinit, one_mul, mem_wordsOf]

/-! ## Atoms -/

/-- The characters with a meaning outside of classes. -/
def special : List Char := ['^', '$', '\\', '.', '*', '+', '?', '(', ')', '[', '{', '|']

theorem forall₂_mem_singleton_iff {word w : List Char} :
    List.Forall₂ (fun c a => a ∈ ({c} : Set Char)) word w ↔ w = word := by
  induction word generalizing w with
  | nil => rw [List.forall₂_nil_left_iff]
  | cons c word ih =>
    rw [List.forall₂_cons_left_iff]
    constructor
    · rintro ⟨a, w', rfl, hw', rfl⟩
      rw [ih.mp hw']
    · rintro rfl
      exact ⟨c, word, rfl, ih.mpr rfl, rfl⟩

theorem Parser.step_of_reading {parser : Parser} (hmode : parser.mode.Reading) (c : Char) :
    parser.step c = parser.stepTerm c := by
  obtain ⟨mode, frame, enclosing⟩ := parser
  obtain rfl | rfl | rfl := hmode <;> rfl

theorem Parser.run_singleton (parser : Parser) (c : Char) : parser.run [c] = parser.step c := by
  show (parser.step c).bind some = parser.step c
  cases parser.step c <;> rfl

theorem mem_matches_char {c : Char} {word : List Char} :
    word ∈ (RegularExpression.char c).matches' ↔ ∃ a ∈ ({c} : Set Char), word = [a] := by
  rw [RegularExpression.matches'_char]
  simp only [Set.mem_singleton_iff, exists_eq_left]
  exact Iff.rfl

theorem reads_char {c : Char} (h : c ∉ special) : Reads [c] {c} := by
  intro parser hmode
  refine ⟨RegularExpression.char c, ?_, fun _ => mem_matches_char⟩
  rw [Parser.run_singleton, Parser.step_of_reading hmode]
  simp only [special, List.mem_cons, List.not_mem_nil, or_false, not_or] at h
  unfold Parser.stepTerm
  split <;> simp_all only [not_true, and_false, false_and]

theorem reads_escape {c : Char} (h : c.isAlphanum = false) : Reads ['\\', c] {c} := by
  intro parser hmode
  refine ⟨RegularExpression.char c, ?_, fun _ => mem_matches_char⟩
  rw [← List.singleton_append, Parser.run_append, Parser.run_singleton,
    Parser.step_of_reading hmode]
  show ({ parser with mode := .escape } : Parser).run [c] = _
  rw [Parser.run_singleton]
  show (if c.isAlphanum = true then none else some _) = _
  rw [if_neg (by simp [h])]
  rfl

end Regex

end Lib
