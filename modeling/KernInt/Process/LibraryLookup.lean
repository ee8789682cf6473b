import KernInt.Lib.Collect
import KernInt.Lib.DirectoryTree
import KernInt.Lib.Regex

set_option autoImplicit false

/-! # Lookup of libraries on the disk

A program names a library without a directory. `findLibraryFile` goes through the search paths,
and in each of them through the whole tree, until the name of an entry matches the name of the
library. For this the name is made a regular expression: a backslash is put in front of the
characters that have a meaning there, except for the backslash itself.

The search path is split at `:`; empty parts are dropped. Which file is found, if the name of the
library has no backslash, is in `findLibraryFile_exact`.
-/

namespace KernInt

open Lib

/-- The tree below a directory, or `none` if the directory cannot be listed. -/
abbrev FileSystem := List Char → Option (List (FileTree (List Char)))

/-- What the program throws while it looks for a file. -/
inductive LookupError where
  | regex
  | filesystem
  deriving DecidableEq

/-- `path / filename` -/
def pathAppend (path filename : List Char) : List Char :=
  if path = [] ∨ path.getLast? = some '/' then path ++ filename else path ++ '/' :: filename

/-- `path().native()` of an entry in the tree below a directory. -/
def nativePath (directory : List Char) (entry : DirEntry (List Char)) : List Char :=
  (entry.above ++ [entry.filename]).foldl pathAppend directory

/-- The fields of `TaskManager` that a library is looked up with. -/
structure LibraryPaths where
  rootPath : List Char
  ldLibraryPaths : List (List Char)

namespace LibraryPaths

variable (tm : LibraryPaths)

def setRootDir (dirName : List Char) : LibraryPaths := { tm with rootPath := dirName }

theorem length_dropWhile_lt {dirName rest : List Char} {c : Char}
    (h : dirName.dropWhile (· == ':') = c :: rest) :
    ((c :: rest).dropWhile (· != ':')).length < dirName.length := by
  have hc : (c != ':') = true := by
    have hhead := List.head_dropWhile_not (· == ':') (l := dirName) (by simp [h])
    simpa [h] using hhead
  have hle := (List.dropWhile_sublist (l := dirName) (· == ':')).length_le
  have hle' := (List.dropWhile_sublist (l := rest) (· != ':')).length_le
  rw [h, List.length_cons] at hle
  rw [List.dropWhile_cons_of_pos (p := (· != ':')) hc]
  omega

/-- The parts of the search path, read from a place in it: the next part goes from the first
character that is no `:` up to the next one that is. -/
def parts (dirName : List Char) : List (List Char) :=
  match _h : dirName.dropWhile (· == ':') with
  | [] => []
  | c :: rest => (c :: rest).takeWhile (· != ':') :: parts ((c :: rest).dropWhile (· != ':'))
  termination_by dirName.length
  decreasing_by exact length_dropWhile_lt _h

def setLibraryDir (dirName : List Char) : LibraryPaths :=
  { tm with ldLibraryPaths := tm.ldLibraryPaths ++ (parts dirName).map (tm.rootPath ++ ·) }

/-- The characters that a backslash is put in front of. -/
def escaped : List Char := ['[', '(', ')', '.', '*', '+', '^', '?', '|', '{', '}', '$']

/-- `regex_replace(libName, std::regex("[\\[\\().*+^?|\x7b\x7d$[]"), "\\$&")` -/
def escapeName (libName : List Char) : List Char :=
  libName.flatMap (fun c => if c ∈ escaped then ['\\', c] else [c])

/-- The first entry below a search path whose name matches. -/
def searchPath (fs : FileSystem) (regex : RegularExpression Char) (directory : List Char) :
    Except LookupError (Option (List Char)) :=
  match fs directory with
  | none => .error .filesystem
  | some entries =>
    .ok ((Cursor.search (fun _ => true) (fun e => regex.rmatch e.filename)
      (Cursor.start entries)).map (nativePath directory))

/-- The path of the library's file; `none` stands for the empty string. -/
def findLibraryFile (fs : FileSystem) (libName : List Char) :
    Except LookupError (Option (List Char)) :=
  match Regex.parse (escapeName libName) with
  | none => .error .regex
  | some regex => firstGiven (searchPath fs regex) tm.ldLibraryPaths

/-! ## The search path -/

/-- The parts between the colons that are not empty. -/
def nonemptyParts (dirName : List Char) : List (List Char) :=
  (dirName.splitOn ':').filter (fun part => part ≠ [])

theorem nonemptyParts_colon (dirName : List Char) :
    nonemptyParts (':' :: dirName) = nonemptyParts dirName := by
  have hsplit : (':' :: dirName).splitOn ':' = [] :: dirName.splitOn ':' :=
    List.splitOn_append_cons_self [] dirName
  simp [nonemptyParts, hsplit]

theorem nonemptyParts_dropWhile (dirName : List Char) :
    nonemptyParts (dirName.dropWhile (· == ':')) = nonemptyParts dirName := by
  induction dirName with
  | nil => rfl
  | cons c rest ih =>
    by_cases hc : c = ':'
    · subst hc
      rw [nonemptyParts_colon, ← ih]
      rfl
    · have hneg : ¬ (c == ':') = true := by simpa using hc
      rw [List.dropWhile_cons_of_neg (p := (· == ':')) hneg]

/-- A part goes up to the next colon. -/
theorem nonemptyParts_append {part rest : List Char} (hpart : part ≠ []) (hcolon : ':' ∉ part)
    (hrest : rest = [] ∨ ∃ rest', rest = ':' :: rest') :
    nonemptyParts (part ++ rest) = part :: nonemptyParts rest := by
  obtain rfl | ⟨rest', rfl⟩ := hrest
  · rw [List.append_nil, nonemptyParts, List.splitOn_eq_singleton hcolon]
    simp [nonemptyParts, hpart]
  · rw [nonemptyParts_colon, nonemptyParts,
      List.splitOn_append_cons_self_of_not_mem hcolon rest']
    simp [nonemptyParts, hpart]

theorem dropWhile_ne_colon (dirName : List Char) :
    dirName.dropWhile (· != ':') = [] ∨ ∃ rest, dirName.dropWhile (· != ':') = ':' :: rest := by
  induction dirName with
  | nil => exact Or.inl rfl
  | cons c rest ih =>
    by_cases hc : c = ':'
    · subst hc
      exact Or.inr ⟨rest, rfl⟩
    · have hpos : (c != ':') = true := by simpa using hc
      rw [List.dropWhile_cons_of_pos (p := (· != ':')) hpos]
      exact ih

theorem parts_eq (dirName : List Char) : parts dirName = nonemptyParts dirName := by
  induction hn : dirName.length using Nat.strongRecOn generalizing dirName with
  | _ n ih =>
    rw [← nonemptyParts_dropWhile dirName]
    unfold parts
    split
    · next h => rw [h]; rfl
    · next c rest h =>
      have hc : (c != ':') = true := by
        have hhead := List.head_dropWhile_not (· == ':') (l := dirName) (by simp [h])
        simpa [h] using hhead
      have hpart : (c :: rest).takeWhile (· != ':') ≠ [] := by
        rw [List.takeWhile_cons_of_pos (p := (· != ':')) hc]
        exact List.cons_ne_nil _ _
      have hcolon : ':' ∉ (c :: rest).takeWhile (· != ':') := by
        intro hmem
        have hne := List.all_eq_true.mp (List.all_takeWhile (l := c :: rest)) ':' hmem
        simp at hne
      have hlt := length_dropWhile_lt h
      rw [ih _ (by rw [← hn]; exact hlt) _ rfl, h,
        ← nonemptyParts_append hpart hcolon (dropWhile_ne_colon _), List.takeWhile_append_dropWhile]

/-! ## The search -/

/-- The directory can be listed, and no entry of its tree has the name. -/
def Lacks (fs : FileSystem) (name directory : List Char) : Prop :=
  ∃ entries, fs directory = some entries ∧
    ∀ e ∈ FileTree.walkAll (fun _ => true) [] entries, e.filename ≠ name

/-- `path` is the path of the first entry with the name, in preorder. -/
def First (fs : FileSystem) (name directory path : List Char) : Prop :=
  ∃ entries before entry after, fs directory = some entries ∧
    FileTree.walkAll (fun _ => true) [] entries = before ++ entry :: after ∧
    (∀ e ∈ before, e.filename ≠ name) ∧ entry.filename = name ∧
    path = nativePath directory entry

section

variable {fs : FileSystem} {regex : RegularExpression Char} {name directory : List Char}

theorem searchPath_of_some {entries : List (FileTree (List Char))}
    (h : fs directory = some entries) :
    searchPath fs regex directory =
      .ok (((FileTree.walkAll (fun _ => true) [] entries).find?
        (fun e => regex.rmatch e.filename)).map (nativePath directory)) := by
  rw [← Cursor.search_start]
  simp only [searchPath, h]

theorem searchPath_of_none (h : fs directory = none) :
    searchPath fs regex directory = .error .filesystem := by
  simp only [searchPath, h]

theorem searchPath_eq_error_iff {e : LookupError} :
    searchPath fs regex directory = .error e ↔ e = .filesystem ∧ fs directory = none := by
  cases h : fs directory with
  | none => simp [searchPath_of_none h, eq_comm]
  | some entries => simp [searchPath_of_some h]

variable (hregex : ∀ w, regex.rmatch w = true ↔ w = name)

include hregex

theorem searchPath_eq_none_iff :
    searchPath fs regex directory = .ok none ↔ Lacks fs name directory := by
  unfold Lacks
  cases h : fs directory with
  | none => simp [searchPath_of_none h]
  | some entries =>
    rw [searchPath_of_some h]
    simp only [Except.ok.injEq, Option.map_eq_none_iff, List.find?_eq_none, hregex,
      Option.some.injEq, exists_eq_left']

theorem searchPath_eq_some_iff {path : List Char} :
    searchPath fs regex directory = .ok (some path) ↔ First fs name directory path := by
  unfold First
  cases h : fs directory with
  | none => simp [searchPath_of_none h]
  | some entries =>
    rw [searchPath_of_some h]
    simp only [Except.ok.injEq, Option.map_eq_some_iff, List.find?_eq_some_iff_append, hregex]
    constructor
    · rintro ⟨e, ⟨he, before, after, heq, hbefore⟩, rfl⟩
      refine ⟨entries, before, e, after, rfl, heq, fun e' he' hname => ?_, he, rfl⟩
      have hno := hbefore e' he'
      rw [(hregex e'.filename).mpr hname] at hno
      cases hno
    · rintro ⟨_, before, e, after, hentries, heq, hbefore, he, rfl⟩
      cases hentries
      refine ⟨e, ⟨he, before, after, heq, fun e' he' => ?_⟩, rfl⟩
      rw [Bool.not_eq_true', ← Bool.not_eq_true, hregex]
      exact hbefore e' he'

end

/-- The name with its escapes is an expression for just this name. -/
theorem parse_escapeName {libName : List Char} (h : '\\' ∉ libName) :
    ∃ regex, Regex.parse (escapeName libName) = some regex ∧
      ∀ w, regex.rmatch w = true ↔ w = libName := by
  have hreads : ∀ c ∈ libName,
      Regex.Reads (if c ∈ escaped then ['\\', c] else [c]) {c} := by
    intro c hc
    by_cases hesc : c ∈ escaped
    · rw [if_pos hesc]
      refine Regex.reads_escape ?_
      have hall : escaped.all (fun d => !d.isAlphanum) = true := by decide
      simpa using List.all_eq_true.mp hall c hesc
    · rw [if_neg hesc]
      refine Regex.reads_char fun hspecial => ?_
      have hall : Regex.special.all (fun d => d = '\\' ∨ d ∈ escaped) = true := by decide
      obtain rfl | hmem := of_decide_eq_true (List.all_eq_true.mp hall c hspecial)
      · exact h hc
      · exact hesc hmem
  obtain ⟨regex, hparse, hmatch⟩ := Regex.parse_flatMap hreads
  refine ⟨regex, hparse, fun w => ?_⟩
  rw [hmatch, Regex.forall₂_mem_singleton_iff]

/-- **Lookup of a library.** After `setRootDir root` and `setLibraryDir dirName` the search path
consists of the non-empty parts of `dirName` behind the root, after the paths that were there. A
library whose name has no backslash is found in the first search path that has an entry of this
name anywhere below it, as the first such entry in preorder; none is found exactly if all search
paths can be listed and none has such an entry; and the search throws exactly if a search path
before the one with the entry cannot be listed. -/
theorem findLibraryFile_exact (root dirName libName : List Char) (fs : FileSystem)
    (h : '\\' ∉ libName) :
    let tm' := (tm.setRootDir root).setLibraryDir dirName
    let dirs := tm.ldLibraryPaths ++ (nonemptyParts dirName).map (root ++ ·)
    (∀ path, tm'.findLibraryFile fs libName = .ok (some path) ↔
      ∃ before directory after, dirs = before ++ directory :: after ∧
        (∀ b ∈ before, Lacks fs libName b) ∧ First fs libName directory path) ∧
    (tm'.findLibraryFile fs libName = .ok none ↔ ∀ d ∈ dirs, Lacks fs libName d) ∧
    (∀ e, tm'.findLibraryFile fs libName = .error e ↔ e = .filesystem ∧
      ∃ before directory after, dirs = before ++ directory :: after ∧
        (∀ b ∈ before, Lacks fs libName b) ∧ fs directory = none) := by
  intro tm' dirs
  obtain ⟨regex, hparse, hregex⟩ := parse_escapeName h
  have hdirs : tm'.ldLibraryPaths = dirs := by
    show tm.ldLibraryPaths ++ (parts dirName).map (root ++ ·) = dirs
    rw [parts_eq]
  have hfind : tm'.findLibraryFile fs libName = firstGiven (searchPath fs regex) dirs := by
    rw [findLibraryFile, hparse, ← hdirs]
  have hnone : ∀ d, searchPath fs regex d = .ok none ↔ Lacks fs libName d := fun _ =>
    searchPath_eq_none_iff hregex
  refine ⟨fun path => ?_, ?_, fun e => ?_⟩
  · rw [hfind, firstGiven_eq_iff (by simp)]
    simp only [hnone, searchPath_eq_some_iff hregex]
  · rw [hfind, firstGiven_eq_none_iff]
    simp only [hnone]
  · rw [hfind, firstGiven_eq_iff (by simp)]
    simp only [hnone, searchPath_eq_error_iff]
    constructor
    · rintro ⟨before, directory, after, heq, hbefore, rfl, hdirectory⟩
      exact ⟨rfl, before, directory, after, heq, hbefore, hdirectory⟩
    · rintro ⟨rfl, before, directory, after, heq, hbefore, hdirectory⟩
      exact ⟨before, directory, after, heq, hbefore, rfl, hdirectory⟩

/-- A guest below `/g` with `/lib/m` and `/usr/x/a.so`. -/
def smallGuest : FileSystem := fun directory =>
  if directory = ['/', 'g', '/', 'l', 'i', 'b'] then some [.file ['m']]
  else if directory = ['/', 'g', '/', 'u', 's', 'r'] then
    some [.dir ['x'] [.file ['a', '.', 's', 'o']]]
  else none

/-- `a.so` on the path `:/lib::/usr` in a guest below `/g`. -/
theorem findLibraryFile_exact_small :
    ((LibraryPaths.mk [] []).setRootDir ['/', 'g'] |>.setLibraryDir
      [':', '/', 'l', 'i', 'b', ':', ':', '/', 'u', 's', 'r']).findLibraryFile smallGuest
      ['a', '.', 's', 'o'] =
    .ok (some ['/', 'g', '/', 'u', 's', 'r', '/', 'x', '/', 'a', '.', 's', 'o']) := by
  refine ((findLibraryFile_exact ⟨[], []⟩ ['/', 'g']
    [':', '/', 'l', 'i', 'b', ':', ':', '/', 'u', 's', 'r'] ['a', '.', 's', 'o'] smallGuest
    (by decide)).1 _).mpr
    ⟨[['/', 'g', '/', 'l', 'i', 'b']], ['/', 'g', '/', 'u', 's', 'r'], [], by decide, ?_, ?_⟩
  · intro b hb
    rw [List.mem_singleton] at hb
    subst hb
    exact ⟨[.file ['m']], rfl, by decide⟩
  · exact ⟨[.dir ['x'] [.file ['a', '.', 's', 'o']]], [⟨[], ['x'], true⟩],
      ⟨[['x']], ['a', '.', 's', 'o'], false⟩, [], rfl, rfl, by decide, rfl, by decide⟩

end LibraryPaths

end KernInt
