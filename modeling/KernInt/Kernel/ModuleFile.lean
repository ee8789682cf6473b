import KernInt.Process.LibraryLookup

set_option autoImplicit false

/-! # Files of the kernel modules

The kernel lists a module under a name with `_`, and its file may have `-` there.
`findModuleFile` makes the name an expression that takes both, and `findFileInDir` looks in the
tree of the kernel directory for a file with the extension `.ko` whose stem matches. The class
that stands for a `_` is `[_|-]`, so that it takes a `|` too.

Which file is found for a name without special characters is in `findModuleFile_exact`.
-/

namespace KernInt

open Lib

/-- The stem and the extension of a file name, which is split at the last dot. -/
def splitExtension (filename : List Char) : List Char × List Char :=
  if filename = ['.'] ∨ filename = ['.', '.'] then (filename, [])
  else
    match filename.reverse.dropWhile (· != '.') with
    | [] => (filename, [])
    | _ :: stem => (stem.reverse, '.' :: (filename.reverse.takeWhile (· != '.')).reverse)

/-- A directory that cannot be listed has no entries here: the error code is not looked at before
the loop. -/
def findFileInDir (fs : FileSystem) (dirName fileName extension : List Char)
    (exclude : List (List Char)) : Except LookupError (Option (List Char)) :=
  match Regex.parse fileName with
  | none => .error .regex
  | some regex =>
    .ok ((Cursor.search (DirEntry.pushed exclude)
      (fun e => !e.isDirectory && decide (extension = (splitExtension e.filename).2) &&
        regex.rmatch (splitExtension e.filename).1)
      (Cursor.start ((fs dirName).getD []))).map (nativePath dirName))

/-- `std::replace(modName.begin(), modName.end(), '-', '_')` -/
def replaceDash (modName : List Char) : List Char :=
  modName.map (fun c => if c = '-' then '_' else c)

/-- The loop that replaces each `_` by `[_|-]`; it goes on behind the five characters. -/
def replaceUnderscore (modName : List Char) : List Char :=
  modName.flatMap (fun c => if c = '_' then ['[', '_', '|', '-', ']'] else [c])

def findModuleFile (fs : FileSystem) (kernelDirName modName : List Char) :
    Except LookupError (Option (List Char)) :=
  findFileInDir fs kernelDirName (replaceUnderscore (replaceDash modName)) ['.', 'k', 'o']
    [['d', 'e', 'b', 'i', 'a', 'n']]

/-! ## Stems and extensions -/

/-- A name is split at a dot that has something behind it, but no other dot. -/
theorem splitExtension_append {stem ext : List Char} (hdot : '.' ∉ ext) (hext : ext ≠ []) :
    splitExtension (stem ++ '.' :: ext) = (stem, '.' :: ext) := by
  have hne : ¬ (stem ++ '.' :: ext = ['.'] ∨ stem ++ '.' :: ext = ['.', '.']) := by
    have hpos := List.length_pos_iff.mpr hext
    rintro (h | h)
    · have hlen := congrArg List.length h
      simp at hlen
      omega
    · cases stem with
      | nil =>
        obtain ⟨-, rfl⟩ := List.cons.inj h
        exact hdot List.mem_cons_self
      | cons c stem =>
        have hlen := congrArg List.length h
        simp at hlen
        omega
  have hreverse : (stem ++ '.' :: ext).reverse = ext.reverse ++ '.' :: stem.reverse := by
    simp
  have hall : ∀ c ∈ ext.reverse, (c != '.') = true := by
    intro c hc
    rw [List.mem_reverse] at hc
    simpa using ne_of_mem_of_not_mem hc hdot
  rw [splitExtension, if_neg hne, hreverse]
  simp only [List.dropWhile_append_of_pos hall, List.takeWhile_append_of_pos hall]
  simp

/-- The stem and the extension make up the name. -/
theorem splitExtension_eq (filename : List Char) :
    (splitExtension filename).1 ++ (splitExtension filename).2 = filename := by
  unfold splitExtension
  split
  · exact List.append_nil _
  · split
    · exact List.append_nil _
    · next c stem h =>
      have hsplit := List.takeWhile_append_dropWhile (p := (· != '.')) (l := filename.reverse)
      have hc : c = '.' := by
        have hhead := List.head_dropWhile_not (· != '.') (l := filename.reverse) (by simp [h])
        simpa [h] using hhead
      rw [h, hc] at hsplit
      have hreverse := congrArg List.reverse hsplit
      rw [List.reverse_append, List.reverse_cons, List.reverse_reverse, List.append_assoc] at hreverse
      exact hreverse

theorem splitExtension_ko_iff {filename stem : List Char} :
    (splitExtension filename).2 = ['.', 'k', 'o'] ∧ (splitExtension filename).1 = stem ↔
      filename = stem ++ ['.', 'k', 'o'] := by
  constructor
  · rintro ⟨hext, rfl⟩
    rw [← hext]
    exact (splitExtension_eq filename).symm
  · rintro rfl
    rw [splitExtension_append (by decide) (by decide)]
    exact ⟨rfl, rfl⟩

/-! ## Names of modules -/

/-- The characters that a file name may have for a character in the name of a module. -/
def spellings (c : Char) : Set Char :=
  if c = '-' ∨ c = '_' then {'_', '|', '-'} else {c}

/-- The entry is a file for the module: its name is one of the spellings, with `.ko` behind it. -/
def IsModuleFile (modName : List Char) (e : DirEntry (List Char)) : Prop :=
  e.isDirectory = false ∧
    ∃ stem, e.filename = stem ++ ['.', 'k', 'o'] ∧
      List.Forall₂ (fun c a => a ∈ spellings c) modName stem

theorem reads_bracket : Regex.Reads ['[', '_', '|', '-', ']'] {'_', '|', '-'} := by
  rintro ⟨mode, frame, enclosing⟩ hmode
  refine ⟨Regex.anyOf ['_', '|', '-'], ?_, fun word => ?_⟩
  · obtain rfl | rfl | rfl := hmode <;> rfl
  · rw [Regex.mem_matches_anyOf]
    simp

theorem parse_module {modName : List Char} (h : ∀ c ∈ modName, c ∉ Regex.special) :
    ∃ regex, Regex.parse (replaceUnderscore (replaceDash modName)) = some regex ∧
      ∀ w, regex.rmatch w = true ↔ List.Forall₂ (fun c a => a ∈ spellings c) modName w := by
  have hmap : replaceUnderscore (replaceDash modName) =
      modName.flatMap (fun c =>
        if c = '-' ∨ c = '_' then ['[', '_', '|', '-', ']'] else [c]) := by
    rw [replaceUnderscore, replaceDash, List.flatMap_map]
    refine List.flatMap_congr fun c _ => ?_
    by_cases hdash : c = '-'
    · subst hdash
      rfl
    · rw [if_neg hdash]
      simp [hdash]
  rw [hmap]
  refine Regex.parse_flatMap fun c hc => ?_
  unfold spellings
  by_cases hsep : c = '-' ∨ c = '_'
  · rw [if_pos hsep, if_pos hsep]
    exact reads_bracket
  · rw [if_neg hsep, if_neg hsep]
    exact Regex.reads_char (h c hc)

/-! ## The file that is found -/

/-- The files of the module below a directory, in preorder, without those below a directory
`debian` on the top. -/
noncomputable def moduleFiles (fs : FileSystem) (kernelDirName modName : List Char) :
    List (DirEntry (List Char)) :=
  open Classical in
  ((FileTree.walkAll (fun _ => true) [] ((fs kernelDirName).getD [])).filter
    (DirEntry.notBelow [['d', 'e', 'b', 'i', 'a', 'n']])).filter (IsModuleFile modName)

theorem matches_iff {regex : RegularExpression Char} {modName : List Char}
    (hregex : ∀ w, regex.rmatch w = true ↔ List.Forall₂ (fun c a => a ∈ spellings c) modName w)
    (e : DirEntry (List Char)) :
    (!e.isDirectory && decide (['.', 'k', 'o'] = (splitExtension e.filename).2) &&
      regex.rmatch (splitExtension e.filename).1) = true ↔ IsModuleFile modName e := by
  rw [Bool.and_eq_true, Bool.and_eq_true, Bool.not_eq_true', decide_eq_true_eq, hregex]
  constructor
  · rintro ⟨⟨hfile, hext⟩, hstem⟩
    exact ⟨hfile, _, splitExtension_ko_iff.mp ⟨hext.symm, rfl⟩, hstem⟩
  · rintro ⟨hfile, stem, hname, hstem⟩
    obtain ⟨hext, rfl⟩ := splitExtension_ko_iff.mpr hname
    exact ⟨⟨hfile, hext.symm⟩, hstem⟩

/-- **The file of a module.** For a name without special characters `findModuleFile` gives the
path of the first file below the kernel directory, in preorder and without the directory `debian`
on the top, whose name is the name of the module with any of `_`, `-` and `|` for each `_` and
each `-`, and `.ko` behind it; if there is none, it gives the empty string. -/
theorem findModuleFile_exact (fs : FileSystem) (kernelDirName modName : List Char)
    (h : ∀ c ∈ modName, c ∉ Regex.special) :
    findModuleFile fs kernelDirName modName =
      .ok ((moduleFiles fs kernelDirName modName).head?.map (nativePath kernelDirName)) := by
  obtain ⟨regex, hparse, hregex⟩ := parse_module h
  have hsearch : findModuleFile fs kernelDirName modName =
      .ok ((((FileTree.walkAll (fun _ => true) [] ((fs kernelDirName).getD [])).filter
        (DirEntry.notBelow [['d', 'e', 'b', 'i', 'a', 'n']])).find? (fun e =>
          !e.isDirectory && decide (['.', 'k', 'o'] = (splitExtension e.filename).2) &&
            regex.rmatch (splitExtension e.filename).1)).map (nativePath kernelDirName)) := by
    rw [← FileTree.walkAll_exclude, ← Cursor.search_start]
    simp only [findModuleFile, findFileInDir, hparse]
  classical
  rw [hsearch, moduleFiles, List.head?_filter]
  congr 3
  funext e
  rw [Bool.eq_iff_iff, matches_iff hregex, decide_eq_true_eq]

/-- A kernel directory with `debian/a_.ko` and `fs/a-.ko`. -/
def smallKernelDir : FileSystem := fun _ =>
  some [.dir ['d', 'e', 'b', 'i', 'a', 'n'] [.file ['a', '_', '.', 'k', 'o']],
    .dir ['f', 's'] [.file ['a', '-', '.', 'k', 'o']]]

theorem findModuleFile_exact_small :
    findModuleFile smallKernelDir ['k'] ['a', '_'] =
      .ok ((moduleFiles smallKernelDir ['k'] ['a', '_']).head?.map (nativePath ['k'])) :=
  findModuleFile_exact smallKernelDir ['k'] ['a', '_'] (by simp [Regex.special])

end KernInt
