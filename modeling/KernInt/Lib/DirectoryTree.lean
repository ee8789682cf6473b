import Mathlib.Data.List.Basic
import Mathlib.Tactic.Common

set_option autoImplicit false

/-! # Directory trees

A directory holds files and directories, in the order in which the system lists them. A recursive
iterator keeps the entries that are left in the directory it is in, and in every directory above
that one. It goes into the directories that `enter` lets it into.

A search with such an iterator finds the first entry of the tree in preorder
(`Cursor.search_eq_find?`).
-/

namespace Lib

universe u

inductive FileTree (ν : Type u) where
  | file (name : ν)
  | dir (name : ν) (entries : List (FileTree ν))

/-- An entry of a directory, with the names of the directories above it. -/
structure DirEntry (ν : Type u) where
  above : List ν
  filename : ν
  isDirectory : Bool

namespace FileTree

variable {ν : Type u} (enter : DirEntry ν → Bool)

mutual
/-- The entries of a tree in preorder. -/
def walk (above : List ν) : FileTree ν → List (DirEntry ν)
  | .file n => [⟨above, n, false⟩]
  | .dir n entries =>
    ⟨above, n, true⟩ :: if enter ⟨above, n, true⟩ then walkAll (above ++ [n]) entries else []

def walkAll (above : List ν) : List (FileTree ν) → List (DirEntry ν)
  | [] => []
  | t :: ts => walk above t ++ walkAll above ts
end

mutual
def weight : FileTree ν → Nat
  | .file _ => 1
  | .dir _ entries => 1 + weightAll entries

def weightAll : List (FileTree ν) → Nat
  | [] => 0
  | t :: ts => weight t + weightAll ts
end

end FileTree

open FileTree

/-- A recursive iterator. It is at the first of its entries; where it has none, it has come to the
end and there is no directory above. -/
structure Cursor (ν : Type u) where
  entries : List (FileTree ν)
  /-- The names of the directories it has gone into, the innermost first, and what is left of
  the directories that hold them. -/
  above : List (ν × List (FileTree ν))
  settled : entries = [] → above = []

namespace Cursor

variable {ν : Type u} (enter : DirEntry ν → Bool)

/-- Leaves the directories of which nothing is left. -/
def settle : List (FileTree ν) → List (ν × List (FileTree ν)) → Cursor ν
  | [], [] => ⟨[], [], fun _ => rfl⟩
  | [], (_, ts) :: above => settle ts above
  | t :: ts, above => ⟨t :: ts, above, fun h => absurd h (List.cons_ne_nil t ts)⟩

def start (entries : List (FileTree ν)) : Cursor ν := settle entries []

def directory (above : List (ν × List (FileTree ν))) : List ν := (above.map Prod.fst).reverse

/-- The entry for a tree of the directory that the iterator is in. -/
def entryOf (above : List (ν × List (FileTree ν))) : FileTree ν → DirEntry ν
  | .file n => ⟨directory above, n, false⟩
  | .dir n _ => ⟨directory above, n, true⟩

def increment (cursor : Cursor ν) : Cursor ν :=
  match cursor.entries with
  | [] => cursor
  | .file _ :: ts => settle ts cursor.above
  | .dir n es :: ts =>
    if enter ⟨directory cursor.above, n, true⟩ then settle es ((n, ts) :: cursor.above)
    else settle ts cursor.above

/-! ## The entries that are left -/

def leftAbove : List (ν × List (FileTree ν)) → List (DirEntry ν)
  | [] => []
  | (_, ts) :: above => walkAll enter (directory above) ts ++ leftAbove above

def left (cursor : Cursor ν) : List (DirEntry ν) :=
  walkAll enter (directory cursor.above) cursor.entries ++ leftAbove enter cursor.above

def weightAbove : List (ν × List (FileTree ν)) → Nat
  | [] => 0
  | (_, ts) :: above => weightAll ts + weightAbove above

def weight (cursor : Cursor ν) : Nat := weightAll cursor.entries + weightAbove cursor.above

theorem left_settle (entries : List (FileTree ν)) (above : List (ν × List (FileTree ν))) :
    (settle entries above).left enter =
      walkAll enter (directory above) entries ++ leftAbove enter above := by
  induction above generalizing entries with
  | nil => cases entries <;> rfl
  | cons a above ih =>
    obtain ⟨n, ts⟩ := a
    cases entries with
    | nil => exact ih ts
    | cons t ts' => rfl

theorem weight_settle (entries : List (FileTree ν)) (above : List (ν × List (FileTree ν))) :
    (settle entries above).weight = weightAll entries + weightAbove above := by
  induction above generalizing entries with
  | nil => cases entries <;> rfl
  | cons a above ih =>
    obtain ⟨n, ts⟩ := a
    cases entries with
    | nil =>
      show (settle ts above).weight = weightAll [] + (weightAll ts + weightAbove above)
      rw [ih ts, weightAll, Nat.zero_add]
    | cons t ts' => rfl

theorem directory_cons (n : ν) (ts : List (FileTree ν)) (above : List (ν × List (FileTree ν))) :
    directory ((n, ts) :: above) = directory above ++ [n] := by
  rw [directory, List.map_cons, List.reverse_cons, directory]

theorem increment_file {cursor : Cursor ν} {n : ν} {ts : List (FileTree ν)}
    (h : cursor.entries = .file n :: ts) : cursor.increment enter = settle ts cursor.above := by
  simp only [increment, h]

theorem increment_dir {cursor : Cursor ν} {n : ν} {es ts : List (FileTree ν)}
    (h : cursor.entries = .dir n es :: ts) :
    cursor.increment enter =
      if enter ⟨directory cursor.above, n, true⟩ then settle es ((n, ts) :: cursor.above)
      else settle ts cursor.above := by
  simp only [increment, h]

/-- An iterator that is at an entry has this entry left and what is left behind the next step. -/
theorem left_eq_cons {cursor : Cursor ν} {t : FileTree ν} {ts : List (FileTree ν)}
    (h : cursor.entries = t :: ts) :
    cursor.left enter = entryOf cursor.above t :: (cursor.increment enter).left enter := by
  have hleft : cursor.left enter = walk enter (directory cursor.above) t ++
      (walkAll enter (directory cursor.above) ts ++ leftAbove enter cursor.above) := by
    rw [left, h, walkAll, List.append_assoc]
  cases t with
  | file n =>
    rw [hleft, increment_file enter h, left_settle]
    rfl
  | dir n es =>
    rw [hleft, increment_dir enter h, walk]
    by_cases henter : enter ⟨directory cursor.above, n, true⟩ = true
    · -- the entries of the directory come in front of what is left of the one that holds it
      rw [if_pos henter, if_pos henter, left_settle, directory_cons]
      rfl
    · rw [if_neg henter, if_neg henter, left_settle]
      rfl

theorem left_eq_nil {cursor : Cursor ν} (h : cursor.entries = []) : cursor.left enter = [] := by
  rw [left, h, cursor.settled h]
  rfl

theorem weight_increment_lt {cursor : Cursor ν} {t : FileTree ν} {ts : List (FileTree ν)}
    (h : cursor.entries = t :: ts) : (cursor.increment enter).weight < cursor.weight := by
  have hweight : cursor.weight = FileTree.weight t + weightAll ts + weightAbove cursor.above := by
    rw [weight, h, weightAll]
  cases t with
  | file n =>
    rw [increment_file enter h, weight_settle, hweight, FileTree.weight]
    omega
  | dir n es =>
    rw [increment_dir enter h, hweight, FileTree.weight]
    split
    · rw [weight_settle, weightAbove]
      omega
    · rw [weight_settle]
      omega

/-! ## The search -/

/-- Goes on with the iterator until it is at an entry with `p`. -/
def search (p : DirEntry ν → Bool) (cursor : Cursor ν) : Option (DirEntry ν) :=
  match _h : cursor.entries with
  | [] => none
  | t :: _ =>
    if p (entryOf cursor.above t) then some (entryOf cursor.above t)
    else search p (cursor.increment enter)
  termination_by cursor.weight
  decreasing_by exact weight_increment_lt enter _h

theorem search_of_nil {p : DirEntry ν → Bool} {cursor : Cursor ν} (h : cursor.entries = []) :
    search enter p cursor = none := by
  unfold search
  split
  · rfl
  · next heq => exact absurd (h.symm.trans heq) (List.cons_ne_nil _ _).symm

theorem search_of_cons {p : DirEntry ν → Bool} {cursor : Cursor ν} {t : FileTree ν}
    {ts : List (FileTree ν)} (h : cursor.entries = t :: ts) :
    search enter p cursor =
      if p (entryOf cursor.above t) then some (entryOf cursor.above t)
      else search enter p (cursor.increment enter) := by
  conv_lhs => unfold search
  split
  · next heq => exact absurd (heq.symm.trans h) (List.cons_ne_nil _ _).symm
  · next t' ts' heq =>
    obtain ⟨rfl, rfl⟩ := List.cons.inj (heq.symm.trans h)
    rfl

/-- The search finds the first of the entries that are left. -/
theorem search_eq_find? (p : DirEntry ν → Bool) (cursor : Cursor ν) :
    search enter p cursor = (cursor.left enter).find? p := by
  induction hn : cursor.weight using Nat.strongRecOn generalizing cursor with
  | _ n ih =>
    cases h : cursor.entries with
    | nil =>
      rw [search_of_nil enter h, left_eq_nil enter h]
      rfl
    | cons t ts =>
      rw [search_of_cons enter h, left_eq_cons enter h, List.find?_cons]
      cases p (entryOf cursor.above t) with
      | true => rfl
      | false =>
        have hlt := weight_increment_lt enter h
        exact ih _ (by rw [← hn]; exact hlt) _ rfl

theorem search_start (p : DirEntry ν → Bool) (entries : List (FileTree ν)) :
    search enter p (start entries) = (walkAll enter [] entries).find? p := by
  rw [search_eq_find?, start, left_settle]
  show (walkAll enter [] entries ++ []).find? p = _
  rw [List.append_nil]

end Cursor

/-! ## Parts of the tree that are left out -/

section

variable {ν : Type u} {enter : DirEntry ν → Bool}

mutual
/-- What decides about the directories below `above` decides about the walk there. -/
theorem FileTree.walk_congr {enter' : DirEntry ν → Bool} {above : List ν}
    (h : ∀ e : DirEntry ν, above <+: e.above → enter e = enter' e) :
    ∀ t : FileTree ν, walk enter above t = walk enter' above t
  | .file n => by rw [walk, walk]
  | .dir n es => by
    have hbelow : ∀ e : DirEntry ν, above ++ [n] <+: e.above → enter e = enter' e := fun e he =>
      h e ((List.prefix_append above [n]).trans he)
    rw [walk, walk, h _ (List.prefix_refl above), FileTree.walkAll_congr hbelow es]

theorem FileTree.walkAll_congr {enter' : DirEntry ν → Bool} {above : List ν}
    (h : ∀ e : DirEntry ν, above <+: e.above → enter e = enter' e) :
    ∀ ts : List (FileTree ν), walkAll enter above ts = walkAll enter' above ts
  | [] => by rw [walkAll, walkAll]
  | t :: ts => by
    rw [walkAll, walkAll, FileTree.walk_congr h t, FileTree.walkAll_congr h ts]
end

mutual
theorem FileTree.prefix_of_mem_walk {above : List ν} {e : DirEntry ν} :
    ∀ t : FileTree ν, e ∈ walk enter above t → above <+: e.above
  | .file n => by
    rw [walk, List.mem_singleton]
    rintro rfl
    exact List.prefix_refl above
  | .dir n es => by
    rw [walk, List.mem_cons]
    rintro (rfl | h)
    · exact List.prefix_refl above
    · split at h
      · exact (List.prefix_append above [n]).trans (FileTree.prefix_of_mem_walkAll es h)
      · exact absurd h (List.not_mem_nil)

theorem FileTree.prefix_of_mem_walkAll {above : List ν} {e : DirEntry ν} :
    ∀ ts : List (FileTree ν), e ∈ walkAll enter above ts → above <+: e.above
  | [] => by
    rw [walkAll]
    exact fun h => absurd h List.not_mem_nil
  | t :: ts => by
    rw [walkAll, List.mem_append]
    rintro (h | h)
    · exact FileTree.prefix_of_mem_walk t h
    · exact FileTree.prefix_of_mem_walkAll ts h
end

variable [DecidableEq ν] (exclude : List ν)

/-- An iterator goes into the entry that does not go into some directories on the top. -/
def DirEntry.pushed (e : DirEntry ν) : Bool := ¬ (e.above = [] ∧ e.filename ∈ exclude)

/-- The entry is not below one of the excluded directories on the top. -/
def DirEntry.notBelow (e : DirEntry ν) : Bool :=
  match e.above with
  | [] => true
  | n :: _ => n ∉ exclude

/-- An iterator that does not go into some directories on the top leaves out what is below them,
and nothing else. -/
theorem FileTree.walkAll_exclude (entries : List (FileTree ν)) :
    walkAll (DirEntry.pushed exclude) [] entries =
      (walkAll (fun _ => true) [] entries).filter (DirEntry.notBelow exclude) := by
  induction entries with
  | nil => rw [walkAll, walkAll, List.filter_nil]
  | cons t ts ih =>
    rw [walkAll, walkAll, List.filter_append, ih]
    congr 1
    cases t with
    | file n =>
      rw [walk, walk]
      rfl
    | dir n es =>
      rw [walk, walk, if_pos rfl, List.nil_append, List.filter_cons_of_pos rfl]
      congr 1
      have habove : ∀ e ∈ walkAll (fun _ => true) [n] es,
          DirEntry.notBelow exclude e = decide (n ∉ exclude) := by
        intro e he
        obtain ⟨rest, hrest⟩ := FileTree.prefix_of_mem_walkAll es he
        rw [DirEntry.notBelow, ← hrest]
        rfl
      have hpushed : DirEntry.pushed exclude ⟨[], n, true⟩ = decide (n ∉ exclude) := by
        simp [DirEntry.pushed]
      rw [hpushed]
      by_cases hn : n ∈ exclude
      · have hnone : (walkAll (fun _ => true) [n] es).filter (DirEntry.notBelow exclude) = [] := by
          refine List.filter_eq_nil_iff.mpr fun e he => ?_
          rw [habove e he]
          simpa using hn
        rw [hnone, if_neg (by simpa using hn)]
      · have hall : (walkAll (fun _ => true) [n] es).filter (DirEntry.notBelow exclude) =
            walkAll (fun _ => true) [n] es := by
          refine List.filter_eq_self.mpr fun e he => ?_
          rw [habove e he]
          simpa using hn
        rw [hall, if_pos (by simpa using hn)]
        refine FileTree.walkAll_congr (fun e he => ?_) es
        -- below a directory on the top everything is gone into
        have hne : e.above ≠ [] := by
          rintro h
          rw [h] at he
          exact List.cons_ne_nil _ _ (List.prefix_nil.mp he)
        simp [DirEntry.pushed, hne]

end

end Lib
