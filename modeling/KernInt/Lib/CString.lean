import KernInt.Lib.NulStrings
import Mathlib.Data.List.TakeWhile

set_option autoImplicit false

/-! # C strings in a checked memory

A reader gives the byte at an address, or nothing where no byte may be read; each function stops
there. `bytesWhile` is the loop of `strlen`, `strspn` and `strcspn`, `startsWithAt` is `strncmp`
with a constant, and `strtokR` is `strtok_r` with one delimiter, which tells where it would put its
NUL. Each has a lemma that says what it gives for bytes that are all there.
-/

namespace Lib

/-- The bytes from the address on that satisfy `p`; the next one does not. -/
def bytesWhile (read : Reader) (p : Byte → Bool) : Nat → U64 → Option (List Byte)
  | 0, _ => none
  | fuel + 1, a =>
      match read a with
      | none => none
      | some b => if p b then (bytesWhile read p fuel (a + 1)).map (b :: ·) else some []

/-- `strncmp(a, pattern, |pattern|) == 0`; what is behind a difference is not read. -/
def startsWithAt (read : Reader) : List Byte → U64 → Option Bool
  | [], _ => some true
  | b :: pattern, a =>
      match read a with
      | none => none
      | some c => if c = b then startsWithAt read pattern (a + 1) else some false

/-- What a call of `strtok_r` does: the token it returns, the new `saveptr`, and the address that
becomes NUL. -/
structure Strtok where
  token : Option U64
  saveptr : U64
  cut : Option U64
  deriving DecidableEq

def strtokR (read : Reader) (fuel : Nat) (delim : Byte) (s : U64) : Option Strtok := do
  let skipped ← bytesWhile read (· == delim) fuel s
  let s := s + BitVec.ofNat 64 skipped.length
  let c ← read s
  if c = 0 then return ⟨none, s, none⟩
  let tok ← bytesWhile read (fun b => b != delim && b != 0) fuel s
  let stop := s + BitVec.ofNat 64 tok.length
  let c ← read stop
  if c = 0 then return ⟨some s, stop, none⟩
  return ⟨some s, stop + 1, some stop⟩

section

variable {read : Reader} {a : U64}

theorem bytesWhile_eq {p : Byte → Bool} {xs : List Byte} {c : Byte} {fuel : Nat}
    (h : Reads read a (xs ++ [c])) (hxs : ∀ x ∈ xs, p x = true) (hc : p c = false)
    (hfuel : xs.length < fuel) : bytesWhile read p fuel a = some xs := by
  induction xs generalizing a fuel with
  | nil =>
      obtain ⟨fuel, rfl⟩ : ∃ n, fuel = n + 1 := ⟨fuel - 1, by simp at hfuel; omega⟩
      rw [List.nil_append, reads_cons] at h
      simp [bytesWhile, h.1, hc]
  | cons x xs ih =>
      obtain ⟨fuel, rfl⟩ : ∃ n, fuel = n + 1 := ⟨fuel - 1, by simp at hfuel; omega⟩
      rw [List.cons_append, reads_cons] at h
      rw [List.forall_mem_cons] at hxs
      have hrest := ih h.2 hxs.2 (by simpa using hfuel)
      simp only [bytesWhile, h.1, hxs.1, if_true, hrest, Option.map_some]

/-- The comparison tells whether the string, which may be shorter, begins with the pattern. -/
theorem startsWithAt_eq {pattern : List Byte} {s : StdString} (hpattern : NulFree pattern)
    (h : Reads read a (s ++ [0])) : startsWithAt read pattern a = some (pattern.isPrefixOf s) := by
  induction pattern generalizing a s with
  | nil => simp [startsWithAt]
  | cons b pattern ih =>
      have hb : (0 : Byte) ≠ b := fun h0 => hpattern (h0 ▸ List.mem_cons_self)
      have hrest : NulFree pattern := fun h0 => hpattern (List.mem_cons_of_mem b h0)
      cases s with
      | nil =>
          rw [List.nil_append, reads_cons] at h
          simp only [startsWithAt, h.1, if_neg hb]
          rfl
      | cons c s =>
          rw [List.cons_append, reads_cons] at h
          simp only [startsWithAt, h.1, List.isPrefixOf_cons_cons]
          by_cases heq : c = b
          · rw [if_pos heq, ih hrest h.2, heq, beq_self_eq_true, Bool.true_and]
          · have hne : (b == c) = false := beq_false_of_ne (Ne.symm heq)
            rw [if_neg heq, hne, Bool.false_and]

/-- One byte has changed. -/
theorem Reads.replace {read' : Reader} {xs ys : List Byte} {x y : Byte}
    (h : Reads read a (xs ++ x :: ys)) (hlen : xs.length + ys.length < 2 ^ 64)
    (hat : read' (a + BitVec.ofNat 64 xs.length) = some y)
    (hother : ∀ b, b ≠ a + BitVec.ofNat 64 xs.length → read' b = read b) :
    Reads read' a (xs ++ y :: ys) := by
  intro k hk
  have hk' : k < xs.length + (ys.length + 1) := by simpa using hk
  by_cases heq : k = xs.length
  · subst heq
    simpa using hat
  · have hne : a + BitVec.ofNat 64 k ≠ a + BitVec.ofNat 64 xs.length := by
      intro hadd
      have hoff : BitVec.ofNat 64 k = BitVec.ofNat 64 xs.length := by simpa using hadd
      have hnat := congrArg BitVec.toNat hoff
      rw [BitVec.toNat_ofNat, BitVec.toNat_ofNat, Nat.mod_eq_of_lt (by omega),
        Nat.mod_eq_of_lt (by omega)] at hnat
      exact heq hnat
    rw [hother _ hne, h k (by simpa using hk)]
    by_cases hlt : k < xs.length
    · rw [List.getElem_append_left hlt, List.getElem_append_left hlt]
    · obtain ⟨n, hn⟩ : ∃ n, k - xs.length = n + 1 := ⟨k - xs.length - 1, by omega⟩
      rw [List.getElem_append_right (by omega), List.getElem_append_right (by omega)]
      simp [hn]

end

/-! ## Tokens -/

/-- The nonempty parts between the delimiters. -/
def tokens (delim : Byte) (value : List Byte) : List StdString :=
  (value.splitOnP (· == delim)).filter fun tok => !tok.isEmpty

section

variable {delim : Byte}

@[simp] theorem tokens_nil : tokens delim [] = [] := rfl

theorem tokens_of_not_mem {tok : StdString} (hne : tok ≠ []) (h : delim ∉ tok) :
    tokens delim tok = [tok] := by
  have hno : ∀ x ∈ tok, (x == delim) = false := by
    intro x hx
    simp
    rintro rfl
    exact h hx
  rw [tokens, List.splitOnP_eq_singleton hno]
  simp [hne]

theorem tokens_cut {tok : StdString} (hne : tok ≠ []) (h : delim ∉ tok) (rest : List Byte) :
    tokens delim (tok ++ delim :: rest) = tok :: tokens delim rest := by
  have hno : ∀ x ∈ tok, (x == delim) = false := by
    intro x hx
    simp
    rintro rfl
    exact h hx
  rw [tokens, List.splitOnP_append_cons_of_forall_mem hno delim (by simp)]
  simp [tokens, hne]

/-- Delimiters in front do not count. -/
theorem tokens_skip {skipped : List Byte} (h : ∀ x ∈ skipped, x = delim) (value : List Byte) :
    tokens delim (skipped ++ value) = tokens delim value := by
  induction skipped with
  | nil => rfl
  | cons x skipped ih =>
      rw [List.forall_mem_cons] at h
      obtain ⟨rfl, hrest⟩ := h
      rw [← ih hrest]
      simp [tokens, List.splitOnP_cons_eq_if_modifyHead]

/-- What `strtok_r` does with a value that is not at its end. -/
inductive StrtokSpec (delim : Byte) (s : U64) (value : List Byte) : Strtok → Prop
  | nothing : (∀ x ∈ value, x = delim) →
      StrtokSpec delim s value ⟨none, s + BitVec.ofNat 64 value.length, none⟩
  | last {skipped tok : List Byte} : value = skipped ++ tok → (∀ x ∈ skipped, x = delim) →
      tok ≠ [] → delim ∉ tok →
      StrtokSpec delim s value ⟨some (s + BitVec.ofNat 64 skipped.length),
        s + BitVec.ofNat 64 skipped.length + BitVec.ofNat 64 tok.length, none⟩
  | cut {skipped tok rest : List Byte} : value = skipped ++ (tok ++ delim :: rest) →
      (∀ x ∈ skipped, x = delim) → tok ≠ [] → delim ∉ tok →
      StrtokSpec delim s value ⟨some (s + BitVec.ofNat 64 skipped.length),
        s + BitVec.ofNat 64 skipped.length + BitVec.ofNat 64 tok.length + 1,
        some (s + BitVec.ofNat 64 skipped.length + BitVec.ofNat 64 tok.length)⟩

/-- The first byte behind the delimiters, and what is read up to it. -/
theorem bytesWhile_delim {read : Reader} {s : U64} {skipped rest : List Byte} {c : Byte}
    (h : Reads read s (skipped ++ c :: rest)) (hskipped : ∀ x ∈ skipped, x = delim)
    (hc : c ≠ delim) (fuel : Nat) (hfuel : skipped.length < fuel) :
    bytesWhile read (· == delim) fuel s = some skipped ∧
      read (s + BitVec.ofNat 64 skipped.length) = some c := by
  obtain ⟨hfirst, hrest⟩ := reads_append.mp h
  have hbyte := (reads_cons.mp hrest).1
  refine ⟨bytesWhile_eq (c := c) (reads_append.mpr ⟨hfirst, ?_⟩) ?_ ?_ hfuel, hbyte⟩
  · exact reads_cons.mpr ⟨hbyte, fun k hk => by simp at hk⟩
  · intro x hx
    simpa using hskipped x hx
  · simpa using hc

/-- The token that begins at an address, and the byte behind it. -/
theorem bytesWhile_token {read : Reader} {s : U64} {tok rest : List Byte} {c : Byte}
    (h : Reads read s (tok ++ c :: rest)) (htok : delim ∉ tok) (hnul : NulFree tok)
    (hc : c = delim ∨ c = 0) (fuel : Nat) (hfuel : tok.length < fuel) :
    bytesWhile read (fun b => b != delim && b != 0) fuel s = some tok ∧
      read (s + BitVec.ofNat 64 tok.length) = some c := by
  obtain ⟨hfirst, hrest⟩ := reads_append.mp h
  have hbyte := (reads_cons.mp hrest).1
  refine ⟨bytesWhile_eq (c := c) (reads_append.mpr ⟨hfirst, ?_⟩) ?_ ?_ hfuel, hbyte⟩
  · exact reads_cons.mpr ⟨hbyte, fun k hk => by simp at hk⟩
  · intro x hx
    have hne : x ≠ delim := fun heq => htok (heq ▸ hx)
    have hne0 : x ≠ 0 := fun heq => hnul (heq ▸ hx)
    rw [Bool.and_eq_true]
    exact ⟨bne_iff_ne.mpr hne, bne_iff_ne.mpr hne0⟩
  · rcases hc with rfl | rfl
    · simp
    · simp

/-- A value is delimiters, or delimiters, a token and what is behind it. -/
theorem exists_token (delim : Byte) (value : List Byte) :
    (∀ x ∈ value, x = delim) ∨ ∃ skipped tok rest, value = skipped ++ (tok ++ rest) ∧
      (∀ x ∈ skipped, x = delim) ∧ tok ≠ [] ∧ delim ∉ tok ∧
      (rest = [] ∨ ∃ rest', rest = delim :: rest') := by
  induction value with
  | nil => exact .inl (by simp)
  | cons x value ih =>
      by_cases hx : x = delim
      · subst hx
        rcases ih with hall | ⟨skipped, tok, rest, rfl, hskipped, htok⟩
        · exact .inl (by simpa using hall)
        · exact .inr ⟨x :: skipped, tok, rest, rfl, by simpa using hskipped, htok⟩
      · -- the token goes on to the next delimiter
        have hsplit := List.takeWhile_append_dropWhile (p := (· != delim)) (l := value)
        refine .inr ⟨[], x :: value.takeWhile (· != delim), value.dropWhile (· != delim), ?_,
          by simp, by simp, ?_, ?_⟩
        · rw [List.nil_append, List.cons_append, hsplit]
        · rintro hmem
          rcases List.mem_cons.mp hmem with heq | hmem
          · exact hx heq.symm
          · simpa using List.mem_takeWhile_imp hmem
        · cases hrest : value.dropWhile (· != delim) with
          | nil => exact .inl rfl
          | cons y rest =>
              have hhead := List.head?_dropWhile_not (· != delim) value
              rw [hrest] at hhead
              have hy : y = delim := by simpa using hhead
              exact .inr ⟨rest, by rw [hy]⟩

theorem strtokR_spec {read : Reader} {s : U64} {value : List Byte} {fuel : Nat}
    (h : Reads read s (value ++ [0])) (hnul : NulFree value) (hdelim : delim ≠ 0)
    (hfuel : value.length < fuel) :
    ∃ r, strtokR read fuel delim s = some r ∧ StrtokSpec delim s value r := by
  rcases exists_token delim value with hall | ⟨skipped, tok, rest, rfl, hskipped, hne, htok, hrest⟩
  · obtain ⟨hskip, hbyte⟩ := bytesWhile_delim h hall (Ne.symm hdelim) fuel hfuel
    refine ⟨_, ?_, .nothing hall⟩
    simp only [strtokR, hskip, Option.bind_eq_bind, Option.bind_some, hbyte, if_true]
    rfl
  · obtain ⟨t, tok', rfl⟩ := List.exists_cons_of_ne_nil hne
    have htfirst : t ≠ delim := fun heq => htok (heq ▸ List.mem_cons_self)
    have hlen : skipped.length + (tok'.length + 1 + rest.length) < fuel := by
      simp at hfuel
      omega
    have hnulTok : NulFree (t :: tok') := fun h0 =>
      hnul (List.mem_append_right _ (List.mem_append_left _ h0))
    have ht0 : t ≠ 0 := fun heq => hnulTok (heq ▸ List.mem_cons_self)
    rw [List.append_assoc, List.append_assoc] at h
    obtain ⟨hskip, hfirst⟩ := bytesWhile_delim
      (by simpa using h) hskipped htfirst fuel (by omega)
    have hbehind := (reads_append.mp h).2
    rcases hrest with rfl | ⟨rest, rfl⟩
    · obtain ⟨hread, hstop⟩ := bytesWhile_token (by simpa using hbehind) htok hnulTok
        (.inr rfl) fuel (by rw [List.length_cons]; omega)
      refine ⟨_, ?_, .last (by rw [List.append_nil]) hskipped hne htok⟩
      simp only [strtokR, hskip, Option.bind_eq_bind, Option.bind_some, hfirst, if_neg ht0, hread,
        hstop, if_true]
      rfl
    · obtain ⟨hread, hstop⟩ := bytesWhile_token (by simpa using hbehind)
        htok hnulTok (.inl rfl) fuel (by rw [List.length_cons]; omega)
      refine ⟨_, ?_, .cut rfl hskipped hne htok⟩
      simp only [strtokR, hskip, Option.bind_eq_bind, Option.bind_some, hfirst, if_neg ht0, hread,
        hstop, if_neg hdelim]
      rfl

end

end Lib
