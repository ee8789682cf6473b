import KernInt.Kernel.Altinstr
import KernInt.Kernel.CodePage
import KernInt.Lib.Outcome
import KernInt.Lib.Vector
import Mathlib.Data.Finmap

set_option autoImplicit false

/-! # Jump labels

`ElfKernelspaceLoader::applyJumpEntries` goes through the table of jump labels that the guest
has sorted, looks each of them up in the table of the file by the address of its code, and puts a
jump or a NOP there. The first run records the displacements and the targets, for the checks of
pages and of pointers.

If the addresses are distinct and the jumps do not reach into each other, the order of the guest
does not matter (`applyJumpEntries_exact`).
-/

namespace KernInt

open Lib

@[ext] structure JumpEntry where
  code : U64
  target : U64
  key : U64
  deriving DecidableEq

/-- The displacement of the jump. -/
def JumpEntry.destination (entry : JumpEntry) : U32 :=
  (entry.target - (entry.code + 5)).setWidth 32

/-- Element `i` of a table with elements of 24 bytes. -/
def loadJumpEntry (table : List Byte) (i : Nat) : JumpEntry where
  code := load64 (fun k => table.getD k 0) (24 * i)
  target := load64 (fun k => table.getD k 0) (24 * i + 8)
  key := load64 (fun k => table.getD k 0) (24 * i + 16)

/-- `jumpTable`, which `initText` fills with the elements between two symbols. -/
structure JumpTable where
  bytes : List Byte
  whole : bytes.length % 24 = 0

def JumpTable.entries (jumpTable : JumpTable) : List JumpEntry :=
  (List.range (jumpTable.bytes.length / 24)).map (loadJumpEntry jumpTable.bytes)

/-- The bytes of an element. -/
def JumpEntry.bytes (entry : JumpEntry) : List Byte :=
  bytes64 entry.code ++ bytes64 entry.target ++ bytes64 entry.key

theorem loadJumpEntry_zero (entry : JumpEntry) (rest : List Byte) :
    loadJumpEntry (entry.bytes ++ rest) 0 = entry := by
  have hword : ∀ (v : U64) (pre post : List Byte), load64
      (fun k => (pre ++ (bytes64 v ++ post)).getD k 0) pre.length = v := by
    intro v pre post
    apply load64_of_bytes64
    intro k hk
    have height : (bytes64 v).length = 8 := rfl
    rw [List.getD_eq_getElem?_getD, List.getElem?_append_right (by omega),
      Nat.add_sub_cancel_left, List.getElem?_append_left (by omega),
      List.getElem?_eq_getElem (by omega), Option.getD_some]
  have hcode := hword entry.code [] (bytes64 entry.target ++ (bytes64 entry.key ++ rest))
  have htarget := hword entry.target (bytes64 entry.code) (bytes64 entry.key ++ rest)
  have hkey := hword entry.key (bytes64 entry.code ++ bytes64 entry.target) rest
  have hbytes : entry.bytes ++ rest = bytes64 entry.code ++
      (bytes64 entry.target ++ (bytes64 entry.key ++ rest)) := by
    unfold JumpEntry.bytes
    rw [List.append_assoc, List.append_assoc]
  rw [List.append_assoc] at hkey
  rw [hbytes]
  exact JumpEntry.ext hcode htarget hkey

theorem loadJumpEntry_succ (entry : JumpEntry) (rest : List Byte) (i : Nat) :
    loadJumpEntry (entry.bytes ++ rest) (i + 1) = loadJumpEntry rest i := by
  have hlen : entry.bytes.length = 24 := rfl
  have hword : ∀ a b, a = 24 + b → load64 (fun k => (entry.bytes ++ rest).getD k 0) a =
      load64 (fun k => rest.getD k 0) b := by
    rintro a b rfl
    apply load64_congr
    intro k _
    rw [List.getD_eq_getElem?_getD, List.getElem?_append_right (by omega), hlen,
      List.getD_eq_getElem?_getD]
    congr 2
    omega
  unfold loadJumpEntry
  rw [hword _ (24 * i) (by omega), hword _ (24 * i + 8) (by omega),
    hword _ (24 * i + 16) (by omega)]

/-- The table with the given elements. -/
def JumpTable.ofEntries (entries : List JumpEntry) : JumpTable where
  bytes := entries.flatMap JumpEntry.bytes
  whole := by
    induction entries with
    | nil => rfl
    | cons entry entries ih =>
        have hlen : entry.bytes.length = 24 := rfl
        rw [List.flatMap_cons, List.length_append, hlen, Nat.add_mod_left]
        exact ih

/-- **The elements are read back.** -/
theorem JumpTable.entries_ofEntries (entries : List JumpEntry) :
    (JumpTable.ofEntries entries).entries = entries := by
  show (List.range ((entries.flatMap JumpEntry.bytes).length / 24)).map
    (loadJumpEntry (entries.flatMap JumpEntry.bytes)) = entries
  induction entries with
  | nil => rfl
  | cons entry entries ih =>
      have hlen : entry.bytes.length = 24 := rfl
      have hcount : (entry.bytes ++ entries.flatMap JumpEntry.bytes).length / 24 =
          (entries.flatMap JumpEntry.bytes).length / 24 + 1 := by
        rw [List.length_append, hlen]
        omega
      have hrest : loadJumpEntry (entry.bytes ++ entries.flatMap JumpEntry.bytes) ∘ Nat.succ =
          loadJumpEntry (entries.flatMap JumpEntry.bytes) :=
        funext fun i => loadJumpEntry_succ entry _ i
      rw [List.flatMap_cons, hcount, List.range_succ_eq_map, List.map_cons, List.map_map, hrest,
        ih, loadJumpEntry_zero]

/-- What the symbols of the guest say about the memory there: the members `code` and `key` of
the element at an address, and the counter `enabled` of the key at an address. -/
structure GuestJumps where
  code : U64 → U64
  key : U64 → U64
  enabled : U64 → U64

/-- The elements of the guest at `jumpStart`, each with its `code` and its `key`. -/
def GuestJumps.elements (guest : GuestJumps) (jumpStart : U64) (numberOfEntries : U32) :
    List (U64 × U64) :=
  (List.range numberOfEntries.toNat).map fun i =>
    let instanceAddress := jumpStart + BitVec.ofNat 64 (24 * i)
    (guest.code instanceAddress, guest.key instanceAddress)

/-- The guest has the table at `jumpStart`. -/
def GuestJumps.Holds (guest : GuestJumps) (jumpStart : U64) (numberOfEntries : U32)
    (table : List JumpEntry) : Prop :=
  guest.elements jumpStart numberOfEntries = table.map fun entry => (entry.code, entry.key)

abbrev JumpMap := Finmap fun _ : U64 => U32

/-- The insertion into a map leaves an address that is there as it is. -/
def JumpMap.add (jumpEntries : JumpMap) (entry : JumpEntry) : JumpMap :=
  if entry.code ∈ jumpEntries then jumpEntries
  else jumpEntries.insert entry.code entry.destination

theorem JumpMap.add_ne_empty (jumpEntries : JumpMap) (entry : JumpEntry) :
    jumpEntries.add entry ≠ ∅ := by
  have hmem : entry.code ∈ jumpEntries.add entry := by
    unfold add
    split
    · assumption
    · exact Finmap.mem_insert.mpr (.inl rfl)
  intro h
  rw [h] at hmem
  exact Finmap.notMem_empty hmem

/-- What has been recorded. Both members are filled together. -/
@[ext] structure JumpLabels where
  jumpEntries : JumpMap
  jumpDestinations : Finset U64
  empty_together : jumpEntries = ∅ → jumpDestinations = ∅

def JumpLabels.add (labels : JumpLabels) (entry : JumpEntry) : JumpLabels where
  jumpEntries := labels.jumpEntries.add entry
  jumpDestinations := insert entry.target labels.jumpDestinations
  empty_together h := absurd h (labels.jumpEntries.add_ne_empty entry)

/-- `textSegmentContent`, into which `initText` has put the section and what follows it. -/
@[ext] structure TextContent (text : SectionInfo) where
  bytes : List Byte
  size_le : text.size.toNat ≤ bytes.length

/-- A write behind the end is an error. -/
def TextContent.write {text : SectionInfo} (content : TextContent text) (k : Nat)
    (bs : List Byte) : Except PatchError (TextContent text) :=
  if h : k + bs.length ≤ content.bytes.length then
    .ok
      { bytes := overwriteAt content.bytes k bs
        size_le := by
          rw [length_overwriteAt h]
          exact content.size_le }
  else .error .bufferOverflow

/-- What `applyJumpEntries` works on. -/
@[ext] structure JumpState (text : SectionInfo) where
  textSegmentContent : TextContent text
  labels : JumpLabels

namespace ElfKernelspaceLoader

variable (target : ElfKernelspaceLoader) (ideal_nops : NopTable)

/-- What is put at a jump label: a jump if its key is enabled, and the NOP of 5 bytes if not. -/
def jumpBytes (enabled : U64) (entry : JumpEntry) : List Byte :=
  if enabled ≠ 0 then 0xe9 :: bytes32 entry.destination else addNops ideal_nops 5

/-- The place of a jump label in the content. -/
def patchOffset (entry : JumpEntry) : U64 := entry.code - target.textSegment.memindex

/-- The body of the inner loop for the element of the file with the address that is looked for. -/
def applyJumpEntry (addJumpEntries : Bool) (enabled : U64) (s : JumpState target.textSegment)
    (entry : JumpEntry) : Except PatchError (JumpState target.textSegment) := do
  let labels := if addJumpEntries then s.labels.add entry else s.labels
  let textSegmentContent ← s.textSegmentContent.write (target.patchOffset entry).toNat
    (jumpBytes ideal_nops enabled entry)
  return { textSegmentContent, labels }

variable (jumpTable : JumpTable) (guest : GuestJumps)

/-- A round of the outer loop for an element of the guest. Those of `.init.text` are skipped; the
tables of modules are not handled. -/
def jumpRound (addJumpEntries : Bool) (s : JumpState target.textSegment) (element : U64 × U64) :
    Except PatchError (JumpState target.textSegment) :=
  match target.currentModule with
  | some _ => .error .assertion
  | none =>
      let (codeEntry, keyAddress) := element
      if codeEntry > target.textSegment.memindex + target.textSegment.size then .ok s
      else
        let enabled := guest.enabled keyAddress
        jumpTable.entries.foldlM (fun s entry =>
          if codeEntry = entry.code then
            target.applyJumpEntry ideal_nops addJumpEntries enabled s entry
          else .ok s) s

def applyJumpEntries (jumpStart : U64) (numberOfEntries : U32) (s : JumpState target.textSegment) :
    Except PatchError (JumpState target.textSegment) :=
  let addJumpEntries := decide (s.labels.jumpEntries = ∅)
  (guest.elements jumpStart numberOfEntries).foldlM
    (target.jumpRound ideal_nops jumpTable guest addJumpEntries) s

end ElfKernelspaceLoader

/-! ## What a run is to do -/

/-- The five bytes of the jump are in the section. -/
def SectionInfo.HasSite (text : SectionInfo) (entry : JumpEntry) : Prop :=
  text.memindex ≤ entry.code ∧ entry.code.toNat + 5 ≤ (text.memindex + text.size).toNat

instance (text : SectionInfo) (entry : JumpEntry) : Decidable (text.HasSite entry) :=
  inferInstanceAs (Decidable (_ ∧ _))

/-- The jumps of the table are at distinct addresses. Each is in `.text` or behind it, and those
in `.text` do not reach into each other. -/
structure ElfKernelspaceLoader.JumpsApart (target : ElfKernelspaceLoader) (jumpTable : JumpTable) :
    Prop where
  codes : (jumpTable.entries.map JumpEntry.code).Nodup
  places : ∀ e ∈ jumpTable.entries, target.textSegment.HasSite e ∨
    target.textSegment.memindex + target.textSegment.size < e.code
  apart : ∀ e ∈ jumpTable.entries, ∀ e' ∈ jumpTable.entries, target.textSegment.HasSite e →
    target.textSegment.HasSite e' → e.code ≠ e'.code →
    e.code.toNat + 5 ≤ e'.code.toNat ∨ e'.code.toNat + 5 ≤ e.code.toNat

/-- Each jump in `.text` is there if its key is enabled, and a NOP is if it is not; no other byte
has changed. The displacements and the targets of these jumps have been recorded. -/
structure ElfKernelspaceLoader.JumpsApplied (target : ElfKernelspaceLoader)
    (ideal_nops : NopTable) (jumpTable : JumpTable) (enabled : U64 → U64)
    (s s' : JumpState target.textSegment) : Prop where
  length : s'.textSegmentContent.bytes.length = s.textSegmentContent.bytes.length
  site : ∀ e ∈ jumpTable.entries, target.textSegment.HasSite e →
    (s'.textSegmentContent.bytes.drop (target.patchOffset e).toNat).take 5 =
      if enabled e.key ≠ 0 then 0xe9 :: bytes32 e.destination else ideal_nops.ideal_nops 5
  kept : ∀ k, (∀ e ∈ jumpTable.entries, target.textSegment.HasSite e →
      k < (target.patchOffset e).toNat ∨ (target.patchOffset e).toNat + 5 ≤ k) →
    s'.textSegmentContent.bytes[k]? = s.textSegmentContent.bytes[k]?
  jumpEntries : ∀ code destination, s'.labels.jumpEntries.lookup code = some destination ↔
    ∃ e ∈ jumpTable.entries, target.textSegment.HasSite e ∧ e.code = code ∧
      e.destination = destination
  jumpDestinations : ∀ address, address ∈ s'.labels.jumpDestinations ↔
    ∃ e ∈ jumpTable.entries, target.textSegment.HasSite e ∧ e.target = address

/-! ## What is recorded -/

section

variable {labels : JumpLabels} {l : List JumpEntry}

theorem lookup_add {e : JumpEntry} (hnew : e.code ∉ labels.jumpEntries) (code : U64)
    (destination : U32) : (labels.add e).jumpEntries.lookup code = some destination ↔
      labels.jumpEntries.lookup code = some destination ∨
        e.code = code ∧ e.destination = destination := by
  have hadd : (labels.add e).jumpEntries = labels.jumpEntries.insert e.code e.destination :=
    if_neg hnew
  rw [hadd]
  by_cases hcode : code = e.code
  · subst hcode
    rw [Finmap.lookup_insert, Finmap.lookup_eq_none.mpr hnew]
    simp
  · rw [Finmap.lookup_insert_of_ne _ hcode]
    simp [Ne.symm hcode]

/-- The displacements of jumps at new and distinct addresses. -/
theorem lookup_addAll (hnew : ∀ e ∈ l, e.code ∉ labels.jumpEntries)
    (hcodes : (l.map JumpEntry.code).Nodup) (code : U64) (destination : U32) :
    (l.foldl JumpLabels.add labels).jumpEntries.lookup code = some destination ↔
      labels.jumpEntries.lookup code = some destination ∨
        ∃ e ∈ l, e.code = code ∧ e.destination = destination := by
  induction l generalizing labels with
  | nil => simp
  | cons e l ih =>
      rw [List.forall_mem_cons] at hnew
      rw [List.map_cons, List.nodup_cons] at hcodes
      rw [List.foldl_cons, ih ?_ hcodes.2, lookup_add hnew.1, List.exists_mem_cons_iff, or_assoc]
      -- the addresses behind `e` are new to the map that has `e`
      intro e' he' hmem
      obtain ⟨d, hd⟩ := Finmap.mem_iff.mp hmem
      rcases (lookup_add hnew.1 _ _).mp hd with hd | ⟨heq, -⟩
      · exact hnew.2 e' he' (Finmap.mem_of_lookup_eq_some hd)
      · exact hcodes.1 (heq ▸ List.mem_map_of_mem he')

theorem mem_jumpDestinations_addAll (address : U64) :
    address ∈ (l.foldl JumpLabels.add labels).jumpDestinations ↔
      address ∈ labels.jumpDestinations ∨ ∃ e ∈ l, e.target = address := by
  induction l generalizing labels with
  | nil => simp
  | cons e l ih =>
      rw [List.foldl_cons, ih, List.exists_mem_cons_iff, ← or_assoc]
      apply or_congr_left
      show address ∈ insert e.target labels.jumpDestinations ↔ _
      rw [Finset.mem_insert, or_comm, eq_comm]

end

/-! ## What is written -/

section

variable {target : ElfKernelspaceLoader} {ideal_nops : NopTable} {jumpTable : JumpTable}
  {s : JumpState target.textSegment} {e : JumpEntry}

theorem jumpBytes_eq (ideal_nops : NopTable) (enabled : U64) (e : JumpEntry) :
    ElfKernelspaceLoader.jumpBytes ideal_nops enabled e =
      if enabled ≠ 0 then 0xe9 :: bytes32 e.destination else ideal_nops.ideal_nops 5 := by
  have hnops : addNops ideal_nops 5 = ideal_nops.ideal_nops 5 := by
    have hfive : min 5 ASM_NOP_MAX = 5 := rfl
    rw [addNops, if_neg (by decide)]
    dsimp only
    rw [hfive, Nat.sub_self, addNops, if_pos rfl, List.append_nil]
    exact List.take_of_length_le (Nat.le_of_eq ideal_nops.length_five)
  unfold ElfKernelspaceLoader.jumpBytes
  rw [hnops]

theorem length_jumpBytes (ideal_nops : NopTable) (enabled : U64) (e : JumpEntry) :
    (ElfKernelspaceLoader.jumpBytes ideal_nops enabled e).length = 5 := by
  rw [jumpBytes_eq]
  split
  · rfl
  · exact ideal_nops.length_five

/-- The content has the jump. -/
theorem patchOffset_fits (he : target.textSegment.HasSite e) :
    (target.patchOffset e).toNat + 5 ≤ s.textSegmentContent.bytes.length := by
  have hsize := s.textSegmentContent.size_le
  obtain ⟨hle, hend⟩ := he
  unfold ElfKernelspaceLoader.patchOffset
  bv_omega

/-- Jumps that are apart are so in the content. -/
theorem patchOffset_apart {e' : JumpEntry} (he : target.textSegment.HasSite e)
    (he' : target.textSegment.HasSite e')
    (hapart : e.code.toNat + 5 ≤ e'.code.toNat ∨ e'.code.toNat + 5 ≤ e.code.toNat) :
    (target.patchOffset e).toNat + 5 ≤ (target.patchOffset e').toNat ∨
      (target.patchOffset e').toNat + 5 ≤ (target.patchOffset e).toNat := by
  have hle := he.1
  have hle' := he'.1
  unfold ElfKernelspaceLoader.patchOffset
  bv_omega

theorem applyJumpEntry_eq (ideal_nops : NopTable) (enabled : U64)
    (s : JumpState target.textSegment) (he : target.textSegment.HasSite e) :
    ∃ s', target.applyJumpEntry ideal_nops true enabled s e = .ok s' ∧
      s'.labels = s.labels.add e ∧
      s'.textSegmentContent.bytes = overwriteAt s.textSegmentContent.bytes
        (target.patchOffset e).toNat (ElfKernelspaceLoader.jumpBytes ideal_nops enabled e) := by
  have hfits : (target.patchOffset e).toNat +
      (ElfKernelspaceLoader.jumpBytes ideal_nops enabled e).length ≤
        s.textSegmentContent.bytes.length := by
    rw [length_jumpBytes]
    exact patchOffset_fits he
  have hwrite : s.textSegmentContent.write (target.patchOffset e).toNat
      (ElfKernelspaceLoader.jumpBytes ideal_nops enabled e) = .ok ⟨_, _⟩ := dif_pos hfits
  exact ⟨_, bind_of_ok hwrite _, rfl, rfl⟩

/-- The jumps of a list are written one after the other, and each of them stays. -/
theorem jumpLoop_ok (ideal_nops : NopTable) (enabled : U64 → U64) {l : List JumpEntry}
    (hsites : ∀ e ∈ l, target.textSegment.HasSite e)
    (hapart : l.Pairwise fun e e' =>
      e.code.toNat + 5 ≤ e'.code.toNat ∨ e'.code.toNat + 5 ≤ e.code.toNat)
    (s : JumpState target.textSegment) :
    ∃ s', l.foldlM (fun s e => target.applyJumpEntry ideal_nops true (enabled e.key) s e) s =
        .ok s' ∧
      s'.labels = l.foldl JumpLabels.add s.labels ∧
      s'.textSegmentContent.bytes.length = s.textSegmentContent.bytes.length ∧
      (∀ e ∈ l, (s'.textSegmentContent.bytes.drop (target.patchOffset e).toNat).take 5 =
        ElfKernelspaceLoader.jumpBytes ideal_nops (enabled e.key) e) ∧
      (∀ a n, (∀ e ∈ l, a + n ≤ (target.patchOffset e).toNat ∨
          (target.patchOffset e).toNat + 5 ≤ a) →
        (s'.textSegmentContent.bytes.drop a).take n =
          (s.textSegmentContent.bytes.drop a).take n) := by
  induction l generalizing s with
  | nil => exact ⟨s, rfl, rfl, rfl, by simp, fun a n _ => rfl⟩
  | cons e l ih =>
      rw [List.forall_mem_cons] at hsites
      rw [List.pairwise_cons] at hapart
      obtain ⟨s₁, hround, hlabels₁, hbytes₁⟩ :=
        applyJumpEntry_eq ideal_nops (enabled e.key) s hsites.1
      have hlen := length_jumpBytes ideal_nops (enabled e.key) e
      have hfits : (target.patchOffset e).toNat +
          (ElfKernelspaceLoader.jumpBytes ideal_nops (enabled e.key) e).length ≤
            s.textSegmentContent.bytes.length := by
        rw [hlen]
        exact patchOffset_fits hsites.1
      obtain ⟨s', hloop, hlabels, hlength, hsite, hkept⟩ := ih hsites.2 hapart.2 s₁
      refine ⟨s', foldlM_cons_eq_ok_iff.mpr ⟨s₁, hround, hloop⟩, ?_, ?_, ?_, ?_⟩
      · rw [hlabels, hlabels₁]
        rfl
      · rw [hlength, hbytes₁, length_overwriteAt hfits]
      · rw [List.forall_mem_cons]
        refine ⟨?_, hsite⟩
        -- the jumps behind this one are elsewhere
        rw [hkept, hbytes₁]
        · have htake := take_drop_overwriteAt hfits
          rw [hlen] at htake
          exact htake
        · intro e' he'
          exact patchOffset_apart hsites.1 (hsites.2 e' he') (hapart.1 e' he')
      · intro a n h
        rw [List.forall_mem_cons] at h
        rw [hkept a n h.2, hbytes₁]
        apply take_drop_overwriteAt_of_disjoint hfits
        rw [hlen]
        exact h.1

/-- The jumps in `.text` are applied, whatever their order is. -/
theorem jumpsApplied_of_perm (ideal_nops : NopTable) (enabled : U64 → U64)
    (hempty : s.labels.jumpEntries = ∅) (h : target.JumpsApart jumpTable) {table : List JumpEntry}
    (hperm : table.Perm jumpTable.entries) :
    ∃ s', (table.filter fun e => target.textSegment.HasSite e).foldlM
        (fun s e => target.applyJumpEntry ideal_nops true (enabled e.key) s e) s = .ok s' ∧
      target.JumpsApplied ideal_nops jumpTable enabled s s' := by
  have hmem : ∀ e, e ∈ table.filter (fun e => target.textSegment.HasSite e) ↔
      e ∈ jumpTable.entries ∧ target.textSegment.HasSite e := by
    intro e
    rw [List.mem_filter, hperm.mem_iff, decide_eq_true_iff]
  have hcodes : ((table.filter fun e => target.textSegment.HasSite e).map JumpEntry.code).Nodup :=
    ((hperm.map JumpEntry.code).nodup_iff.mpr h.codes).sublist
      (List.filter_sublist.map JumpEntry.code)
  generalize table.filter (fun e => target.textSegment.HasSite e) = l at hmem hcodes ⊢
  have hapart : l.Pairwise fun e e' =>
      e.code.toNat + 5 ≤ e'.code.toNat ∨ e'.code.toNat + 5 ≤ e.code.toNat := by
    have hne : l.Pairwise fun e e' => e.code ≠ e'.code := List.pairwise_map.mp hcodes
    refine hne.imp_of_mem fun he he' hcode => ?_
    obtain ⟨he, hsite⟩ := (hmem _).mp he
    obtain ⟨he', hsite'⟩ := (hmem _).mp he'
    exact h.apart _ he _ he' hsite hsite' hcode
  obtain ⟨s', hloop, hlabels, hlength, hsite, hkept⟩ :=
    jumpLoop_ok ideal_nops enabled (fun e he => ((hmem e).mp he).2) hapart s
  refine ⟨s', hloop, hlength, ?_, ?_, ?_, ?_⟩
  · intro e he hin
    rw [hsite e ((hmem e).mpr ⟨he, hin⟩), jumpBytes_eq]
  · -- a byte is a range of length one
    intro k hk
    have hone := hkept k 1 fun e he => by
      have := hk e ((hmem e).mp he).1 ((hmem e).mp he).2
      omega
    have hhead := congrArg List.head? hone
    rw [List.head?_take, List.head?_take, if_neg (by decide), if_neg (by decide),
      List.head?_drop, List.head?_drop] at hhead
    exact hhead
  · intro code destination
    rw [hlabels, lookup_addAll (fun e _ => hempty ▸ Finmap.notMem_empty) hcodes, hempty]
    simp only [Finmap.lookup_empty, hmem, and_assoc]
    simp
  · intro address
    rw [hlabels, mem_jumpDestinations_addAll, s.labels.empty_together hempty]
    simp only [hmem, and_assoc]
    simp

/-- What a run is to do determines its result. -/
theorem jumpsApplied_unique {enabled : U64 → U64} {s₁ s₂ : JumpState target.textSegment}
    (h₁ : target.JumpsApplied ideal_nops jumpTable enabled s s₁)
    (h₂ : target.JumpsApplied ideal_nops jumpTable enabled s s₂) : s₁ = s₂ := by
  have hbytes : s₁.textSegmentContent.bytes = s₂.textSegmentContent.bytes := by
    apply List.ext_getElem?
    intro k
    by_cases hk : ∃ e ∈ jumpTable.entries, target.textSegment.HasSite e ∧
        (target.patchOffset e).toNat ≤ k ∧ k < (target.patchOffset e).toNat + 5
    · obtain ⟨e, he, hsite, hle, hlt⟩ := hk
      have heq := congrArg (fun v => v[k - (target.patchOffset e).toNat]?)
        ((h₁.site e he hsite).trans (h₂.site e he hsite).symm)
      rw [List.getElem?_take_of_lt (by omega), List.getElem?_take_of_lt (by omega),
        List.getElem?_drop, List.getElem?_drop, Nat.add_sub_cancel' hle] at heq
      exact heq
    · have hout : ∀ e ∈ jumpTable.entries, target.textSegment.HasSite e →
          k < (target.patchOffset e).toNat ∨ (target.patchOffset e).toNat + 5 ≤ k := by
        intro e he hsite
        by_contra hnot
        exact hk ⟨e, he, hsite, by omega, by omega⟩
      rw [h₁.kept k hout, h₂.kept k hout]
  have hentries : s₁.labels.jumpEntries = s₂.labels.jumpEntries := by
    apply Finmap.ext_lookup
    intro code
    apply Option.ext
    intro destination
    rw [h₁.jumpEntries, h₂.jumpEntries]
  have hdestinations : s₁.labels.jumpDestinations = s₂.labels.jumpDestinations := by
    ext address
    rw [h₁.jumpDestinations, h₂.jumpDestinations]
  exact JumpState.ext (TextContent.ext hbytes) (JumpLabels.ext hentries hdestinations)

/-! ## The loop over the table of the guest -/

theorem jumpRound_of_behind (ideal_nops : NopTable) (jumpTable : JumpTable) (guest : GuestJumps)
    (hkernel : target.currentModule = none) (addJumpEntries : Bool)
    (s : JumpState target.textSegment) {element : U64 × U64}
    (h : target.textSegment.memindex + target.textSegment.size < element.1) :
    target.jumpRound ideal_nops jumpTable guest addJumpEntries s element = .ok s := by
  unfold ElfKernelspaceLoader.jumpRound
  rw [hkernel]
  exact if_pos h

/-- The element of the file is found for that of the guest. -/
theorem jumpRound_of_mem (ideal_nops : NopTable) (guest : GuestJumps)
    (hkernel : target.currentModule = none) (hplaces : target.JumpsApart jumpTable)
    (s : JumpState target.textSegment) (he : e ∈ jumpTable.entries) :
    target.jumpRound ideal_nops jumpTable guest true s (e.code, e.key) =
      if decide (target.textSegment.HasSite e) = true then
        target.applyJumpEntry ideal_nops true (guest.enabled e.key) s e
      else pure s := by
  by_cases hsite : target.textSegment.HasSite e
  · have hnot : ¬ e.code > target.textSegment.memindex + target.textSegment.size := by
      have hend := hsite.2
      bv_omega
    rw [decide_eq_true hsite, if_pos rfl]
    unfold ElfKernelspaceLoader.jumpRound
    rw [hkernel]
    dsimp only
    rw [if_neg hnot]
    exact foldlM_ite_of_mem hplaces.codes he s
  · rw [decide_eq_false hsite, if_neg (by decide)]
    exact jumpRound_of_behind ideal_nops jumpTable guest hkernel true s
      ((hplaces.places e he).resolve_left hsite)

/-- A run goes through the jumps in `.text`, in the order of the guest. -/
theorem applyJumpEntries_eq (ideal_nops : NopTable) (guest : GuestJumps)
    (hkernel : target.currentModule = none) (hempty : s.labels.jumpEntries = ∅)
    (hplaces : target.JumpsApart jumpTable) {table : List JumpEntry}
    (hperm : table.Perm jumpTable.entries) {jumpStart : U64} {numberOfEntries : U32}
    (hguest : guest.Holds jumpStart numberOfEntries table) :
    target.applyJumpEntries ideal_nops jumpTable guest jumpStart numberOfEntries s =
      (table.filter fun e => target.textSegment.HasSite e).foldlM
        (fun s e => target.applyJumpEntry ideal_nops true (guest.enabled e.key) s e) s := by
  unfold ElfKernelspaceLoader.applyJumpEntries
  unfold GuestJumps.Holds at hguest
  rw [hguest, decide_eq_true hempty, List.foldlM_map, List.foldlM_filter]
  exact foldlM_congr (fun e he s =>
    jumpRound_of_mem ideal_nops guest hkernel hplaces s (hperm.subset he)) s

end

/-- **A recorded jump is accepted**: the bytes that a run has put at it pass the check for jump
labels. -/
theorem isValidJmpLabel_of_jumpsApplied {target : ElfKernelspaceLoader} {ideal_nops : NopTable}
    {jumpTable : JumpTable} {enabled : U64 → U64} {s s' : JumpState target.textSegment}
    (h : target.JumpsApplied ideal_nops jumpTable enabled s s') {e : JumpEntry}
    (he : e ∈ jumpTable.entries) (hsite : target.textSegment.HasSite e) {c : CodeCheck}
    (hnops : c.nops = ideal_nops)
    (hentries : ∀ code, c.elf.jumpEntries code = s'.labels.jumpEntries.lookup code) {i : Nat}
    (hcode : c.codeAddress i = e.code)
    (hpage : ∀ k < 5, some (c.pageInMem (i + k)) =
      s'.textSegmentContent.bytes[(target.patchOffset e).toNat + k]?) :
    c.isValidJmpLabel i = true := by
  have hrecorded : c.elf.jumpEntries (c.codeAddress i) = some e.destination := by
    rw [hentries, hcode, h.jumpEntries]
    exact ⟨e, he, hsite, rfl, rfl⟩
  have hbytes : ∀ k < 5, some (c.pageInMem (i + k)) =
      (if enabled e.key ≠ 0 then 0xe9 :: bytes32 e.destination
        else ideal_nops.ideal_nops 5)[k]? := by
    intro k hk
    rw [← h.site e he hsite, List.getElem?_take_of_lt hk, List.getElem?_drop]
    exact hpage k hk
  unfold CodeCheck.isValidJmpLabel
  rw [hrecorded]
  dsimp only
  by_cases hon : enabled e.key ≠ 0
  · rw [if_pos hon] at hbytes
    have hopcode : c.pageInMem i = 0xe9 := Option.some.inj (hbytes 0 (by omega))
    have hdisplacement : load32 c.pageInMem (i + 1) = e.destination := by
      apply load32_of_bytes32
      intro k hk
      have hbyte := hbytes (1 + k) (by omega)
      rw [← Nat.add_assoc, Nat.add_comm 1 k, List.getElem?_cons_succ,
        List.getElem?_eq_getElem (by exact hk)] at hbyte
      exact Option.some.inj hbyte
    rw [hopcode, hdisplacement]
    simp
  · rw [if_neg hon] at hbytes
    have hnop : memeq c.pageInMem i (c.nops.ideal_nops 5) = true := by
      rw [memeq_iff, hnops]
      intro k hk
      have hbyte := hbytes k (by rwa [ideal_nops.length_five] at hk)
      rw [List.getElem?_eq_getElem hk] at hbyte
      exact Option.some.inj hbyte
    rw [hnop]
    rfl

/-! ## A kernel with two jumps -/

/-- Two jumps in `.text`, and one in `.init.text`. -/
def labelEntries : List JumpEntry :=
  [⟨0xffffffff81000004, 0xffffffff81000010, 0xffffffff81c00000⟩,
    ⟨0xffffffff8100000a, 0xffffffff81000020, 0xffffffff81c00010⟩,
    ⟨0xffffffff81e00000, 0xffffffff81e00010, 0xffffffff81c00000⟩]

/-- The guest has sorted them by their keys, and has enabled the first key. -/
def labelGuest : GuestJumps where
  code a := [0xffffffff81e00000, 0xffffffff81000004, 0xffffffff8100000a].getD
    ((a - 0xffffffff81d00000).toNat / 24) 0
  key a := [0xffffffff81c00000, 0xffffffff81c00000, 0xffffffff81c00010].getD
    ((a - 0xffffffff81d00000).toNat / 24) 0
  enabled key := if key = 0xffffffff81c00000 then 1 else 0

def labelState : JumpState (kernelLayoutLoader 0x10e3000).textSegment where
  textSegmentContent := ⟨List.replicate 0x1000 0, Nat.le_of_eq List.length_replicate.symm⟩
  labels := ⟨∅, ∅, fun _ => rfl⟩

theorem labelEntries_jumpsApart :
    (kernelLayoutLoader 0x10e3000).JumpsApart (JumpTable.ofEntries labelEntries) := by
  constructor
  · rw [JumpTable.entries_ofEntries]
    decide
  · rw [JumpTable.entries_ofEntries]
    decide
  · rw [JumpTable.entries_ofEntries]
    decide

end KernInt
