import KernInt.Lib.Bytes

set_option autoImplicit false

/-! # Stores

A memory is the function from an address to the byte there. A store puts the lowest bytes of a
word at consecutive addresses, which may wrap around. After a sequence of stores a byte is the
one that the last store to reach it has put there (`applyStores_of_last`), or the byte that was
there before (`applyStores_of_untouched`).
-/

namespace Lib

abbrev Memory := U64 → Byte

theorem toNat_add_sub (a : U64) {k : Nat} (hk : k < 2 ^ 64) :
    (a + BitVec.ofNat 64 k - a).toNat = k := by
  rw [BitVec.add_comm, BitVec.add_sub_cancel, BitVec.toNat_ofNat, Nat.mod_eq_of_lt hk]

/-- The lowest `width` bytes of `value` are put at `addr`. -/
structure Store where
  addr : U64
  width : Nat
  value : U64
  deriving DecidableEq

namespace Store

/-- The addresses that a store writes. -/
def Covers (s : Store) (a : U64) : Prop :=
  (a - s.addr).toNat < s.width

instance (s : Store) (a : U64) : Decidable (s.Covers a) :=
  inferInstanceAs (Decidable (_ < _))

/-- The byte that a store puts at an address it writes. -/
def byteAt (s : Store) (a : U64) : Byte :=
  s.value.extractLsb' (8 * (a - s.addr).toNat) 8

def apply (s : Store) (mem : Memory) : Memory := fun a =>
  if s.Covers a then s.byteAt a else mem a

theorem apply_of_covers {s : Store} {a : U64} (h : s.Covers a) (mem : Memory) :
    s.apply mem a = s.byteAt a := if_pos h

theorem apply_of_not_covers {s : Store} {a : U64} (h : ¬ s.Covers a) (mem : Memory) :
    s.apply mem a = mem a := if_neg h

end Store

/-! ## Loads -/

/-- The word at an address. -/
def loadU64 (mem : Memory) (a : U64) : U64 := load64 (fun k => mem (a + BitVec.ofNat 64 k)) 0

theorem loadU64_congr {mem mem' : Memory} {a : U64}
    (h : ∀ k < 8, mem' (a + BitVec.ofNat 64 k) = mem (a + BitVec.ofNat 64 k)) :
    loadU64 mem' a = loadU64 mem a := by
  apply load64_congr
  intro k hk
  rw [Nat.zero_add]
  exact h k hk

/-- A word that has been stored is read back. -/
theorem loadU64_apply {s : Store} (h : s.width = 8) (mem : Memory) :
    loadU64 (s.apply mem) s.addr = s.value := by
  apply load64_of_bytes64
  intro k hk
  have hdist : (s.addr + BitVec.ofNat 64 k - s.addr).toNat = k := toNat_add_sub _ (by omega)
  have hcovers : s.Covers (s.addr + BitVec.ofNat 64 k) := by
    rw [Store.Covers, hdist, h]
    exact hk
  have hbyte : (bytes64 s.value)[k]? = some (s.value.extractLsb' (8 * k) 8) := by
    have hcases : k = 0 ∨ k = 1 ∨ k = 2 ∨ k = 3 ∨ k = 4 ∨ k = 5 ∨ k = 6 ∨ k = 7 := by omega
    rcases hcases with rfl | rfl | rfl | rfl | rfl | rfl | rfl | rfl <;>
      · simp only [bytes64, bytes32, List.cons_append, List.nil_append, List.getElem?_cons_zero,
          List.getElem?_cons_succ, Option.some.injEq]
        apply BitVec.eq_of_getLsbD_eq
        intro j hj
        simp only [BitVec.getLsbD_extractLsb', hj, decide_true, Bool.true_and]
        grind
  show some (s.apply mem (s.addr + BitVec.ofNat 64 (0 + k))) = _
  rw [Nat.zero_add, Store.apply_of_covers hcovers, Store.byteAt, hdist, hbyte]

/-- The stores of a list, the first one first. -/
def applyStores (stores : List Store) (mem : Memory) : Memory :=
  stores.foldl (fun mem s => s.apply mem) mem

theorem applyStores_append (l l' : List Store) (mem : Memory) :
    applyStores (l ++ l') mem = applyStores l' (applyStores l mem) := List.foldl_append

theorem applyStores_of_untouched {stores : List Store} {a : U64}
    (h : ∀ s ∈ stores, ¬ s.Covers a) (mem : Memory) : applyStores stores mem a = mem a := by
  induction stores generalizing mem with
  | nil => rfl
  | cons s stores ih =>
      have hrest := ih (fun s' hs' => h s' (List.mem_cons_of_mem s hs')) (s.apply mem)
      calc applyStores (s :: stores) mem a
          = s.apply mem a := hrest
        _ = mem a := Store.apply_of_not_covers (h s List.mem_cons_self) mem

/-- **The last store wins.** -/
theorem applyStores_of_last {pre post : List Store} {s : Store} {a : U64} (hs : s.Covers a)
    (hpost : ∀ s' ∈ post, ¬ s'.Covers a) (mem : Memory) :
    applyStores (pre ++ s :: post) mem a = s.byteAt a := by
  rw [applyStores_append]
  calc applyStores (s :: post) (applyStores pre mem) a
      = s.apply (applyStores pre mem) a := applyStores_of_untouched hpost _
    _ = s.byteAt a := Store.apply_of_covers hs _

end Lib
