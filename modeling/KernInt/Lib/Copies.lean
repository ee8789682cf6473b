import KernInt.Lib.Memory
import Mathlib.Data.List.Pairwise
import Mathlib.Data.List.TakeWhile

set_option autoImplicit false

/-! # Copies

A copy puts a string of bytes at consecutive addresses, which may wrap around. Where copies are
made one after the other, each one is computed from the memory that those before it have left.
If none of them reads what an earlier one has written, all can be computed from the memory at the
beginning (`runCopies_of_independent`).

A `Buffer` is an array of a fixed size; a copy that does not fit into it is an error.
-/

namespace Lib

/-- The bytes are put at `addr`. -/
structure Copy where
  addr : U64
  bytes : List Byte
  deriving DecidableEq

namespace Copy

/-- The addresses that a copy writes. -/
def Covers (c : Copy) (a : U64) : Prop := (a - c.addr).toNat < c.bytes.length

instance (c : Copy) (a : U64) : Decidable (c.Covers a) := inferInstanceAs (Decidable (_ < _))

def apply (c : Copy) (mem : Memory) : Memory := fun a => c.bytes.getD (a - c.addr).toNat (mem a)

variable {c : Copy} {a : U64}

theorem apply_of_covers (h : c.Covers a) (mem : Memory) :
    some (c.apply mem a) = c.bytes[(a - c.addr).toNat]? := by
  show some (c.bytes.getD (a - c.addr).toNat (mem a)) = _
  rw [List.getD_eq_getElem?_getD, List.getElem?_eq_getElem h, Option.getD_some]

theorem apply_of_not_covers (h : ¬ c.Covers a) (mem : Memory) : c.apply mem a = mem a := by
  show c.bytes.getD (a - c.addr).toNat (mem a) = _
  rw [List.getD_eq_getElem?_getD, List.getElem?_eq_none (Nat.le_of_not_lt h), Option.getD_none]

theorem covers_iff (h64 : c.bytes.length ≤ 2 ^ 64) :
    c.Covers a ↔ ∃ k < c.bytes.length, a = c.addr + BitVec.ofNat 64 k := by
  constructor
  · intro h
    refine ⟨(a - c.addr).toNat, h, ?_⟩
    rw [BitVec.ofNat_toNat, BitVec.setWidth_eq, BitVec.add_comm, BitVec.sub_add_cancel]
  · rintro ⟨k, hk, rfl⟩
    show (c.addr + BitVec.ofNat 64 k - c.addr).toNat < c.bytes.length
    rw [toNat_add_sub c.addr (Nat.lt_of_lt_of_le hk h64)]
    exact hk

end Copy

/-! ## Sequences of copies -/

section

variable {α : Type} (copy : α → Memory → Copy)

/-- The copies are made in the order of the list, each one computed from what is there. -/
def runCopies (l : List α) (mem : Memory) : Memory :=
  l.foldl (fun mem x => (copy x mem).apply mem) mem

variable {copy}

/-! ### Copies that are computed beforehand -/

variable {fixed : α → Copy} {a : U64}

theorem runCopies_of_untouched {l : List α} (h : ∀ x ∈ l, ¬ (fixed x).Covers a) (mem : Memory) :
    runCopies (fun x _ => fixed x) l mem a = mem a := by
  induction l generalizing mem with
  | nil => rfl
  | cons x l ih =>
      have hrest := ih (fun y hy => h y (List.mem_cons_of_mem x hy)) ((fixed x).apply mem)
      calc runCopies (fun x _ => fixed x) (x :: l) mem a
          = (fixed x).apply mem a := hrest
        _ = mem a := Copy.apply_of_not_covers (h x List.mem_cons_self) mem

/-- Of disjoint copies each one stays. -/
theorem runCopies_of_mem {l : List α} {x : α} (hx : x ∈ l)
    (hpair : l.Pairwise fun x y => ∀ a, (fixed x).Covers a → ¬ (fixed y).Covers a)
    (ha : (fixed x).Covers a) (mem : Memory) :
    some (runCopies (fun x _ => fixed x) l mem a) =
      (fixed x).bytes[(a - (fixed x).addr).toNat]? := by
  obtain ⟨pre, post, rfl⟩ := List.append_of_mem hx
  have hpost := (List.pairwise_cons.mp (List.pairwise_append.mp hpair).2.1).1
  have hmem : runCopies (fun x _ => fixed x) (pre ++ x :: post) mem =
      runCopies (fun x _ => fixed x) post
        ((fixed x).apply (runCopies (fun x _ => fixed x) pre mem)) := List.foldl_append
  rw [hmem, runCopies_of_untouched fun y hy => hpost y hy a ha]
  exact Copy.apply_of_covers ha _

/-! ### Copies that are computed from what is there -/

variable {mem : Memory} {reads : α → U64 → Prop}

/-- A memory that is as `mem` where the copies of the list read gives the same copies. -/
theorem runCopies_eq_foldl {l : List α}
    (hreads : ∀ x ∈ l, ∀ mem', (∀ a, reads x a → mem' a = mem a) → copy x mem' = copy x mem)
    (hpair : l.Pairwise fun x y => ∀ a, (copy x mem).Covers a → ¬ reads y a) (mem' : Memory)
    (hmem' : ∀ x ∈ l, ∀ a, reads x a → mem' a = mem a) :
    runCopies copy l mem' = runCopies (fun x _ => copy x mem) l mem' := by
  induction l generalizing mem' with
  | nil => rfl
  | cons x l ih =>
      rw [List.pairwise_cons] at hpair
      have hx := hreads x List.mem_cons_self mem' (hmem' x List.mem_cons_self)
      show runCopies copy l ((copy x mem').apply mem') =
        runCopies (fun x _ => copy x mem) l ((copy x mem).apply mem')
      rw [hx]
      apply ih (fun y hy => hreads y (List.mem_cons_of_mem x hy)) hpair.2
      intro y hy a ha
      have hnot : ¬ (copy x mem).Covers a := fun hcovers => hpair.1 y hy a hcovers ha
      rw [Copy.apply_of_not_covers hnot]
      exact hmem' y (List.mem_cons_of_mem x hy) a ha

/-- **Independent copies** can be computed from the memory at the beginning. -/
theorem runCopies_of_independent {l : List α}
    (hreads : ∀ x ∈ l, ∀ mem', (∀ a, reads x a → mem' a = mem a) → copy x mem' = copy x mem)
    (hpair : l.Pairwise fun x y => ∀ a, (copy x mem).Covers a → ¬ reads y a) :
    runCopies copy l mem = runCopies (fun x _ => copy x mem) l mem :=
  runCopies_eq_foldl hreads hpair mem fun _ _ _ _ => rfl

/-- The copies before an element leave what it reads. -/
theorem runCopies_agrees {pre post : List α} {x : α}
    (hreads : ∀ y ∈ pre, ∀ mem', (∀ a, reads y a → mem' a = mem a) → copy y mem' = copy y mem)
    (hpair : (pre ++ x :: post).Pairwise fun x y => ∀ a, (copy x mem).Covers a → ¬ reads y a)
    {a : U64} (ha : reads x a) : runCopies copy pre mem a = mem a := by
  have hsplit := List.pairwise_append.mp hpair
  rw [runCopies_of_independent hreads hsplit.1]
  exact runCopies_of_untouched
    (fun y hy hcovers => hsplit.2.2 y hy x List.mem_cons_self a hcovers ha) mem

/-- A loop of which each round makes one copy. -/
theorem foldlM_eq_runCopies {σ ε : Type} {round : σ → α → Except ε σ} {memOf : σ → Memory}
    {l : List α} {s : σ}
    (h : ∀ pre x post, l = pre ++ x :: post → ∀ s', memOf s' = runCopies copy pre (memOf s) →
      ∃ s'', round s' x = .ok s'' ∧ memOf s'' = (copy x (memOf s')).apply (memOf s')) :
    ∃ s', l.foldlM round s = .ok s' ∧ memOf s' = runCopies copy l (memOf s) := by
  induction l generalizing s with
  | nil => exact ⟨s, rfl, rfl⟩
  | cons x l ih =>
      obtain ⟨s₁, hround, hmem⟩ := h [] x l rfl s rfl
      have hrest : ∃ s', l.foldlM round s₁ = .ok s' ∧
          memOf s' = runCopies copy l (memOf s₁) := by
        apply ih
        intro pre y post hl s' hs'
        apply h (x :: pre) y post (by rw [hl, List.cons_append]) s'
        rw [hs', hmem]
        rfl
      obtain ⟨s', hfold, heq⟩ := hrest
      refine ⟨s', ?_, ?_⟩
      · rw [List.foldlM_cons, hround]
        exact hfold
      · rw [heq, hmem]
        rfl

/-! ### Copies that are told by a table

The rounds of a loop copy what the elements of a table say. As long as each copy is `Good`, that
is, leaves the table alone, each element is found as it was at the beginning. -/

section

variable {σ ε : Type} {round : σ → α → Except ε σ} {memOf : σ → Memory}
  {Good : Memory → α → Prop} {stops : Memory → α → Bool} {table : U64 → Prop}

variable (round memOf Good stops) in
/-- From the state `s` on, each copy that the loop comes to is good. -/
def CopiesGood (l : List α) (s : σ) : Prop :=
  ∀ pre x post s', l = pre ++ x :: post → pre.foldlM round s = .ok s' →
    stops (memOf s') x = false → Good (memOf s') x

variable {l : List α} {s : σ} {y : α}

/-- Where the loop stops at once, there is no copy. -/
theorem copiesGood_of_stops {e : ε} (hround : round s y = .error e)
    (hstops : stops (memOf s) y = true) : CopiesGood round memOf Good stops (y :: l) s := by
  intro pre x post s' hl hrun hx
  cases pre with
  | nil =>
      cases hl
      cases hrun
      rw [hstops] at hx
      exact absurd hx (by decide)
  | cons z pre =>
      cases hl
      rw [List.foldlM_cons, hround] at hrun
      cases hrun

theorem copiesGood_cons_iff {s₁ : σ} (hround : round s y = .ok s₁)
    (hstops : stops (memOf s) y = false) :
    CopiesGood round memOf Good stops (y :: l) s ↔
      Good (memOf s) y ∧ CopiesGood round memOf Good stops l s₁ := by
  constructor
  · intro h
    refine ⟨h [] y l s rfl rfl hstops, ?_⟩
    intro pre x post s' hl hrun
    apply h (y :: pre) x post s' (by rw [hl, List.cons_append])
    rw [List.foldlM_cons, hround]
    exact hrun
  · rintro ⟨hy, hrest⟩ pre x post s' hl hrun
    cases pre with
    | nil =>
        cases hl
        cases hrun
        exact fun _ => hy
    | cons z pre =>
        cases hl
        rw [List.foldlM_cons, hround] at hrun
        exact hrest pre x post s' rfl hrun

/-- **Every copy of a run is good if all elements were good at the beginning**, and only then;
elements behind one at which the loop stops do not count. -/
theorem copiesGood_iff {l : List α}
    (hround : ∀ s x, stops (memOf s) x = false →
      ∃ s', round s x = .ok s' ∧ memOf s' = (copy x (memOf s)).apply (memOf s))
    (hstop : ∀ s x, stops (memOf s) x = true → ∃ e, round s x = .error e)
    (hgood : ∀ mem' x, Good mem' x → ∀ a, (copy x mem').Covers a → ¬ table a)
    (hfix : ∀ mem', (∀ a, table a → mem' a = mem a) → ∀ x ∈ l,
      (stops mem' x = stops mem x) ∧ (Good mem' x ↔ Good mem x))
    (s : σ) (hs : ∀ a, table a → memOf s a = mem a) :
    CopiesGood round memOf Good stops l s ↔
      ∀ x ∈ l.takeWhile fun x => !stops mem x, Good mem x := by
  induction l generalizing s with
  | nil =>
      constructor
      · intro _ x hx
        cases hx
      · intro _ pre x post s' hl
        exact absurd hl.symm (List.append_ne_nil_of_right_ne_nil pre (List.cons_ne_nil x post))
  | cons y l ih =>
      obtain ⟨hstops, hiff⟩ := hfix (memOf s) hs y List.mem_cons_self
      have hfixl := fun mem' hmem' x hx => hfix mem' hmem' x (List.mem_cons_of_mem y hx)
      cases hy : stops mem y with
      | true =>
          rw [hy] at hstops
          obtain ⟨e, he⟩ := hstop s y hstops
          rw [List.takeWhile_cons_of_neg (by rw [hy]; decide)]
          constructor
          · intro _ x hx
            cases hx
          · intro _
            exact copiesGood_of_stops he hstops
      | false =>
          rw [hy] at hstops
          obtain ⟨s₁, hs₁, hmem₁⟩ := hround s y hstops
          rw [List.takeWhile_cons_of_pos (by rw [hy]; decide), List.forall_mem_cons, ← hiff,
            copiesGood_cons_iff hs₁ hstops]
          apply and_congr_right
          intro hy'
          -- a good copy leaves the table as it was, so that the rest finds it so
          apply ih hfixl s₁
          intro a ha
          have hnot : ¬ (copy y (memOf s)).Covers a := fun hc => hgood _ y hy' a hc ha
          rw [hmem₁, Copy.apply_of_not_covers hnot]
          exact hs a ha

end

/-- The same for a loop that does not stop. -/
theorem copiesGood_iff_of_total {Good : Memory → α → Prop} {table : U64 → Prop} {l : List α}
    (hgood : ∀ mem' x, Good mem' x → ∀ a, (copy x mem').Covers a → ¬ table a)
    (hfix : ∀ mem', (∀ a, table a → mem' a = mem a) → ∀ x ∈ l, (Good mem' x ↔ Good mem x)) :
    (∀ pre x post, l = pre ++ x :: post → Good (runCopies copy pre mem) x) ↔
      ∀ x ∈ l, Good mem x := by
  let round (s : Memory) (x : α) : Except Empty Memory := pure ((copy x s).apply s)
  have hrun : ∀ pre : List α, pre.foldlM round mem = .ok (runCopies copy pre mem) :=
    fun pre => List.foldlM_pure
  have hiff := @copiesGood_iff α copy mem Memory Empty round id Good (fun _ _ => false) table l
    (fun s x _ => ⟨_, rfl, rfl⟩) (fun s x h => absurd h (by decide)) hgood
    (fun mem' hmem' x hx => ⟨rfl, hfix mem' hmem' x hx⟩) mem fun _ _ => rfl
  have hall : (l.takeWhile fun _ => !false) = l := List.takeWhile_eq_self_iff.mpr fun _ _ => rfl
  rw [hall] at hiff
  rw [← hiff]
  constructor
  · intro h pre x post s' hl hs' _
    rw [hrun] at hs'
    cases hs'
    exact h pre x post hl
  · intro h pre x post hl
    exact h pre x post _ hl (hrun pre) rfl

end

/-! ## Buffers -/

structure Buffer (n : Nat) where
  bytes : List Byte
  length_bytes : bytes.length = n

namespace Buffer

variable {n : Nat}

/-- The bytes are put at offset `k`, if they fit. -/
def put (buf : Buffer n) (k : Nat) (bs : List Byte) : Option (Buffer n) :=
  if h : k + bs.length ≤ n then
    some
      { bytes := buf.bytes.take k ++ bs ++ buf.bytes.drop (k + bs.length)
        length_bytes := by
          have hlen := buf.length_bytes
          simp only [List.length_append, List.length_take, List.length_drop]
          omega }
  else none

theorem put_eq_some (buf : Buffer n) {k : Nat} {bs : List Byte} (h : k + bs.length ≤ n) :
    ∃ buf', buf.put k bs = some buf' ∧
      buf'.bytes = buf.bytes.take k ++ bs ++ buf.bytes.drop (k + bs.length) := by
  unfold put
  rw [dif_pos h]
  exact ⟨_, rfl, rfl⟩

end Buffer

end Lib
