import KernInt.Kernel.CodePtrs
import KernInt.Lib.OrderedMap
import KernInt.Process.TaskList

set_option autoImplicit false

/-! # The stacks of the tasks

Before the pages of the kernel are gone through, `updateStackAddresses` goes round the list of the
tasks and puts down where the stack of each task begins, with its stack pointer. Each of these
stacks is validated, and `findCodePtrs` passes over a page that begins inside one of them. So a page
of 4 KiB is either part of a stack or scanned as data (`updateStackAddresses_exact`).
-/

namespace KernInt

open Lib

instance instIsLinearOrderU64 : Std.IsLinearOrder U64 := inferInstance

instance instLawfulOrderLTU64 : Std.LawfulOrderLT U64 := inferInstance

/-- The task structures, with the members `sp0` and `sp` of their `thread`. -/
structure GuestThreads extends GuestTasks where
  sp0 : U64 → U64
  sp : U64 → U64

namespace GuestThreads

variable (kernel : GuestThreads)

/-- The lowest address of the stack of a task, without the upper sixteen bits. -/
def stackBottom (task : U64) : U64 := (kernel.sp0 task - 0x2000) ^^^ 0xffff000000000000

def updateStackAddressesRound (init_task : U64) :
    U64 × OrderedMap U64 U64 → Round (U64 × OrderedMap U64 U64) (OrderedMap U64 U64)
  | (task, stackAddresses) =>
      let stackAddresses := stackAddresses.assign (kernel.stackBottom task) (kernel.sp task)
      let task := kernel.tasksNext task
      if task ≠ init_task then .again (task, stackAddresses) else .leave stackAddresses

/-- The map, if the loop leaves within this number of rounds. -/
def updateStackAddresses (init_task : U64) (rounds : Nat) : Option (OrderedMap U64 U64) :=
  within (kernel.updateStackAddressesRound init_task) rounds (init_task, OrderedMap.empty)

/-- A stack of 8 KiB for each task, in the upper half of the address space. -/
structure HasStacks (tasks : List U64) : Prop where
  circular : Circular kernel.tasksNext tasks
  aligned : ∀ t ∈ tasks, (kernel.sp0 t).toNat % 0x2000 = 0
  kernel_half : ∀ t ∈ tasks, 0xffff000000002000 ≤ (kernel.sp0 t).toNat
  injOn : ∀ t ∈ tasks, ∀ t' ∈ tasks, kernel.sp0 t = kernel.sp0 t' → t = t'

/-- The address is inside of the stack of a task. -/
def InStack (tasks : List U64) (address : U64) : Prop :=
  ∃ t ∈ tasks, (kernel.stackBottom t).toNat ≤ address.toNat ∧
    address.toNat < (kernel.stackBottom t).toNat + 0x2000

variable {kernel} {tasks : List U64} {init_task : U64}

/-- What is assigned for a task. -/
def stackEntry (kernel : GuestThreads) (task : U64) : U64 × U64 :=
  (kernel.stackBottom task, kernel.sp task)

/-! ## Going round -/

theorem updateStackAddressesRound_returns {x : U64} {l : List U64}
    (h : Path kernel.tasksNext init_task (kernel.tasksNext x) l) (m : OrderedMap U64 U64) :
    Returns (kernel.updateStackAddressesRound init_task) (x, m)
      (m.assignAll ((x :: l).map kernel.stackEntry)) := by
  induction l generalizing x m with
  | nil =>
      apply returns_of_leave
      simp only [updateStackAddressesRound, h.eq_stop, ne_eq, not_true, if_false]
      rfl
  | cons y l ih =>
      obtain ⟨hy, hne, hrest⟩ := h.of_cons
      have hround : kernel.updateStackAddressesRound init_task (x, m) =
          .again (y, m.assign (kernel.stackBottom x) (kernel.sp x)) := by
        simp only [updateStackAddressesRound, hy, ne_eq, hne, not_false_eq_true, if_true]
      exact Returns.of_again hround (ih hrest _)

/-- The walk assigns an entry for each task of the list. -/
theorem updateStackAddresses_returns (h : Circular kernel.tasksNext tasks)
    (hinit : init_task ∈ tasks) :
    ∃ l, tasks.IsRotated (init_task :: l) ∧
      Returns (kernel.updateStackAddressesRound init_task) (init_task, OrderedMap.empty)
        (OrderedMap.empty.assignAll ((init_task :: l).map kernel.stackEntry)) := by
  obtain ⟨l, hrot, hcirc⟩ := h.exists_isRotated hinit
  exact ⟨l, hrot, updateStackAddressesRound_returns hcirc.path _⟩

/-! ## Where the stacks are -/

/-- The upper bits are all ones, and are taken away. -/
theorem toNat_xor_upper {a : U64} (h : 0xffff000000000000 ≤ a.toNat) :
    (a ^^^ 0xffff000000000000).toNat = a.toNat - 0xffff000000000000 := by
  have hupper : (0xffff000000000000 : U64).toNat = 0xffff <<< 48 := by decide
  obtain ⟨r, hr⟩ : ∃ r, a.toNat = 0xffff <<< 48 + r := Nat.exists_eq_add_of_le h
  have hlt : r < 2 ^ 48 := by
    have ha := a.isLt
    rw [hr] at ha
    omega
  have hxor : (0xffff <<< 48 + r) ^^^ 0xffff <<< 48 = r := by
    rw [Nat.shiftLeft_add_eq_or_of_lt hlt]
    apply Nat.eq_of_testBit_eq
    intro i
    rw [Nat.testBit_xor, Nat.testBit_or, Nat.testBit_shiftLeft]
    by_cases hi : 48 ≤ i
    · have hzero : r.testBit i = false :=
        Nat.testBit_lt_two_pow (Nat.lt_of_lt_of_le hlt (Nat.pow_le_pow_right (by omega) hi))
      simp [hzero]
    · simp [hi]
  rw [BitVec.toNat_xor, hupper, hr, hxor]
  omega

theorem and_shiftLeft (x m n : Nat) : x &&& m <<< n = ((x >>> n) &&& m) <<< n := by
  apply Nat.eq_of_testBit_eq
  intro i
  by_cases hi : n ≤ i
  · simp [Nat.testBit_shiftLeft, Nat.testBit_and, Nat.testBit_shiftRight, hi,
      Nat.add_sub_cancel' hi]
  · simp [Nat.testBit_shiftLeft, Nat.testBit_and, hi]

/-- The mask goes down to the next multiple of 8 KiB. -/
theorem toNat_and_stackMask {a : U64} (h : a.toNat < 2 ^ 48) :
    (a &&& 0xffffffffe000).toNat = a.toNat / 0x2000 * 0x2000 := by
  have hmask : (0xffffffffe000 : U64).toNat = (2 ^ 35 - 1) <<< 13 := by decide
  rw [BitVec.toNat_and, hmask, and_shiftLeft, Nat.and_two_pow_sub_one_eq_mod, Nat.shiftRight_eq_div_pow,
    Nat.shiftLeft_eq, Nat.mod_eq_of_lt (by omega)]

theorem toNat_stackBottom (h : kernel.HasStacks tasks) {t : U64} (ht : t ∈ tasks) :
    (kernel.stackBottom t).toNat = (kernel.sp0 t).toNat - 0x2000 - 0xffff000000000000 := by
  have hupper := h.kernel_half t ht
  have hsub : (kernel.sp0 t - 0x2000).toNat = (kernel.sp0 t).toNat - 0x2000 :=
    BitVec.toNat_sub_of_le (by rw [BitVec.le_def]; show 0x2000 ≤ _; omega)
  rw [stackBottom, toNat_xor_upper (by omega), hsub]

/-- The stacks begin at multiples of 8 KiB. -/
theorem stackBottom_aligned (h : kernel.HasStacks tasks) {t : U64} (ht : t ∈ tasks) :
    (kernel.stackBottom t).toNat % 0x2000 = 0 := by
  have haligned := h.aligned t ht
  have hupper := h.kernel_half t ht
  rw [toNat_stackBottom h ht]
  omega

theorem stackBottom_injOn (h : kernel.HasStacks tasks) {t t' : U64} (ht : t ∈ tasks)
    (ht' : t' ∈ tasks) (heq : kernel.stackBottom t = kernel.stackBottom t') : t = t' := by
  have hbottom := congrArg BitVec.toNat heq
  have hupper := h.kernel_half t ht
  have hupper' := h.kernel_half t' ht'
  rw [toNat_stackBottom h ht, toNat_stackBottom h ht'] at hbottom
  exact h.injOn t ht t' ht' (BitVec.eq_of_toNat_eq (by omega))

/-- Going down to a multiple of 8 KiB, one comes to the bottom of the stack one is in. -/
theorem and_stackMask_eq_iff (h : kernel.HasStacks tasks) {t a : U64} (ht : t ∈ tasks)
    (ha : a.toNat < 2 ^ 48) :
    a &&& 0xffffffffe000 = kernel.stackBottom t ↔
      (kernel.stackBottom t).toNat ≤ a.toNat ∧
        a.toNat < (kernel.stackBottom t).toNat + 0x2000 := by
  have haligned := stackBottom_aligned h ht
  rw [← BitVec.toNat_inj, toNat_and_stackMask ha]
  omega

/-! ## Stacks and data -/

/-- Whatever task the walk begins with, the map has one entry for each task. -/
theorem updateStackAddresses_eq (h : kernel.HasStacks tasks) (hinit : init_task ∈ tasks) :
    ∃ m, (∃ n, kernel.updateStackAddresses init_task n = some m) ∧
      m.entries.Perm (tasks.map kernel.stackEntry) := by
  obtain ⟨l, hrot, hreturns⟩ := updateStackAddresses_returns h.circular hinit
  refine ⟨_, hreturns, ?_⟩
  have hmem : ∀ t, t ∈ init_task :: l ↔ t ∈ tasks := fun t => hrot.mem_iff.symm
  have hinj : ∀ t ∈ init_task :: l, ∀ t' ∈ init_task :: l,
      kernel.stackBottom t = kernel.stackBottom t' → t = t' := by
    intro t ht t' ht'
    exact stackBottom_injOn h ((hmem t).mp ht) ((hmem t').mp ht')
  have hnodup : ((init_task :: l).map kernel.stackEntry).Nodup := by
    refine (List.nodup_map_iff_inj_on (hrot.nodup_iff.mp h.circular.nodup)).mpr ?_
    intro t ht t' ht' heq
    exact hinj t ht t' ht' (congrArg Prod.fst heq)
  have hperm : ((init_task :: l).map kernel.stackEntry).Perm (tasks.map kernel.stackEntry) :=
    hrot.perm.symm.map _
  refine (OrderedMap.perm_assignAll hnodup ?_).trans hperm
  intro e he e' he' hkey
  obtain ⟨t, ht, rfl⟩ := List.mem_map.mp he
  obtain ⟨t', ht', rfl⟩ := List.mem_map.mp he'
  rw [hinj t ht t' ht' hkey]

theorem isStack_iff (v : KernelValidator) (h : kernel.HasStacks tasks) {m : OrderedMap U64 U64}
    (hm : m.entries.Perm (tasks.map kernel.stackEntry)) {page : DataPage}
    (hpage : page.vaddr.toNat < 2 ^ 48) :
    ({ v with stackAddresses := m.get } : KernelValidator).isStack page = true ↔
      kernel.InStack tasks page.vaddr := by
  show (m.get (page.vaddr &&& 0xffffffffe000)).isSome = true ↔ _
  rw [Option.isSome_iff_exists]
  constructor
  · rintro ⟨rsp, hget⟩
    rw [OrderedMap.get_eq_some_iff, hm.mem_iff] at hget
    obtain ⟨t, ht, hentry⟩ := List.mem_map.mp hget
    exact ⟨t, ht, (and_stackMask_eq_iff h ht hpage).mp (congrArg Prod.fst hentry).symm⟩
  · rintro ⟨t, ht, hin⟩
    refine ⟨kernel.sp t, ?_⟩
    rw [OrderedMap.get_eq_some_iff, hm.mem_iff, (and_stackMask_eq_iff h ht hpage).mpr hin]
    exact List.mem_map_of_mem ht

/-- The stacks begin and end between pages of 4 KiB. -/
theorem inStack_page_iff (h : kernel.HasStacks tasks) {vaddr : U64} (hpage : vaddr.toNat < 2 ^ 48)
    (haligned : vaddr.toNat % 0x1000 = 0) {k : Nat} (hk : k < 0x1000) :
    kernel.InStack tasks (vaddr + BitVec.ofNat 64 k) ↔ kernel.InStack tasks vaddr := by
  have haddr : (vaddr + BitVec.ofNat 64 k).toNat = vaddr.toNat + k := by
    rw [BitVec.toNat_add, BitVec.toNat_ofNat]
    omega
  unfold InStack
  rw [haddr]
  refine exists_congr fun t => and_congr_right fun ht => ?_
  have hbottom := stackBottom_aligned h ht
  omega

/-- **Each stack is put down once, and a page is scanned as data exactly if it is no part of a
stack**: the map has an entry for each task, it does not depend on the task that the walk begins
with, and `findCodePtrs` passes over the pages that begin inside of a stack, for a page of 4 KiB
exactly if it lies in one. -/
theorem updateStackAddresses_exact (v : KernelValidator) (h : kernel.HasStacks tasks)
    (hne : tasks ≠ []) :
    ∃ m : OrderedMap U64 U64, m.entries.Perm (tasks.map kernel.stackEntry) ∧
      (∀ init_task ∈ tasks, ∃ n, kernel.updateStackAddresses init_task n = some m) ∧
      ∀ page : DataPage, page.vaddr.toNat < 2 ^ 48 →
        (({ v with stackAddresses := m.get } : KernelValidator).isStack page = true ↔
          kernel.InStack tasks page.vaddr) ∧
        (page.vaddr.toNat % 0x1000 = 0 → ∀ k < 0x1000,
          (({ v with stackAddresses := m.get } : KernelValidator).isStack page = true ↔
            kernel.InStack tasks (page.vaddr + BitVec.ofNat 64 k))) := by
  obtain ⟨first, hfirst⟩ := List.exists_mem_of_ne_nil tasks hne
  obtain ⟨m, -, hperm⟩ := updateStackAddresses_eq h hfirst
  refine ⟨m, hperm, fun init_task hinit => ?_, fun page hpage => ⟨isStack_iff v h hperm hpage, ?_⟩⟩
  · obtain ⟨m', hm', hperm'⟩ := updateStackAddresses_eq h hinit
    rwa [OrderedMap.eq_of_perm (hperm'.trans hperm.symm)] at hm'
  · intro haligned k hk
    rw [isStack_iff v h hperm hpage, inStack_page_iff h hpage haligned hk]

/-- Three tasks, their stacks next to each other. -/
def threeStacks : GuestThreads where
  toGuestTasks := TaskManager.threeTasks
  sp0 t := 0xffff880000010000 + t * 2
  sp t := 0xffff880000010000 + t * 2 - 0x100

theorem threeStacks_hasStacks : threeStacks.HasStacks [0x1000, 0x2000, 0x3000] where
  circular := TaskManager.threeTasks_circular
  aligned := by
    intro t ht
    simp only [List.mem_cons, List.not_mem_nil, or_false] at ht
    rcases ht with rfl | rfl | rfl <;> rfl
  kernel_half := by
    intro t ht
    simp only [List.mem_cons, List.not_mem_nil, or_false] at ht
    rcases ht with rfl | rfl | rfl <;> exact of_decide_eq_true rfl
  injOn := by simp [threeStacks]

theorem updateStackAddresses_exact_three :
    ∃ m : OrderedMap U64 U64,
      (∃ n, threeStacks.updateStackAddresses 0x2000 n = some m) ∧
      m.entries.Perm [(0x880000010000, 0xffff880000011f00), (0x880000012000, 0xffff880000013f00),
        (0x880000014000, 0xffff880000015f00)] := by
  obtain ⟨m, hperm, hwalk, -⟩ :=
    updateStackAddresses_exact plainValidator threeStacks_hasStacks (by decide)
  exact ⟨m, hwalk 0x2000 (by decide), hperm⟩

end GuestThreads

end KernInt
