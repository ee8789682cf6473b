import KernInt.Helpers
import KernInt.Lib.Circular
import KernInt.Lib.Loop

set_option autoImplicit false

/-! # The tasks of the guest

The kernel keeps its tasks in a circular list. `getTasks` goes round it once and returns all of
them; `getTaskForPID` goes round it in search of one. Both start at the task that `init` has
taken for the first one, but the search begins behind the task that follows it and stops in
front of that task, so that it never looks at it: `getTaskForPID_returns_iff`.
-/

namespace KernInt

open Lib

/-- A process id has 32 bits. -/
abbrev pid_t := BitVec 32

/-- The task structures in the memory of the guest, by their addresses, as far as they are read.
`tasksNext` is the task whose list head the member `tasks.next` points to; `pid` is the member
as the 64-bit value that is read. -/
structure GuestTasks where
  tasksNext : U64 → U64
  pid : U64 → U64

structure TaskManager where
  kernel : GuestTasks
  initTask : U64

namespace TaskManager

/-- The task behind the variable `init_task` becomes the first one. -/
def init (kernel : GuestTasks) (init_task : U64) : TaskManager where
  kernel := kernel
  initTask := kernel.tasksNext init_task

variable (tm : TaskManager)

def nextTask (task : U64) : U64 := tm.kernel.tasksNext task

/-- The id of a task, cut off to its type. -/
def pidOf (task : U64) : pid_t := (tm.kernel.pid task).setWidth 32

/-! ## The two walks -/

def getTasksRound : U64 × List (pid_t × U64) →
    Round (U64 × List (pid_t × U64)) (List (pid_t × U64))
  | (it, tasks) =>
      let tasks := tasks ++ [(tm.pidOf it, it)]
      let it := tm.nextTask it
      if it ≠ tm.initTask then .again (it, tasks) else .leave tasks

/-- The result if the loop leaves within this number of rounds. -/
def getTasks (rounds : Nat) : Option (List (pid_t × U64)) :=
  within tm.getTasksRound rounds (tm.initTask, [])

def getTaskForPIDRound (pid : pid_t) (taskStruct : U64) (it : U64) : Round U64 U64 :=
  if it ≠ taskStruct then
    let curPid := tm.pidOf it
    if curPid = pid then .leave it
    else .again (tm.nextTask it)
  else .leave 0 -- the instance with the address null

def getTaskForPID (pid : pid_t) (rounds : Nat) : Option U64 :=
  let taskStruct := tm.nextTask tm.initTask
  let it := tm.nextTask taskStruct
  within (tm.getTaskForPIDRound pid taskStruct) rounds it

def terminated (pid : pid_t) (rounds : Nat) : Option Bool :=
  (tm.getTaskForPID pid rounds).map fun task => task == 0

/-! ## What they return -/

variable {tm}

theorem getTasksRound_returns {x : U64} {l : List U64}
    (h : Path tm.nextTask tm.initTask (tm.nextTask x) l) (tasks : List (pid_t × U64)) :
    Returns tm.getTasksRound (x, tasks)
      (tasks ++ (tm.pidOf x, x) :: l.map fun t => (tm.pidOf t, t)) := by
  induction l generalizing x tasks with
  | nil =>
      apply returns_of_leave
      simp only [getTasksRound, h.eq_stop, ne_eq, not_true, if_false, List.map_nil]
  | cons y l ih =>
      obtain ⟨hy, hne, hrest⟩ := h.of_cons
      have hround : tm.getTasksRound (x, tasks) = .again (y, tasks ++ [(tm.pidOf x, x)]) := by
        simp only [getTasksRound, hy, ne_eq, hne, not_false_eq_true, if_true]
      apply Returns.of_again hround
      rw [List.map_cons]
      have hr := ih hrest (tasks ++ [(tm.pidOf x, x)])
      rwa [List.append_assoc] at hr

/-- The search stops at the first task with the id. -/
theorem getTaskForPIDRound_returns {pid : pid_t} {stop x : U64} {l : List U64}
    (h : Path tm.nextTask stop x l) :
    Returns (tm.getTaskForPIDRound pid stop) x
      ((l.find? fun t => tm.pidOf t = pid).getD 0) := by
  induction h with
  | arrived =>
      apply returns_of_leave
      simp only [getTaskForPIDRound, ne_eq, not_true, if_false, List.find?_nil, Option.getD_none]
  | @step x l hne hrest ih =>
      by_cases hp : tm.pidOf x = pid
      · apply returns_of_leave
        simp [getTaskForPIDRound, hne, hp]
      · have hround : tm.getTaskForPIDRound pid stop x = .again (tm.nextTask x) := by
          simp [getTaskForPIDRound, hne, hp]
        rw [List.find?_cons_of_neg (by simpa using hp)]
        exact Returns.of_again hround ih

/-! ## Task lists -/

/-- A task list: its tasks one behind the other, each with an id of its own and none of them at
the address null. -/
structure TaskList (kernel : GuestTasks) (tasks : List U64) : Prop where
  circular : Circular kernel.tasksNext tasks
  pid_injOn : ∀ t ∈ tasks, ∀ t' ∈ tasks,
    (kernel.pid t).setWidth 32 = (kernel.pid t').setWidth 32 → t = t'
  ne_null : ∀ t ∈ tasks, t ≠ 0

variable {tasks : List U64}

/-- The walk of `getTasks` goes round the whole list. -/
theorem getTasks_returns (h : TaskList tm.kernel tasks) (hinit : tm.initTask ∈ tasks) :
    ∃ l, tasks.IsRotated (tm.initTask :: l) ∧
      ∃ n, tm.getTasks n = some ((tm.initTask :: l).map fun t => (tm.pidOf t, t)) := by
  obtain ⟨l, hrot, hcirc⟩ := h.circular.exists_isRotated hinit
  refine ⟨l, hrot, ?_⟩
  exact getTasksRound_returns hcirc.path []

/-- The search looks at all tasks but the one behind `initTask`. -/
theorem getTaskForPID_returns (h : TaskList tm.kernel tasks) (hinit : tm.initTask ∈ tasks)
    (pid : pid_t) :
    ∃ l, tasks.IsRotated (tm.nextTask tm.initTask :: l) ∧
      ∃ n, tm.getTaskForPID pid n = some ((l.find? fun t => tm.pidOf t = pid).getD 0) := by
  have hnext : tm.nextTask tm.initTask ∈ tasks := by
    show tm.kernel.tasksNext tm.initTask ∈ tasks
    rw [h.circular.next_eq _ hinit]
    exact List.next_mem tasks _ hinit
  obtain ⟨l, hrot, hcirc⟩ := h.circular.exists_isRotated hnext
  exact ⟨l, hrot, getTaskForPIDRound_returns hcirc.path⟩

theorem pidOf_inj (h : TaskList tm.kernel tasks) {t t' : U64} (ht : t ∈ tasks) (ht' : t' ∈ tasks)
    (hpid : tm.pidOf t = tm.pidOf t') : t = t' :=
  h.pid_injOn t ht t' ht' hpid

/-- In `l` behind `b`, a search by the id of a task finds this task, unless it is `b`. -/
theorem find?_pidOf (h : TaskList tm.kernel tasks) {b : U64} {l : List U64}
    (hrot : tasks.IsRotated (b :: l)) {t : U64} (ht : t ∈ tasks) :
    (l.find? fun t' => tm.pidOf t' = tm.pidOf t) = if t = b then none else some t := by
  have hmem : ∀ t' ∈ l, t' ∈ tasks := fun t' ht' => hrot.mem_iff.mpr (List.mem_cons_of_mem b ht')
  have hb : b ∉ l := (List.nodup_cons.mp (hrot.nodup_iff.mp h.circular.nodup)).1
  split
  · rename_i htb
    subst htb
    rw [List.find?_eq_none]
    intro t' ht' hpid
    have := pidOf_inj h (hmem t' ht') ht (of_decide_eq_true hpid)
    exact hb (this ▸ ht')
  · rename_i htb
    have htl : t ∈ l := by
      have := hrot.mem_iff.mp ht
      exact (List.mem_cons.mp this).resolve_left htb
    cases hf : l.find? fun t' => tm.pidOf t' = tm.pidOf t with
    | none =>
        have := List.find?_eq_none.mp hf t htl
        simp at this
    | some t' =>
        have hpid : tm.pidOf t' = tm.pidOf t := by simpa using List.find?_some hf
        rw [pidOf_inj h (hmem t' (List.mem_of_find?_eq_some hf)) ht hpid]

/-- `getTasks` returns each task of the list once, `initTask` first, and for an id of none of
them `getTaskForPID` returns the null instance. The task with an id is what `getTaskForPID`
returns for it exactly if it is not the task behind `initTask`. -/
theorem getTaskForPID_returns_iff (h : TaskList tm.kernel tasks) (hinit : tm.initTask ∈ tasks) :
    (∃ l, tasks.IsRotated (tm.initTask :: l) ∧
      ∃ n, tm.getTasks n = some ((tm.initTask :: l).map fun t => (tm.pidOf t, t))) ∧
    (∀ pid, (∀ t ∈ tasks, tm.pidOf t ≠ pid) → ∃ n, tm.getTaskForPID pid n = some 0) ∧
    ∀ n pairs, tm.getTasks n = some pairs → ∀ pid t, (pid, t) ∈ pairs →
      ((∃ m, tm.getTaskForPID pid m = some t ∧ tm.terminated pid m = some false) ↔
        t ≠ tm.nextTask tm.initTask) := by
  refine ⟨getTasks_returns h hinit, fun pid hpid => ?_, fun n pairs hn pid t ht => ?_⟩
  · obtain ⟨l, hrot, n, hn⟩ := getTaskForPID_returns h hinit pid
    refine ⟨n, ?_⟩
    have hnone : (l.find? fun t => tm.pidOf t = pid) = none := by
      rw [List.find?_eq_none]
      intro t ht hp
      exact hpid t (hrot.mem_iff.mpr (List.mem_cons_of_mem _ ht)) (of_decide_eq_true hp)
    rw [hn, hnone, Option.getD_none]
  · obtain ⟨l₀, hrot₀, n₀, hn₀⟩ := getTasks_returns h hinit
    have hpairs : pairs = (tm.initTask :: l₀).map fun t => (tm.pidOf t, t) :=
      Returns.unique ⟨n, hn⟩ ⟨n₀, hn₀⟩
    rw [hpairs] at ht
    obtain ⟨t', ht', heq⟩ := List.mem_map.mp ht
    obtain ⟨rfl, rfl⟩ := Prod.mk.inj heq
    have htasks : t' ∈ tasks := hrot₀.mem_iff.mpr ht'
    obtain ⟨l, hrot, m, hm⟩ := getTaskForPID_returns h hinit (tm.pidOf t')
    rw [find?_pidOf h hrot htasks] at hm
    have hnull : t' ≠ 0 := h.ne_null t' htasks
    constructor
    · rintro ⟨m', hm', -⟩ htb
      rw [if_pos htb] at hm
      have h0 : t' = 0 := Returns.unique ⟨m', hm'⟩ ⟨m, hm⟩
      exact hnull h0
    · intro htb
      rw [if_neg htb] at hm
      refine ⟨m, hm, ?_⟩
      rw [terminated, hm, Option.map_some, Option.getD_some, beq_false_of_ne hnull]

/-! ## A list of three tasks -/

/-- The tasks with the ids 1, 2 and 3. -/
def threeTasks : GuestTasks where
  tasksNext t := if t = 0x1000 then 0x2000 else if t = 0x2000 then 0x3000 else 0x1000
  pid t := if t = 0x1000 then 1 else if t = 0x2000 then 2 else 3

/-- The first of them is the one behind the variable `init_task`, which is the third. -/
def threeTasksManager : TaskManager := init threeTasks 0x3000

theorem threeTasks_circular : Circular threeTasks.tasksNext [0x1000, 0x2000, 0x3000] where
  nodup := by decide
  next_eq := by
    intro x hx
    simp only [List.mem_cons, List.not_mem_nil, or_false] at hx
    rcases hx with rfl | rfl | rfl
    · rfl
    · rfl
    · rfl

theorem threeTasks_taskList : TaskList threeTasks [0x1000, 0x2000, 0x3000] where
  circular := threeTasks_circular
  pid_injOn := by simp [threeTasks]
  ne_null := by simp

theorem getTaskForPID_returns_iff_three :
    ∃ n, threeTasksManager.getTaskForPID 3 n = some 0x3000 := by
  have h := @getTaskForPID_returns_iff threeTasksManager _ threeTasks_taskList (by decide)
  obtain ⟨-, -, hpairs⟩ := h
  have h3 := hpairs 3 _ rfl 3 0x3000 (by decide)
  obtain ⟨n, hn, -⟩ := h3.mpr (by decide)
  exact ⟨n, hn⟩

/-- The task with the id 2 is on the list, and it is not found. -/
theorem getTaskForPID_misses_second :
    TaskList threeTasksManager.kernel [0x1000, 0x2000, 0x3000] ∧
    threeTasksManager.getTasks 3 = some [(1, 0x1000), (2, 0x2000), (3, 0x3000)] ∧
    threeTasksManager.getTaskForPID 2 3 = some 0 ∧
    threeTasksManager.terminated 2 3 = some true ∧
    ¬ ∃ n, threeTasksManager.getTaskForPID 2 n = some 0x2000 := by
  refine ⟨threeTasks_taskList, by decide, by decide, by decide, ?_⟩
  rintro ⟨n, hn⟩
  have hnull : threeTasksManager.getTaskForPID 2 3 = some 0 := by decide
  have : (0x2000 : U64) = 0 := Returns.unique ⟨n, hn⟩ ⟨3, hnull⟩
  exact absurd this (by decide)

end TaskManager

end KernInt
