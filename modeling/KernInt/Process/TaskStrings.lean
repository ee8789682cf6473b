import KernInt.Lib.NulStrings
import KernInt.Process.TaskList
import Mathlib.Logic.Function.Basic

set_option autoImplicit false

/-! # Arguments and environment of a task

The kernel keeps the arguments of a program, and likewise its environment, as strings one behind
the other. `getArgForTask` and `getEnvForTask` read such a block from its start to its end; each
string moves the cursor by its own length. What has been laid out is what they return, an
environment as the map from the names to the values (`taskStrings_exact`). A value may contain
`=` itself, since the string is split at the first one.
-/

namespace KernInt

open Lib

/-- The members of `active_mm` that are read. -/
structure ActiveMm where
  arg_start : U64
  arg_end : U64
  env_start : U64
  env_end : U64

/-- What is read of the guest: the memory descriptor of the task at an address, and the string at
an address in the memory of a process. -/
structure GuestVmi where
  active_mm : U64 → ActiveMm
  readStrFromVA : U64 → pid_t → StdString

def npos : U64 := -1

/-- `str.find("=")` -/
def findEquals (str : StdString) : U64 :=
  match str.findIdx? fun b => b == 0x3d with
  | some off => BitVec.ofNat 64 off
  | none => npos

/-- `str.substr(pos, count)`, where `pos` is not behind the end. -/
def substr (str : StdString) (pos count : U64) : StdString :=
  (str.drop pos.toNat).take count.toNat

/-- `environment[str.substr(0, off)] = str.substr(off + 1)`. Without a `=`, the name and the value
are the whole string: `npos + 1` is 0. -/
def setEnvironment (environment : StdString → Option StdString) (str : StdString) :
    StdString → Option StdString :=
  let off := findEquals str
  Function.update environment (substr str 0 off) (some (substr str (off + 1) npos))

namespace TaskManager

variable (tm : TaskManager) (vmi : GuestVmi) (pid : pid_t)

def getArgForTask (rounds : Nat) : Option (List StdString) :=
  match tm.getTaskForPID pid rounds with
  | none => none
  | some task =>
      let mm := vmi.active_mm task
      within (stringRound (fun i => vmi.readStrFromVA i pid) mm.arg_end fun arguments str =>
        arguments ++ [str]) rounds (mm.arg_start, [])

def getEnvForTask (rounds : Nat) : Option (StdString → Option StdString) :=
  match tm.getTaskForPID pid rounds with
  | none => none
  | some task =>
      let mm := vmi.active_mm task
      within (stringRound (fun i => vmi.readStrFromVA i pid) mm.env_end setEnvironment) rounds
        (mm.env_start, fun _ => none)

end TaskManager

/-! ## One entry -/

/-- `name=value` -/
def envString (entry : StdString × StdString) : StdString := entry.1 ++ 0x3d :: entry.2

/-- `environment[name] = value` -/
def putEntry (environment : StdString → Option StdString) (entry : StdString × StdString) :
    StdString → Option StdString :=
  Function.update environment entry.1 (some entry.2)

theorem findEquals_envString {entry : StdString × StdString} (hname : (0x3d : Byte) ∉ entry.1) :
    findEquals (envString entry) = BitVec.ofNat 64 entry.1.length := by
  have hnone : entry.1.findIdx? (fun b => b == 0x3d) = none := by
    rw [List.findIdx?_eq_none_iff]
    intro b hb
    simp
    rintro rfl
    exact hname hb
  have hfind : (envString entry).findIdx? (fun b => b == 0x3d) = some entry.1.length := by
    rw [envString, List.findIdx?_append, hnone]
    simp [List.findIdx?_cons]
  rw [findEquals, hfind]

/-- The value is everything behind the first `=`. -/
theorem setEnvironment_envString {entry : StdString × StdString}
    (hname : (0x3d : Byte) ∉ entry.1) (hlen : (envString entry).length < 2 ^ 64)
    (environment : StdString → Option StdString) :
    setEnvironment environment (envString entry) = putEntry environment entry := by
  have hsum : entry.1.length + (entry.2.length + 1) < 2 ^ 64 := by
    simpa [envString] using hlen
  have hoff : (BitVec.ofNat 64 entry.1.length).toNat = entry.1.length := by
    rw [BitVec.toNat_ofNat]
    exact Nat.mod_eq_of_lt (by omega)
  have hbehind : (BitVec.ofNat 64 entry.1.length + BitVec.ofNat 64 1).toNat =
      entry.1.length + 1 := by
    rw [toNat_add_ofNat (by omega), hoff]
  have hnpos : npos.toNat = 2 ^ 64 - 1 := by decide
  -- the two parts, up to the first `=` and behind it
  have hfirst : substr (envString entry) 0 (BitVec.ofNat 64 entry.1.length) = entry.1 := by
    rw [substr, hoff]
    simp [envString]
  have hsecond : substr (envString entry)
      (BitVec.ofNat 64 entry.1.length + BitVec.ofNat 64 1) npos = entry.2 := by
    rw [substr, hbehind, hnpos]
    have hdrop : (envString entry).drop (entry.1.length + 1) = entry.2 := by
      simp [envString, List.drop_append]
    rw [hdrop]
    exact List.take_of_length_le (by omega)
  simp only [setEnvironment, findEquals_envString hname]
  rw [hfirst]
  exact congrArg (fun value => putEntry environment (entry.1, value)) hsecond

/-! ## The whole block -/

/-- A map that is filled with entries of distinct names has exactly these, and what has been
there under other names. -/
theorem foldl_putEntry {entries : List (StdString × StdString)}
    (hdistinct : (entries.map Prod.fst).Nodup) (environment : StdString → Option StdString)
    (name value : StdString) :
    entries.foldl putEntry environment name = some value ↔
      (name, value) ∈ entries ∨ name ∉ entries.map Prod.fst ∧ environment name = some value := by
  induction entries generalizing environment with
  | nil => simp
  | cons entry entries ih =>
      rw [List.map_cons, List.nodup_cons] at hdistinct
      rw [List.foldl_cons, ih hdistinct.2, List.mem_cons, List.map_cons, List.mem_cons]
      by_cases hname : name = entry.1
      · -- no later entry has this name
        subst hname
        have hother : (entry.1, value) ∉ entries := fun hmem =>
          hdistinct.1 (List.mem_map.mpr ⟨_, hmem, rfl⟩)
        simp [putEntry, hdistinct.1, hother, Prod.ext_iff, eq_comm]
      · have hne : (name, value) ≠ entry := by
          rintro rfl
          exact hname rfl
        simp [putEntry, hname, hne]

theorem foldl_append_singleton (strings found : List StdString) :
    strings.foldl (fun arguments str => arguments ++ [str]) found = found ++ strings := by
  induction strings generalizing found with
  | nil => simp
  | cons s strings ih => rw [List.foldl_cons, ih, List.append_assoc, List.singleton_append]

theorem length_lt_of_mem_nulBlock {strings : List StdString} {s : StdString} (h : s ∈ strings) :
    s.length < (nulBlock strings).length := by
  induction strings with
  | nil => cases h
  | cons s' strings ih =>
      rw [length_nulBlock_cons]
      rcases List.mem_cons.mp h with rfl | hmem
      · omega
      · have hlt := ih hmem
        omega

namespace TaskManager

variable (tm : TaskManager) (vmi : GuestVmi) (pid : pid_t)

/-- The strings are laid out from `start` to `stop`. -/
structure LaidOut (mem : Memory) (start stop : U64) (strings : List StdString) : Prop where
  nul_free : ∀ s ∈ strings, NulFree s
  holds : HoldsAt mem start (nulBlock strings)
  stop_eq : stop.toNat = start.toNat + (nulBlock strings).length

/-- `getArgForTask` ends, and returns the list. -/
def ArgsExact (mem : Memory) (mm : ActiveMm) : Prop :=
  ∀ args, LaidOut mem mm.arg_start mm.arg_end args → ∃ n, tm.getArgForTask vmi pid n = some args

/-- `getEnvForTask` ends, and returns the map that has exactly the entries. -/
def EnvExact (mem : Memory) (mm : ActiveMm) : Prop :=
  ∀ entries : List (StdString × StdString), (entries.map Prod.fst).Nodup →
    (∀ entry ∈ entries, (0x3d : Byte) ∉ entry.1) →
    LaidOut mem mm.env_start mm.env_end (entries.map envString) →
    ∃ n environment, tm.getEnvForTask vmi pid n = some environment ∧
      ∀ name value, environment name = some value ↔ (name, value) ∈ entries

variable {tm vmi pid}

/-- A loop over the strings of the task, with the search for the task in front of it. -/
theorem exists_within_both {ρ : Type} {task : U64} {round : U64 × ρ → Round (U64 × ρ) ρ}
    {s : U64 × ρ} {r : ρ} (htask : ∃ n, tm.getTaskForPID pid n = some task)
    (h : Returns round s r) :
    ∃ n, tm.getTaskForPID pid n = some task ∧ within round n s = some r := by
  obtain ⟨n, hn⟩ := htask
  obtain ⟨m, hm⟩ := h
  exact ⟨max n m, within_of_le (Nat.le_max_left n m) hn, within_of_le (Nat.le_max_right n m) hm⟩

/-- **What has been laid out is returned**: the arguments as the list of the strings, the
environment as the map of its entries. -/
theorem taskStrings_exact {task : U64} {mem : Memory}
    (htask : ∃ n, tm.getTaskForPID pid n = some task)
    (hread : ReadsToNul mem fun i => vmi.readStrFromVA i pid) :
    tm.ArgsExact vmi pid mem (vmi.active_mm task) ∧
      tm.EnvExact vmi pid mem (vmi.active_mm task) := by
  constructor
  · intro args hlaid
    have hreturns := stringRound_returns (f := fun arguments str => arguments ++ [str]) hread
      hlaid.nul_free hlaid.holds hlaid.stop_eq []
    obtain ⟨n, hn, hm⟩ := exists_within_both htask hreturns
    refine ⟨n, ?_⟩
    rw [foldl_append_singleton] at hm
    rw [getArgForTask, hn]
    exact hm
  · intro entries hdistinct hnames hlaid
    have hreturns := stringRound_returns (f := setEnvironment) hread
      hlaid.nul_free hlaid.holds hlaid.stop_eq fun _ => none
    obtain ⟨n, hn, hm⟩ := exists_within_both htask hreturns
    refine ⟨n, _, by rw [getEnvForTask, hn]; exact hm, fun name value => ?_⟩
    have hfold : (entries.map envString).foldl setEnvironment (fun _ => none) =
        entries.foldl putEntry fun _ => none := by
      rw [List.foldl_map]
      apply List.foldl_ext
      -- a string of the block is shorter than the address space, so its offsets do not wrap
      intro environment entry hentry
      have hlt := length_lt_of_mem_nulBlock (List.mem_map_of_mem (f := envString) hentry)
      have hstop := hlaid.stop_eq
      have hbound := (vmi.active_mm task).env_end.isLt
      exact setEnvironment_envString (hnames entry hentry) (by omega) environment
    rw [hfold, foldl_putEntry hdistinct]
    simp

/-! ## A task with two arguments -/

/-- `"a", ""` from 0x7000 on, and `"P=x=y"` behind it. -/
def argMemory : Memory := fun a =>
  (nulBlock [[0x61], [], [0x50, 0x3d, 0x78, 0x3d, 0x79]]).getD (a - 0x7000).toNat 0

def argVmi : GuestVmi where
  active_mm _ := { arg_start := 0x7000, arg_end := 0x7003, env_start := 0x7003, env_end := 0x7009 }
  readStrFromVA i _ := stringAt argMemory i

theorem argMemory_args : LaidOut argMemory 0x7000 0x7003 [[0x61], []] where
  nul_free := by decide
  holds := by
    show ∀ k, (h : k < 3) → _
    decide
  stop_eq := by decide

theorem argMemory_env :
    LaidOut argMemory 0x7003 0x7009 [envString ([0x50], [0x78, 0x3d, 0x79])] where
  nul_free := by decide
  holds := by
    show ∀ k, (h : k < 6) → _
    decide
  stop_eq := by decide

theorem taskStrings_three :
    (∃ n, threeTasksManager.getArgForTask argVmi 3 n = some [[0x61], []]) ∧
    ∃ n environment, threeTasksManager.getEnvForTask argVmi 3 n = some environment ∧
      environment [0x50] = some [0x78, 0x3d, 0x79] := by
  have htask : ∃ n, threeTasksManager.getTaskForPID 3 n = some 0x3000 := ⟨3, by decide⟩
  have hread : ReadsToNul argMemory fun i => argVmi.readStrFromVA i 3 := by
    simp only [argVmi]
    exact stringAt_readsToNul argMemory
  obtain ⟨hargs, henv⟩ := taskStrings_exact htask hread
  obtain ⟨n, environment, hn, hmap⟩ :=
    henv [([0x50], [0x78, 0x3d, 0x79])] (by decide) (by decide) argMemory_env
  exact ⟨hargs _ argMemory_args, n, environment, hn, (hmap _ _).mpr List.mem_cons_self⟩

end TaskManager

end KernInt
