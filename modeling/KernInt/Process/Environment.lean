import KernInt.Lib.OrderedMap
import KernInt.Process.LoadRel
import KernInt.Process.PtrStats
import KernInt.Process.TaskStrings

set_option autoImplicit false

/-! # The environments of the processes

With the option to list the processes, the program goes through all tasks of the guest. It passes
over those that `getTaskForPID` does not find and over those of the kernel, and compares the
settings of the dynamic linker in the environment of each other one with those it expects.

The environment is kept in a map, so that of several definitions of a name the last one counts; a
string without `=` defines itself. Each user task is examined once, in the order of the task list,
but for the one behind `initTask`, and a setting is reported exactly if its last definition has
another value. Before that the process is constructed, and after it its pages are validated: either
may throw an exception that nothing catches, or run on, and then the tasks behind are not examined.
Whatever the two do, this is all that they change (`listProcs_exact`).
-/

namespace KernInt

open Lib

/-- A setting with another value than the expected one. -/
structure EnvMismatch where
  name : StdString
  expected : StdString
  found : StdString
  deriving DecidableEq

/-- Where the id of a task's process group is kept. -/
structure GuestGroups where
  group_leader : U64 → U64
  /-- `pids[PIDTYPE_PGID].pid` -/
  pgid : U64 → U64
  /-- `numbers[0].nr` -/
  nr : U64 → BitVec 32

def GuestGroups.isKernelTask (groups : GuestGroups) (task : U64) : Bool :=
  groups.nr (groups.pgid (groups.group_leader task)) == 0

/-- The bytes of an ASCII string. -/
def asciiBytes (s : String) : StdString := s.toList.map fun c => BitVec.ofNat 8 c.toNat

def configList : List (StdString × StdString) :=
  [(asciiBytes "LD_BIND_NOW", asciiBytes "nope"), (asciiBytes "LD_LIBRARY_PATH", []),
    (asciiBytes "LD_PRELOAD", [])]

theorem configList_sorted : configList.Pairwise fun e e' => e.1 < e'.1 := by decide

/-- The settings that `validateUserspace` expects. -/
def configEnv : OrderedMap StdString StdString := ⟨configList, configList_sorted⟩

/-- The body of the loop over the settings: the number of mismatches, and what is printed. -/
def checkSetting (envMap : StdString → Option StdString) (s : Nat × List EnvMismatch)
    (inputPair : StdString × StdString) : Nat × List EnvMismatch :=
  match envMap inputPair.1 with
  | none => s
  | some found =>
      if found = inputPair.2 then s
      else (s.1 + 1, s.2 ++ [⟨inputPair.1, inputPair.2, found⟩])

namespace TaskManager

variable (tm : TaskManager) (vmi : GuestVmi) (groups : GuestGroups)

def checkEnvironment (inputMap : OrderedMap StdString StdString) (pid : pid_t) (rounds : Nat) :
    Option (Nat × List EnvMismatch) :=
  (tm.getEnvForTask vmi pid rounds).map fun envMap =>
    inputMap.entries.foldl (checkSetting envMap) (0, [])

end TaskManager

/-- A task whose environment was compared, with what was found. -/
abbrev EnvReport := pid_t × Nat × List EnvMismatch

/-- What the loop over the tasks does besides, in a state of the program that goes from process to
process: `create` reads the path of the program and constructs the `Process` and its validator. A
step without a result does not come back. -/
structure ProcessSteps (σ : Type) where
  create : pid_t → σ → Option σ
  validateProcess : pid_t → σ → Option σ

structure ListState (σ : Type) where
  reports : List EnvReport
  state : σ

/-- Where the loop is left, with what was reported until then. -/
inductive ListStop
  | outOfRounds
  | inCreate (reports : List EnvReport) (pid : pid_t)
  | inValidateProcess (reports : List EnvReport) (pid : pid_t)

def orStop {α : Type} (stop : ListStop) : Option α → Except ListStop α
  | none => .error stop
  | some a => .ok a

namespace TaskManager

variable {σ : Type} (tm : TaskManager) (vmi : GuestVmi) (groups : GuestGroups)
  (steps : ProcessSteps σ)

/-- The body of the loop over the tasks; what is found is put down with the id of the task. -/
def listProc (rounds : Nat) (s : ListState σ) (curTask : pid_t × U64) :
    Except ListStop (ListState σ) := do
  let pid := curTask.1
  if ← orStop .outOfRounds (tm.terminated pid rounds) then return s
  if groups.isKernelTask curTask.2 then return s
  let state ← orStop (.inCreate s.reports pid) (steps.create pid s.state)
  let report ← orStop .outOfRounds (tm.checkEnvironment vmi configEnv pid rounds)
  let reports := s.reports ++ [(pid, report)]
  let state ← orStop (.inValidateProcess reports pid) (steps.validateProcess pid state)
  return ⟨reports, state⟩

/-- The loop of `main` over the tasks. -/
def listProcs (rounds : Nat) (state : σ) : Except ListStop (ListState σ) := do
  let tasks ← orStop .outOfRounds (tm.getTasks rounds)
  tasks.foldlM (tm.listProc vmi groups steps rounds) ⟨[], state⟩

end TaskManager

/-! ## What is to be reported -/

/-- The name that a string of the environment defines, and the value. -/
def definedName (str : StdString) : StdString := str.takeWhile fun b => b != 0x3d

def definedValue (str : StdString) : StdString :=
  if 0x3d ∈ str then (str.dropWhile fun b => b != 0x3d).tail else str

/-- The value of the last definition of a name. -/
def lastDefinition (strings : List StdString) (name : StdString) : Option StdString :=
  (strings.reverse.find? fun str => definedName str = name).map definedValue

/-- The setting is defined last with another value. -/
def mismatch (strings : List StdString) (inputPair : StdString × StdString) :
    Option EnvMismatch :=
  match lastDefinition strings inputPair.1 with
  | none => none
  | some found => if found = inputPair.2 then none else some ⟨inputPair.1, inputPair.2, found⟩

def mismatches (inputMap : OrderedMap StdString StdString) (strings : List StdString) :
    List EnvMismatch :=
  inputMap.entries.filterMap (mismatch strings)

/-- `PATH=/bin`, `LD_PRELOAD=` and, behind it, `LD_PRELOAD=/x.so`. -/
example : mismatches configEnv [asciiBytes "PATH=/bin", asciiBytes "LD_PRELOAD=",
    asciiBytes "LD_PRELOAD=/x.so"] = [⟨asciiBytes "LD_PRELOAD", [], asciiBytes "/x.so"⟩] := by
  decide

/-! ## One environment -/

theorem ne_equals {s : StdString} (h : (0x3d : Byte) ∉ s) : ∀ b ∈ s, (b != 0x3d) = true := by
  intro b hb
  rw [bne_iff_ne]
  rintro rfl
  exact h hb

/-- A string without a `=` is not split. -/
theorem findEquals_of_notMem {str : StdString} (h : (0x3d : Byte) ∉ str) :
    findEquals str = npos := by
  have hfind : str.findIdx? (fun b => b == 0x3d) = none := by
    rw [List.findIdx?_eq_none_iff]
    intro b hb
    exact beq_eq_false_iff_ne.mpr (bne_iff_ne.mp (ne_equals h b hb))
  simp only [findEquals, hfind]

/-- A string defines the name in front of its first `=`. -/
theorem setEnvironment_eq {str : StdString} (hlen : str.length < 2 ^ 64)
    (environment : StdString → Option StdString) :
    setEnvironment environment str =
      Function.update environment (definedName str) (some (definedValue str)) := by
  by_cases hmem : (0x3d : Byte) ∈ str
  · obtain ⟨name, value, rfl, hname⟩ := List.eq_append_cons_of_mem hmem
    have hall := ne_equals hname
    have hfirst : definedName (name ++ 0x3d :: value) = name := by
      rw [definedName, List.takeWhile_append_of_pos hall]
      simp
    have hsecond : definedValue (name ++ 0x3d :: value) = value := by
      rw [definedValue, if_pos hmem, List.dropWhile_append_of_pos hall]
      simp
    rw [hfirst, hsecond]
    have hentry : (0x3d : Byte) ∉ (name, value).1 := hname
    exact setEnvironment_envString hentry hlen environment
  · have hnpos : npos.toNat = 2 ^ 64 - 1 := by decide
    have hwhole : substr str 0 npos = str := by
      rw [substr, hnpos]
      exact List.take_of_length_le (by simp; omega)
    have hname : definedName str = str := by
      have htake : (str ++ []).takeWhile (fun b => b != 0x3d) = str ++ [].takeWhile _ :=
        List.takeWhile_append_of_pos (ne_equals hmem)
      simpa [definedName] using htake
    have hzero : npos + 1 = 0 := by decide
    simp only [setEnvironment, findEquals_of_notMem hmem, hzero, hwhole, hname, definedValue,
      if_neg hmem]

/-- Of several definitions the last one counts. -/
theorem foldl_setEnvironment {strings : List StdString}
    (hlen : ∀ s ∈ strings, s.length < 2 ^ 64) (environment : StdString → Option StdString)
    (name : StdString) :
    strings.foldl setEnvironment environment name =
      (lastDefinition strings name).or (environment name) := by
  induction strings generalizing environment with
  | nil => rfl
  | cons str strings ih =>
      rw [List.forall_mem_cons] at hlen
      rw [List.foldl_cons, ih hlen.2, setEnvironment_eq hlen.1, lastDefinition, lastDefinition,
        List.reverse_cons, List.find?_append]
      cases strings.reverse.find? fun str => definedName str = name with
      | some last => rfl
      | none =>
          by_cases hname : definedName str = name
          · subst hname
            simp
          · simp [hname, Ne.symm hname]

theorem foldl_checkSetting {envMap : StdString → Option StdString} {strings : List StdString}
    (henv : ∀ name, envMap name = lastDefinition strings name)
    (inputs : List (StdString × StdString)) (s : Nat × List EnvMismatch) :
    inputs.foldl (checkSetting envMap) s =
      (s.1 + (inputs.filterMap (mismatch strings)).length,
        s.2 ++ inputs.filterMap (mismatch strings)) := by
  induction inputs generalizing s with
  | nil => simp
  | cons inputPair inputs ih =>
      have hround : checkSetting envMap s inputPair =
          (s.1 + (mismatch strings inputPair).toList.length,
            s.2 ++ (mismatch strings inputPair).toList) := by
        rw [checkSetting, henv, mismatch]
        cases lastDefinition strings inputPair.1 with
        | none => simp
        | some found => by_cases hfound : found = inputPair.2 <;> simp [hfound]
      rw [List.foldl_cons, ih, hround, List.filterMap_cons]
      cases mismatch strings inputPair with
      | none => simp
      | some report =>
          simp only [Option.toList_some, List.length_cons, List.length_nil, List.append_assoc,
            List.singleton_append, Prod.mk.injEq, and_true]
          omega

/-! ## All processes -/

/-- The environment of a task is laid out in its memory. -/
def EnvironmentOf (vmi : GuestVmi) (pid : pid_t) (task : U64) (strings : List StdString) : Prop :=
  ∃ mem, ReadsToNul mem (fun i => vmi.readStrFromVA i pid) ∧
    TaskManager.LaidOut mem (vmi.active_mm task).env_start (vmi.active_mm task).env_end strings

namespace ProcessSteps

variable {σ : Type} (steps : ProcessSteps σ)

/-- These processes are constructed and validated, one behind the other. -/
def through (pids : List pid_t) (state : σ) : Option σ :=
  pids.foldlM (fun state pid => (steps.create pid state).bind (steps.validateProcess pid)) state

/-- How the loop ends, if `all` are the reports of the tasks that are to be examined. It ends behind
the last of them if every process is constructed and validated, and in the first step that does not
come back otherwise. -/
structure Outcome (state : σ) (all : List EnvReport) (result : Except ListStop (ListState σ)) :
    Prop where
  ok_iff : ∀ s, result = .ok s ↔
    s.reports = all ∧ steps.through (all.map Prod.fst) state = some s.state
  inCreate_iff : ∀ reports pid, result = .error (.inCreate reports pid) ↔
    ∃ report rest state', all = reports ++ (pid, report) :: rest ∧
      steps.through (reports.map Prod.fst) state = some state' ∧ steps.create pid state' = none
  inValidateProcess_iff : ∀ reports pid, result = .error (.inValidateProcess reports pid) ↔
    ∃ front report rest state' state'', reports = front ++ [(pid, report)] ∧
      all = front ++ (pid, report) :: rest ∧
      steps.through (front.map Prod.fst) state = some state' ∧
      steps.create pid state' = some state'' ∧ steps.validateProcess pid state'' = none
  in_rounds : result ≠ .error .outOfRounds

/-- The round of a user task, once the report is known. -/
def examine (s : ListState σ) (report : EnvReport) : Except ListStop (ListState σ) := do
  let state ← orStop (.inCreate s.reports report.1) (steps.create report.1 s.state)
  let reports := s.reports ++ [report]
  let state ← orStop (.inValidateProcess reports report.1)
    (steps.validateProcess report.1 state)
  return ⟨reports, state⟩

/-- What the round of a user task comes to. -/
theorem examine_cases (s : ListState σ) (report : EnvReport) :
    (steps.create report.1 s.state = none ∧
      steps.examine s report = .error (.inCreate s.reports report.1)) ∨
    ∃ state, steps.create report.1 s.state = some state ∧
      ((steps.validateProcess report.1 state = none ∧
        steps.examine s report =
          .error (.inValidateProcess (s.reports ++ [report]) report.1)) ∨
      ∃ state', steps.validateProcess report.1 state = some state' ∧
        steps.examine s report = .ok ⟨s.reports ++ [report], state'⟩) := by
  cases hcreate : steps.create report.1 s.state with
  | none =>
      refine .inl ⟨rfl, ?_⟩
      rw [examine, hcreate]
      rfl
  | some state =>
      refine .inr ⟨state, rfl, ?_⟩
      cases hvalidate : steps.validateProcess report.1 state with
      | none =>
          refine .inl ⟨rfl, ?_⟩
          rw [examine, hcreate]
          simp only [orStop, bind, Except.bind, hvalidate]
      | some state' =>
          refine .inr ⟨state', rfl, ?_⟩
          rw [examine, hcreate]
          simp only [orStop, bind, Except.bind, hvalidate]
          rfl

section

variable {steps} {s s' : ListState σ} {report : EnvReport} {all : List EnvReport}

theorem examine_eq_ok_iff : steps.examine s report = .ok s' ↔
    s'.reports = s.reports ++ [report] ∧ steps.through [report.1] s.state = some s'.state := by
  obtain ⟨reports', state₂⟩ := s'
  have hthrough : steps.through [report.1] s.state =
      (steps.create report.1 s.state).bind (steps.validateProcess report.1) := by
    rw [through, List.foldlM_cons]
    exact bind_pure _
  rw [hthrough]
  rcases examine_cases steps s report with
    ⟨hcreate, hround⟩ | ⟨state, hcreate, ⟨hvalidate, hround⟩ | ⟨state', hvalidate, hround⟩⟩
  · simp [hround, hcreate]
  · simp [hround, hcreate, hvalidate]
  · simp [hround, hcreate, hvalidate, eq_comm]

theorem examine_inCreate_iff {reports : List EnvReport} {pid : pid_t} :
    steps.examine s report = .error (.inCreate reports pid) ↔
      s.reports = reports ∧ report.1 = pid ∧ steps.create report.1 s.state = none := by
  rcases examine_cases steps s report with
    ⟨hcreate, hround⟩ | ⟨state, hcreate, ⟨-, hround⟩ | ⟨state', -, hround⟩⟩
  · simp [hround, hcreate]
  · simp [hround, hcreate]
  · simp [hround, hcreate]

theorem examine_inValidateProcess_iff {reports : List EnvReport} {pid : pid_t} :
    steps.examine s report = .error (.inValidateProcess reports pid) ↔
      s.reports ++ [report] = reports ∧ report.1 = pid ∧
        ∃ state, steps.create report.1 s.state = some state ∧
          steps.validateProcess report.1 state = none := by
  rcases examine_cases steps s report with
    ⟨hcreate, hround⟩ | ⟨state, hcreate, ⟨hvalidate, hround⟩ | ⟨state', hvalidate, hround⟩⟩
  · simp [hround, hcreate]
  · simp [hround, hcreate, hvalidate]
  · simp [hround, hcreate, hvalidate]

theorem examine_ne_outOfRounds : steps.examine s report ≠ .error .outOfRounds := by
  rcases examine_cases steps s report with
    ⟨-, hround⟩ | ⟨_, -, ⟨-, hround⟩ | ⟨_, -, hround⟩⟩ <;> simp [hround]

theorem through_cons (pid : pid_t) (pids : List pid_t) (state : σ) :
    steps.through (pid :: pids) state =
      (steps.through [pid] state).bind (steps.through pids) := by
  rw [← List.singleton_append, through, List.foldlM_append]
  rfl

theorem foldlM_examine_eq_ok_iff : all.foldlM steps.examine s = .ok s' ↔
    s'.reports = s.reports ++ all ∧
      steps.through (all.map Prod.fst) s.state = some s'.state := by
  induction all generalizing s with
  | nil =>
      obtain ⟨reports, state⟩ := s
      obtain ⟨reports', state'⟩ := s'
      simp [through, pure, Except.pure, eq_comm]
  | cons report all ih =>
      rw [foldlM_cons_eq_ok_iff, List.map_cons, through_cons, Option.bind_eq_some_iff]
      constructor
      · rintro ⟨s₁, hround, hrest⟩
        obtain ⟨hreports, hstate⟩ := examine_eq_ok_iff.mp hround
        obtain ⟨hreports', hstate'⟩ := ih.mp hrest
        refine ⟨?_, s₁.state, hstate, hstate'⟩
        rw [hreports', hreports, List.append_assoc, List.singleton_append]
      · rintro ⟨hreports, state, hstate, hstate'⟩
        refine ⟨⟨s.reports ++ [report], state⟩, examine_eq_ok_iff.mpr ⟨rfl, hstate⟩, ?_⟩
        rw [ih, List.append_assoc]
        exact ⟨hreports, hstate'⟩

/-- The loop over the user tasks, once their reports are known. -/
theorem outcome_foldlM (all : List EnvReport) (state : σ) :
    steps.Outcome state all (all.foldlM steps.examine ⟨[], state⟩) where
  ok_iff _ := foldlM_examine_eq_ok_iff
  inCreate_iff reports pid := by
    rw [foldlM_eq_error_iff]
    constructor
    · rintro ⟨front, ⟨_, report⟩, rest, s', rfl, hfront, hround⟩
      obtain ⟨rfl, rfl, hcreate⟩ := examine_inCreate_iff.mp hround
      obtain ⟨hreports, hstate⟩ := foldlM_examine_eq_ok_iff.mp hfront
      rw [List.nil_append] at hreports
      rw [hreports]
      exact ⟨report, rest, s'.state, rfl, hstate, hcreate⟩
    · rintro ⟨report, rest, state', rfl, hstate, hcreate⟩
      exact ⟨reports, (pid, report), rest, ⟨reports, state'⟩, rfl,
        foldlM_examine_eq_ok_iff.mpr ⟨rfl, hstate⟩,
        examine_inCreate_iff.mpr ⟨rfl, rfl, hcreate⟩⟩
  inValidateProcess_iff reports pid := by
    rw [foldlM_eq_error_iff]
    constructor
    · rintro ⟨front, ⟨_, report⟩, rest, s', rfl, hfront, hround⟩
      obtain ⟨rfl, rfl, state', hcreate, hvalidate⟩ := examine_inValidateProcess_iff.mp hround
      obtain ⟨hreports, hstate⟩ := foldlM_examine_eq_ok_iff.mp hfront
      rw [List.nil_append] at hreports
      rw [hreports]
      exact ⟨front, report, rest, s'.state, state', rfl, rfl, hstate, hcreate, hvalidate⟩
    · rintro ⟨front, report, rest, state', state'', rfl, rfl, hstate, hcreate, hvalidate⟩
      exact ⟨front, (pid, report), rest, ⟨front, state'⟩, rfl,
        foldlM_examine_eq_ok_iff.mpr ⟨rfl, hstate⟩,
        examine_inValidateProcess_iff.mpr ⟨rfl, rfl, state'', hcreate, hvalidate⟩⟩
  in_rounds h := by
    obtain ⟨_, report, _, s', -, -, hround⟩ := foldlM_eq_error_iff.mp h
    exact examine_ne_outOfRounds hround

end

end ProcessSteps

namespace TaskManager

section

variable {σ : Type} {tm : TaskManager} {vmi : GuestVmi} {groups : GuestGroups} {tasks : List U64}
  {t : U64}

/-- From some number of rounds on, the search for a task is over. -/
theorem getTaskForPID_eq (h : TaskList tm.kernel tasks) (hinit : tm.initTask ∈ tasks)
    (ht : t ∈ tasks) :
    ∃ N, ∀ n ≥ N, tm.getTaskForPID (tm.pidOf t) n =
      some (if t = tm.nextTask tm.initTask then 0 else t) := by
  obtain ⟨l, hrot, N, hN⟩ := getTaskForPID_returns h hinit (tm.pidOf t)
  rw [find?_pidOf h hrot ht] at hN
  refine ⟨N, fun n hn => ?_⟩
  rw [getTaskForPID, within_of_le hn hN]
  split <;> rfl

theorem terminated_eq (h : TaskList tm.kernel tasks) (hinit : tm.initTask ∈ tasks)
    (ht : t ∈ tasks) :
    ∃ N, ∀ n ≥ N, tm.terminated (tm.pidOf t) n =
      some (decide (t = tm.nextTask tm.initTask)) := by
  obtain ⟨N, hN⟩ := getTaskForPID_eq h hinit ht
  refine ⟨N, fun n hn => ?_⟩
  rw [terminated, hN n hn, Option.map_some]
  by_cases hnext : t = tm.nextTask tm.initTask
  · simp [hnext]
  · have hnull : t ≠ 0 := h.ne_null t ht
    rw [if_neg hnext, beq_false_of_ne hnull, decide_eq_false hnext]

/-- The environment of a task is compared with the settings. -/
theorem checkEnvironment_eq (h : TaskList tm.kernel tasks) (hinit : tm.initTask ∈ tasks)
    (ht : t ∈ tasks) (hnext : t ≠ tm.nextTask tm.initTask) {strings : List StdString}
    (henv : EnvironmentOf vmi (tm.pidOf t) t strings)
    (inputMap : OrderedMap StdString StdString) :
    ∃ N, ∀ n ≥ N, tm.checkEnvironment vmi inputMap (tm.pidOf t) n =
      some ((mismatches inputMap strings).length, mismatches inputMap strings) := by
  obtain ⟨mem, hread, hlaid⟩ := henv
  obtain ⟨N, hN⟩ := getTaskForPID_eq h hinit ht
  obtain ⟨M, hM⟩ := stringRound_returns (f := setEnvironment) hread hlaid.nul_free hlaid.holds
    hlaid.stop_eq fun _ => none
  -- a string of the block is shorter than the address space
  have hlen : ∀ s ∈ strings, s.length < 2 ^ 64 := by
    intro s hs
    have hlt := length_lt_of_mem_nulBlock hs
    have hstop := hlaid.stop_eq
    have hbound := (vmi.active_mm t).env_end.isLt
    omega
  refine ⟨max N M, fun n hn => ?_⟩
  have htask := hN n (by omega)
  rw [if_neg hnext] at htask
  rw [checkEnvironment, getEnvForTask, htask]
  simp only [within_of_le (show M ≤ n by omega) hM, Option.map_some]
  have hmap : ∀ name, strings.foldl setEnvironment (fun _ => none) name =
      lastDefinition strings name := by
    intro name
    rw [foldl_setEnvironment hlen, Option.or_none]
  rw [foldl_checkSetting hmap]
  simp [mismatches]

/-- A user task that the search finds. -/
def Listed (tm : TaskManager) (groups : GuestGroups) (t : U64) : Prop :=
  t ≠ tm.nextTask tm.initTask ∧ groups.isKernelTask t = false

instance (tm : TaskManager) (groups : GuestGroups) : DecidablePred (tm.Listed groups) :=
  fun _ => inferInstanceAs (Decidable (_ ∧ _))

/-- What is to be put down for a task. -/
def envReport (tm : TaskManager) (env : U64 → List StdString) (t : U64) : EnvReport :=
  (tm.pidOf t, (mismatches configEnv (env t)).length, mismatches configEnv (env t))

/-- From some number of rounds on, a task is passed over, or its environment is compared between the
construction and the validation of its process. -/
theorem listProc_eq (h : TaskList tm.kernel tasks) (hinit : tm.initTask ∈ tasks)
    {env : U64 → List StdString}
    (henv : ∀ t ∈ tasks, tm.Listed groups t → EnvironmentOf vmi (tm.pidOf t) t (env t))
    (steps : ProcessSteps σ) (ht : t ∈ tasks) :
    ∃ N, ∀ n ≥ N, ∀ s, tm.listProc vmi groups steps n s (tm.pidOf t, t) =
      if tm.Listed groups t then steps.examine s (tm.envReport env t) else .ok s := by
  obtain ⟨N, hN⟩ := terminated_eq h hinit ht
  by_cases hnext : t = tm.nextTask tm.initTask
  · refine ⟨N, fun n hn s => ?_⟩
    have hterm := hN n hn
    rw [decide_eq_true hnext] at hterm
    rw [if_neg fun hlisted => hlisted.1 hnext, listProc, hterm]
    rfl
  have hterm : ∀ n ≥ N, tm.terminated (tm.pidOf t) n = some false := by
    intro n hn
    rw [hN n hn, decide_eq_false hnext]
  cases hkernel : groups.isKernelTask t with
  | true =>
      refine ⟨N, fun n hn s => ?_⟩
      have hnot : ¬ tm.Listed groups t := by simp [Listed, hkernel]
      rw [if_neg hnot, listProc, hterm n hn]
      simp only [orStop, bind, Except.bind, hkernel]
      rfl
  | false =>
      obtain ⟨M, hM⟩ := checkEnvironment_eq h hinit ht hnext
        (henv t ht ⟨hnext, hkernel⟩) configEnv
      refine ⟨max N M, fun n hn s => ?_⟩
      rw [if_pos (show tm.Listed groups t from ⟨hnext, hkernel⟩), listProc, hterm n (by omega)]
      simp only [orStop, bind, Except.bind, hkernel, hM n (by omega)]
      rfl

theorem foldlM_listProc {steps : ProcessSteps σ} {l : List U64} {n : Nat}
    {env : U64 → List StdString}
    (hround : ∀ t ∈ l, ∀ s, tm.listProc vmi groups steps n s (tm.pidOf t, t) =
      if tm.Listed groups t then steps.examine s (tm.envReport env t) else .ok s)
    (s : ListState σ) :
    (l.map fun t => (tm.pidOf t, t)).foldlM (tm.listProc vmi groups steps n) s =
      ((l.filter (tm.Listed groups)).map (tm.envReport env)).foldlM steps.examine s := by
  induction l generalizing s with
  | nil => rfl
  | cons t l ih =>
      rw [List.forall_mem_cons] at hround
      rw [List.map_cons, List.foldlM_cons, hround.1]
      by_cases hlisted : tm.Listed groups t
      · rw [if_pos hlisted, List.filter_cons_of_pos (by simpa using hlisted), List.map_cons,
          List.foldlM_cons]
        congr 1
        funext s'
        exact ih hround.2 s'
      · rw [if_neg hlisted, List.filter_cons_of_neg (by simpa using hlisted)]
        exact ih hround.2 s

/-- The way of the program through the tasks of a guest that stands still, whatever the construction
and the validation of a process do. The tasks to be examined are the user tasks but the one behind
`initTask`, each once and in the order of the list, and for each of them the settings are to be
reported whose last definition has another value. If every process comes back, the loop ends and has
reported just this; otherwise the first step that does not come back is the end of it, with the
reports of the tasks until then. -/
theorem listProcs_exact (h : TaskList tm.kernel tasks) (hinit : tm.initTask ∈ tasks)
    (env : U64 → List StdString)
    (henv : ∀ t ∈ tasks, tm.Listed groups t → EnvironmentOf vmi (tm.pidOf t) t (env t))
    (steps : ProcessSteps σ) (state : σ) :
    ∃ l, tasks.IsRotated (tm.initTask :: l) ∧ ∃ N, ∀ n ≥ N,
      steps.Outcome state (((tm.initTask :: l).filter (tm.Listed groups)).map (tm.envReport env))
        (tm.listProcs vmi groups steps n state) := by
  obtain ⟨l, hrot, N, hN⟩ := getTasks_returns h hinit
  have hmem : ∀ t ∈ tm.initTask :: l, t ∈ tasks := fun t ht => hrot.mem_iff.mpr ht
  obtain ⟨M, hM⟩ := exists_common_depth fun t ht => listProc_eq h hinit henv steps (hmem t ht)
  refine ⟨l, hrot, max N M, fun n hn => ?_⟩
  have htasks : tm.getTasks n = some ((tm.initTask :: l).map fun t => (tm.pidOf t, t)) :=
    within_of_le (show N ≤ n by omega) hN
  have hloop : tm.listProcs vmi groups steps n state =
      (((tm.initTask :: l).filter (tm.Listed groups)).map (tm.envReport env)).foldlM
        steps.examine ⟨[], state⟩ := by
    rw [listProcs, htasks]
    exact foldlM_listProc (fun t ht => hM t ht n (by omega)) ⟨[], state⟩
  rw [hloop]
  exact ProcessSteps.outcome_foldlM _ state

end

/-! ## A preloaded library -/

/-! ## A preloaded library -/

/-- The environment of three user tasks. -/
def preloadEnv : List StdString := [asciiBytes "A=b", asciiBytes "LD_PRELOAD=/x"]

def preloadVmi : GuestVmi where
  active_mm _ := { arg_start := 0x7000, arg_end := 0x7000, env_start := 0x7000, env_end := 0x7012 }
  readStrFromVA i _ := stringAt (fun a => (nulBlock preloadEnv).getD (a - 0x7000).toNat 0) i

def userGroup : GuestGroups where
  group_leader t := t
  pgid t := t
  nr _ := 3

/-- The steps of the program: the construction of a process, up to the loading of its files, which
the processes behind it know, and its validation. -/
def processSteps (disk : LibraryDisk) (n : Nat) (exe : pid_t → String)
    (mappedVMAs : pid_t → List VMAInfo) (val : pid_t → LibraryState → ProcessValidator)
    (d : Disassembler) (order : IterationOrder) : ProcessSteps LibraryState where
  create pid libraries :=
    match constructProcess disk n (exe pid) (mappedVMAs pid) libraries with
    | .ok s => some s.libraries
    | .error _ => none
  validateProcess pid libraries :=
    match (val pid libraries).validateProcess d order with
    | .ok _ => some libraries
    | .error _ => none

/-- Three processes of the program `a`, with two pointers each. -/
def chainSteps : ProcessSteps LibraryState :=
  processSteps chain 3 (fun _ => "a") (fun _ => chainMappings)
    (fun _ _ => ProcessValidator.twoPointers) ProcessValidator.noInstructions
    ProcessValidator.storedOrder

theorem preloadEnv_laidOut : LaidOut (fun a => (nulBlock preloadEnv).getD (a - 0x7000).toNat 0)
    0x7000 0x7012 preloadEnv where
  nul_free := by decide
  holds := by
    show ∀ k, (h : k < 18) → _
    decide
  stop_eq := by decide

theorem environmentOf_preloadVmi (pid : pid_t) (task : U64) :
    EnvironmentOf preloadVmi pid task preloadEnv := by
  refine ⟨fun a => (nulBlock preloadEnv).getD (a - 0x7000).toNat 0, ?_, preloadEnv_laidOut⟩
  simp only [preloadVmi]
  exact stringAt_readsToNul _

theorem listProcs_exact_three :
    ∃ l, [0x1000, 0x2000, 0x3000].IsRotated (threeTasksManager.initTask :: l) ∧
      ∃ N, ∀ n ≥ N, chainSteps.Outcome .empty
        (((threeTasksManager.initTask :: l).filter (threeTasksManager.Listed userGroup)).map
          (threeTasksManager.envReport fun _ => preloadEnv))
        (threeTasksManager.listProcs preloadVmi userGroup chainSteps n .empty) :=
  listProcs_exact threeTasks_taskList (by decide) (fun _ => preloadEnv)
    (fun t _ _ => environmentOf_preloadVmi _ t) chainSteps .empty

end TaskManager

end KernInt
