/-
# `MP3.CommandLine` — the priorities on the command line

`-e file` starts a program with priority 0 and `-ep file priority` with any
number: `atoi`, `ExeFileInfo`, `Exec`, the constructor of `Thread` and
`OrderManager` pass it on as it is, and `getLevel` files everything outside 0 …
99 under L1.  The first to look at it is `setPriority`, when the thread has
waited for 1500 ticks.

A run is a run of the kernel (`MP3.Runs`) in which the main thread goes through
the loop of `ExecAll`; all other threads have priority 0.  The priorities stay
in range in every run just when those of the command line are.

## The two directions

In range at the start, in range for ever: `Good` holds of the machine before the
first action and is kept by each (`Good.step`).  The other direction needs a
run, for a number out of range has to reach a thread: with `Kernel.InLoop` the
main thread gets to the file in question, whatever was started before it, and
`Exec` makes a thread with that priority.

The condition is on the arguments of the program, not on the table of files that
is made of them: `priorityArguments` are the strings after each `-ep`, and
`IsPriority` asks of a string what `atoi` makes of it.  `priority_jumps_queue`
is what becomes of a negative one: -5 is filed under L1 and stays there, and
-100 ends in the assertion of `setPriority`.
-/
import EroikoBlue.MP3.Order

namespace EroikoBlue.MP3

open SystemQueue (Lined)

/-! ## The command line -/

/-- `isspace`. -/
def isSpace (c : Char) : Bool := c = ' ' || 9 ≤ c.toNat && c.toNat ≤ 13

/-- The number that the digits in front of a string are. -/
def digits (n : Nat) : List Char → Nat
  | c :: s => if c.isDigit then digits (10 * n + (c.toNat - '0'.toNat)) s else n
  | [] => n

/-- `atoi`; the behaviour is undefined where the number is no `int`. -/
def atoi (s : String) : Except Fault Int :=
  let n : Int := match s.toList.dropWhile isSpace with
    | '-' :: s => - digits 0 s
    | '+' :: s => digits 0 s
    | s => digits 0 s
  if -2 ^ 31 ≤ n ∧ n < 2 ^ 31 then pure n else .error (.undefined "atoi")

structure ExeFileInfo where
  name : String
  priority : Int
  deriving DecidableEq, Repr

/-- `execfile[++execfileNum] = file`, where `execfileNum` starts at 0. -/
def addFile (execfile : List ExeFileInfo) (file : ExeFileInfo) :
    Except Fault (List ExeFileInfo) :=
  if execfile.length < 9 then pure (execfile ++ [file])
    else .error (.undefined "execfile[10]")

/-- The loop of `Kernel::Kernel` over the arguments; `argv[argc]` is no
string. -/
def kernelOptions (execfile : List ExeFileInfo) : List String →
    Except Fault (List ExeFileInfo)
  | [] => pure execfile
  | arg :: argv =>
    if arg = "-e" then
      match argv with
      | name :: argv => do
        let execfile ← addFile execfile ⟨name, 0⟩
        kernelOptions execfile argv
      | [] => .error (.undefined "argv[argc]")
    else if arg = "-ep" then
      match argv with
      | name :: pri :: argv => do
        let pri ← atoi pri
        let execfile ← addFile execfile ⟨name, pri⟩
        kernelOptions execfile argv
      | _ => .error (.undefined "argv[argc]")
    else if arg ∈ ["-rs", "-ci", "-co", "-n", "-m"] then
      match argv with
      | _ :: argv => kernelOptions execfile argv
      | [] => .error (.assertFailed "")
    else kernelOptions execfile argv

/-- The last argument of each `-ep` that the loop comes to, as it was typed. -/
def priorityArguments : List String → List String
  | [] => []
  | arg :: argv =>
    if arg = "-ep" then
      match argv with
      | _ :: pri :: argv => pri :: priorityArguments argv
      | _ => []
    else if arg ∈ ["-e", "-rs", "-ci", "-co", "-n", "-m"] then
      match argv with
      | _ :: argv => priorityArguments argv
      | [] => []
    else priorityArguments argv

/-- An argument that stands for a priority. -/
def IsPriority (pri : String) : Prop := ∃ n, atoi pri = .ok n ∧ 0 ≤ n ∧ n < 150

/-- The loop of `main` over the arguments, which comes first. -/
def mainOptions : List String → Except Fault Unit
  | [] => pure ()
  | arg :: argv =>
    if arg = "-d" ∨ arg = "-x" then
      match argv with
      | _ :: argv => mainOptions argv
      | [] => .error (.assertFailed "")
    else mainOptions argv

/-- The files to execute, from the arguments after the name of the program. -/
def commandLine (argv : List String) : Except Fault (List ExeFileInfo) := do
  mainOptions argv
  kernelOptions [] argv

/-! ## `ExecAll` -/

/-- `Kernel::Exec`; the new thread is at the address `t`. -/
def Kernel.exec (k : Kernel) (t : ThreadId) (file : ExeFileInfo) :
    Except Fault Kernel :=
  (k.create t file.priority).fork t

/-- The kernel, and the files the loop of `ExecAll` has not come to. -/
structure Machine where
  kernel : Kernel
  files : List ExeFileInfo

/-- What happens next: a turn of the loop of `ExecAll`, or anything else. -/
inductive Action where
  | exec (t : ThreadId)
  | other (op : Op)

def Action.run (m : Machine) : Action → Except Fault Machine
  | .exec t =>
    match m.files with
    | [] => pure m
    | file :: files => do
      let kernel ← m.kernel.exec t file
      pure ⟨kernel, files⟩
  | .other op => do
    let kernel ← op.run m.kernel
    pure { m with kernel := kernel }

/-- `new Thread` is called without a priority but in `Exec`. -/
def Op.DefaultPriority : Op → Prop
  | .create _ priority => priority = 0
  | _ => True

/-- The main thread, at address 0, finishes after the loop. -/
def Action.Allowed (m : Machine) : Action → Prop
  | .exec t => m.files ≠ [] ∧ m.kernel.Executing ∧ m.kernel.currentThread = 0 ∧
        m.kernel.threads t = none
  | .other op => op.Allowed m.kernel ∧ op.DefaultPriority ∧
      (op = .finish → m.kernel.currentThread = 0 → m.files = [])

/-- The states of all runs that start with these files to execute. -/
inductive Runs (files : List ExeFileInfo) : Machine → Prop
  | start {values : SemId → Int} {k : Kernel}
      (hrun : Kernel.boot values = .ok k) : Runs files ⟨k, files⟩
  | step {m m' : Machine} (h : Runs files m) (action : Action)
      (hallowed : action.Allowed m)
      (hrun : action.run m = .ok m') : Runs files m'

/-- Every priority is in range, `setPriority` will not complain, and the ready
threads are in the queues of their levels. -/
structure PrioritiesOk (m : Machine) : Prop where
  range : ∀ t th, m.kernel.threads t = some th → 0 ≤ th.getPriority ∧
    th.getPriority < 150
  silent : ∀ action : Action, action.Allowed m →
    action.run m ≠ .error (.assertFailed "attempt to set an invalid priority: ")
  filed : ∀ t lv, (m.kernel.readyList.queue lv).count t =
    if m.kernel.threads.status t = some .READY ∧
      m.kernel.threads.level t = lv then 1 else 0

def ExeFileInfo.InRange (file : ExeFileInfo) : Prop := 0 ≤ file.priority ∧
    file.priority < 150

/-! ## The arguments and the files -/

theorem addFile_eq_ok {execfile execfile' : List ExeFileInfo}
    {file : ExeFileInfo} (h : addFile execfile file = .ok execfile') :
    execfile' = execfile ++ [file] := by
  rw [addFile] at h
  split at h
  · cases h
    rfl
  · cases h

theorem inRange_concat {execfile : List ExeFileInfo} {file : ExeFileInfo} :
    (∀ f ∈ execfile ++ [file], f.InRange) ↔ (∀ f ∈ execfile, f.InRange) ∧
      file.InRange := by
  rw [List.forall_mem_append, List.forall_mem_singleton]

section
variable {arg : String} {argv : List String}

theorem priorityArguments_ep {name pri : String} :
    priorityArguments ("-ep" :: name :: pri :: argv) =
      pri :: priorityArguments argv := by
  rw [priorityArguments.eq_def]
  exact if_pos rfl

theorem priorityArguments_option {value : String} (hep : arg ≠ "-ep")
    (hoption : arg ∈ ["-e", "-rs", "-ci", "-co", "-n", "-m"]) :
    priorityArguments (arg :: value :: argv) = priorityArguments argv := by
  rw [priorityArguments.eq_def]
  exact (if_neg hep).trans (if_pos hoption)

theorem priorityArguments_other (hep : arg ≠ "-ep")
    (hoption : arg ∉ ["-e", "-rs", "-ci", "-co", "-n", "-m"]) :
    priorityArguments (arg :: argv) = priorityArguments argv := by
  rw [priorityArguments.eq_def]
  exact (if_neg hep).trans (if_neg hoption)

end

/-- The loop adds a file of priority 0 for each `-e`, and for each `-ep` one of
the priority that is typed there: all are in range if those before it are and
what is typed is. -/
theorem kernelOptions_inRange (execfile : List ExeFileInfo) (argv : List String)
    {files : List ExeFileInfo} (h : kernelOptions execfile argv = .ok files) :
    (∀ file ∈ files, file.InRange) ↔
      (∀ file ∈ execfile, file.InRange) ∧
      ∀ pri ∈ priorityArguments argv, IsPriority pri := by
  induction execfile, argv using kernelOptions.induct with
  | case1 execfile =>
      cases h
      exact (and_iff_left nofun).symm
  | case2 execfile name argv ih =>
      rw [kernelOptions, if_pos rfl] at h
      obtain ⟨execfile', hadd, h⟩ := Outcome.bind_eq_ok.mp h
      rw [ih execfile' h, addFile_eq_ok hadd, inRange_concat,
        priorityArguments_option (by decide) (by decide)]
      have hzero : ExeFileInfo.InRange ⟨name, 0⟩ :=
        ⟨Int.le_refl 0, show (0 : Int) < 150 by decide⟩
      exact and_congr_left' (and_iff_left hzero)
  | case3 execfile =>
      rw [kernelOptions, if_pos rfl] at h
      cases h
  | case4 execfile name pri argv _ ih =>
      rw [kernelOptions, if_neg (by decide), if_pos rfl] at h
      obtain ⟨n, hatoi, h⟩ := Outcome.bind_eq_ok.mp h
      obtain ⟨execfile', hadd, h⟩ := Outcome.bind_eq_ok.mp h
      have hpri : IsPriority pri ↔ (0 ≤ n ∧ n < 150) := by
        constructor
        · rintro ⟨m, hm, hrange⟩
          cases hatoi.symm.trans hm
          exact hrange
        · exact fun hrange => ⟨n, hatoi, hrange⟩
      rw [ih execfile' h, addFile_eq_ok hadd, inRange_concat,
        priorityArguments_ep, List.forall_mem_cons,
        hpri, and_assoc]
      exact Iff.rfl
  | case5 execfile argv hshort _ =>
      rw [kernelOptions.eq_def] at h
      dsimp only at h
      rw [if_neg (by decide), if_pos rfl] at h
      split at h
      · next name pri argv => exact (hshort name pri argv rfl).elim
      · cases h
  | case6 execfile arg he hep harg name argv ih =>
      rw [kernelOptions, if_neg he, if_neg hep, if_pos harg] at h
      rw [ih h, priorityArguments_option hep (List.mem_cons_of_mem _ harg)]
  | case7 execfile arg he hep harg =>
      rw [kernelOptions, if_neg he, if_neg hep, if_pos harg] at h
      cases h
  | case8 execfile arg argv he hep harg ih =>
      have hoption : arg ∉ ["-e", "-rs", "-ci", "-co", "-n", "-m"] :=
        List.not_mem_cons_of_ne_of_not_mem he harg
      rw [kernelOptions.eq_def] at h
      dsimp only at h
      rw [if_neg he, if_neg hep, if_neg harg] at h
      rw [ih h, priorityArguments_other hep hoption]

theorem commandLine_inRange {argv : List String} {files : List ExeFileInfo}
    (h : commandLine argv = .ok files) :
    (∀ file ∈ files, file.InRange) ↔
      ∀ pri ∈ priorityArguments argv, IsPriority pri := by
  obtain ⟨_, -, h⟩ := Outcome.bind_eq_ok.mp h
  exact (kernelOptions_inRange [] argv h).trans (and_iff_right nofun)

/-! ## What `Exec` does -/

/-- The new thread, when it has been forked. -/
def ExeFileInfo.thread (file : ExeFileInfo) (now : Int) : Thread :=
  (Thread.new file.priority now).become .READY
    ((OrderManager.new file.priority now).toReady now)

/-- The kernel after `Exec`; `q` are the ready queues. -/
def Kernel.started (k : Kernel) (t : ThreadId) (file : ExeFileInfo)
    (q : SystemQueue) : Kernel :=
  { k with threads := Function.update k.threads t (some (file.thread k.totalTicks)), readyList := q }

section
variable {S : Prop} {k : Kernel} {t : ThreadId} {file : ExeFileInfo}

theorem Inv.exec_eq (h : Inv S k) (ht : k.threads t = none)
    (file : ExeFileInfo) :
    ∃ q, k.exec t file = .ok (k.started t file q) := by
  have hnot : t ∉ k.readyList.all := by
    intro hmem
    have hready : k.threads.status t = some .READY :=
      h.queues.lined.ready t hmem
    rw [Threads.status, ht] at hready
    cases hready
  let T := Function.update k.threads t (some (file.thread k.totalTicks))
  have hnow : T t = some (file.thread k.totalTicks) :=
    Function.update_self _ _ _
  have hlined : Lined S T k.readyList := by
    refine h.queues.lined.congr ?_
    intro x hx
    have hne : x ≠ t := by
      rintro rfl
      exact hnot hx
    exact Function.update_of_ne hne _ _
  obtain ⟨q, hq, _⟩ :=
    hlined.append_ok k.totalTicks (Threads.status_eq hnow) hnot
  refine ⟨q, ?_⟩
  have hset : Kernel.setStatus { k.create t file.priority with
      level := .IntOff } t .READY =
      .ok { k.create t file.priority with
        level := .IntOff
        threads := Function.update (k.create t file.priority).threads t
            (some (file.thread k.totalTicks)) } :=
    Kernel.setStatus_ok (Function.update_self _ _ _)
      (Thread.setStatus_created _ _ rfl)
  have hidem : Function.update (k.create t file.priority).threads t
      (some (file.thread k.totalTicks)) = T :=
    Function.update_idem _ _ _
  rw [Kernel.exec, Kernel.fork, Kernel.readyToRun, assertMsg_pos rfl, Outcome.ok_bind, hset, Outcome.ok_bind, hidem]
  dsimp only [Kernel.create]
  rw [hq]
  rfl

theorem Inv.exec_ok (h : Inv S k) (ht : k.threads t = none)
    (hfile : file.InRange) :
    ∃ k', k.exec t file = .ok k' ∧ Inv S k' := by
  obtain ⟨hinv, _⟩ := h.create_ok ht hfile
  obtain ⟨k', hrun, hinv', _⟩ :=
    hinv.fork_ok (Threads.status_update_self (t := t))
  exact ⟨k', hrun, hinv'⟩

end

/-! ## Priorities in range stay in range -/

namespace Machine
variable {files : List ExeFileInfo} {m m' : Machine}

/-- The invariant of the kernel, and the programs still to start are given
priorities in range. -/
structure Good (m : Machine) : Prop where
  inv : Inv False m.kernel
  inRange : ∀ file ∈ m.files, file.InRange

theorem Good.step (h : m.Good) {action : Action} (hallowed : action.Allowed m) :
    ∃ m', action.run m = .ok m' ∧ m'.Good := by
  cases action with
  | exec t =>
      obtain ⟨k, files⟩ := m
      obtain ⟨hne, _, _, ht⟩ := hallowed
      cases files with
      | nil => exact absurd rfl hne
      | cons file files =>
          obtain ⟨k', hrun, hinv⟩ := h.inv.exec_ok ht (h.inRange file (.head _))
          refine ⟨⟨k', files⟩, ?_, hinv, fun f hf => h.inRange f (.tail _ hf)⟩
          dsimp only [Action.run]
          rw [hrun]
          rfl
  | other op =>
      obtain ⟨k', hrun, hinv, _⟩ := h.inv.step op hallowed.1 nofun
      refine ⟨{ m with kernel := k' }, ?_, hinv, h.inRange⟩
      rw [Action.run, hrun]
      rfl

theorem good_of_runs (hfiles : ∀ file ∈ files, file.InRange)
    (h : Runs files m) : m.Good := by
  induction h with
  | start hrun => exact ⟨boot_inv hrun, hfiles⟩
  | step _ action hallowed hrun ih =>
      obtain ⟨m', hrun', hgood⟩ := ih.step hallowed
      cases hrun.symm.trans hrun'
      exact hgood

theorem Good.prioritiesOk (h : m.Good) : PrioritiesOk m where
  range t th hth := by
    have hwf := h.inv.queues.wf t th hth
    exact ⟨hwf.init.trans hwf.ge_init, hwf.lt⟩
  silent action hallowed := by
    obtain ⟨m', hrun, _⟩ := h.step hallowed
    rw [hrun]
    exact nofun
  filed := count_queue h.inv

end Machine

/-! ## And others are not noticed -/

/-- The main thread is in the loop, and has started at most `n` programs. -/
structure Kernel.InLoop (k : Kernel) (n : Nat) : Prop where
  inv : Inv False k
  executing : k.Executing
  main : k.currentThread = 0
  free : ∀ t, n < t → k.threads t = none

/-- If nothing goes wrong in any run, then the loop goes on to its end, and no
priority is out of range. -/
theorem Kernel.InLoop.inRange {files : List ExeFileInfo}
    (hok : ∀ m, Runs files m → PrioritiesOk m) :
    ∀ {rest : List ExeFileInfo} {k : Kernel} {n : Nat}, Runs files ⟨k, rest⟩ →
      k.InLoop n →
      ∀ file ∈ rest, file.InRange
  | [], _, _, _, _ => nofun
  | file :: rest, k, n, hruns, hloop => by
      have ht : k.threads (n + 1) = none := hloop.free _ (Nat.lt_succ_self n)
      obtain ⟨q, hexec⟩ := hloop.inv.exec_eq ht file
      have hruns' : Runs files ⟨k.started (n + 1) file q, rest⟩ := by
        refine hruns.step (.exec (n + 1)) ⟨nofun, hloop.executing,
          hloop.main, ht⟩ ?_
        dsimp only [Action.run]
        rw [hexec]
        rfl
      have hfile : file.InRange := (hok _ hruns').range (n + 1) _ (Function.update_self _ _ _)
      obtain ⟨k', hrun', hinv⟩ := hloop.inv.exec_ok ht hfile
      cases hexec.symm.trans hrun'
      have hloop' : InLoop (k.started (n + 1) file q) (n + 1) := by
        refine ⟨hinv, ⟨hloop.executing.1, ?_⟩, hloop.main, ?_⟩
        · refine (Threads.waitsFor_update_of_ne fun heq => ?_).trans
            hloop.executing.2
          exact Nat.succ_ne_zero n (heq.symm.trans hloop.main)
        · intro t htn
          exact (Function.update_of_ne (Nat.ne_of_gt htn) _ _).trans
            (hloop.free t (Nat.lt_of_succ_lt htn))
      intro f hf
      rcases List.mem_cons.mp hf with rfl | hf
      · exact hfile
      · exact InLoop.inRange hok hruns' hloop' f hf

theorem inLoop_booted : booted.InLoop 0 where
  inv := boot_inv (boot_eq fun _ => 0)
  executing := ⟨rfl, rfl⟩
  main := rfl
  free _ ht := if_neg (Nat.ne_of_gt ht)

/-- The priorities stay in range in every run just when all that are typed on
the command line are. -/
theorem priorities_in_range_iff {argv : List String} {files : List ExeFileInfo}
    (h : commandLine argv = .ok files) :
    (∀ m, Runs files m → PrioritiesOk m) ↔
      ∀ pri ∈ priorityArguments argv, IsPriority pri := by
  rw [← commandLine_inRange h]
  constructor
  · intro hok
    exact Kernel.InLoop.inRange hok (.start (boot_eq fun _ => 0)) inLoop_booted
  · intro hfiles m hruns
    exact (Machine.good_of_runs hfiles hruns).prioritiesOk

theorem priorities_in_range_iff_two :
    (∀ m, Runs [⟨"hw1", 49⟩, ⟨"hw2", 0⟩] m → PrioritiesOk m) ↔
      ∀ pri ∈ priorityArguments ["-ep", "hw1", "49", "-e", "hw2"],
        IsPriority pri :=
  @priorities_in_range_iff ["-ep", "hw1", "49", "-e",
    "hw2"] _ (by decide +kernel)

/-! ## What becomes of a priority out of range -/

instance : (op : Op) → Decidable op.DefaultPriority
  | .create _ priority => inferInstanceAs (Decidable (priority = 0))
  | .fork _ | .yield | .p _ | .pLoop _ | .v _ | .finish | .setLevel _
  | .setStatus _ | .advance _ | .callBack
  | .handlersDone | .idleReturn => inferInstanceAs (Decidable True)

instance (m : Machine) : (action : Action) → Decidable (action.Allowed m)
  | .exec t => inferInstanceAs (Decidable (m.files ≠ [] ∧ m.kernel.Executing ∧
        m.kernel.currentThread = 0 ∧
      m.kernel.threads t = none))
  | .other op =>
    have : Decidable (op = .finish) := match op with
      | .finish => isTrue rfl
      | .create .. | .fork .. | .yield | .p .. | .pLoop .. | .v ..
      | .setLevel .. | .setStatus .. | .advance ..
      | .callBack | .handlersDone | .idleReturn => isFalse nofun
    inferInstanceAs (Decidable (op.Allowed m.kernel ∧ op.DefaultPriority ∧
      (op = .finish → m.kernel.currentThread = 0 → m.files = [])))

/-- A run, if each of its steps is one. -/
def Machine.steps (m : Machine) : List Action → Option Machine
  | [] => some m
  | action :: actions =>
    if action.Allowed m then
      match action.run m with
      | .ok m' => m'.steps actions
      | .error _ => none
    else none

theorem Runs.steps {files : List ExeFileInfo} :
    ∀ {actions : List Action} {m m' : Machine}, Runs files m →
    m.steps actions = some m' → Runs files m'
  | [], m, m', h, hrun => by
      cases hrun
      exact h
  | action :: actions, m, m', h, hrun => by
      rw [Machine.steps] at hrun
      split at hrun
      · next hallowed =>
          split at hrun
          · next hstep => exact (h.step action hallowed hstep).steps hrun
          · cases hrun
      · cases hrun

/-- The first program has priority 120 and goes on for 1500 ticks, in which the
second waits. -/
def waiting : List Action :=
  [.exec 1, .exec 2] ++ (Op.yield :: ticking 14 ++ [Op.advance 100]).map
    Action.other

/-- With priority -5, the second waits in L1; then it ages to 5, and is still in
L1. With priority -100 the assertion of `setPriority` fails. -/
theorem priority_jumps_queue :
    commandLine ["-ep", "hw1", "120", "-ep", "hw2", "-5"] = .ok [⟨"hw1", 120⟩,
        ⟨"hw2", -5⟩] ∧
      (¬ ∀ m, Runs [⟨"hw1", 120⟩, ⟨"hw2", -5⟩] m → PrioritiesOk m) ∧
      (∃ m, Runs [⟨"hw1", 120⟩, ⟨"hw2", -5⟩] m ∧ m.kernel.readyList.L1 = [2] ∧
        m.kernel.threads.priority 2 = 5) ∧
      ∃ m, Runs [⟨"hw1", 120⟩, ⟨"hw2", -100⟩] m ∧
        (Action.other .callBack).run m =
          .error (.assertFailed "attempt to set an invalid priority: ") := by
  have hstart : ∀ files, Runs files ⟨booted, files⟩ :=
    fun files => .start (boot_eq fun _ => 0)
  obtain ⟨m, hrun, hm⟩ := Option.map_eq_some_iff.mp
      (show (Machine.steps ⟨booted, [⟨"hw1", 120⟩, ⟨"hw2", -5⟩]⟩
      (waiting ++ [.other .callBack])).map (fun m => (m.kernel.readyList.L1,
        m.kernel.threads.priority 2,
        m.kernel.threads.status 2, m.kernel.threads.level 2)) = some ([2], 5,
          some .READY, .Lv3) by decide +kernel)
  simp only [Prod.mk.injEq] at hm
  obtain ⟨hL1, hpriority, hready, hlevel⟩ := hm
  have hruns := (hstart _).steps hrun
  refine ⟨by decide +kernel, ?_, ⟨m, hruns, hL1, hpriority⟩, ?_⟩
  · intro hok
    have hcount := (hok m hruns).filed 2 .Lv1
    rw [hlevel, if_neg (fun h => nomatch h.2),
      show m.kernel.readyList.queue .Lv1 = [2] from hL1] at hcount
    exact absurd hcount (by decide)
  · obtain ⟨m, hrun, hm⟩ := Option.map_eq_some_iff.mp
        (show (Machine.steps ⟨booted, [⟨"hw1", 120⟩, ⟨"hw2", -100⟩]⟩
        waiting).map (fun m => match (Action.other .callBack).run m with
          | .ok _ => none
          | .error fault => some fault) = some
                (some (.assertFailed "attempt to set an invalid priority: "))
      by decide +kernel)
    refine ⟨m, (hstart _).steps hrun, ?_⟩
    split at hm
    · cases hm
    · next herror =>
        rw [herror, Option.some.inj hm]

end EroikoBlue.MP3
