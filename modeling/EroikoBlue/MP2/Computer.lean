/-
# `MP2.Computer` — many programs on one machine

Every program runs on the same registers and in the same memory.  `Run` saves
the registers of the thread it leaves and restores those of the thread it goes
to, with the page table of its address space, and the device handlers come in
between any two instructions.

    Act          an instruction, an interrupt, or the end of a system call
    Event        an act of the current thread, or a step of the kernel
    runAlone     a program on a machine of its own, from its acts only

The system calls are those that take no address (`MP2.Syscall` is about the
others).  Two things about single steps are all that `MP2.Multiprogram` needs of
them: the same act on two machines that are alike leaves them alike
(`Act.run_alike`), and a step of the kernel writes no memory, changes no address
space and lets no thread into a program (`Leaves`).
-/
import EroikoBlue.MP2.Exit
import EroikoBlue.MP2.Placement
import EroikoBlue.MP2.Sandbox

namespace EroikoBlue.MP2

open Bytes (Byte Word)
open ExceptionType Register Machine
open Lockstep (Steps Results)

/-! ## One program -/

def SC_PrintInt : Word := 16
def SC_Add : Word := 42

def StackReg : Register := 29

namespace Machine

/-- `InitRegisters`. -/
def initRegisters (numPages : Nat) : Register → Word := fun r =>
  if r = StackReg then BitVec.ofNat 32 (numPages * PageSize) - 16
  else if r = NextPCReg then 4
  else 0

/-- The return to the instruction after `SYSCALL`. -/
def skip : User Unit := do
  let pc ← register PCReg
  setRegister PrevPCReg pc
  let pc ← register PCReg
  setRegister PCReg (pc + 4)
  let pc ← register PCReg
  setRegister NextPCReg (pc + 4)

/-- The end of `SC_PrintInt` and `SC_Add` in `ExceptionHandler`. -/
def sysReturn : User Unit := do
  let type ← register 2
  if type = SC_Add then do
    let op1 ← register 4
    let op2 ← register 5
    setRegister 2 (op1 + op2)
    skip
  else skip

end Machine

/-- What happens to the machine while a thread is current. -/
inductive Act where
  /-- A round of `Machine::Run`. -/
  | instruction
  /-- `CheckIfDue` calls `DelayedLoad(0, 0)`. -/
  | interrupt
  | sysReturn
  deriving DecidableEq, Repr

/-- How the machine is left, and whether the program waits for a system call. -/
def Act.ends (calling : Bool) : EStateM.Result Stop Machine Unit →
    Except Fault (Machine × Bool)
  | .ok _ m => .ok (m, calling)
  | .error (.fault f) _ => .error f
  | .error (.exception which) m => do
    let _ ←
      (if which ≠ SyscallException then exceptionHandler which else pure ())
    pure (m, true)

def Act.run (s : Machine × Bool) : Act → Except Fault (Machine × Bool)
  | .instruction => Act.ends false (oneInstruction s.1)
  | .interrupt => Act.ends s.2 (delayedLoad 0 0 s.1)
  | .sysReturn => Act.ends false (Machine.sysReturn s.1)

/-- `Load` and `Execute` on a machine with nothing else to do. -/
def Executable.boot (e : Executable) : Except Fault (Machine × Bool) := do
  let (_, a, _, mainMemory) ← e.loadAlone
  pure (⟨initRegisters a.numPages, mainMemory, a.pageTable, a.numPages⟩, false)

/-- The program, from its own acts. -/
def Executable.runAlone (e : Executable) (acts : List Act) :
    Except Fault (Machine × Bool) := do
  let s ← e.boot
  acts.foldlM Act.run s

/-! ## All of them -/

structure Computer where
  kernel : Kernel
  registers : Register → Word
  /-- The address space that `machine->pageTable` is of. -/
  table : Option Nat
  pageTableSize : Nat
  userRegisters : ThreadId → Register → Word
  /-- The thread has run, so it goes on after `SWITCH`. -/
  started : ThreadId → Bool
  /-- The program waits for a system call. -/
  calling : ThreadId → Bool
  /-- A record of what was loaded, and of what the threads did since. -/
  executables : ThreadId → Option Executable
  record : ThreadId → List Act

/-- A field of a thread. -/
def set {α : Type} (f : ThreadId → α) (t : ThreadId) (value : α) : ThreadId →
    α := fun x => if x = t then value else f x

theorem set_self {α : Type} {f : ThreadId → α} {t : ThreadId} {value : α} :
    set f t value t = value := if_pos rfl

theorem set_other {α : Type} {f : ThreadId → α} {t x : ThreadId} {value : α}
    (h : x ≠ t) : set f t value x = f x :=
  if_neg h

namespace Computer

/-- The machine as the current thread finds it. -/
def machine (c : Computer) : Machine where
  registers := c.registers
  mainMemory := c.kernel.mainMemory
  pageTable := c.table.bind fun s => (c.kernel.spaces[s]?).bind (·.pageTable)
  pageTableSize := c.pageTableSize

/-- The address space of a thread. -/
def spaceOf (k : Kernel) (t : ThreadId) : Option Nat :=
  (k.threads t).bind (·.space)

/-- The registers of the threads after `SaveUserState`, if there is an address
space. -/
def saved (c : Computer) : ThreadId → Register → Word :=
  if (spaceOf c.kernel c.kernel.currentThread).isSome then
    set c.userRegisters c.kernel.currentThread c.registers
  else c.userRegisters

/-- What `Run` does to the machine; `k` is the kernel after it. -/
def switch (c : Computer) (k : Kernel) : Computer :=
  let nextThread := k.currentThread
  if nextThread = c.kernel.currentThread then { c with kernel := k }
  else
    let c' := { c with kernel := k, userRegisters := c.saved, started := set c.started nextThread true }
    -- `RestoreUserState` and `RestoreState`, or `ThreadRoot`
    match if c.started nextThread then spaceOf k nextThread else none with
    | none => c'
    | some s => { c' with
        registers := c.saved nextThread
        table := some s
        pageTableSize := ((k.spaces[s]?).map (·.numPages)).getD 0 }

/-- `Execute`, after `Load`. -/
def execute (c : Computer) (executable : Option Executable) : Computer :=
  match c.kernel.code, spaceOf c.kernel c.kernel.currentThread with
  | some .user, some s =>
    let numPages := ((c.kernel.spaces[s]?).map (·.numPages)).getD 0
    { c with
      registers := initRegisters numPages
      table := some s
      pageTableSize := numPages
      calling := set c.calling c.kernel.currentThread false
      executables := set c.executables c.kernel.currentThread executable
      record := set c.record c.kernel.currentThread [] }
  | _, _ => c

/-- The machine after an act; the page table is the one of the address space. -/
def put (c : Computer) (act : Act) (s : Machine × Bool) : Computer :=
  let t := c.kernel.currentThread
  { c with
    registers := s.1.registers
    kernel := { c.kernel with
      mainMemory := s.1.mainMemory
      spaces := match c.table with
        | none => c.kernel.spaces
        | some i => c.kernel.spaces.modify i fun a =>
            { a with pageTable := s.1.pageTable } }
    calling := set c.calling t s.2
    record := set c.record t (c.record t ++ [act]) }

end Computer

inductive Event where
  | kernel (op : Op)
  | forkExecute (executable : Option Executable)
  | user (act : Act)

/-- A step of the kernel that does not run the program. -/
def Op.Kernels : Op → Prop
  | .user _ | .forkExecute _ => False
  | _ => True

instance : (op : Op) → Decidable op.Kernels
  | .user _ | .forkExecute _ => inferInstanceAs (Decidable False)
  | .exec | .yield | .sleep | .wake _ | .idleReturn | .finish =>
      inferInstanceAs (Decidable True)

namespace Event

def run (c : Computer) : Event → Except Fault Computer
  | .kernel op => do
    let k ← op.run c.kernel
    pure (c.switch k)
  | .forkExecute executable => do
    let k ← c.kernel.forkExecute executable
    pure (Computer.execute { c with kernel := k } executable)
  | .user act => do
    let s ← act.run (c.machine, c.calling c.kernel.currentThread)
    pure (c.put act s)

/-- Programs start their segments at pages, and make system calls that take no
address. -/
def Allowed (c : Computer) : Event → Prop
  | .kernel op => op.Allowed c.kernel ∧ op.Kernels
  | .forkExecute executable => (Op.forkExecute executable).Allowed c.kernel ∧
        ∀ e ∈ executable, e.Aligned
  | .user .instruction => c.kernel.code = some .user ∧
        c.calling c.kernel.currentThread = false
  | .user .interrupt => True
  | .user .sysReturn => c.kernel.code = some .user ∧
        c.calling c.kernel.currentThread = true ∧
      (c.registers 2 = SC_PrintInt ∨ c.registers 2 = SC_Add)

end Event

namespace Computer

/-- The machine before anything is loaded. -/
def start (k : Kernel) : Computer where
  kernel := k
  registers := fun _ => 0
  table := none
  pageTableSize := 0
  userRegisters := fun _ _ => 0
  started := fun t => t = 0
  calling := fun _ => false
  executables := fun _ => none
  record := fun _ => []

inductive Reachable : Computer → Prop
  | start {mem : Memory} {k : Kernel} (hrun : Kernel.boot mem = .ok k) :
      Reachable (start k)
  | step {c c' : Computer} (h : Reachable c) (e : Event)
      (hallowed : e.Allowed c) (hrun : e.run c = .ok c') :
      Reachable c'

/-- The machine of a thread with address space `s`, whether it is current or
not. -/
def machineOf (c : Computer) (t : ThreadId) (s : Nat) : Machine where
  registers := if t = c.kernel.currentThread then c.registers
    else c.userRegisters t
  mainMemory := c.kernel.mainMemory
  pageTable := (c.kernel.spaces[s]?).bind (·.pageTable)
  pageTableSize := ((c.kernel.spaces[s]?).map (·.numPages)).getD 0

end Computer

/-! ## One act -/

section
variable {m₁ m₂ m : Machine} {calling : Bool} {s : Machine × Bool} {act : Act}

theorem alike_skip : Steps Alike skip skip :=
  (alike_register _).bind fun _ => (alike_setRegister (by decide) _).bind
      fun _ => (alike_register _).bind fun _ =>
    (alike_setRegister (by decide) _).bind fun _ => (alike_register _).bind
      fun _ => alike_setRegister (by decide) _

theorem alike_sysReturn : Steps Alike Machine.sysReturn Machine.sysReturn := by
  refine (alike_register _).bind fun type => ?_
  split
  · exact (alike_register _).bind fun _ => (alike_register _).bind fun _ =>
      (alike_setRegister (by decide) _).bind fun _ => alike_skip
  · exact alike_skip

theorem confined_skip : Confined True skip :=
  (Confined.register _).bind fun _ =>
      (Confined.setRegister (by decide) _).bind fun _ =>
    (Confined.register _).bind fun _ =>
        (Confined.setRegister (by decide) _).bind fun _ =>
      (Confined.register _).bind fun _ => .setRegister (by decide) _

theorem confined_sysReturn : Confined True Machine.sysReturn := by
  refine (Confined.register _).bind fun type => ?_
  split
  · exact (Confined.register _).bind fun _ =>
        (Confined.register _).bind fun _ =>
      (Confined.setRegister (by decide) _).bind fun _ => confined_skip
  · exact confined_skip

theorem ends_alike {r₁ r₂ : EStateM.Result Stop Machine Unit}
    (h : Results Alike r₁ r₂) :
    Lockstep.Alike (fun s₁ s₂ => Alike s₁.1 s₂.1 ∧ s₁.2 = s₂.2)
      (Act.ends calling r₁) (Act.ends calling r₂) := by
  cases r₁ with
  | ok a₁ m₁ =>
      cases r₂ with
      | ok a₂ m₂ => exact ⟨h.2, rfl⟩
      | error e₂ m₂ => exact h.elim
  | error e₁ m₁ =>
      cases r₂ with
      | ok a₂ m₂ => exact h.elim
      | error e₂ m₂ =>
          obtain ⟨rfl, hm⟩ := h
          cases e₁ with
          | fault f => exact .error f
          | exception which =>
              rw [Act.ends, Act.ends]
              split
              · exact .error _
              · exact ⟨hm, rfl⟩

theorem Act.run_alike (act : Act) (h : Alike m₁ m₂) (calling : Bool) :
    Lockstep.Alike (fun s₁ s₂ => Alike s₁.1 s₂.1 ∧ s₁.2 = s₂.2)
      (act.run (m₁, calling)) (act.run (m₂, calling)) := by
  cases act with
  | instruction => exact ends_alike (alike_oneInstruction _ _ h)
  | interrupt => exact ends_alike (alike_delayedLoad _ _ _ _ h)
  | sysReturn => exact ends_alike (alike_sysReturn _ _ h)

theorem ends_final {r : EStateM.Result Stop Machine Unit}
    (h : Act.ends calling r = .ok s) : s.1 = Outcome.final r := by
  cases r with
  | ok a m =>
      cases h
      rfl
  | error e m =>
      cases e with
      | fault f => cases h
      | exception which =>
          obtain ⟨_, _, hpure⟩ := Outcome.bind_eq_ok.mp h
          cases hpure
          rfl

theorem Act.run_stays (hm : m.Ready) (hrun : act.run (m, calling) = .ok s) :
    Stays m s.1 := by
  cases act with
  | instruction =>
      rw [ends_final hrun]
      exact confined_oneInstruction.stays m hm
  | interrupt =>
      have hconfined : Confined True (delayedLoad 0 0) := .delayedLoad 0 0
      rw [ends_final hrun]
      exact hconfined.stays m hm
  | sysReturn =>
      rw [ends_final hrun]
      exact confined_sysReturn.stays m hm

end

/-! ## A step of the kernel -/

/-- What a step of the kernel leaves alone. -/
structure Leaves (k k' : Kernel) : Prop where
  memory : k'.mainMemory = k.mainMemory
  spaces : ∀ s < k.spaces.length, k'.spaces[s]? = k.spaces[s]?
  users : ∀ t space, shown k'.threads t = some (space, .user) →
    shown k.threads t = some (space, .user)

section
variable {k k' : Kernel} {t : ThreadId} {finishing : Bool}

namespace Kernel

theorem run_memory (hrun : k.run t finishing = .ok k') :
    k'.mainMemory = k.mainMemory := by
  obtain ⟨_, _, hrun⟩ := Outcome.bind_eq_ok.mp hrun
  obtain ⟨_, hstatus, hrun⟩ := Outcome.bind_eq_ok.mp hrun
  obtain ⟨T, rfl, _⟩ := setStatus_eq hstatus
  rw [checkToBeDestroyed] at hrun
  split at hrun
  · cases hrun
    rfl
  · obtain ⟨_, hdelete, hrun⟩ := Outcome.bind_eq_ok.mp hrun
    obtain ⟨_, _, rfl⟩ := deleteThread_eq hdelete
    cases hrun
    rfl

theorem sleepLoop_memory (hrun : k.sleepLoop finishing = .ok k') :
    k'.mainMemory = k.mainMemory := by
  rw [sleepLoop] at hrun
  split at hrun
  · cases hrun
    rfl
  · exact (run_memory hrun).trans rfl

theorem sleep_memory (hrun : k.sleep finishing = .ok k') :
    k'.mainMemory = k.mainMemory := by
  obtain ⟨_, hstatus, hrun⟩ := Outcome.bind_eq_ok.mp hrun
  obtain ⟨T, rfl, _⟩ := setStatus_eq hstatus
  exact (sleepLoop_memory hrun).trans rfl

theorem yield_memory (hrun : k.yield = .ok k') :
    k'.mainMemory = k.mainMemory := by
  rw [yield] at hrun
  split at hrun
  · cases hrun
    rfl
  · obtain ⟨_, hready, hrun⟩ := Outcome.bind_eq_ok.mp hrun
    obtain ⟨T, l, rfl, _⟩ := readyToRun_eq hready
    exact (run_memory hrun).trans rfl

theorem idleReturn_memory (hrun : k.idleReturn = .ok k') :
    k'.mainMemory = k.mainMemory := by
  rw [idleReturn] at hrun
  split at hrun
  · cases hrun
    rfl
  · exact sleepLoop_memory hrun

theorem exec_memory (hrun : k.exec = .ok k') :
    k'.mainMemory = k.mainMemory := by
  rw [Kernel.exec] at hrun
  split at hrun
  · cases hrun
  · obtain ⟨_, hready, hrun⟩ := Outcome.bind_eq_ok.mp hrun
    obtain ⟨T, l, rfl, _⟩ := readyToRun_eq hready
    cases hrun
    rfl

end Kernel

theorem Leaves.of_same (h : Same k k') (hmem : k'.mainMemory = k.mainMemory) :
    Leaves k k' :=
  ⟨hmem, fun s _ => by rw [h.spaces], fun t s ht => h.shown ▸ ht⟩

theorem Leaves.of_switched (hmem : k'.mainMemory = k.mainMemory) : Switched k k' → Leaves k k'
  | .inl h => .of_same h hmem
  | .inr ⟨t, th, h⟩ => by
      refine ⟨hmem, fun s _ => by rw [h.spaces], fun x s hx => ?_⟩
      rw [h.shown] at hx
      split at hx
      · cases hx
      · exact hx

theorem Op.Kernels.leaves {op : Op} (hop : op.Kernels) (hinv : Inv k) (hrun : op.run k = .ok k') : Leaves k k' := by
  cases op with
  | exec =>
      have h := Kernel.exec_makes hrun
      refine ⟨Kernel.exec_memory hrun, fun s hs => ?_, fun x s hx => ?_⟩
      · rw [h.spaces, List.getElem?_append_left hs]
      · rw [h.shown] at hx
        split at hx
        · cases hx
        · exact hx
  | forkExecute _ => exact hop.elim
  | user _ => exact hop.elim
  | yield => exact .of_switched (Kernel.yield_memory hrun) (Kernel.yield_switched hinv.toBeDestroyed hrun)
  | sleep => exact .of_switched (Kernel.sleep_memory hrun) (Kernel.sleep_switched hinv.toBeDestroyed hrun)
  | wake t =>
      obtain ⟨T, l, rfl, hT⟩ := Kernel.readyToRun_eq hrun
      exact .of_same ⟨hT, rfl, rfl, rfl, rfl, hinv.toBeDestroyed⟩ rfl
  | idleReturn =>
      exact .of_switched (Kernel.idleReturn_memory hrun)
        (Kernel.idleReturn_switched hinv.toBeDestroyed hrun)
  | finish => exact .of_switched (Kernel.sleep_memory hrun) (Kernel.sleep_switched hinv.toBeDestroyed hrun)

end

end EroikoBlue.MP2
