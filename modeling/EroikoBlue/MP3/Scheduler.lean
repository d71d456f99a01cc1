/-
# `MP3.Scheduler` — the kernel as its scheduler sees it

One CPU: what runs between two interrupts is one step.  Time passes only in
`advance`, where the source counts ticks when interrupts are enabled again or a
user instruction ends.

`Run` returns in another thread than the one that called it.  What that thread
does first is `resumed`: delete the thread before it if that has finished, and
give the interrupts back as it found them, unless it is in `Semaphore::P` and
has to test the semaphore again.  A thread that finds nobody to run stays in the
loop of `Sleep` (`sleeping`); the handlers run while the machine idles, and the
loop goes on when `Interrupt::Idle` returns.

The value of a semaphore is an `int`, and `V` wraps at its end as the compiled
kernel does; `MP3.Lock` is about the runs in which that does not happen.
-/
import EroikoBlue.Lib.Bytes
import EroikoBlue.MP3.SystemQueue

namespace EroikoBlue.MP3

open Bytes (int32)

inductive MachineStatus where
  | IdleMode
  | SystemMode
  | UserMode
  deriving DecidableEq, Repr

structure Semaphore where
  value : Int
  queue : List ThreadId

/-- The parts of `kernel` that the scheduler reads and writes. -/
structure Kernel where
  threads : Threads
  currentThread : ThreadId
  readyList : SystemQueue
  toBeDestroyed : Option ThreadId
  semaphores : SemId → Semaphore
  totalTicks : Int
  level : IntStatus
  status : MachineStatus
  yieldOnReturn : Bool
  /-- The argument of the call of `Sleep` that found nobody to run. -/
  sleeping : Option Bool

namespace Kernel

/-- `t->setStatus(st)`. -/
def setStatus (k : Kernel) (t : ThreadId) (st : ThreadStatus) :
    Except Fault Kernel := do
  let th ← k.threads.deref t
  let th ← th.setStatus st k.totalTicks
  pure { k with threads := Function.update k.threads t (some th) }

/-- `Scheduler::ReadyToRun`. -/
def readyToRun (k : Kernel) (t : ThreadId) : Except Fault Kernel := do
  assertMsg (k.level = .IntOff) ""
  let k ← k.setStatus t .READY
  let q ← k.readyList.append k.threads k.totalTicks t
  pure { k with readyList := q }

/-- `Scheduler::FindNextToRun`. -/
def findNextToRun (k : Kernel) : Except Fault (Option ThreadId × Kernel) := do
  assertMsg (k.level = .IntOff) ""
  if k.readyList.isEmpty then pure (none, k)
  else do
    let (t, q) ← k.readyList.removeFront
    pure (some t, { k with readyList := q })

/-- `Scheduler::CheckToBeDestroyed`, with `~Thread`. -/
def checkToBeDestroyed (k : Kernel) : Except Fault Kernel :=
  match k.toBeDestroyed with
  | none => pure k
  | some t => do
    assertMsg (t ≠ k.currentThread) ""
    let _ ← k.threads.deref t
    pure { k with threads := Function.update k.threads t none, toBeDestroyed := none }

/-- What a thread does when it is switched to: the end of `Run` and of the
`Yield` it was called from, or `Begin`.  In `P` it goes on with interrupts
off. -/
def resumed (k : Kernel) : Except Fault Kernel := do
  assertMsg (k.level = .IntOff) ""
  let k ← k.checkToBeDestroyed
  let th ← k.threads.deref k.currentThread
  pure (if th.waitsFor = none then { k with level := th.oldLevel } else k)

/-- `Scheduler::Run`. -/
def run (k : Kernel) (nextThread : ThreadId) (finishing : Bool) :
    Except Fault Kernel := do
  assertMsg (k.level = .IntOff) ""
  assertMsg (finishing → k.toBeDestroyed = none) ""
  let toBeDestroyed := if finishing then some k.currentThread
    else k.toBeDestroyed
  let k :=
    { k with toBeDestroyed := toBeDestroyed, currentThread := nextThread }
  let k ← k.setStatus nextThread .RUNNING
  k.resumed

/-- The local variables of the current thread that are still needed when it runs
again. -/
def save (k : Kernel) (oldLevel : IntStatus) (waitsFor : Option SemId) :
    Except Fault Kernel := do
  let th ← k.threads.deref k.currentThread
  let th := { th with oldLevel := oldLevel, waitsFor := waitsFor }
  pure { k with threads := Function.update k.threads k.currentThread (some th) }

/-- `Thread::Yield`, called through `kernel->currentThread`. -/
def yield (k : Kernel) : Except Fault Kernel := do
  let oldLevel := k.level
  let k := { k with level := .IntOff }
  let (nextThread, k) ← k.findNextToRun
  match nextThread with
  | none => pure { k with level := oldLevel }
  | some nextThread => do
    let k ← k.save oldLevel none
    let k ← k.readyToRun k.currentThread
    k.run nextThread false

/-- `Thread::Sleep` from its loop on. -/
def sleepLoop (k : Kernel) (finishing : Bool) : Except Fault Kernel := do
  let (nextThread, k) ← k.findNextToRun
  match nextThread with
  | none => pure { k with sleeping := some finishing, status := .IdleMode }
  | some nextThread => run { k with sleeping := none } nextThread finishing

/-- `Thread::Sleep`, called through `kernel->currentThread`. -/
def sleep (k : Kernel) (finishing : Bool) : Except Fault Kernel := do
  assertMsg (k.level = .IntOff) ""
  let k ← k.setStatus k.currentThread (if finishing then .TERMINATED
    else .BLOCKED)
  k.sleepLoop finishing

/-- `Interrupt::Idle` returns into the loop of `Sleep`. -/
def idleReturn (k : Kernel) : Except Fault Kernel :=
  match k.sleeping with
  | none => pure k
  | some finishing => sleepLoop { k with status := .SystemMode } finishing

/-- `Thread::Fork`. -/
def fork (k : Kernel) (t : ThreadId) : Except Fault Kernel := do
  let oldLevel := k.level
  let k ← readyToRun { k with level := .IntOff } t
  pure { k with level := oldLevel }

/-- `Thread::Finish`. -/
def finish (k : Kernel) : Except Fault Kernel :=
  sleep { k with level := .IntOff } true

/-- One turn of the loop of `Semaphore::P`, or what follows it. -/
def pLoop (k : Kernel) (s : SemId) : Except Fault Kernel := do
  let sem := k.semaphores s
  if sem.value = 0 then do
    let queue ← LinkedList.append sem.queue k.currentThread
    let sem := { sem with queue := queue }
    sleep { k with semaphores := Function.update k.semaphores s sem } false
  else do
    let th ← k.threads.deref k.currentThread
    let k ← k.save th.oldLevel none
    let sem := { sem with value := int32 (sem.value - 1) }
    pure { k with semaphores := Function.update k.semaphores s sem, level := th.oldLevel }

/-- `Semaphore::P`. -/
def p (k : Kernel) (s : SemId) : Except Fault Kernel := do
  let k ← k.save k.level (some s)
  pLoop { k with level := .IntOff } s

/-- `ReadyToRun(queue->RemoveFront())`, unless nobody waits. -/
def wakeFirst (k : Kernel) : List ThreadId →
    Except Fault (List ThreadId × Kernel)
  | [] => pure ([], k)
  | t :: queue => do
    let k ← k.readyToRun t
    pure (queue, k)

/-- `Semaphore::V`. -/
def v (k : Kernel) (s : SemId) : Except Fault Kernel := do
  let oldLevel := k.level
  let sem := k.semaphores s
  let (queue, k) ← wakeFirst { k with level := .IntOff } sem.queue
  let sem := { value := int32 (sem.value + 1), queue := queue }
  pure { k with semaphores := Function.update k.semaphores s sem, level := oldLevel }

/-- `Scheduler::Aging`. -/
def aging (k : Kernel) : Except Fault Kernel := do
  let (threads, q) ← k.readyList.aging k.threads k.totalTicks
  pure { k with threads := threads, readyList := q }

/-- `Scheduler::ShouldPreempt`. -/
def shouldPreempt (k : Kernel) : Except Fault Bool :=
  k.readyList.shouldPreempt k.threads k.totalTicks k.currentThread

/-- `Alarm::CallBack`. -/
def callBack (k : Kernel) : Except Fault Kernel := do
  let status := k.status
  let k ← k.aging
  if status ≠ .IdleMode then do
    let preempt ← k.shouldPreempt
    pure (if preempt then { k with yieldOnReturn := true } else k)
  else pure k

/-- The end of `Interrupt::OneTick`, after the handlers. -/
def handlersDone (k : Kernel) : Except Fault Kernel :=
  if k.yieldOnReturn then yield { k with yieldOnReturn := false, status := .SystemMode }
  else pure k

/-- `new Thread(name, id, priority)`, at the address `t`. -/
def create (k : Kernel) (t : ThreadId) (priority : Int) : Kernel :=
  { k with threads := Function.update k.threads t (some (Thread.new priority k.totalTicks)) }

end Kernel

end EroikoBlue.MP3
