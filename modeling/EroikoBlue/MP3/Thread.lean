/-
# `MP3.Thread` — `Thread` and its `OrderManager`

What the scheduler knows of a thread: its status, and the bookkeeping of
`Thread::OrderManager` that every change of status goes through.

    remain_burst_time    the average of the bursts completed so far
    current_burst_time   how long this burst has lasted, up to the last time it ran
    tick_cache           while RUNNING, when it started; while READY, from when it ages

The two `double`s are taken as exact rationals, and the clock does not wrap.

`setStatus` has a lemma for each of the six changes of status that happen, from
`setStatus_created` to `setStatus_terminated`, and is not unfolded after them.
`WF` is the invariant of the numbers: the priority is between the one the thread
was made with and 149, and `tick_cache` is not in the future.  `aged` is what
`aging` does on such numbers, as one expression; the assertion of `setPriority`
holds there.
-/
import Mathlib.Data.Rat.Floor
import Mathlib.Tactic.Linarith
import EroikoBlue.Debug

namespace EroikoBlue.MP3

inductive ThreadStatus where
  | JUST_CREATED
  | RUNNING
  | READY
  | BLOCKED
  | TERMINATED
  | ZOMBIE
  deriving DecidableEq, Repr

inductive IntStatus where
  | IntOff
  | IntOn
  deriving DecidableEq, Repr

/-- `Semaphore *`. -/
abbrev SemId := Nat

/-- `static_cast<int>` of a real number. -/
def trunc (x : ℚ) : Int := if 0 ≤ x then ⌊x⌋ else ⌈x⌉

theorem trunc_neg {x : ℚ} : trunc x < 0 ↔ x ≤ -1 := by
  rw [trunc]
  split
  · next h =>
      have h0 : 0 ≤ ⌊x⌋ := Int.floor_nonneg.mpr h
      constructor
      · intro hneg
        exact absurd hneg (Int.not_lt.mpr h0)
      · intro hle
        linarith
  · rw [← Int.le_sub_one_iff, Int.ceil_le]
    simp

theorem trunc_pos {x : ℚ} : 0 < trunc x ↔ 1 ≤ x := by
  rw [trunc]
  split
  · exact Int.floor_pos
  · next h =>
      have h0 : ⌈x⌉ ≤ 0 := Int.ceil_le.mpr (by simpa using (not_le.mp h).le)
      constructor
      · intro hpos
        exact absurd hpos (Int.not_lt.mpr h0)
      · intro hle
        exact absurd (le_trans zero_le_one hle) h

/-! ## `Thread::OrderManager` -/

structure OrderManager where
  remain_burst_time : ℚ
  last_burst_time : ℚ
  current_burst_time : ℚ
  priority : Int
  init_priority : Int
  tick_cache : Int

namespace OrderManager

/-- `AGING_TICK`. -/
abbrev AGING_TICK : Int := 1500

/-- `OrderManager(t, priority)`; `now` is `kernel->stats->totalTicks`, here and
below. -/
def new (priority now : Int) : OrderManager where
  remain_burst_time := 0
  last_burst_time := 0
  current_burst_time := 0
  priority := priority
  init_priority := priority
  tick_cache := now

/-- `toReady`, which `newToReady` and `waitToReady` are. -/
def toReady (o : OrderManager) (now : Int) : OrderManager :=
  { o with tick_cache := now, priority := o.init_priority }

/-- `leaveRun`; `status` is that of the thread. -/
def leaveRun (o : OrderManager) (status : ThreadStatus) (now : Int) :
    Except Fault OrderManager := do
  assertMsg (status = .RUNNING)
    "attempt to accumulate current bursting time when a thread isn't in RUNNING status"
  let current := o.current_burst_time + (now - o.tick_cache : Int)
  pure { o with current_burst_time := current, tick_cache := now, last_burst_time := current }

/-- `getRemainTime`. -/
def getRemainTime (o : OrderManager) (status : ThreadStatus) (now : Int) : ℚ :=
  if status = .RUNNING then
    o.remain_burst_time - (o.current_burst_time + (now - o.tick_cache : Int))
  else o.remain_burst_time - o.current_burst_time

/-- `setPriority`. -/
def setPriority (o : OrderManager) (priority : Int) :
    Except Fault OrderManager := do
  assertMsg (0 ≤ priority ∧
    priority < 150) "attempt to set an invalid priority: "
  pure { o with priority := priority }

/-- How often 1500 ticks have passed since the clock of the thread was set. -/
def age (o : OrderManager) (now : Int) : Int :=
  (now - o.tick_cache).tdiv AGING_TICK

/-- `aging`. -/
def aging (o : OrderManager) (status : ThreadStatus) (now : Int) :
    Except Fault OrderManager := do
  assertMsg (status = .READY)
    "attempt to apply aging mechanism when a thread is not in ready status"
  if o.age now ≠ 0 then
    let later := { o with tick_cache := o.tick_cache + AGING_TICK * o.age now }
    later.setPriority (min (o.priority + 10 * o.age now) 149)
  else pure o

/-- `runToWait`. -/
def runToWait (o : OrderManager) (status : ThreadStatus) (now : Int) :
    Except Fault OrderManager := do
  let o ← o.leaveRun status now
  if o.current_burst_time ≠ 0 then
    pure { o with
      remain_burst_time :=
        0.5 * o.current_burst_time + 0.5 * o.remain_burst_time
      current_burst_time := 0 }
  else pure o

/-- `runToReady`. -/
def runToReady (o : OrderManager) (status : ThreadStatus) (now : Int) :
    Except Fault OrderManager := do
  let o ← o.leaveRun status now
  pure (o.toReady now)

/-- `readyToRun`. -/
def readyToRun (o : OrderManager) (now : Int) : OrderManager :=
  { o with tick_cache := now }

/-- `runToTerminated`. -/
def runToTerminated (o : OrderManager) (status : ThreadStatus) (now : Int) :
    Except Fault OrderManager :=
  o.leaveRun status now

end OrderManager

/-! ## `Thread` -/

structure Thread where
  status : ThreadStatus
  sys_q_stub : OrderManager
  /-- `oldLevel` of the call in which the thread gave up the CPU; a new thread
  starts by enabling interrupts. -/
  oldLevel : IntStatus
  /-- The semaphore in whose `P` the thread is, if it is in one. -/
  waitsFor : Option SemId

namespace Thread

/-- `new Thread(name, id, priority)`. -/
def new (priority now : Int) : Thread where
  status := .JUST_CREATED
  sys_q_stub := .new priority now
  oldLevel := .IntOn
  waitsFor := none

/-- `getPriority`. -/
def getPriority (th : Thread) : Int := th.sys_q_stub.priority

/-- `sys_q_stub->getRemainTime()`. -/
def getRemainTime (th : Thread) (now : Int) : ℚ :=
  th.sys_q_stub.getRemainTime th.status now

/-- What `setStatus(st)` does to the `OrderManager`. -/
def transfer (th : Thread) (st : ThreadStatus) (now : Int) :
    Except Fault OrderManager :=
  if st = .READY then
    match th.status with
    | .JUST_CREATED => pure (th.sys_q_stub.toReady now)
    | .RUNNING => th.sys_q_stub.runToReady th.status now
    | .BLOCKED => pure (th.sys_q_stub.toReady now)
    | _ => .error (.assertFailed "Invalid status transfer from ")
  else if th.status = .RUNNING ∧ st = .BLOCKED then
    th.sys_q_stub.runToWait th.status now
  else if st = .RUNNING then do
    assertMsg (th.status = .READY)
      "Can only transfer to running from ready status, but got "
    pure (th.sys_q_stub.readyToRun now)
  else if st = .TERMINATED then do
    assertMsg (th.status = .RUNNING)
      "Can only terminate a thread from running status, but got "
    th.sys_q_stub.runToTerminated th.status now
  else pure th.sys_q_stub

/-- `setStatus`; the second argument of the source is for a message only. -/
def setStatus (th : Thread) (st : ThreadStatus) (now : Int) :
    Except Fault Thread := do
  let stub ← th.transfer st now
  pure { th with status := st, sys_q_stub := stub }

/-- `Thread::Aging`. -/
def aging (th : Thread) (now : Int) : Except Fault Thread := do
  let stub ← th.sys_q_stub.aging th.status now
  pure { th with sys_q_stub := stub }

end Thread

/-! ## What a transition does -/

namespace OrderManager

/-- The priority and the clock of a thread are in range. -/
structure WF (o : OrderManager) (now : Int) : Prop where
  init : 0 ≤ o.init_priority
  ge_init : o.init_priority ≤ o.priority
  lt : o.priority < 150
  clock : o.tick_cache ≤ now

theorem wf_new {priority now : Int} (h : 0 ≤ priority ∧ priority < 150) :
    (new priority now).WF now :=
  ⟨h.1, Int.le_refl _, h.2, Int.le_refl _⟩

theorem WF.toReady {o : OrderManager} {now : Int} (h : o.WF now) :
    (o.toReady now).WF now :=
  ⟨h.init, Int.le_refl _, Int.lt_of_le_of_lt h.ge_init h.lt, Int.le_refl _⟩

theorem WF.mono {o : OrderManager} {now later : Int} (h : o.WF now)
    (hle : now ≤ later) : o.WF later :=
  ⟨h.init, h.ge_init, h.lt, Int.le_trans h.clock hle⟩

/-- The burst that ends now. -/
def burst (o : OrderManager) (now : Int) : ℚ :=
  o.current_burst_time + (now - o.tick_cache : Int)

/-- `leaveRun` on a running thread. -/
def left (o : OrderManager) (now : Int) : OrderManager :=
  { o with current_burst_time := o.burst now, tick_cache := now, last_burst_time := o.burst now }

theorem leaveRun_eq (o : OrderManager) (now : Int) :
    o.leaveRun .RUNNING now = .ok (o.left now) := by
  rw [leaveRun, assertMsg_pos rfl]
  rfl

theorem WF.left {o : OrderManager} {now : Int} (h : o.WF now) :
    (o.left now).WF now :=
  ⟨h.init, h.ge_init, h.lt, Int.le_refl _⟩

/-- `runToWait` on a running thread. -/
def waiting (o : OrderManager) (now : Int) : OrderManager :=
  if o.burst now ≠ 0 then
    { o.left now with
      remain_burst_time := 0.5 * o.burst now + 0.5 * o.remain_burst_time
      current_burst_time := 0 }
  else o.left now

theorem runToWait_eq (o : OrderManager) (now : Int) :
    o.runToWait .RUNNING now = .ok (o.waiting now) := by
  rw [runToWait, leaveRun_eq, Outcome.ok_bind, waiting]
  show (if o.burst now ≠ 0 then _ else _) = _
  split <;> rfl

theorem WF.waiting {o : OrderManager} {now : Int} (h : o.WF now) :
    (o.waiting now).WF now := by
  rw [OrderManager.waiting]
  split
  · exact ⟨h.init, h.ge_init, h.lt, Int.le_refl _⟩
  · exact h.left

/-- The priority after aging. -/
def agedPriority (o : OrderManager) (now : Int) : Int :=
  min (o.priority + 10 * o.age now) 149

/-- `aging` of a ready thread. -/
def aged (o : OrderManager) (now : Int) : OrderManager :=
  { o with tick_cache := o.tick_cache + AGING_TICK * o.age now, priority := o.agedPriority now }

namespace WF
variable {o : OrderManager} {now : Int}

theorem age_nonneg (h : o.WF now) : 0 ≤ o.age now :=
  Int.tdiv_nonneg (Int.sub_nonneg.mpr h.clock) (by decide)

theorem age_le (h : o.WF now) :
    AGING_TICK * o.age now ≤ now - o.tick_cache := by
  have hnonneg : 0 ≤ now - o.tick_cache := Int.sub_nonneg.mpr h.clock
  rw [age, Int.tdiv_eq_ediv_of_nonneg hnonneg]
  exact Int.mul_ediv_self_le (by decide)

theorem aging_eq (h : o.WF now) : o.aging .READY now = .ok (o.aged now) := by
  have hage := h.age_nonneg
  have hinit := h.init
  have hge := h.ge_init
  have hlt := h.lt
  rw [aging, assertMsg_pos rfl, Outcome.ok_bind]
  by_cases h0 : o.age now = 0
  · rw [if_neg (by simpa using h0), aged, agedPriority, h0]
    simp only [Int.mul_zero, Int.add_zero]
    rw [Int.min_eq_left (by omega)]
    rfl
  · rw [if_pos h0, setPriority, assertMsg_pos ⟨by omega, by omega⟩]
    rfl

theorem aged (h : o.WF now) : (o.aged now).WF now := by
  have hage := h.age_nonneg
  have hle := h.age_le
  have hge := h.ge_init
  have hlt := h.lt
  refine ⟨h.init, ?_, ?_, ?_⟩
  · show o.init_priority ≤ min _ _
    omega
  · show min _ _ < (150 : Int)
    omega
  · show o.tick_cache + AGING_TICK * o.age now ≤ now
    omega

/-- Aging never lowers a priority. -/
theorem le_agedPriority (h : o.WF now) : o.priority ≤ o.agedPriority now := by
  have hage := h.age_nonneg
  have hlt := h.lt
  rw [agedPriority]
  omega

end WF

end OrderManager

namespace Thread
variable (th : Thread) (now : Int)

/-- The same thread with another status and other bookkeeping. -/
def become (st : ThreadStatus) (stub : OrderManager) : Thread :=
  { th with status := st, sys_q_stub := stub }

theorem setStatus_created (h : th.status = .JUST_CREATED) :
    th.setStatus .READY now =
      .ok (th.become .READY (th.sys_q_stub.toReady now)) := by
  rw [setStatus, transfer, if_pos rfl, h]
  rfl

theorem setStatus_woken (h : th.status = .BLOCKED) :
    th.setStatus .READY now =
      .ok (th.become .READY (th.sys_q_stub.toReady now)) := by
  rw [setStatus, transfer, if_pos rfl, h]
  rfl

theorem setStatus_preempted (h : th.status = .RUNNING) :
    th.setStatus .READY now =
      .ok (th.become .READY ((th.sys_q_stub.left now).toReady now)) := by
  rw [setStatus, transfer, if_pos rfl, h]
  simp only [OrderManager.runToReady, OrderManager.leaveRun_eq, Outcome.ok_bind]
  rfl

theorem setStatus_blocked (h : th.status = .RUNNING) :
    th.setStatus .BLOCKED now =
      .ok (th.become .BLOCKED (th.sys_q_stub.waiting now)) := by
  rw [setStatus, transfer, if_neg (by decide), if_pos ⟨h, rfl⟩, h,
    OrderManager.runToWait_eq, Outcome.ok_bind]
  rfl

theorem setStatus_dispatched (h : th.status = .READY) :
    th.setStatus .RUNNING now =
      .ok (th.become .RUNNING (th.sys_q_stub.readyToRun now)) := by
  rw [setStatus, transfer, if_neg (by decide), if_neg (by simp), if_pos rfl,
    assertMsg_pos h, Outcome.ok_bind]
  rfl

theorem setStatus_terminated (h : th.status = .RUNNING) :
    th.setStatus .TERMINATED now =
      .ok (th.become .TERMINATED (th.sys_q_stub.left now)) := by
  rw [setStatus, transfer, if_neg (by decide), if_neg (by simp),
    if_neg (by decide), if_pos rfl, assertMsg_pos h,
    Outcome.ok_bind, h, OrderManager.runToTerminated, OrderManager.leaveRun_eq,
      Outcome.ok_bind]
  rfl

end Thread

end EroikoBlue.MP3
