/-
# `MP3.Bursts` — the accounting of burst times

An observer who sees only the clock and the statuses of the threads keeps a
`Ledger` for each: how long it has been RUNNING in its current burst, and the
lengths of the bursts that ended with BLOCKED.  `burst_accounting` says that the
three fields of `OrderManager` agree with it at every step of every run,
whatever `tick_cache` was used for in between.

## Why a ledger

The source has a few words on each of the fields: remaining burst time, current
running time, starting tick.  The functions that write them have to agree on
what that is: `leaveRun` and `runToWait` when a thread stops running, and the
rest when it starts.  The ledger is kept by someone who does not look at the
fields at all (`Ledger.next`, `Recorded`), and `Accounted` says that at each
moment the fields are what the ledger says they should be.

| status | `remain_burst_time` | `current_burst_time` |
| :-- | :-- | :-- |
| RUNNING | the average of the bursts | without the time since `tick_cache` |
| anything else | the same | all of the burst so far |

A burst of length zero is one of the ledger and does not enter the average.
`burst_accounting_waking` is a thread that sleeps, is woken and runs again.
-/
import EroikoBlue.MP3.Order

namespace EroikoBlue.MP3

structure Ledger where
  ran : Int
  bursts : List Int

namespace Ledger

/-- The exponential average of the bursts that were not empty. -/
def average (l : Ledger) : ℚ :=
  (l.bursts.filter (· ≠ 0)).foldl (fun (t : ℚ) (b : Int) => (b + t) / 2) 0

/-- One step, seen from outside: `ticks` passed, and the status went from `st`
to `st'`. -/
def next (l : Ledger) (ticks : Int) (st st' : Option ThreadStatus) : Ledger :=
  match st, st' with
  | none, _ => ⟨0, []⟩
  | some .RUNNING, some .BLOCKED => ⟨0, l.bursts ++ [l.ran + ticks]⟩
  | some .RUNNING, _ => ⟨l.ran + ticks, l.bursts⟩
  | some _, _ => l

end Ledger

/-- The states of all runs, each with the ledgers of its threads. -/
inductive Recorded : Kernel → (ThreadId → Ledger) → Prop
  | start {values : SemId → Int} {k : Kernel} (hrun : Kernel.boot values = .ok k) : Recorded k fun _ => ⟨0, []⟩
  | step {k k' : Kernel} {ledgers : ThreadId → Ledger} (h : Recorded k ledgers)
      (op : Op) (hallowed : op.Allowed k)
      (hrun : op.run k = .ok k') : Recorded k' fun t =>
        (ledgers t).next (k'.totalTicks - k.totalTicks) (k.threads.status t)
          (k'.threads.status t)

theorem Recorded.reachable {k : Kernel} {ledgers : ThreadId → Ledger}
    (h : Recorded k ledgers) :
    Reachable (fun _ _ => True) k := by
  induction h with
  | start hrun => exact .start hrun
  | step _ op hallowed hrun ih => exact ih.step op hallowed trivial hrun

/-- The fields of a thread agree with its ledger. -/
structure Accounted (now : Int) (s : ThreadStatus × OrderManager)
    (l : Ledger) : Prop where
  current : s.2.current_burst_time + (if s.1 = .RUNNING then
    now - s.2.tick_cache else 0 : Int) = l.ran
  remain : s.2.remain_burst_time = l.average

namespace Accounted
variable {now : Int} {o : OrderManager} {l : Ledger}

theorem idle {st : ThreadStatus} (h : Accounted now (st, o) l)
    (hst : st ≠ .RUNNING) :
    o.current_burst_time = l.ran := by
  have hcurrent := h.current
  rw [if_neg hst, Int.cast_zero, add_zero] at hcurrent
  exact hcurrent

theorem of_idle {st : ThreadStatus}
    (hst : st ≠ .RUNNING) (hcurrent : o.current_burst_time = l.ran)
    (hremain : o.remain_burst_time = l.average) : Accounted now (st, o) l :=
  ⟨by rw [if_neg hst, Int.cast_zero, add_zero]; exact hcurrent, hremain⟩

theorem burst (h : Accounted now (.RUNNING, o) l) :
    o.burst now = l.ran := h.current

theorem average_append (l : Ledger) (b : Int) :
    Ledger.average ⟨0, l.bursts ++ [b]⟩ = if b ≠ 0 then (b + l.average) / 2 else l.average := by
  rw [Ledger.average, List.filter_append, List.foldl_append, ← Ledger.average]
  by_cases hb : b = 0
  · rw [if_neg (not_not.mpr hb), hb]
    rfl
  · rw [if_pos hb, List.filter_cons_of_pos (by simpa using hb)]
    rfl

theorem shift {s s' : ThreadStatus × OrderManager} (h : Accounted now s l) (hshift : Shift now s s') :
    Accounted now s' (l.next 0 (some s.1) (some s'.1)) := by
  have hran : l.ran + 0 = l.ran := Int.add_zero _
  cases hshift with
  | stay =>
      obtain ⟨st, o⟩ := s
      cases st with
      | RUNNING => exact ⟨h.current.trans (congrArg _ hran.symm), h.remain⟩
      | _ => exact h
  | ready hst =>
      rcases hst with rfl | rfl
      · exact .of_idle (by rintro ⟨⟩) (h.idle (by rintro ⟨⟩)) h.remain
      · exact .of_idle (by rintro ⟨⟩) (h.idle (by rintro ⟨⟩)) h.remain
  | preempt => exact .of_idle (by rintro ⟨⟩) (h.burst.trans (congrArg _ hran.symm)) h.remain
  | @block o =>
      have hburst := h.burst
      rw [Ledger.next, hran]
      by_cases h0 : l.ran = 0
      · have hzero : o.burst now = 0 := by rw [hburst, h0, Int.cast_zero]
        rw [OrderManager.waiting, if_neg (not_not.mpr hzero)]
        refine .of_idle (by rintro ⟨⟩) hzero ?_
        rw [average_append, if_neg (not_not.mpr h0)]
        exact h.remain
      · have hne : o.burst now ≠ 0 := by
          rw [hburst]
          exact Int.cast_ne_zero.mpr h0
        rw [OrderManager.waiting, if_pos hne]
        refine .of_idle (by rintro ⟨⟩) rfl ?_
        rw [average_append, if_pos h0]
        show 0.5 * o.burst now + 0.5 * o.remain_burst_time = _
        rw [hburst, h.remain]
        ring
  | terminate => exact .of_idle (by rintro ⟨⟩) (h.burst.trans (congrArg _ hran.symm)) h.remain
  | dispatch =>
      refine ⟨?_, h.remain⟩
      rw [if_pos rfl]
      show _ + ((now - now : Int) : ℚ) = _
      rw [Int.sub_self, Int.cast_zero, add_zero]
      exact h.idle (by rintro ⟨⟩)
  | age => exact .of_idle (by rintro ⟨⟩) (h.idle (by rintro ⟨⟩)) h.remain

theorem later {s : ThreadStatus × OrderManager} (h : Accounted now s l)
    (ticks : Int) :
    Accounted (now + ticks) s (l.next ticks (some s.1) (some s.1)) := by
  obtain ⟨st, o⟩ := s
  cases st with
  | RUNNING =>
      refine ⟨?_, h.remain⟩
      have hburst : o.current_burst_time + (now - o.tick_cache : Int) = l.ran :=
        h.burst
      rw [if_pos rfl]
      show _ + ((now + ticks - o.tick_cache : Int) : ℚ) =
        ((l.ran + ticks : Int) : ℚ)
      push_cast at hburst ⊢
      linarith
  | _ => exact .of_idle nofun (h.idle nofun) h.remain

end Accounted

theorem accounted_new (priority now : Int) {st : ThreadStatus} :
    Accounted now (st, .new priority now) ⟨0, []⟩ := by
  refine ⟨?_, rfl⟩
  show (0 : ℚ) + ((if st = .RUNNING then now - now else 0 : Int) : ℚ) =
    ((0 : Int) : ℚ)
  rw [Int.sub_self, ite_self, zero_add]

theorem Recorded.accounted {k : Kernel} {ledgers : ThreadId → Ledger}
    (h : Recorded k ledgers) :
    ∀ t st o, k.threads.view t = some (st, o) →
      Accounted k.totalTicks (st, o) (ledgers t) := by
  induction h with
  | start hrun =>
      rw [boot_eq] at hrun
      cases hrun
      intro t st o hs
      obtain ⟨th, hth, heq⟩ := Option.map_eq_some_iff.mp hs
      dsimp only at hth
      split at hth
      · cases hth
        cases heq
        exact accounted_new 0 0
      · cases hth
  | @step k k' ledgers hrec op hallowed hrun ih =>
      obtain ⟨k₁, hrun', _, hprogress⟩ :=
        (hrec.reachable.inv (S := False) nofun).step op hallowed nofun
      cases hrun.symm.trans hrun'
      intro t st o hs
      show Accounted _ _ ((ledgers t).next _ (k.threads.status t)
        (k'.threads.status t))
      cases hprogress with
      | time hthreads hticks =>
          rw [hthreads] at hs
          have hlater := (ih t st o hs).later (k'.totalTicks - k.totalTicks)
          rw [add_sub_cancel] at hlater
          rw [hthreads, Threads.status_view hs]
          exact hlater
      | moved hmoved =>
          have hmoves := hmoved.moves t
          rw [hs] at hmoves
          rw [hmoved.ticks, Int.sub_self, Threads.status_view hs]
          cases hview : k.threads.view t with
          | none =>
              rw [hview] at hmoves
              cases hmoves
              rw [Threads.status_of_none hview]
              exact accounted_new _ _
          | some s =>
              rw [hview] at hmoves
              cases hmoves with
              | shift hshift =>
                  rw [Threads.status_view hview]
                  exact (ih t s.1 s.2 hview).shift hshift

/-- In every run, for every thread: the fields of its `OrderManager` are what
the ledger says. -/
theorem burst_accounting {k : Kernel} {ledgers : ThreadId → Ledger}
    (h : Recorded k ledgers) {t : ThreadId} {th : Thread}
    (hth : k.threads t = some th) :
    th.sys_q_stub.current_burst_time +
        (if th.status = .RUNNING then k.totalTicks - th.sys_q_stub.tick_cache
          else 0 : Int) = (ledgers t).ran ∧
      th.sys_q_stub.remain_burst_time = (ledgers t).average := by
  have haccounted := h.accounted t _ _ (Threads.view_eq hth)
  exact ⟨haccounted.current, haccounted.remain⟩

/-! ## A burst that ends -/

/-- A run with its ledgers, if each of its steps is one. -/
def Kernel.recorded (k : Kernel) (ledgers : ThreadId → Ledger) : List Op →
    Option (Kernel × (ThreadId → Ledger))
  | [] => some (k, ledgers)
  | op :: ops =>
    if op.Allowed k then
      match op.run k with
      | .ok k' => recorded k' (fun t =>
          (ledgers t).next (k'.totalTicks - k.totalTicks) (k.threads.status t)
            (k'.threads.status t)) ops
      | .error _ => none
    else none

theorem Recorded.steps :
    ∀ {ops : List Op} {k k' : Kernel} {ledgers ledgers' : ThreadId → Ledger},
    Recorded k ledgers → k.recorded ledgers ops = some (k', ledgers') →
      Recorded k' ledgers'
  | [], k, k', ledgers, ledgers', h, hrun => by
      cases hrun
      exact h
  | op :: ops, k, k', ledgers, ledgers', h, hrun => by
      rw [Kernel.recorded] at hrun
      split at hrun
      · next hallowed =>
          split at hrun
          · next k₁ hop => exact (h.step op hallowed hop).steps hrun
          · cases hrun
      · cases hrun

/-- Thread 1 runs for 250 ticks, waits on semaphore 0 until the main thread
raises it, and runs for another 40. -/
def waking : List Op :=
  [.create 1 120, .fork 1, .yield, .advance 250, .p 0, .advance 30, .v 0,
    .yield, .pLoop 0, .advance 40]

/-- Its first burst is over, the second is not. -/
theorem burst_accounting_waking : ∃ k ledgers th,
    booted.recorded (fun _ => ⟨0, []⟩) waking = some (k, ledgers) ∧
    k.threads 1 = some th ∧ (ledgers 1).bursts = [250] ∧ (ledgers 1).ran = 40 ∧
    th.sys_q_stub.current_burst_time +
        (if th.status = .RUNNING then k.totalTicks - th.sys_q_stub.tick_cache
          else 0 : Int) = (ledgers 1).ran ∧
      th.sys_q_stub.remain_burst_time = (ledgers 1).average := by
  obtain ⟨⟨k, ledgers⟩, hrun, hk⟩ := Option.map_eq_some_iff.mp
    (show (booted.recorded (fun _ => ⟨0, []⟩) waking).map
      (fun x => ((x.1.threads 1).isSome, (x.2 1).bursts, (x.2 1).ran)) =
      some (true, [250], 40) by decide +kernel)
  simp only [Prod.mk.injEq] at hk
  obtain ⟨hsome, hbursts, hran⟩ := hk
  obtain ⟨th, hth⟩ := Option.isSome_iff_exists.mp hsome
  have hrec := (Recorded.start (boot_eq fun _ => 0)).steps hrun
  exact ⟨k, ledgers, th, hrun, hth, hbursts, hran, burst_accounting hrec hth⟩

end EroikoBlue.MP3
