/-
# `MP3.Invariant` — who has the CPU

`Inv` is `Queues` together with who has the CPU: one thread is RUNNING, the
current one, or none is and the machine idles in the `Sleep` of the current one.

What an operation does to the bookkeeping of a single thread is `Shift`:

    ready      JUST_CREATED, BLOCKED → READY      dispatch   READY → RUNNING
    preempt    RUNNING → READY                    age        READY → READY
    block      RUNNING → BLOCKED                  terminate  RUNNING → TERMINATED

Everything that is said about burst times and aging is derived from these six
(`Moved`), and not from the operations.

The lemmas about `Kernel` are the parts the operations are put together from:
`setStatus`, `FindNextToRun`, `Run`, the loop of `Sleep`, `ReadyToRun`.  Each
runs its part to the end, so it also says that no assertion on the way fails.
-/
import EroikoBlue.MP3.Runs

namespace EroikoBlue.MP3

open Bytes (int32)
open SystemQueue (Front Regrouped)

/-! ## What a step does to a thread -/

/-- What the bookkeeping of a thread depends on. -/
def Threads.view (T : Threads) (t : ThreadId) :
    Option (ThreadStatus × OrderManager) :=
  (T t).map fun th => (th.status, th.sys_q_stub)

/-- The transitions of `setStatus`, and `Aging`, on threads in the right
status. -/
inductive Shift (now : Int) : ThreadStatus × OrderManager →
    ThreadStatus × OrderManager → Prop
  | stay {s : ThreadStatus × OrderManager} : Shift now s s
  | ready {st : ThreadStatus} {o : OrderManager}
      (h : st = .JUST_CREATED ∨ st = .BLOCKED) :
      Shift now (st, o) (.READY, o.toReady now)
  | preempt {o : OrderManager} :
      Shift now (.RUNNING, o) (.READY, (o.left now).toReady now)
  | block {o : OrderManager} : Shift now (.RUNNING, o) (.BLOCKED, o.waiting now)
  | terminate {o : OrderManager} :
      Shift now (.RUNNING, o) (.TERMINATED, o.left now)
  | dispatch {o : OrderManager} :
      Shift now (.READY, o) (.RUNNING, o.readyToRun now)
  | age {o : OrderManager} : Shift now (.READY, o) (.READY, o.aged now)

/-- One step of one thread: a transition, its creation, or its end. -/
inductive Moves (now : Int) : Option (ThreadStatus × OrderManager) →
    Option (ThreadStatus × OrderManager) → Prop
  | shift {s s' : ThreadStatus × OrderManager} (h : Shift now s s') :
      Moves now (some s) (some s')
  | create {priority : Int} :
      Moves now none (some (.JUST_CREATED, .new priority now))
  | gone {o : Option (ThreadStatus × OrderManager)} : Moves now o none

theorem Moves.refl {now : Int} : ∀ {o : Option (ThreadStatus × OrderManager)},
    Moves now o o
  | none => .gone
  | some _ => .shift .stay

/-- A step in which time stands still. -/
structure Moved (k k' : Kernel) : Prop where
  ticks : k'.totalTicks = k.totalTicks
  moves : ∀ t, Moves k.totalTicks (k.threads.view t) (k'.threads.view t)

/-- Giving the CPU to a ready thread; a thread that has finished may be
deleted. -/
structure Handed (k k' : Kernel) : Prop where
  ticks : k'.totalTicks = k.totalTicks
  handed : ∀ t, k'.threads.view t = k.threads.view t ∨
    k'.threads.view t = none ∨
    ∃ o, k.threads.view t = some (.READY, o) ∧
      k'.threads.view t = some (.RUNNING, o.readyToRun k.totalTicks)

/-- What `Run` does, seen from the thread it came from. -/
structure Dispatched (next : ThreadId) (k k' : Kernel) : Prop where
  ticks : k'.totalTicks = k.totalTicks
  currentThread : k'.currentThread = next
  readyList : k'.readyList = k.readyList
  dispatched : ∃ o, k.threads.view next = some (.READY, o) ∧
    k'.threads.view next = some (.RUNNING, o.readyToRun k.totalTicks)
  other : ∀ t, t ≠ next → k'.threads.view t = k.threads.view t ∨
    k.threads.status t = some .TERMINATED ∧ k'.threads.view t = none

theorem Dispatched.handed {next : ThreadId} {k k' : Kernel}
    (h : Dispatched next k k') : Handed k k' := by
  refine ⟨h.ticks, ?_⟩
  intro t
  by_cases ht : t = next
  · subst ht
    exact .inr (.inr h.dispatched)
  · rcases h.other t ht with heq | ⟨_, heq⟩
    · exact .inl heq
    · exact .inr (.inl heq)

/-- A thread that is neither dispatched nor finished stays what it is. -/
theorem Dispatched.kept {next t : ThreadId}
    {k k' : Kernel} (h : Dispatched next k k')
    (ht : t ≠ next) (hst : k.threads.status t ≠ some .TERMINATED) :
    k'.threads.view t = k.threads.view t :=
  (h.other t ht).resolve_right fun hgone => hst hgone.1

theorem Handed.moves {k k' : Kernel} (h : Handed k k') (t : ThreadId) :
    Moves k.totalTicks (k.threads.view t) (k'.threads.view t) := by
  rcases h.handed t with heq | heq | ⟨o, ho, ho'⟩
  · rw [heq]
    exact .refl
  · rw [heq]
    exact .gone
  · rw [ho, ho']
    exact .shift .dispatch

theorem Handed.moved {k k' : Kernel} (h : Handed k k') : Moved k k' :=
  ⟨h.ticks, h.moves⟩

/-- One thread moves, and it keeps its place when the CPU is handed over. -/
theorem Handed.after {k k₁ k' : Kernel}
    {t : ThreadId} (h : Handed k₁ k') (hticks : k₁.totalTicks = k.totalTicks)
    (hmove : Moves k.totalTicks (k.threads.view t) (k₁.threads.view t))
    (hsame : ∀ x, x ≠ t → k₁.threads.view x = k.threads.view x)
    (ht : k'.threads.view t = k₁.threads.view t ∨ k'.threads.view t = none) :
    Moved k k' := by
  refine ⟨h.ticks.trans hticks, ?_⟩
  intro x
  by_cases hx : x = t
  · subst hx
    rcases ht with ht | ht
    · rw [ht]
      exact hmove
    · rw [ht]
      exact .gone
  · rw [← hsame x hx, ← hticks]
    exact h.moves x

section
variable {T : Threads} {t : ThreadId} {th : Thread}

theorem Threads.view_eq (h : T t = some th) :
    T.view t = some (th.status, th.sys_q_stub) := by
  rw [view, h]
  rfl

theorem Threads.view_update_self : view (Function.update T t (some th)) t =
    some (th.status, th.sys_q_stub) :=
  view_eq (Function.update_self t (some th) T)

theorem Threads.view_update_of_ne {o : Option Thread} {x : ThreadId}
    (h : x ≠ t) :
    view (Function.update T t o) x = T.view x := by
  rw [view, Function.update_of_ne h, view]

theorem Threads.status_of_view {T' : Threads} (h : T'.view t = T.view t) :
    T'.status t = T.status t := by
  have hstatus : ∀ T : Threads, T.status t = (T.view t).map Prod.fst := by
    intro T
    rw [view, Option.map_map]
    rfl
  rw [hstatus, h, ← hstatus]

theorem Threads.status_of_none (h : T.view t = none) : T.status t = none := by
  rw [status, Option.map_eq_none_iff.mp h]
  rfl

theorem Threads.status_view {st : ThreadStatus} {o : OrderManager}
    (h : T.view t = some (st, o)) :
    T.status t = some st := by
  obtain ⟨th, hth, heq⟩ := Option.map_eq_some_iff.mp h
  rw [status_eq hth, (Prod.mk.inj heq).1]

end

/-! ## The invariant -/

structure Inv (S : Prop) (k : Kernel) : Prop where
  queues : Queues S k.threads k.totalTicks k.readyList k.semaphores none
  noneDying : k.toBeDestroyed = none
  running : ∀ t, k.threads.status t = some .RUNNING ↔ t = k.currentThread ∧
    k.sleeping = none
  busy : k.sleeping = none → k.status ≠ .IdleMode ∧
    (k.waitsFor ≠ none → k.level = .IntOff)
  idle : ∀ finishing, k.sleeping = some finishing → k.level = .IntOff ∧
    k.status = .IdleMode ∧
    (finishing = true → k.threads.status k.currentThread = some .TERMINATED)

namespace Kernel
variable {S : Prop} {k : Kernel}

theorem setStatus_ok {t : ThreadId} {th th' : Thread} {st : ThreadStatus}
    (hth : k.threads t = some th) (h : th.setStatus st k.totalTicks = .ok th') :
    k.setStatus t st =
      .ok { k with threads := Function.update k.threads t (some th') } := by
  rw [setStatus, Threads.deref_ok hth, Outcome.ok_bind, h]
  rfl

theorem findNextToRun_ok (hlevel : k.level = .IntOff) :
    k.readyList.all = [] ∧ k.findNextToRun = .ok (none, k) ∨
      ∃ next q, Front next k.readyList q ∧
      k.findNextToRun = .ok (some next, { k with readyList := q }) := by
  rw [findNextToRun, assertMsg_pos hlevel, Outcome.ok_bind]
  cases hempty : k.readyList.isEmpty with
  | true => exact .inl ⟨SystemQueue.isEmpty_iff.mp hempty, rfl⟩
  | false =>
      obtain ⟨next, q, hrun, hfront⟩ := SystemQueue.removeFront_ok hempty
      refine .inr ⟨next, q, hfront, ?_⟩
      rw [if_neg (by decide), hrun]
      rfl

theorem checkToBeDestroyed_ok
    (hq : Queues S k.threads k.totalTicks k.readyList k.semaphores none)
    (hdying : ∀ t,
      k.toBeDestroyed = some t → k.threads.status t = some .TERMINATED)
    (hcur : k.threads.status k.currentThread = some .RUNNING) :
    ∃ T', k.checkToBeDestroyed = .ok { k with threads := T', toBeDestroyed := none } ∧
      Queues S T' k.totalTicks k.readyList k.semaphores none ∧
      T' k.currentThread = k.threads k.currentThread ∧
      ∀ t, T' t = k.threads t ∨ k.threads.status t = some .TERMINATED ∧
          T' t = none := by
  cases hd : k.toBeDestroyed with
  | none =>
      refine ⟨k.threads, ?_, hq, rfl, fun t => .inl rfl⟩
      rw [checkToBeDestroyed, hd]
      cases k
      cases hd
      rfl
  | some dead =>
      have hst := hdying dead hd
      obtain ⟨th, hth, _⟩ := Threads.exists_of_status hst
      have hne : dead ≠ k.currentThread := by
        rintro rfl
        cases hst.symm.trans hcur
      refine ⟨Function.update k.threads dead none, ?_, hq.delete hst,
        Function.update_of_ne hne.symm _ _, ?_⟩
      · rw [checkToBeDestroyed, hd]
        dsimp only
        rw [assertMsg_pos hne, Outcome.ok_bind, Threads.deref_ok hth]
        rfl
      · intro t
        by_cases ht : t = dead
        · subst ht
          exact .inr ⟨hst, Function.update_self _ _ _⟩
        · exact .inl (Function.update_of_ne ht _ _)

/-- The thread switched to deletes the one that finished before it, and goes
on. -/
theorem resumed_ok {th : Thread}
    (hq : Queues S k.threads k.totalTicks k.readyList k.semaphores none)
    (hlevel : k.level = .IntOff) (hsleep : k.sleeping = none)
    (hmode : k.status ≠ .IdleMode) (hcur : k.threads k.currentThread = some th)
    (hrunning : ∀ t, k.threads.status t = some .RUNNING ↔ t = k.currentThread)
    (hdying : ∀ t, k.toBeDestroyed = some t →
      k.threads.status t = some .TERMINATED) :
    ∃ k', k.resumed = .ok k' ∧ Inv S k' ∧ k'.currentThread = k.currentThread ∧
      k'.totalTicks = k.totalTicks ∧ k'.readyList = k.readyList ∧
      k'.threads k.currentThread = some th ∧
      ∀ t, k'.threads t = k.threads t ∨ k.threads.status t = some .TERMINATED ∧
      k'.threads t = none := by
  obtain ⟨T', hcheck, hq', hsame, hT'⟩ := checkToBeDestroyed_ok hq hdying ((hrunning _).mpr rfl)
  have hnow : T' k.currentThread = some th := hsame.trans hcur
  have hstatus : ∀ t, T'.status t = some .RUNNING ↔ t = k.currentThread ∧
      k.sleeping = none := by
    intro t
    constructor
    · intro ht
      rcases hT' t with heq | ⟨_, heq⟩
      · rw [Threads.status, heq] at ht
        exact ⟨(hrunning t).mp ht, hsleep⟩
      · rw [Threads.status, heq] at ht
        cases ht
    · rintro ⟨rfl, _⟩
      rw [Threads.status, hsame]
      exact (hrunning _).mpr rfl
  let k₂ : Kernel := { k with threads := T', toBeDestroyed := none }
  have hwaits : k₂.waitsFor = th.waitsFor := by
    rw [waitsFor, Threads.waitsFor, show k₂.threads k₂.currentThread =
      _ from hnow]
    rfl
  refine ⟨if th.waitsFor = none then { k₂ with level := th.oldLevel }
    else k₂, ?_, ?_⟩
  · rw [resumed, assertMsg_pos hlevel, Outcome.ok_bind, hcheck, Outcome.ok_bind,
      Threads.deref_ok hnow]
    rfl
  · split
    · next hnone =>
        exact ⟨⟨hq', rfl, hstatus,
          fun _ => ⟨hmode, fun h => absurd (hwaits.trans hnone) h⟩,
          fun f hf => absurd (hsleep.symm.trans hf) (by rintro ⟨⟩)⟩, rfl, rfl,
            rfl, hnow, hT'⟩
    · exact ⟨⟨hq', rfl, hstatus, fun _ => ⟨hmode, fun _ => hlevel⟩,
        fun f hf => absurd (hsleep.symm.trans hf) (by rintro ⟨⟩)⟩, rfl, rfl,
          rfl, hnow, hT'⟩

theorem run_ok {next : ThreadId} (finishing : Bool)
    (hq : Queues S k.threads k.totalTicks k.readyList k.semaphores (some next))
    (hlevel : k.level = .IntOff) (hdying : k.toBeDestroyed = none)
    (hsleep : k.sleeping = none) (hmode : k.status ≠ .IdleMode)
    (hnone : ∀ t, k.threads.status t ≠ some .RUNNING) (hfin : finishing = true →
      k.threads.status k.currentThread = some .TERMINATED) :
    ∃ k', k.run next finishing = .ok k' ∧ Inv S k' ∧ Dispatched next k k' := by
  obtain ⟨hready, hnot⟩ := hq.taken next rfl
  obtain ⟨th, hth, hst⟩ := Threads.exists_of_status hready
  let o := th.sys_q_stub.readyToRun k.totalTicks
  have hstub : o.WF k.totalTicks :=
    ⟨(hq.wf next th hth).init, (hq.wf next th hth).ge_init,
      (hq.wf next th hth).lt, Int.le_refl _⟩
  have hq₁ : Queues S (Function.update k.threads
      next (some (th.become .RUNNING o))) k.totalTicks k.readyList
      k.semaphores none := by
    refine hq.become (th.become .RUNNING o) hstub (show ThreadStatus.RUNNING ≠
      .READY by decide) hnot
      (hq.waiting.not_mem ?_) (.inr ⟨rfl, rfl⟩)
    rw [hready]
    decide
  -- the kernel as it is when the next thread comes back from `SWITCH`
  let k₁ : Kernel := { k with
    toBeDestroyed := if finishing then some k.currentThread else k.toBeDestroyed
    currentThread := next
    threads := Function.update k.threads next (some (th.become .RUNNING o)) }
  have hrun : k.run next finishing = k₁.resumed := by
    rw [run, assertMsg_pos hlevel, Outcome.ok_bind,
      assertMsg_pos fun _ => hdying, Outcome.ok_bind]
    have hset := setStatus_ok (k := { k₁ with threads := k.threads }) hth
      (th.setStatus_dispatched k.totalTicks hst)
    dsimp only
    rw [hset, Outcome.ok_bind]
  have hother : ∀ t, t ≠ next → k₁.threads t = k.threads t :=
    fun t ht => Function.update_of_ne ht _ _
  have hcur : k₁.threads next = some (th.become .RUNNING o) :=
    Function.update_self _ _ _
  have hrunning : ∀ t, k₁.threads.status t = some .RUNNING ↔ t = next := by
    intro t
    constructor
    · intro ht
      by_contra hne
      rw [Threads.status, hother t hne] at ht
      exact hnone t ht
    · rintro rfl
      exact Threads.status_eq hcur
  have hdying₁ : ∀ t, k₁.toBeDestroyed = some t →
      k₁.threads.status t = some .TERMINATED := by
    intro t ht
    cases finishing with
    | false => exact absurd (hdying.symm.trans ht) (by rintro ⟨⟩)
    | true =>
        have hold := hfin rfl
        cases Option.some.inj ht
        have hne : k.currentThread ≠ next := by
          intro heq
          rw [heq, hready] at hold
          cases hold
        rw [Threads.status, hother _ hne]
        exact hold
  obtain ⟨k', hres, hinv, hnow, hticks, hlist, hnext, hrest⟩ :=
    resumed_ok (k := k₁) hq₁ hlevel hsleep hmode hcur hrunning hdying₁
  have hview : k.threads.view next = some (.READY, th.sys_q_stub) :=
    hst ▸ Threads.view_eq hth
  refine ⟨k', hrun.trans hres, hinv,
    ⟨hticks, hnow, hlist, ⟨_, hview, Threads.view_eq hnext⟩, ?_⟩⟩
  intro t ht
  rcases hrest t with heq | ⟨hst, heq⟩
  · exact .inl (congrArg _ (heq.trans (hother t ht)))
  · rw [Threads.status, hother t ht] at hst
    exact .inr ⟨hst, congrArg _ heq⟩

theorem sleepLoop_ok {finishing : Bool}
    (hq : Queues S k.threads k.totalTicks k.readyList k.semaphores none)
    (hlevel : k.level = .IntOff)
    (hdying : k.toBeDestroyed = none) (hmode : k.status ≠ .IdleMode)
    (hnone : ∀ t, k.threads.status t ≠ some .RUNNING) (hfin : finishing = true →
      k.threads.status k.currentThread = some .TERMINATED) :
    ∃ k', k.sleepLoop finishing = .ok k' ∧ Inv S k' ∧ Handed k k' := by
  rcases findNextToRun_ok hlevel with ⟨_, hrun⟩ | ⟨next, q, hfront, hrun⟩
  · refine ⟨{ k with sleeping := some finishing, status := .IdleMode }, ?_, ?_,
      rfl, fun t => .inl rfl⟩
    · rw [sleepLoop, hrun]
      rfl
    · refine ⟨hq, hdying, ?_, nofun, ?_⟩
      · intro t
        exact ⟨fun ht => absurd ht (hnone t), nofun⟩
      · rintro f ⟨⟩
        exact ⟨hlevel, rfl, hfin⟩
  · obtain ⟨k', hrun', hinv, hdisp⟩ := run_ok
      (k := { k with readyList := q, sleeping := none }) finishing
      (hq.take hfront) hlevel hdying rfl hmode hnone hfin
    refine ⟨k', ?_, hinv, hdisp.handed.ticks, hdisp.handed.handed⟩
    rw [sleepLoop, hrun]
    exact hrun'

theorem sleep_eq {finishing : Bool} {th th' : Thread}
    (hlevel : k.level = .IntOff) (hth : k.threads k.currentThread = some th)
    (hset : th.setStatus (if finishing then .TERMINATED
      else .BLOCKED) k.totalTicks = .ok th') :
    k.sleep finishing =
      sleepLoop { k with threads := Function.update k.threads k.currentThread (some th') } finishing := by
  rw [sleep, assertMsg_pos hlevel, Outcome.ok_bind, setStatus_ok hth hset,
    Outcome.ok_bind]

theorem readyToRun_ok {t : ThreadId} {th : Thread} {stub : OrderManager}
    {sems : SemId → Semaphore} {out : Option ThreadId}
    (hq : Queues S k.threads k.totalTicks k.readyList sems out)
    (hlevel : k.level = .IntOff) (hth : k.threads t = some th)
    (hset : th.setStatus .READY k.totalTicks = .ok (th.become .READY stub))
    (hstub : stub.WF k.totalTicks) (hst : th.status ≠ .READY)
    (hsem : ∀ s, t ∉ (sems s).queue) (hout : some t ≠ out) :
    ∃ q', k.readyToRun t = .ok { k with
        threads := Function.update k.threads t (some (th.become .READY stub))
        readyList := q' } ∧
      q'.all.Perm (t :: k.readyList.all) ∧
      Queues S (Function.update k.threads t (some (th.become .READY stub)))
          k.totalTicks q' sems out := by
  have hnot : t ∉ k.readyList.all := hq.not_mem fun h =>
    hst (Option.some.inj ((Threads.status_eq hth).symm.trans h))
  obtain ⟨q', hq', happ, hqueues⟩ :=
    hq.readied (th.become .READY stub) hstub rfl hnot hsem hout
  refine ⟨q', ?_, happ.perm, hqueues⟩
  rw [readyToRun, assertMsg_pos hlevel, Outcome.ok_bind, setStatus_ok hth hset,
    Outcome.ok_bind]
  dsimp only
  rw [hq']
  rfl

theorem save_ok {th : Thread} (hth : k.threads k.currentThread = some th)
    (oldLevel : IntStatus) (waitsFor : Option SemId) :
    ∃ th', k.save oldLevel waitsFor =
        .ok { k with threads := Function.update k.threads k.currentThread (some th') } ∧
      th'.status = th.status ∧ th'.sys_q_stub = th.sys_q_stub ∧
          th'.waitsFor = waitsFor := by
  refine ⟨{ th with oldLevel := oldLevel, waitsFor := waitsFor }, ?_,
    rfl, rfl, rfl⟩
  rw [save, Threads.deref_ok hth]
  rfl

end Kernel

end EroikoBlue.MP3
