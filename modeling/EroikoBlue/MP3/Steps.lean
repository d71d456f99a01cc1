/-
# `MP3.Steps` — every operation keeps the invariant

There is one lemma for each operation: from a state with the invariant it runs
to its end, the invariant holds there, and what it did to the threads is
`Moved`.  `Inv.step` collects them, and `Reachable.inv` is the induction.

`Inv` has a parameter, the proposition `S` that L2 is in the order of
priorities.  One operation can break that order, the `Aging` of `CallBack`, and
it is asked to keep it only where `S` is assumed (`Op.KeepsOrder`).  With `S :=
False` the same induction is about all runs, with `S := True` about those in
which the order of L2 matters.

The long ones are `Yield` and `V`: `Yield` puts the current thread back before
it asks for the next one, and `V` may wake a thread while the machine idles.
-/
import EroikoBlue.MP3.Invariant

namespace EroikoBlue.MP3

open Bytes (int32)
open SystemQueue (Front Regrouped)

/-! ## The operations -/

namespace Inv
variable {S : Prop} {k : Kernel} {t : ThreadId}

theorem current (h : Inv S k) (hsleep : k.sleeping = none) :
    ∃ th, k.threads k.currentThread = some th ∧ th.status = .RUNNING :=
  Threads.exists_of_status ((h.running k.currentThread).mpr ⟨rfl, hsleep⟩)

/-- Of a thread that neither runs nor has finished, something changes. -/
theorem update {th : Thread}
    {q : SystemQueue} {sems : SemId → Semaphore} (h : Inv S k) (hq : Queues S
      (Function.update k.threads t (some th)) k.totalTicks q sems none)
    (hrun : k.threads.status t ≠ some .RUNNING) (hrun' : th.status ≠ .RUNNING)
    (hterm : k.threads.status t ≠ some .TERMINATED) :
    Inv S { k with threads := Function.update k.threads t (some th), readyList := q, semaphores := sems } := by
  refine ⟨hq, h.noneDying, ?_, ?_, ?_⟩
  · intro x
    by_cases hx : x = t
    · subst hx
      rw [Threads.status_update_self, ← h.running x]
      exact ⟨fun heq => absurd (Option.some.inj heq) hrun',
        fun heq => absurd heq hrun⟩
    · rw [Threads.status_update_of_ne hx]
      exact h.running x
  · intro hsleep
    have hne : k.currentThread ≠ t := by
      rintro rfl
      exact hrun ((h.running _).mpr ⟨rfl, hsleep⟩)
    refine ⟨(h.busy hsleep).1, fun hwaits => (h.busy hsleep).2 ?_⟩
    exact fun heq => hwaits ((Threads.waitsFor_update_of_ne hne).trans heq)
  · intro f hf
    refine ⟨(h.idle f hf).1, (h.idle f hf).2.1, fun hfin => ?_⟩
    have hst := (h.idle f hf).2.2 hfin
    have hne : k.currentThread ≠ t := by
      rintro rfl
      exact hterm hst
    exact (Threads.status_update_of_ne hne).trans hst

theorem save (h : Inv S k) (hsleep : k.sleeping = none)
    (oldLevel level : IntStatus) (waitsFor : Option SemId)
    (hlevel : waitsFor ≠ none → level = .IntOff) :
    ∃ T, k.save oldLevel waitsFor = .ok { k with threads := T } ∧
      Inv S { k with threads := T, level := level } ∧
      ∀ t, T.view t = k.threads.view t := by
  obtain ⟨th, hth, hst⟩ := h.current hsleep
  obtain ⟨th', hrun, hst', hstub, hwaits'⟩ := Kernel.save_ok hth oldLevel waitsFor
  have hready : th'.status ≠ .READY := by
    rw [hst', hst]
    decide
  have hview : ∀ t, Threads.view (Function.update k.threads k.currentThread
      (some th')) t = k.threads.view t := by
    intro t
    by_cases ht : t = k.currentThread
    · subst ht
      rw [Threads.view_update_self, Threads.view_eq hth, hst', hstub]
    · rw [Threads.view_update_of_ne ht]
  refine ⟨_, hrun, ⟨?_, h.noneDying, ?_, ?_, ?_⟩, hview⟩
  · refine h.queues.become th' (hstub ▸ h.queues.wf _ _ hth) hready
      (h.queues.not_mem ?_)
      (h.queues.waiting.not_mem ?_) (.inl ⟨rfl, (by rintro ⟨⟩)⟩)
    · rw [Threads.status_eq hth, hst]
      decide
    · rw [Threads.status_eq hth, hst]
      decide
  · intro t
    rw [← h.running t, Threads.status_of_view (hview t)]
  · intro _
    refine ⟨(h.busy hsleep).1, fun hwaits => hlevel ?_⟩
    have hself : Threads.waitsFor (Function.update k.threads k.currentThread
        (some th')) k.currentThread =
        waitsFor := by
      rw [Threads.waitsFor, Function.update_self]
      exact hwaits'
    exact fun heq => hwaits (hself.trans heq)
  · intro f hf
    exact absurd (hsleep.symm.trans hf) (by rintro ⟨⟩)

/-- `Yield` gave the CPU to `next`, which was in front of `q`. -/
structure Yielded (next : ThreadId) (q : SystemQueue)
    (k k' : Kernel) : Prop where
  front : Front next k.readyList q
  currentThread : k'.currentThread = next
  perm : k'.readyList.all.Perm (k.currentThread :: q.all)
  current : ∀ o, k.threads.view k.currentThread = some (.RUNNING, o) →
    k'.threads.view k.currentThread = some (.READY,
      (o.left k.totalTicks).toReady k.totalTicks)
  chosen : ∀ o, k.threads.view next = some (.READY, o) →
    k'.threads.view next = some (.RUNNING, o.readyToRun k.totalTicks)
  other : ∀ t ∈ q.all, k'.threads.view t = k.threads.view t

theorem yield_ok (h : Inv S k) (hsleep : k.sleeping = none) :
    ∃ k', k.yield = .ok k' ∧ Inv S k' ∧ Moved k k' ∧
      (k.readyList.all = [] ∧ k' = k ∨ ∃ next q, Yielded next q k k') := by
  obtain ⟨th, hth, hst⟩ := h.current hsleep
  rcases Kernel.findNextToRun_ok (k := { k with level := .IntOff }) rfl with
    ⟨hempty, hrun⟩ | ⟨next, q, hfront, hrun⟩
  · refine ⟨k, ?_, h, ⟨rfl, fun t => .refl⟩, .inl ⟨hempty, rfl⟩⟩
    rw [Kernel.yield, hrun]
    rfl
  · -- the thread that yields notes `oldLevel`, goes back to the queues, and hands over the CPU
    obtain ⟨th', hsave, hst', hstub, _⟩ :=
      Kernel.save_ok (k := { k with level := .IntOff, readyList := q }) hth
        k.level none
    have hnext := h.queues.lined.ready next (hfront.all ▸ .head _)
    have hcur : k.threads.status k.currentThread = some .RUNNING :=
      hst ▸ Threads.status_eq hth
    have hne : k.currentThread ≠ next := by
      rintro rfl
      rw [hcur] at hnext
      cases hnext
    have hrunning : th'.status = .RUNNING := hst'.trans hst
    have hwf : th'.sys_q_stub.WF k.totalTicks := hstub ▸ h.queues.wf _ _ hth
    have hsem : ∀ s, k.currentThread ∉ (k.semaphores s).queue :=
      h.queues.waiting.not_mem (by rw [hcur]; decide)
    have hnot : k.currentThread ∉ q.all := by
      intro hmem
      have hready :=
        h.queues.lined.ready k.currentThread (hfront.all ▸ .tail _ hmem)
      rw [hcur] at hready
      cases hready
    have hsaved := (h.queues.take hfront).become th' hwf
      (by rw [hrunning]; decide) hnot hsem
      (.inl ⟨rfl, fun heq => hne (Option.some.inj heq).symm⟩)
    obtain ⟨q', hready, hperm, hqueues⟩ := Kernel.readyToRun_ok (k := { k with
        level := .IntOff
        readyList := q
        threads := Function.update k.threads k.currentThread (some th') })
      hsaved rfl (Function.update_self _ _ _)
        (th'.setStatus_preempted k.totalTicks hrunning) hwf.left.toReady
      (by rw [hrunning]; decide) hsem (fun heq => hne (Option.some.inj heq))
    rw [Function.update_idem] at hready hqueues
    have hnone : ∀ t, Threads.status (Function.update k.threads k.currentThread
        (some (th'.become .READY ((th'.sys_q_stub.left k.totalTicks).toReady
            k.totalTicks)))) t ≠ some .RUNNING := by
      intro t
      by_cases ht : t = k.currentThread
      · rw [ht, Threads.status_update_self]
        exact nofun
      · rw [Threads.status_update_of_ne ht]
        exact fun hrun => ht ((h.running t).mp hrun).1
    obtain ⟨k', hrun', hinv, hdisp⟩ := Kernel.run_ok (k := { k with
        level := .IntOff
        readyList := q'
        threads := Function.update k.threads k.currentThread
          (some (th'.become .READY
            ((th'.sys_q_stub.left k.totalTicks).toReady k.totalTicks))) })
      false hqueues rfl h.noneDying hsleep (h.busy hsleep).1 hnone nofun
    have hview : k.threads.view k.currentThread = some (.RUNNING,
        th'.sys_q_stub) := by
      rw [Threads.view_eq hth, hst, hstub]
    have hkept :=
      hdisp.kept hne (by rw [Threads.status_update_self]; exact nofun)
    have hview' : k'.threads.view k.currentThread =
        some (.READY,
            (th'.sys_q_stub.left k.totalTicks).toReady k.totalTicks) :=
      hkept.trans Threads.view_update_self
    refine ⟨k', ?_, hinv, ?_, .inr ⟨next, q, hfront, hdisp.currentThread, ?_,
      ?_, ?_, ?_⟩⟩
    · rw [Kernel.yield, hrun, Outcome.ok_bind]
      dsimp only
      rw [hsave, Outcome.ok_bind]
      dsimp only
      rw [hready]
      exact hrun'
    · refine hdisp.handed.after rfl ?_
        (fun x hx => Threads.view_update_of_ne hx) (.inl hkept)
      rw [hview]
      exact Threads.view_update_self ▸ .shift .preempt
    · rw [hdisp.readyList]
      exact hperm
    · intro o ho
      rw [hview', ← (Prod.mk.inj (Option.some.inj (hview.symm.trans ho))).2]
    · intro o ho
      obtain ⟨o', ho', hres⟩ := hdisp.dispatched
      have hsame := (Threads.view_update_of_ne hne.symm).symm.trans ho'
      rw [hres, (Prod.mk.inj (Option.some.inj (hsame.symm.trans ho))).2]
    · intro t ht
      have hready := h.queues.lined.ready t (hfront.all ▸ .tail _ ht)
      have htcur : t ≠ k.currentThread := fun heq => hnot (heq ▸ ht)
      have htnext : t ≠ next := by
        rintro rfl
        exact (List.nodup_cons.mp (hfront.all ▸ h.queues.lined.nodup)).1 ht
      have hnot' : Threads.status (Function.update k.threads k.currentThread
          (some (th'.become .READY
            ((th'.sys_q_stub.left k.totalTicks).toReady k.totalTicks)))) t ≠
          some .TERMINATED := by
        rw [Threads.status_update_of_ne htcur, hready]
        exact nofun
      exact (hdisp.kept htnext hnot').trans (Threads.view_update_of_ne htcur)

theorem slept (finishing : Bool)
    {th : Thread} {st : ThreadStatus} {o : OrderManager}
    {sems : SemId → Semaphore} (h : Inv S k) (hsleep : k.sleeping = none)
    (hlevel : k.level = .IntOff) (hth : k.threads k.currentThread = some th)
    (hset : th.setStatus (if finishing then .TERMINATED
      else .BLOCKED) k.totalTicks = .ok (th.become st o))
    (hst : st = if finishing then .TERMINATED else .BLOCKED)
    (hshift : Shift k.totalTicks (th.status, th.sys_q_stub) (st, o))
    (hq : Queues S (Function.update k.threads k.currentThread
      (some (th.become st o))) k.totalTicks k.readyList
      sems none) :
    ∃ k', Kernel.sleep { k with semaphores := sems } finishing = .ok k' ∧
      Inv S k' ∧ Moved k k' := by
  have hleft : st ≠ .RUNNING ∧ st ≠ .READY := by
    rw [hst]
    cases finishing <;> exact ⟨nofun, nofun⟩
  have hself : Threads.status (Function.update k.threads k.currentThread
      (some (th.become st o))) k.currentThread =
      some st := Threads.status_update_self
  have hnone : ∀ t, Threads.status (Function.update k.threads k.currentThread
      (some (th.become st o))) t ≠
      some .RUNNING := by
    intro t
    by_cases ht : t = k.currentThread
    · rw [ht, hself]
      exact fun heq => hleft.1 (Option.some.inj heq)
    · rw [Threads.status_update_of_ne ht]
      exact fun hrun => ht ((h.running t).mp hrun).1
  obtain ⟨k', hrun, hinv, hhanded⟩ := Kernel.sleepLoop_ok (k := { k with
      semaphores := sems
      threads :=
        Function.update k.threads k.currentThread (some (th.become st o)) })
    hq hlevel h.noneDying (h.busy hsleep).1 hnone
    (fun hfin => hself.trans (congrArg some (hst.trans (if_pos hfin))))
  refine ⟨k', ?_, hinv,
    hhanded.after rfl ?_ (fun x hx => Threads.view_update_of_ne hx) ?_⟩
  · rw [Kernel.sleep_eq (k := { k with semaphores := sems }) hlevel hth hset]
    exact hrun
  · show Moves _ _ (Threads.view
      (Function.update k.threads k.currentThread (some (th.become st o))) _)
    rw [Threads.view_eq hth, Threads.view_update_self]
    exact .shift hshift
  · -- the thread that sleeps is not ready, so it is not the next one
    rcases hhanded.handed k.currentThread with heq | heq | ⟨o', ho', _⟩
    · exact .inl heq
    · exact .inr heq
    · exact absurd
        (Option.some.inj (hself.symm.trans (Threads.status_view ho'))) hleft.2

theorem current_out (h : Inv S k) (hsleep : k.sleeping = none) :
    k.currentThread ∉ k.readyList.all ∧
      ∀ s, k.currentThread ∉ (k.semaphores s).queue := by
  have hst := (h.running k.currentThread).mpr ⟨rfl, hsleep⟩
  exact ⟨h.queues.not_mem (by rw [hst]; decide),
    h.queues.waiting.not_mem (by rw [hst]; decide)⟩

theorem off (h : Inv S k) : Inv S { k with level := .IntOff } :=
  ⟨h.queues, h.noneDying, h.running,
    fun hsleep => ⟨(h.busy hsleep).1, fun _ => rfl⟩,
    fun f hf => ⟨rfl, (h.idle f hf).2⟩⟩

theorem finish_ok (h : Inv S k) (hsleep : k.sleeping = none) :
    ∃ k', k.finish = .ok k' ∧ Inv S k' ∧ Moved k k' := by
  obtain ⟨th, hth, hst⟩ := h.current hsleep
  obtain ⟨hnot, hsem⟩ := h.current_out hsleep
  have hwf := h.queues.wf _ _ hth
  obtain ⟨k', hrun, hinv, hmoved⟩ := h.off.slept true hsleep rfl hth
    (th.setStatus_terminated k.totalTicks hst) rfl (hst ▸ .terminate)
    (h.queues.become (th.become .TERMINATED _) hwf.left nofun hnot hsem
      (.inl ⟨rfl, nofun⟩))
  exact ⟨k', hrun, hinv, hmoved.ticks, hmoved.moves⟩

theorem setValue (h : Inv S k) (s : SemId) (value : Int) :
    Inv S { k with semaphores := Function.update k.semaphores s ⟨value,
        (k.semaphores s).queue⟩ } :=
  ⟨{ h.queues with waiting := h.queues.waiting.setValue s value }, h.noneDying,
    h.running, h.busy, h.idle⟩

theorem pLoop_ok (h : Inv S k) (hsleep : k.sleeping = none) (hlevel : k.level = .IntOff) (s : SemId) :
    ∃ k', k.pLoop s = .ok k' ∧ Inv S k' ∧ Moved k k' := by
  obtain ⟨th, hth, hst⟩ := h.current hsleep
  obtain ⟨hnot, hsem⟩ := h.current_out hsleep
  have hwf := h.queues.wf _ _ hth
  by_cases hvalue : (k.semaphores s).value = 0
  · have hblocked := h.queues.become
      (th.become .BLOCKED (th.sys_q_stub.waiting k.totalTicks)) hwf.waiting
      nofun hnot hsem (.inl ⟨rfl, nofun⟩)
    have hq := { hblocked with waiting := hblocked.waiting.join (s := s) Threads.status_update_self hsem }
    obtain ⟨k', hrun, hinv, hmoved⟩ := h.slept false hsleep hlevel hth
      (th.setStatus_blocked k.totalTicks hst) rfl
      (hst ▸ .block) hq
    refine ⟨k', ?_, hinv, hmoved⟩
    rw [Kernel.pLoop]
    dsimp only
    rw [if_pos hvalue, LinkedList.append_ok (hsem s), Outcome.ok_bind]
    exact hrun
  · obtain ⟨T, hsave, hinv, hview⟩ :=
      h.save hsleep th.oldLevel th.oldLevel none (fun h => absurd rfl h)
    refine ⟨_, ?_, hinv.setValue s (int32 ((k.semaphores s).value - 1)), rfl,
      fun t => hview t ▸ .refl⟩
    rw [Kernel.pLoop]
    dsimp only
    rw [if_neg hvalue, Threads.deref_ok hth, Outcome.ok_bind, hsave]
    rfl

theorem p_ok (h : Inv S k) (hsleep : k.sleeping = none) (s : SemId) :
    ∃ k', k.p s = .ok k' ∧ Inv S k' ∧ Moved k k' := by
  obtain ⟨T, hsave, hinv, hview⟩ :=
    h.save hsleep k.level .IntOff (some s) fun _ => rfl
  obtain ⟨k', hrun, hinv', hmoved⟩ := hinv.pLoop_ok hsleep rfl s
  refine ⟨k', ?_, hinv', hmoved.ticks, fun t => hview t ▸ hmoved.moves t⟩
  rw [Kernel.p, hsave]
  exact hrun

theorem wake_ok {th : Thread} {sems : SemId → Semaphore}
    (h : Inv S k) (hth : k.threads t = some th)
    (hst : th.status = .JUST_CREATED ∨ th.status = .BLOCKED)
    (hwaiting : Waiting k.threads sems) (hsem : ∀ s, t ∉ (sems s).queue) :
    ∃ k', Kernel.readyToRun { k with level := .IntOff } t = .ok { k' with
        level := .IntOff } ∧
      k'.level = k.level ∧ k'.semaphores = k.semaphores ∧
          Inv S { k' with semaphores := sems } ∧ Moved k k' := by
  have hstatus := Threads.status_eq hth
  have hwf := h.queues.wf t th hth
  have hset : th.setStatus .READY k.totalTicks =
      .ok (th.become .READY (th.sys_q_stub.toReady k.totalTicks)) := by
    rcases hst with hst | hst
    · exact th.setStatus_created k.totalTicks hst
    · exact th.setStatus_woken k.totalTicks hst
  have hne : th.status ≠ .READY ∧ th.status ≠ .RUNNING ∧
      th.status ≠ .TERMINATED := by
    rcases hst with hst | hst <;> rw [hst] <;> decide
  obtain ⟨q', hrun, _, hqueues⟩ := Kernel.readyToRun_ok
    (k := { k with level := .IntOff })
    { h.queues with waiting := hwaiting } rfl hth hset hwf.toReady
      hne.1 hsem nofun
  have hinv := h.update hqueues
    (fun heq => hne.2.1 (Option.some.inj (hstatus.symm.trans heq))) nofun
    (fun heq => hne.2.2 (Option.some.inj (hstatus.symm.trans heq)))
  refine ⟨{ k with
      threads := Function.update k.threads t
        (some (th.become .READY (th.sys_q_stub.toReady k.totalTicks)))
      readyList := q' }, hrun, rfl, rfl, hinv, rfl, ?_⟩
  intro x
  by_cases hx : x = t
  · subst hx
    show Moves _ _ (Threads.view (Function.update k.threads x _) x)
    rw [Threads.view_eq hth, Threads.view_update_self]
    exact .shift (.ready hst)
  · exact (Threads.view_update_of_ne hx) ▸ .refl

theorem fork_ok (h : Inv S k) (hst : k.threads.status t = some .JUST_CREATED) :
    ∃ k', k.fork t = .ok k' ∧ Inv S k' ∧ Moved k k' := by
  obtain ⟨th, hth, hst'⟩ := Threads.exists_of_status hst
  obtain ⟨k', hrun, hlevel, hsems, hinv, hmoved⟩ := h.wake_ok hth (.inl hst')
    h.queues.waiting
    (h.queues.waiting.not_mem (by rw [hst]; decide))
  refine ⟨k', ?_, ?_, hmoved⟩
  · rw [Kernel.fork, hrun, Outcome.ok_bind, ← hlevel]
    rfl
  · rw [← hsems] at hinv
    exact hinv

theorem v_ok (h : Inv S k) (s : SemId) : ∃ k', k.v s = .ok k' ∧ Inv S k' ∧
    Moved k k' := by
  cases hqueue : (k.semaphores s).queue with
  | nil =>
      have hinv := h.setValue s (int32 ((k.semaphores s).value + 1))
      rw [hqueue] at hinv
      refine ⟨_, ?_, hinv, rfl, fun t => .refl⟩
      rw [Kernel.v]
      dsimp only
      rw [hqueue]
      rfl
  | cons t rest =>
      obtain ⟨hwaiting, hsem⟩ :=
        h.queues.waiting.leave (int32 ((k.semaphores s).value + 1)) hqueue
      obtain ⟨th, hth, hst⟩ := Threads.exists_of_status
        (h.queues.waiting.blocked s t (hqueue ▸ .head _))
      obtain ⟨k', hrun, hlevel, hsems, hinv, hmoved⟩ :=
        h.wake_ok hth (.inr hst) hwaiting hsem
      refine ⟨_, ?_, hinv, hmoved.ticks, hmoved.moves⟩
      rw [Kernel.v]
      dsimp only
      rw [hqueue, Kernel.wakeFirst, hrun, ← hsems, ← hlevel]
      rfl

theorem create_ok (h : Inv S k) {priority : Int} (ht : k.threads t = none)
    (hprio : 0 ≤ priority ∧ priority < 150) :
    Inv S (k.create t priority) ∧ Moved k (k.create t priority) := by
  have hstatus : k.threads.status t = none := congrArg _ ht
  have hqueues := h.queues.become (Thread.new priority k.totalTicks)
    (OrderManager.wf_new hprio) nofun
    (h.queues.not_mem (by rw [hstatus]; exact nofun))
      (h.queues.waiting.not_mem (by rw [hstatus]; exact nofun))
    (.inl ⟨rfl, nofun⟩)
  refine ⟨h.update hqueues (by rw [hstatus]; exact nofun) nofun
    (by rw [hstatus]; exact nofun), rfl, ?_⟩
  intro x
  by_cases hx : x = t
  · subst hx
    show Moves _ _ (Threads.view (Function.update k.threads x _) x)
    rw [Threads.view, ht, Threads.view_update_self]
    exact .create
  · exact (Threads.view_update_of_ne hx) ▸ .refl

theorem aging_ok (h : Inv S k)
    (horder : S → k.readyList.AgesInOrder k.threads k.totalTicks) :
    ∃ q', k.aging = .ok { k with threads := k.threads.aged k.totalTicks, readyList := q' } ∧
      Regrouped S (k.threads.aged k.totalTicks) k.readyList q' ∧
      Inv S { k with threads := k.threads.aged k.totalTicks, readyList := q' } ∧
      Moved k { k with threads := k.threads.aged k.totalTicks, readyList := q' } := by
  obtain ⟨q', hrun, hre, hqueues⟩ := h.queues.aging_ok horder
  refine ⟨q', ?_, hre, ⟨hqueues, h.noneDying, ?_, ?_, ?_⟩, rfl, ?_⟩
  · rw [Kernel.aging, hrun]
    rfl
  · intro t
    rw [Threads.status_aged]
    exact h.running t
  · intro hsleep
    refine ⟨(h.busy hsleep).1, fun hwaits => (h.busy hsleep).2 ?_⟩
    have hnot : k.threads.status k.currentThread ≠ some .READY := by
      rw [(h.running k.currentThread).mpr ⟨rfl, hsleep⟩]
      decide
    rw [Kernel.waitsFor, Threads.waitsFor,
      ← Threads.aged_other k.totalTicks hnot]
    exact hwaits
  · intro f hf
    rw [Threads.status_aged]
    exact h.idle f hf
  · intro t
    show Moves _ _ (Threads.view (k.threads.aged k.totalTicks) t)
    cases ht : k.threads t with
    | none =>
        rw [Threads.view, Threads.view, Threads.aged, ht]
        exact .gone
    | some th =>
        by_cases hst : th.status = .READY
        · rw [Threads.view_eq ht,
            Threads.view_eq (Threads.aged_ready ht hst), hst]
          exact .shift .age
        · have hsame := Threads.aged_other k.totalTicks fun heq =>
            hst (Option.some.inj ((Threads.status_eq ht).symm.trans heq))
          rw [Threads.view, Threads.view, hsame]
          exact .refl

theorem shouldPreempt_ok (h : Inv S k) (hsleep : k.sleeping = none) :
    ∃ preempt, k.shouldPreempt = .ok preempt := by
  obtain ⟨th, hth, hst⟩ := h.current hsleep
  rw [Kernel.shouldPreempt, SystemQueue.shouldPreempt, Threads.deref_ok hth,
    Outcome.ok_bind]
  split
  · exact ⟨true, rfl⟩
  · split
    · exact ⟨false, rfl⟩
    · next front rest hL1 =>
        split
        · exact ⟨true, rfl⟩
        · have hmem : front ∈ k.readyList.L1 := by
            rw [hL1]
            exact .head _
          obtain ⟨th', hth', hst'⟩ :=
            Threads.exists_of_status (h.queues.lined.ready_of_mem .Lv1 hmem)
          rw [cmpRemainTime, Threads.deref_ok hth, Outcome.ok_bind,
            Threads.deref_ok hth', Outcome.ok_bind,
            assertMsg_pos (.inr (.inl ⟨hst', hst⟩))]
          exact ⟨_, rfl⟩

theorem flag (h : Inv S k) (yieldOnReturn : Bool) :
    Inv S { k with yieldOnReturn := yieldOnReturn } :=
  ⟨h.queues, h.noneDying, h.running, h.busy, h.idle⟩

theorem callBack_eq (h : Inv S k)
    (horder : S → k.readyList.AgesInOrder k.threads k.totalTicks)
    (hsleep : k.sleeping = none) :
    ∃ q' preempt, k.callBack = .ok { k with
        threads := k.threads.aged k.totalTicks
        readyList := q'
        yieldOnReturn := k.yieldOnReturn || preempt } ∧
      Kernel.shouldPreempt { k with threads := k.threads.aged k.totalTicks, readyList := q' } = .ok preempt ∧
      Regrouped S (k.threads.aged k.totalTicks) k.readyList q' ∧
      Inv S { k with threads := k.threads.aged k.totalTicks, readyList := q' } ∧
      Moved k { k with threads := k.threads.aged k.totalTicks, readyList := q' } := by
  obtain ⟨q', hrun, hre, hinv, hmoved⟩ := h.aging_ok horder
  obtain ⟨preempt, hpreempt⟩ := hinv.shouldPreempt_ok hsleep
  refine ⟨q', preempt, ?_, hpreempt, hre, hinv, hmoved⟩
  rw [Kernel.callBack, hrun, Outcome.ok_bind, if_pos (h.busy hsleep).1,
    hpreempt, Outcome.ok_bind]
  cases preempt with
  | true => rw [Bool.or_true]; rfl
  | false => rw [Bool.or_false]; rfl

theorem callBack_ok (h : Inv S k) (horder : S → k.readyList.AgesInOrder k.threads k.totalTicks) :
    ∃ k', k.callBack = .ok k' ∧ Inv S k' ∧ Moved k k' := by
  cases hsleep : k.sleeping with
  | none =>
      obtain ⟨q', preempt, hrun, _, _, hinv, hmoved⟩ := h.callBack_eq horder hsleep
      exact ⟨_, hrun, hinv.flag _, hmoved.ticks, hmoved.moves⟩
  | some finishing =>
      obtain ⟨q', hrun, _, hinv, hmoved⟩ := h.aging_ok horder
      refine ⟨_, ?_, hinv, hmoved⟩
      rw [Kernel.callBack, hrun, Outcome.ok_bind,
        if_neg (not_not.mpr (h.idle finishing hsleep).2.1)]
      rfl

theorem serving (h : Inv S k) (hsleep : k.sleeping = none) :
    Inv S { k with yieldOnReturn := false, status := .SystemMode } :=
  ⟨h.queues, h.noneDying, h.running, fun hs => ⟨nofun, (h.busy hs).2⟩,
    fun _ hf => absurd (hsleep.symm.trans hf) nofun⟩

theorem handlersDone_ok (h : Inv S k) (hsleep : k.sleeping = none) :
    ∃ k', k.handlersDone = .ok k' ∧ Inv S k' ∧ Moved k k' := by
  rw [Kernel.handlersDone]
  split
  · obtain ⟨k', hrun, hinv', hmoved, _⟩ := (h.serving hsleep).yield_ok hsleep
    exact ⟨k', hrun, hinv', hmoved.ticks, hmoved.moves⟩
  · exact ⟨k, rfl, h, rfl, fun t => .refl⟩

theorem idleReturn_ok (h : Inv S k) (hsleep : k.sleeping ≠ none) :
    ∃ k', k.idleReturn = .ok k' ∧ Inv S k' ∧ Moved k k' := by
  obtain ⟨finishing, hf⟩ := Option.ne_none_iff_exists'.mp hsleep
  obtain ⟨hlevel, _, hfin⟩ := h.idle finishing hf
  have hnone : ∀ t, k.threads.status t ≠ some .RUNNING :=
    fun t ht => hsleep ((h.running t).mp ht).2
  obtain ⟨k', hrun, hinv, hhanded⟩ := Kernel.sleepLoop_ok
    (k := { k with status := .SystemMode })
    h.queues hlevel h.noneDying nofun hnone hfin
  refine ⟨k', ?_, hinv, hhanded.moved.ticks, hhanded.moved.moves⟩
  rw [Kernel.idleReturn]
  split
  · next hnone => exact absurd hnone hsleep
  · next f hf' =>
      cases hf'.symm.trans hf
      exact hrun

end Inv

/-! ## Every step keeps the invariant -/

/-- A call of `Aging` keeps the order of L2; no other operation can break it. -/
def Op.KeepsOrder (k : Kernel) : Op → Prop
  | .callBack => k.readyList.AgesInOrder k.threads k.totalTicks
  | _ => True

/-- Time passes, or threads move. -/
inductive Progress (k k' : Kernel) : Prop
  | time (hthreads : k'.threads = k.threads)
      (hticks : k.totalTicks ≤ k'.totalTicks)
  | moved (h : Moved k k')

theorem Inv.step {S : Prop} {k : Kernel} (h : Inv S k)
    (op : Op) (hallowed : op.Allowed k) (horder : S → op.KeepsOrder k) :
    ∃ k', op.run k = .ok k' ∧ Inv S k' ∧ Progress k k' := by
  suffices hmoved : (∃ ticks, op = .advance ticks) ∨ ∃ k', op.run k = .ok k' ∧
      Inv S k' ∧ Moved k k' by
    rcases hmoved with ⟨ticks, rfl⟩ | ⟨k', hrun, hinv, hmoved⟩
    · exact ⟨_, rfl, ⟨h.queues.later hallowed, h.noneDying, h.running,
        h.busy, h.idle⟩,
        .time rfl (Int.le_add_of_nonneg_right hallowed)⟩
    · exact ⟨k', hrun, hinv, .moved hmoved⟩
  cases op with
  | create t priority =>
      obtain ⟨hinv, hmoved⟩ := h.create_ok hallowed.2.1 hallowed.2.2
      exact .inr ⟨_, rfl, hinv, hmoved⟩
  | fork t => exact .inr (h.fork_ok hallowed.2)
  | yield =>
      obtain ⟨k', hrun, hinv, hmoved, _⟩ := h.yield_ok hallowed.1
      exact .inr ⟨k', hrun, hinv, hmoved⟩
  | p s => exact .inr (h.p_ok hallowed.1 s)
  | pLoop s =>
      have hlevel := (h.busy hallowed.1).2 (by rw [hallowed.2]; exact nofun)
      exact .inr (h.pLoop_ok hallowed.1 hlevel s)
  | v s => exact .inr (h.v_ok s)
  | finish => exact .inr (h.finish_ok hallowed.1)
  | setLevel level =>
      refine .inr ⟨_, rfl, ⟨h.queues, h.noneDying, h.running, ?_, ?_⟩, rfl,
        fun t => .refl⟩
      · exact fun hsleep =>
          ⟨(h.busy hsleep).1, fun hwaits => absurd hallowed.2 hwaits⟩
      · exact fun f hf => absurd (hallowed.1.symm.trans hf) nofun
  | setStatus status =>
      refine .inr ⟨_, rfl, ⟨h.queues, h.noneDying, h.running, ?_, ?_⟩, rfl,
        fun t => .refl⟩
      · exact fun hsleep => ⟨hallowed.2, (h.busy hsleep).2⟩
      · exact fun f hf => absurd (hallowed.1.1.symm.trans hf) nofun
  | advance ticks => exact .inl ⟨ticks, rfl⟩
  | callBack => exact .inr (h.callBack_ok horder)
  | handlersDone => exact .inr (h.handlersDone_ok hallowed)
  | idleReturn => exact .inr (h.idleReturn_ok hallowed)

theorem boot_eq (values : SemId → Int) : Kernel.boot values = .ok {
    threads := fun t => if t = 0 then
      some ((Thread.new 0 0).become .RUNNING (.new 0 0)) else none
    currentThread := 0
    readyList := ⟨[], [], []⟩
    toBeDestroyed := none
    semaphores := fun s => ⟨values s, []⟩
    totalTicks := 0
    level := .IntOn
    status := .SystemMode
    yieldOnReturn := false
    sleeping := none } := by
  rw [Kernel.boot, Thread.setStatus_created _ _ rfl, Outcome.ok_bind,
    Thread.setStatus_dispatched _ _ rfl]
  rfl

theorem boot_inv {S : Prop} {values : SemId → Int} {k : Kernel}
    (hrun : Kernel.boot values = .ok k) : Inv S k := by
  rw [boot_eq] at hrun
  cases hrun
  have hone : ∀ t, Threads.status
      (fun t => if t = 0 then some ((Thread.new 0 0).become .RUNNING (.new 0 0))
        else none) t =
        if t = 0 then some .RUNNING else none := by
    intro t
    rw [Threads.status]
    split <;> rfl
  have hwf : OrderManager.WF (.new 0 0) 0 :=
    OrderManager.wf_new ⟨Int.le_refl 0, by decide⟩
  refine ⟨⟨?_, ⟨List.nodup_nil, List.forall_mem_nil _, .nil, fun _ => .nil⟩, ?_,
      ?_, (fun _ ht => by cases ht),
      ⟨fun _ => List.forall_mem_nil _, fun _ => List.nodup_nil,
        fun _ _ => List.forall_mem_nil _⟩⟩,
    rfl, ?_, fun _ => ⟨?_, fun hwaits => absurd rfl hwaits⟩, ?_⟩
  · intro t th hth
    dsimp only at hth
    split at hth
    · cases hth
      exact hwf
    · cases hth
  · intro lv t ht
    cases lv <;> cases ht
  · intro t ht
    rw [hone] at ht
    split at ht <;> cases ht
  · intro t
    rw [hone]
    split
    · next h => exact ⟨fun _ => ⟨h, rfl⟩, fun _ => rfl⟩
    · next h => exact ⟨(by rintro ⟨⟩), fun hcur => absurd hcur.1 h⟩
  · intro hidle
    cases hidle
  · intro finishing hsleep
    cases hsleep

/-- The invariant of all runs; L2 is in order if every step of the run keeps it
so. -/
theorem Reachable.inv {S : Prop} {cond : Kernel → Op → Prop}
    (hcond : S → ∀ k op, cond k op → op.KeepsOrder k) {k : Kernel}
    (h : Reachable cond k) : Inv S k := by
  induction h with
  | start hrun => exact boot_inv hrun
  | step _ op hallowed hop hrun ih =>
      obtain ⟨k', hrun', hinv, _⟩ := ih.step op hallowed fun hS =>
        hcond hS _ op hop
      cases hrun.symm.trans hrun'
      exact hinv

end EroikoBlue.MP3
