/-
# `MP3.Order` — what the ready queues hold, and in which order

`ready_queues_exact`: in every run, at every step, the three queues hold the
ready threads, each once and in the queue of its level, and every operation the
kernel can be asked for succeeds.

The comment in `scheduler.h` calls L2 a priority queue.  It is one as long as
each call of `Aging` lifts no thread over one ahead of it (`Op.KeepsOrder`);
`highest_priority_first` is about the runs for which this is so, and
`callBack_in_order_iff` says that no weaker condition on the call will do.
`Aging` itself never looks: two threads that became ready at different times age
at different times, and the one behind can come to have the higher priority.

That takes a run of twenty steps to show (`overtaking`).  What executes a run
stands beside it, together with the kernel it starts with.
-/
import Mathlib.Data.List.Nodup
import EroikoBlue.MP3.Steps

namespace EroikoBlue.MP3

open SystemQueue (AgesInOrder)

/-! ## The queues hold the ready threads -/

theorem count_queue {S : Prop} {k : Kernel} (h : Inv S k) (t : ThreadId)
    (lv : Level) :
    (k.readyList.queue lv).count t =
      if k.threads.status t = some .READY ∧ k.threads.level t = lv then 1
        else 0 := by
  split
  · next hready =>
      obtain ⟨lv', hmem⟩ :=
        SystemQueue.mem_all.mp (h.queues.complete t hready.1 nofun)
      have hlv : lv' = lv := (h.queues.filed lv' t hmem).symm.trans hready.2
      exact List.count_eq_one_of_mem (h.queues.lined.queue_nodup lv)
        (hlv ▸ hmem)
  · next hnot =>
      refine List.count_eq_zero.mpr fun hmem =>
        hnot ⟨?_, h.queues.filed lv t hmem⟩
      exact h.queues.lined.ready_of_mem lv hmem

/-! ## L2 by priority -/

theorem Inv.in_order {k : Kernel} (h : Inv True k) :
    k.readyList.L2.Pairwise fun x y => k.threads.priority y ≤
      k.threads.priority x := by
  refine (h.queues.lined.higher trivial).imp_of_mem ?_
  intro x y _ hy hxy
  exact hxy (Threads.level_two.mp (h.queues.filed .Lv2 y hy)).2

theorem callBack_aged {k k' : Kernel} (h : Inv False k)
    (hrun : k.callBack = .ok k') :
    k'.threads = k.threads.aged k.totalTicks ∧
      SystemQueue.Regrouped False (k.threads.aged k.totalTicks) k.readyList
        k'.readyList := by
  obtain ⟨q', haging, hre, _⟩ := h.aging_ok nofun
  rw [Kernel.callBack, haging, Outcome.ok_bind] at hrun
  split at hrun
  · obtain ⟨preempt, _, heq⟩ := Outcome.bind_eq_ok.mp hrun
    cases preempt with
    | true => cases heq; exact ⟨rfl, hre⟩
    | false => cases heq; exact ⟨rfl, hre⟩
  · cases hrun
    exact ⟨rfl, hre⟩

/-- The condition is exact: where the order has held so far, it holds after the
next call of `Aging` just when that call keeps it. -/
theorem callBack_in_order_iff {k k' : Kernel}
    (h : Reachable (fun k op => op.KeepsOrder k) k)
    (hrun : k.callBack = .ok k') :
    (k'.readyList.L2.Pairwise fun x y => k'.threads.priority y ≤
      k'.threads.priority x) ↔
      k.readyList.AgesInOrder k.threads k.totalTicks := by
  have hinv : Inv True k := h.inv fun _ _ _ h => h
  constructor
  · intro horder
    have hinv' : Inv False k := h.inv nofun
    obtain ⟨hthreads, hre⟩ := callBack_aged hinv' hrun
    rw [hthreads] at horder
    refine (List.pairwise_filter.mp
      (horder.sublist (hre.sublist .Lv2))).imp_of_mem ?_
    intro x y hx hy hxy hlt
    have hready := fun t ht => hinv.queues.lined.ready_of_mem (t := t) .Lv2 ht
    have hlow : ∀ t ∈ k.readyList.L2, 50 ≤
        k.threads.agedPriority k.totalTicks t := fun t ht =>
      (Threads.level_two.mp (hinv.queues.filed .Lv2 t ht)).1.trans
        (hinv.queues.wf.le_agedPriority t)
    rw [Threads.level, Threads.level, Threads.priority_aged (hready x hx),
      Threads.priority_aged (hready y hy),
      decide_eq_true_eq, decide_eq_true_eq, Threads.level_two,
        Threads.level_two] at hxy
    by_cases hx' : k.threads.agedPriority k.totalTicks x < 100
    · exact hxy ⟨hlow x hx, hx'⟩ ⟨hlow y hy, hlt⟩
    · exact hlt.le.trans (not_lt.mp hx')
  · intro hages
    exact (h.step .callBack trivial hages hrun |>.inv fun _ _ _ h => h).in_order

theorem findNextToRun_L2 {k : Kernel} {t : ThreadId} {l : List ThreadId}
    (hL1 : k.readyList.L1 = []) (hL2 : k.readyList.L2 = t :: l) :
    Kernel.findNextToRun { k with level := .IntOff } =
      .ok (some t, { k with level := .IntOff, readyList := { k.readyList with L2 := l } }) := by
  obtain ⟨threads, currentThread, ⟨L1, L2, L3⟩, toBeDestroyed, semaphores,
    totalTicks, level, status, yieldOnReturn,
    sleeping⟩ := k
  cases hL1
  cases hL2
  rfl

/-! ## In every run -/

theorem ready_queues_exact {k : Kernel} (h : Reachable (fun _ _ => True) k) :
    (∀ t lv, (k.readyList.queue lv).count t =
        if k.threads.status t = some .READY ∧
          k.threads.level t = lv then 1 else 0) ∧
      (∀ t, k.threads.status t = some .RUNNING → t = k.currentThread) ∧
      (∀ op : Op, op.Allowed k → ∃ k', op.run k = .ok k') ∧
      ∃ q', k.readyList.aging k.threads k.totalTicks =
        .ok (k.threads.aged k.totalTicks, q') ∧
        ∀ t, q'.all.count t = k.readyList.all.count t := by
  have hinv : Inv False k := h.inv nofun
  refine ⟨count_queue hinv, fun t ht => ((hinv.running t).mp ht).1, ?_, ?_⟩
  · intro op hallowed
    obtain ⟨k', hrun, _⟩ := hinv.step op hallowed nofun
    exact ⟨k', hrun⟩
  · obtain ⟨q', hrun, hre, _⟩ := hinv.queues.aging_ok nofun
    exact ⟨q', hrun, fun t => hre.perm.count_eq t⟩

/-! ## A thread that overtakes another -/

instance (k : Kernel) : Decidable k.Executing := by
  unfold Kernel.Executing
  infer_instance

instance (k : Kernel) : (op : Op) → Decidable (op.Allowed k)
  | .create t priority => inferInstanceAs (Decidable (k.Executing ∧
        k.threads t = none ∧ 0 ≤ priority ∧ priority < 150))
  | .fork t => inferInstanceAs
        (Decidable (k.Executing ∧ k.threads.status t = some .JUST_CREATED))
  | .yield => inferInstanceAs (Decidable k.Executing)
  | .p _ => inferInstanceAs (Decidable k.Executing)
  | .pLoop s =>
      inferInstanceAs (Decidable (k.sleeping = none ∧ k.waitsFor = some s))
  | .v _ => inferInstanceAs (Decidable True)
  | .finish => inferInstanceAs (Decidable k.Executing)
  | .setLevel _ => inferInstanceAs (Decidable k.Executing)
  | .setStatus status =>
      inferInstanceAs (Decidable (k.Executing ∧ status ≠ .IdleMode))
  | .advance ticks => inferInstanceAs (Decidable (0 ≤ ticks))
  | .callBack => inferInstanceAs (Decidable True)
  | .handlersDone => inferInstanceAs (Decidable (k.sleeping = none))
  | .idleReturn => inferInstanceAs (Decidable (k.sleeping ≠ none))

instance (k : Kernel) : (op : Op) → Decidable (op.KeepsOrder k)
  | .callBack => inferInstanceAs (Decidable (List.Pairwise _ _))
  | .create _ _ | .fork _ | .yield | .p _ | .pLoop _ | .v _ | .finish
  | .setLevel _ | .setStatus _ | .advance _
  | .handlersDone | .idleReturn => inferInstanceAs (Decidable True)

/-- A run, if each of its steps is one and meets `cond`. -/
def Kernel.steps (cond : Kernel → Op → Prop) [∀ k op, Decidable (cond k op)]
    (k : Kernel) : List Op → Option Kernel
  | [] => some k
  | op :: ops =>
    if op.Allowed k ∧ cond k op then
      match op.run k with
      | .ok k' => steps cond k' ops
      | .error _ => none
    else none

theorem Reachable.steps {cond : Kernel → Op → Prop}
    [∀ k op, Decidable (cond k op)] :
    ∀ {ops : List Op} {k k' : Kernel}, Reachable cond k →
      k.steps cond ops = some k' → Reachable cond k'
  | [], k, k', h, hrun => Option.some.inj hrun ▸ h
  | op :: ops, k, k', h, hrun => by
      rw [Kernel.steps] at hrun
      split at hrun
      · next hstep =>
          split at hrun
          · next k₁ hop => exact (h.step op hstep.1 hstep.2 hop).steps hrun
          · cases hrun
      · cases hrun

/-- The kernel after `Initialize`, with every semaphore at 0. -/
def booted : Kernel where
  threads := fun t => if t = 0 then
    some ((Thread.new 0 0).become .RUNNING (.new 0 0)) else none
  currentThread := 0
  readyList := ⟨[], [], []⟩
  toBeDestroyed := none
  semaphores := fun _ => ⟨0, []⟩
  totalTicks := 0
  level := .IntOn
  status := .SystemMode
  yieldOnReturn := false
  sleeping := none

theorem reachable_booted {cond : Kernel → Op → Prop} : Reachable cond booted :=
  .start (boot_eq fun _ => 0)

/-- The timer goes off `n` times. -/
def ticking (n : Nat) : List Op :=
  (List.replicate n [.advance 100, .callBack, .handlersDone]).flatten

/-- Thread 1 runs in L1 for 1500 ticks.  Thread 2 waits all the time, and thread
3, of higher priority, for the last 500 of them: the aging that lifts thread 2
leaves it behind thread 3. -/
def overtaking : List Op :=
  [.create 1 120, .fork 1, .yield, .create 2 55, .fork 2] ++ ticking 10 ++
    [.create 3 60, .fork 3] ++ ticking 5

/-- The main thread and two others are ready, and the kernel can be asked for
anything. -/
theorem ready_queues_exact_overtaking :
    ∃ k, booted.steps (fun _ _ => True) overtaking = some k ∧
    k.readyList.L2 = [3, 2] ∧ k.readyList.L3 = [0] ∧
    (∀ t lv, (k.readyList.queue lv).count t =
        if k.threads.status t = some .READY ∧
          k.threads.level t = lv then 1 else 0) ∧
      (∀ t, k.threads.status t = some .RUNNING → t = k.currentThread) ∧
      (∀ op : Op, op.Allowed k → ∃ k', op.run k = .ok k') ∧
      ∃ q', k.readyList.aging k.threads k.totalTicks =
        .ok (k.threads.aged k.totalTicks, q') ∧
        ∀ t, q'.all.count t = k.readyList.all.count t := by
  obtain ⟨k, hrun, hqueues⟩ := Option.map_eq_some_iff.mp (show
      (booted.steps (fun _ _ => True) overtaking).map
      (fun k => (k.readyList.L2, k.readyList.L3)) = some ([3, 2], [0]) by
        decide +kernel)
  obtain ⟨hL2, hL3⟩ := Prod.mk.inj hqueues
  exact ⟨k, hrun, hL2, hL3, ready_queues_exact (reachable_booted.steps hrun)⟩

/-! ## The order of L2 -/

theorem highest_priority_first {k : Kernel}
    (h : Reachable (fun k op => op.KeepsOrder k) k) :
    (k.readyList.L2.Pairwise fun x y => k.threads.priority y ≤
      k.threads.priority x) ∧
      (k.readyList.L1 = [] → k.readyList.L2 ≠ [] → ∃ t k',
        Kernel.findNextToRun { k with level := .IntOff } = .ok (some t, k') ∧
        ∀ x ∈ k.readyList.L2, k.threads.priority x ≤ k.threads.priority t) := by
  have horder := (h.inv (S := True) fun _ _ _ h => h).in_order
  refine ⟨horder, ?_⟩
  intro hL1 hL2
  obtain ⟨t, l, hl⟩ := List.exists_cons_of_ne_nil hL2
  refine ⟨t, _, findNextToRun_L2 hL1 hl, ?_⟩
  intro x hx
  rw [hl] at hx horder
  rcases List.mem_cons.mp hx with rfl | hx
  · exact Int.le_refl _
  · exact List.rel_of_pairwise_cons horder hx

/-- Two threads that wait side by side age together. -/
theorem highest_priority_first_together :
    ∃ k, booted.steps (fun k op => op.KeepsOrder k)
      ([.create 1 120, .fork 1, .yield, .create 2 55, .fork 2, .create 3 60,
        .fork 3] ++ ticking 15) = some k ∧
    k.readyList.L2 = [3, 2] ∧
    (k.readyList.L2.Pairwise fun x y => k.threads.priority y ≤
      k.threads.priority x) ∧
    (k.readyList.L1 = [] → k.readyList.L2 ≠ [] → ∃ t k',
      Kernel.findNextToRun { k with level := .IntOff } = .ok (some t, k') ∧
      ∀ x ∈ k.readyList.L2, k.threads.priority x ≤ k.threads.priority t) := by
  obtain ⟨k, hrun, hL2⟩ := Option.map_eq_some_iff.mp
      (show (booted.steps (fun k op => op.KeepsOrder k)
      ([.create 1 120, .fork 1, .yield, .create 2 55, .fork 2, .create 3 60,
        .fork 3] ++ ticking 15)).map
        (·.readyList.L2) = some [3, 2] by decide +kernel)
  exact ⟨k, hrun, hL2, highest_priority_first (reachable_booted.steps hrun)⟩

theorem lower_priority_first :
    ∃ k, booted.steps (fun _ _ => True) overtaking = some k ∧
    Reachable (fun _ _ => True) k ∧ k.readyList.L1 = [] ∧
      k.readyList.L2 = [3, 2] ∧
    k.threads.priority 3 = 60 ∧ k.threads.priority 2 = 65 ∧
    ∃ k', Kernel.findNextToRun { k with level := .IntOff } =
        .ok (some 3, k') := by
  obtain ⟨k, hrun, hk⟩ := Option.map_eq_some_iff.mp (show
      (booted.steps (fun _ _ => True) overtaking).map
      (fun k => (k.readyList.L1, k.readyList.L2, k.threads.priority 3,
        k.threads.priority 2)) =
        some ([], [3, 2], 60, 65) by decide +kernel)
  simp only [Prod.mk.injEq] at hk
  obtain ⟨hL1, hL2, h3, h2⟩ := hk
  exact ⟨k, hrun, reachable_booted.steps hrun, hL1, hL2, h3, h2, _,
    findNextToRun_L2 hL1 hL2⟩

end EroikoBlue.MP3
