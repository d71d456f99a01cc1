/-
# `MP3.Preemption` — what a timer interrupt leaves running

`CallBack` ages the ready threads, asks `ShouldPreempt`, and lets the running
thread yield.  The three look at the queues at different moments: the question
is asked before the running thread is put back, the next thread is taken before
it too, and when it is put back its aged priority is reset.  `callBack_settles`
says what holds after all three.

## What is left over

With `Settled` nobody who waits is on a better level than the running thread,
and on L1 nobody is shorter by two ticks.  It is two because the queue is sorted
up to a tick and the comparison with its front truncates once more.  On L2
nothing is said about priorities, for it is not preemptive.

The proof goes by what the answer of `ShouldPreempt` was (`shouldPreempt_spec`):
when it was no, the running thread stays and the queues have not changed since
(`settled_quiet`); when it was yes, the thread that runs now is the front of the
queues after aging (`settled_yield`).
-/
import EroikoBlue.MP3.Order

namespace EroikoBlue.MP3

open SystemQueue (Front)

/-- The value of the enumerator: level 1 is the highest. -/
def Level.toNat : Level → Nat
  | .Lv1 => 1
  | .Lv2 => 2
  | .Lv3 => 3

namespace Threads
variable {T T' : Threads} {t : ThreadId} {th : Thread}

theorem level_of_view (h : T'.view t = T.view t) : T'.level t = T.level t := by
  have hlevel : ∀ T : Threads, T.level t =
      levelOf ((T.view t).elim 0 (·.2.priority)) := by
    intro T
    rw [level, priority, view]
    cases T t <;> rfl
  rw [hlevel, h, ← hlevel]

theorem rest_of_view (h : T'.view t = T.view t) : T'.rest t = T.rest t := by
  have hrest : ∀ T : Threads, T.rest t =
      (T.view t).elim 0
          (fun v => v.2.remain_burst_time - v.2.current_burst_time) := by
    intro T
    rw [rest, view]
    cases T t <;> rfl
  rw [hrest, h, ← hrest]

theorem rest_view {st : ThreadStatus} {o : OrderManager}
    (h : T.view t = some (st, o)) :
    T.rest t = o.remain_burst_time - o.current_burst_time := by
  obtain ⟨th, hth, heq⟩ := Option.map_eq_some_iff.mp h
  rw [rest_eq hth, ← (Prod.mk.inj heq).2]

theorem level_view {st : ThreadStatus} {o : OrderManager}
    (h : T.view t = some (st, o)) :
    T.level t = levelOf o.priority := by
  obtain ⟨th, hth, heq⟩ := Option.map_eq_some_iff.mp h
  rw [level_eq hth, ← (Prod.mk.inj heq).2]
  rfl

/-- The remaining burst time of a thread, running or not. -/
def remain (T : Threads) (now : Int) (t : ThreadId) : ℚ :=
  ((T t).map (·.getRemainTime now)).getD 0

theorem remain_of_ready {now : Int} (h : T.status t = some .READY) :
    T.remain now t = T.rest t := by
  obtain ⟨th, hth, hst⟩ := exists_of_status h
  rw [remain, hth, rest_eq hth]
  exact remain_ready hst

/-- While a thread runs, the time since it was dispatched counts as well. -/
theorem remain_of_running {now : Int} {o : OrderManager}
    (h : T.view t = some (.RUNNING, o)) :
    T.remain now t = o.remain_burst_time - o.burst now := by
  obtain ⟨th, hth, heq⟩ := Option.map_eq_some_iff.mp h
  obtain ⟨hst, rfl⟩ := Prod.mk.inj heq
  rw [remain, hth]
  show th.sys_q_stub.getRemainTime th.status now = _
  rw [hst, OrderManager.getRemainTime, if_pos rfl]
  rfl

end Threads

theorem shouldPreempt_spec {S : Prop}
    {k : Kernel} {preempt : Bool} (h : Inv S k) (hsleep : k.sleeping = none)
    (hrun : k.shouldPreempt = .ok preempt) :
    (preempt = false → k.threads.level k.currentThread ≠ .Lv3 ∧
        ∀ front ∈ k.readyList.L1.head?,
        k.threads.level k.currentThread ≠ .Lv2 ∧
          k.threads.remain k.totalTicks k.currentThread <
            k.threads.rest front + 1) ∧
      (preempt = true → k.threads.level k.currentThread = .Lv3 ∨
        ∃ front ∈ k.readyList.L1.head?,
        k.threads.level k.currentThread = .Lv2 ∨
          k.threads.rest front + 1 ≤
            k.threads.remain k.totalTicks k.currentThread) := by
  obtain ⟨th, hth, hst⟩ := h.current hsleep
  rw [Kernel.shouldPreempt, SystemQueue.shouldPreempt, Threads.deref_ok hth,
    Outcome.ok_bind] at hrun
  rw [Threads.level_eq hth]
  split at hrun
  · next h3 =>
      cases hrun
      exact ⟨(by rintro ⟨⟩), fun _ => .inl h3⟩
  · next h3 =>
      split at hrun
      · next hL1 =>
          cases hrun
          exact ⟨fun _ =>
            ⟨h3, fun front hfront => by rw [hL1] at hfront; cases hfront⟩,
            (by rintro ⟨⟩)⟩
      · next front l hL1 =>
          rw [hL1]
          split at hrun
          · next h2 =>
              cases hrun
              exact ⟨(by rintro ⟨⟩), fun _ => .inr ⟨front, rfl, .inl h2⟩⟩
          · next h2 =>
              have hmem : front ∈ k.readyList.L1 := by
                rw [hL1]
                exact .head _
              have hready := h.queues.lined.ready_of_mem .Lv1 hmem
              obtain ⟨th', hth', hst'⟩ := Threads.exists_of_status hready
              have hremain : th'.getRemainTime k.totalTicks =
                  k.threads.rest front := by
                rw [Threads.remain_ready hst', Threads.rest_eq hth']
              rw [cmpRemainTime, Threads.deref_ok hth, Outcome.ok_bind,
                Threads.deref_ok hth', Outcome.ok_bind,
                assertMsg_pos (.inr (.inl ⟨hst', hst⟩)), Outcome.ok_bind,
                  hremain] at hrun
              have hcur : k.threads.remain k.totalTicks k.currentThread =
                  th.getRemainTime k.totalTicks := by
                rw [Threads.remain, hth]
                rfl
              have hpos := trunc_pos
                (x := th.getRemainTime k.totalTicks - k.threads.rest front)
              cases hrun
              rw [hcur]
              constructor
              · intro hfalse
                refine ⟨h3, ?_⟩
                rintro _ ⟨⟩
                refine ⟨h2, ?_⟩
                have hlt := not_le.mp (mt hpos.mpr (of_decide_eq_false hfalse))
                linarith
              · intro htrue
                refine .inr ⟨front, rfl, .inr ?_⟩
                have hle := hpos.mp (of_decide_eq_true htrue)
                linarith

/-- No ready thread is in a higher level than the one that runs, and in L1 none
is shorter by two ticks. -/
structure Settled (k : Kernel) : Prop where
  level : ∀ t, k.threads.status t = some .READY →
    (k.threads.level k.currentThread).toNat ≤ (k.threads.level t).toNat
  shortest : k.threads.level k.currentThread = .Lv1 →
    ∀ t, k.threads.status t = some .READY →
    k.threads.level t = .Lv1 →
    k.threads.remain k.totalTicks k.currentThread <
      k.threads.remain k.totalTicks t + 2

theorem Level.bounds (lv : Level) : 1 ≤ lv.toNat ∧ lv.toNat ≤ 3 := by
  cases lv <;> decide

theorem Level.eq_one {lv : Level} (h : lv.toNat ≤ 1) : lv = .Lv1 := by
  cases lv with
  | Lv1 => rfl
  | Lv2 => exact absurd h (by decide)
  | Lv3 => exact absurd h (by decide)

/-- A higher priority is not in a lower level. -/
theorem levelOf_mono {p p' : Int} (hp : 0 ≤ p) (hle : p ≤ p') :
    (levelOf p').toNat ≤ (levelOf p).toNat := by
  cases hlv : levelOf p with
  | Lv1 =>
      have h100 := (Threads.level_one hp).mp hlv
      rw [(Threads.level_one (hp.trans hle)).mpr (h100.trans hle)]
  | Lv2 =>
      have h50 := (Threads.level_two.mp hlv).1.trans hle
      rcases lt_or_ge p' 100 with hlt | hge
      · rw [Threads.level_two.mpr ⟨h50, hlt⟩]
      · rw [(Threads.level_one (hp.trans hle)).mpr hge]
        decide
  | Lv3 => exact (Level.bounds _).2

/-- The front is in the highest queue that is not empty. -/
theorem SystemQueue.Front.highest {t : ThreadId} {q q' : SystemQueue}
    (h : Front t q q') :
    ∃ lv, t ∈ q.queue lv ∧ (∀ lv', lv'.toNat < lv.toNat → q.queue lv' = []) ∧
      (lv = .Lv1 → t ∈ q.L1.head?) := by
  cases h with
  | Lv1 =>
      refine ⟨.Lv1, .head _, ?_, fun _ => rfl⟩
      exact fun lv' hlt => absurd (Level.bounds lv').1 (Nat.not_le.mpr hlt)
  | Lv2 =>
      refine ⟨.Lv2, .head _, ?_, nofun⟩
      intro lv' hlt
      rw [Level.eq_one (Nat.le_of_lt_succ hlt)]
      rfl
  | Lv3 =>
      refine ⟨.Lv3, .head _, ?_, nofun⟩
      intro lv' hlt
      cases lv' with
      | Lv1 => rfl
      | Lv2 => rfl
      | Lv3 => exact absurd hlt (Nat.lt_irrefl _)

section
variable {S : Prop} {k k' : Kernel} {t : ThreadId}

theorem Inv.mem_queue (h : Inv S k)
    (hready : k.threads.status t = some .READY) :
    t ∈ k.readyList.queue (k.threads.level t) := by
  obtain ⟨lv, hmem⟩ := SystemQueue.mem_all.mp (h.queues.complete t hready nofun)
  exact (h.queues.filed lv t hmem) ▸ hmem

/-- Nobody in L1 is shorter than its front by a tick. -/
theorem Inv.front_le (h : Inv S k) {front : ThreadId}
    (hfront : front ∈ k.readyList.L1.head?) (ht : t ∈ k.readyList.queue .Lv1) :
    k.threads.rest front < k.threads.rest t + 1 := by
  have ht : t ∈ k.readyList.L1 := ht
  have hshort := h.queues.lined.shorter
  cases hL1 : k.readyList.L1 with
  | nil =>
      rw [hL1] at ht
      cases ht
  | cons x l =>
      rw [hL1] at hfront ht hshort
      cases hfront
      rcases List.mem_cons.mp ht with rfl | ht
      · linarith
      · exact List.rel_of_pairwise_cons hshort ht

/-- If nothing asks for a yield, the running thread may go on. -/
theorem Inv.settled_quiet (h : Inv S k)
    (h3 : k.threads.level k.currentThread ≠ .Lv3)
    (hquiet : ∀ front ∈ k.readyList.L1.head?,
      k.threads.level k.currentThread ≠ .Lv2 ∧
      k.threads.remain k.totalTicks k.currentThread <
        k.threads.rest front + 1) :
    Settled k ∧
      (k.threads.level k.currentThread = .Lv2 → k.readyList.L1 = []) := by
  have hempty : k.threads.level k.currentThread = .Lv2 →
      k.readyList.L1 = [] := by
    intro h2
    refine List.head?_eq_none_iff.mp (Option.eq_none_iff_forall_not_mem.mpr ?_)
    exact fun front hfront => (hquiet front hfront).1 h2
  refine ⟨⟨?_, ?_⟩, hempty⟩
  · intro t ht
    have hmem := h.mem_queue ht
    cases hcur : k.threads.level k.currentThread with
    | Lv1 => exact (Level.bounds _).1
    | Lv2 =>
        cases hlv : k.threads.level t with
        | Lv1 =>
            rw [hlv, show k.readyList.queue .Lv1 = [] from hempty hcur] at hmem
            cases hmem
        | Lv2 => decide
        | Lv3 => decide
    | Lv3 => exact absurd hcur h3
  · intro _ t ht hlv
    have hmem : t ∈ k.readyList.queue .Lv1 := hlv ▸ h.mem_queue ht
    obtain ⟨front, hfront⟩ := Option.isSome_iff_exists.mp
      (List.isSome_head?.mpr (List.ne_nil_of_mem hmem))
    have hle := h.front_le hfront hmem
    have hlt := (hquiet front hfront).2
    rw [Threads.remain_of_ready ht]
    linarith

/-- With nobody else ready, nothing is to be compared. -/
theorem Inv.settled_empty (h : Inv S k) (hempty : k.readyList.all = []) :
    Settled k := by
  have hnone : ∀ t, k.threads.status t ≠ some .READY := by
    intro t ht
    have hmem := h.queues.complete t ht nofun
    rw [hempty] at hmem
    cases hmem
  exact ⟨fun t ht => absurd ht (hnone t), fun _ t ht => absurd ht (hnone t)⟩

/-- After the yield the thread that was in front runs, and the one that ran is
in the queue of its initial priority. -/
theorem Inv.settled_yield {next : ThreadId}
    {q : SystemQueue} (h : Inv S k) (hsleep : k.sleeping = none) (h' : Inv S k')
    (hticks : k'.totalTicks = k.totalTicks) (hy : Yielded next q k k')
    (hwhy : k.threads.level k.currentThread = .Lv3 ∨
      ∃ front ∈ k.readyList.L1.head?,
      k.threads.level k.currentThread = .Lv2 ∨
        k.threads.rest front + 1 ≤
          k.threads.remain k.totalTicks k.currentThread) : Settled k' := by
  obtain ⟨th, hth, hst⟩ := h.current hsleep
  have hcur : k.threads.view k.currentThread = some (.RUNNING, th.sys_q_stub) :=
    hst ▸ Threads.view_eq hth
  have hback := hy.current _ hcur
  have hwf := h.queues.wf _ _ hth
  have hmono : (k.threads.level k.currentThread).toNat ≤
      (k'.threads.level k.currentThread).toNat := by
    rw [Threads.level_view hback, Threads.level_eq hth]
    exact levelOf_mono hwf.init hwf.ge_init
  obtain ⟨lv, hmem, hempty, hhead⟩ := hy.front.highest
  obtain ⟨thn, hthn, hstn⟩ :=
    Threads.exists_of_status (h.queues.lined.ready_of_mem lv hmem)
  have hnext := hy.chosen thn.sys_q_stub (hstn ▸ Threads.view_eq hthn)
  have hlevel : k'.threads.level next = lv := by
    rw [Threads.level_view hnext, ← h.queues.filed lv next hmem,
      Threads.level_eq hthn]
    rfl
  have hcases : ∀ t, k'.threads.status t = some .READY →
      t = k.currentThread ∨ t ∈ q.all ∧ k.threads.status t = some .READY := by
    intro t ht
    rcases List.mem_cons.mp (hy.perm.mem_iff.mp (h'.queues.complete t ht nofun)) with
      heq | hmem
    · exact .inl heq
    · exact .inr ⟨hmem, h.queues.lined.ready t (hy.front.all ▸ .tail _ hmem)⟩
  -- a queue above the one that `next` was in is empty
  have hle : ∀ t, k.threads.status t = some .READY →
      lv.toNat ≤ (k.threads.level t).toNat := by
    intro t ht
    refine Nat.not_lt.mp fun hlt => ?_
    have hmem := h.mem_queue ht
    rw [hempty _ hlt] at hmem
    cases hmem
  refine ⟨?_, ?_⟩
  · intro t ht
    rw [hy.currentThread, hlevel]
    rcases hcases t ht with rfl | ⟨hmem, hready⟩
    · rcases hwhy with h3 | ⟨front, hfront, _⟩
      · rw [h3] at hmono
        exact (Level.bounds lv).2.trans hmono
      · have hready :=
          h.queues.lined.ready_of_mem .Lv1 (List.mem_of_mem_head? hfront)
        have hone := hle front hready
        rw [h.queues.filed .Lv1 front (List.mem_of_mem_head? hfront)] at hone
        exact hone.trans (Level.bounds _).1
    · rw [Threads.level_of_view (hy.other t hmem)]
      exact hle t hready
  · intro hone t ht hlv
    rw [hy.currentThread, hlevel] at hone
    have hfront := hhead hone
    have hremain : k'.threads.remain k'.totalTicks next =
        k.threads.rest next := by
      rw [Threads.remain_of_running hnext, Threads.rest_eq hthn, hticks,
        OrderManager.burst]
      show _ - (thn.sys_q_stub.current_burst_time +
        (k.totalTicks - k.totalTicks : Int)) = _
      rw [Int.sub_self, Int.cast_zero, add_zero]
      rfl
    rw [hy.currentThread, hremain, Threads.remain_of_ready ht]
    rcases hcases t ht with rfl | ⟨hmem, hready⟩
    · rw [hlv] at hmono
      have hcur1 := Level.eq_one hmono
      have hsame : k'.threads.rest k.currentThread =
          k.threads.remain k.totalTicks k.currentThread := by
        rw [Threads.remain_of_running hcur, Threads.rest_view hback]
        rfl
      rcases hwhy with h3 | ⟨front, hfront', h2 | hle'⟩
      · exact absurd (hcur1.symm.trans h3) nofun
      · exact absurd (hcur1.symm.trans h2) nofun
      · cases Option.some.inj (hfront.symm.trans hfront')
        rw [hsame]
        linarith
    · rw [Threads.level_of_view (hy.other t hmem)] at hlv
      have hlt := h.front_le hfront (hlv ▸ h.mem_queue hready)
      rw [Threads.rest_of_view (hy.other t hmem)]
      linarith

end

/-- A timer interrupt that finds a thread running. -/
theorem callBack_settles {k : Kernel} (h : Reachable (fun _ _ => True) k)
    (hrunning : k.threads.status k.currentThread = some .RUNNING) :
    ∃ k₁ preempt k₂, k.callBack = .ok k₁ ∧ k₁.shouldPreempt = .ok preempt ∧
      k₁.yieldOnReturn = (k.yieldOnReturn || preempt) ∧
      (if preempt then k₁.handlersDone else pure k₁) = .ok k₂ ∧
      Settled k₂ ∧
      (k.threads.level k.currentThread = .Lv2 →
          k₂.currentThread = k.currentThread → k₂.readyList.L1 = []) := by
  have hinv : Inv False k := h.inv (by rintro ⟨⟩)
  have hsleep := ((hinv.running _).mp hrunning).2
  obtain ⟨q', preempt, hrun, hpreempt, hre, hinv', _⟩ :=
    hinv.callBack_eq (by rintro ⟨⟩) hsleep
  have hwhy := shouldPreempt_spec hinv' hsleep hpreempt
  have hlevel : (k.threads.aged k.totalTicks).level k.currentThread =
      k.threads.level k.currentThread := by
    rw [Threads.level, Threads.priority,
      Threads.aged_other k.totalTicks (by rw [hrunning]; rintro ⟨⟩)]
    rfl
  cases preempt with
  | false =>
      obtain ⟨h3, hquiet⟩ := hwhy.1 rfl
      obtain ⟨hsettled, hempty⟩ := hinv'.settled_quiet h3 hquiet
      refine ⟨_, false, _, hrun, hpreempt, rfl, rfl,
        ⟨hsettled.level, hsettled.shortest⟩, ?_⟩
      intro h2 _
      exact hempty (hlevel.trans h2)
  | true =>
      have hserving := hinv'.serving hsleep
      obtain ⟨k₂, hyield, hinv₂, hmoved, hcases⟩ := hserving.yield_ok hsleep
      have hdone : Kernel.handlersDone { k with
          threads := k.threads.aged k.totalTicks
          readyList := q'
          yieldOnReturn := k.yieldOnReturn || true } = .ok k₂ := by
        rw [Bool.or_true]
        exact hyield
      refine ⟨_, true, k₂, hrun, hpreempt, rfl, hdone, ?_⟩
      rcases hcases with ⟨hempty, rfl⟩ | ⟨next, q, hyielded⟩
      · have hsettled := hserving.settled_empty hempty
        refine ⟨hsettled, fun _ _ => ?_⟩
        exact (List.append_eq_nil_iff.mp (List.append_eq_nil_iff.mp hempty).1).1
      · have hsettled :=
          hserving.settled_yield hsleep hinv₂ hmoved.ticks hyielded (hwhy.2 rfl)
        refine ⟨hsettled, fun _ hsame => ?_⟩
        have hready :=
          hserving.queues.lined.ready next (hyielded.front.all ▸ .head _)
        have hcur := (hserving.running k.currentThread).mpr ⟨rfl, hsleep⟩
        rw [← hsame, hyielded.currentThread] at hcur
        exact absurd (hready.symm.trans hcur) (by rintro ⟨⟩)

/-- The main thread runs, one thread waits in L1 and one in L2. -/
theorem callBack_settles_main : ∃ k, booted.steps (fun _ _ => True)
    [.create 1 120, .fork 1, .create 2 60, .fork 2] =
      some k ∧ k.readyList = ⟨[1], [2], []⟩ ∧
    ∃ k₁ preempt k₂, k.callBack = .ok k₁ ∧ k₁.shouldPreempt = .ok preempt ∧
      k₁.yieldOnReturn = (k.yieldOnReturn || preempt) ∧
      (if preempt then k₁.handlersDone else pure k₁) = .ok k₂ ∧
      Settled k₂ ∧
      (k.threads.level k.currentThread = .Lv2 →
          k₂.currentThread = k.currentThread → k₂.readyList.L1 = []) := by
  obtain ⟨k, hrun, hk⟩ := Option.map_eq_some_iff.mp
      (show (booted.steps (fun _ _ => True)
      [.create 1 120, .fork 1, .create 2 60, .fork 2]).map
        (fun k => (k.readyList, k.threads.status k.currentThread)) =
            some (⟨[1], [2], []⟩, some .RUNNING) by
    decide +kernel)
  simp only [Prod.mk.injEq] at hk
  exact ⟨k, hrun, hk.1, callBack_settles (reachable_booted.steps hrun) hk.2⟩

end EroikoBlue.MP3
