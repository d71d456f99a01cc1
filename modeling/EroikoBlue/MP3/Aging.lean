/-
# `MP3.Aging` — the priority of a waiting thread, as a function of time

`aging` is called whenever the timer goes off, and sometimes later.  It moves
`tick_cache` on by whole periods of 1500 ticks, so that what is left of a period
is counted the next time, and adds 10 for each of them, up to 149.  The calls in
between therefore leave no trace: at the last one the priority is what a single
call would have made of it (`Sampled`, kept by every call).

`Lives p` are the states of a thread that was made with priority `p`.

## The closed form

For samples that do not decrease, the last at `t`, of a thread that has waited
since `t₀` with priority `p`,

    priority = min 149 (p + 10 * ((t - t₀) / 1500))
    tick_cache = t₀ + 1500 * ((t - t₀) / 1500)

and the samples before the last one do not occur in it (`aging_of_samples`).  It
needs that `p` is one of 0 … 149; what `aging` does with others is the subject
of `MP3.CommandLine`.
-/
import Mathlib.Data.List.Chain
import EroikoBlue.MP3.Thread

namespace EroikoBlue.MP3

open OrderManager (AGING_TICK)

/-! ## What never changes -/

theorem OrderManager.leaveRun_init {o o' : OrderManager}
    {st : ThreadStatus} {now : Int} (h : o.leaveRun st now = .ok o') :
    o'.init_priority = o.init_priority := by
  obtain ⟨_, _, hpure⟩ := Outcome.bind_eq_ok.mp h
  cases hpure
  rfl

theorem OrderManager.runToWait_init {o o' : OrderManager}
    {st : ThreadStatus} {now : Int} (h : o.runToWait st now = .ok o') :
    o'.init_priority = o.init_priority := by
  obtain ⟨left, hleft, hpure⟩ := Outcome.bind_eq_ok.mp h
  have hinit := leaveRun_init hleft
  split at hpure
  · cases hpure
    exact hinit
  · cases hpure
    exact hinit

theorem OrderManager.aging_init {o o' : OrderManager}
    {st : ThreadStatus} {now : Int} (h : o.aging st now = .ok o') :
    o'.init_priority = o.init_priority := by
  obtain ⟨_, _, hrest⟩ := Outcome.bind_eq_ok.mp h
  split at hrest
  · obtain ⟨_, _, hpure⟩ := Outcome.bind_eq_ok.mp hrest
    cases hpure
    rfl
  · cases hrest
    rfl

/-- Whatever the transition, the thread keeps the priority it was made with;
made ready, it gets that priority back, and its clock starts. -/
theorem Thread.setStatus_spec {th th' : Thread} {st : ThreadStatus} {now : Int}
    (h : th.setStatus st now = .ok th') :
    th'.status = st ∧
      th'.sys_q_stub.init_priority = th.sys_q_stub.init_priority ∧
      (st = .READY → th'.sys_q_stub.tick_cache = now ∧
        th'.getPriority = th.sys_q_stub.init_priority) := by
  obtain ⟨o, ho, hpure⟩ := Outcome.bind_eq_ok.mp h
  cases hpure
  refine ⟨rfl, ?_⟩
  show o.init_priority = _ ∧ (_ → o.tick_cache = now ∧ o.priority = _)
  rw [transfer] at ho
  split at ho
  · -- to READY
    split at ho
    · cases ho
      exact ⟨rfl, fun _ => ⟨rfl, rfl⟩⟩
    · obtain ⟨left, hleft, hpure⟩ := Outcome.bind_eq_ok.mp ho
      cases hpure
      have hinit := OrderManager.leaveRun_init hleft
      exact ⟨hinit, fun _ => ⟨rfl, hinit⟩⟩
    · cases ho
      exact ⟨rfl, fun _ => ⟨rfl, rfl⟩⟩
    · cases ho
  · next hst =>
    refine ⟨?_, fun heq => absurd heq hst⟩
    split at ho
    · exact OrderManager.runToWait_init ho
    · split at ho
      · obtain ⟨_, _, hpure⟩ := Outcome.bind_eq_ok.mp ho
        cases hpure
        rfl
      · split at ho
        · obtain ⟨_, _, hleft⟩ := Outcome.bind_eq_ok.mp ho
          exact OrderManager.leaveRun_init hleft
        · cases ho
          rfl

/-- The states of a thread that was made with priority `p`. -/
inductive Thread.Lives (p : Int) : Thread → Prop
  | new (now : Int) : Lives p (Thread.new p now)
  | setStatus {th th' : Thread} {st : ThreadStatus} {now : Int} (h : Lives p th)
      (hrun : th.setStatus st now = .ok th') : Lives p th'
  | aging {th th' : Thread} {now : Int} (h : Lives p th)
      (hrun : th.aging now = .ok th') : Lives p th'

theorem Thread.Lives.init {p : Int} {th : Thread} (h : Lives p th) :
    th.sys_q_stub.init_priority = p := by
  induction h with
  | new now => rfl
  | setStatus _ hrun ih => exact (setStatus_spec hrun).2.1.trans ih
  | aging _ hrun ih =>
      obtain ⟨o, ho, hpure⟩ := Outcome.bind_eq_ok.mp hrun
      cases hpure
      exact (OrderManager.aging_init ho).trans ih

/-! ## Sampling -/

/-- The thread became ready at `t₀`, and aging was last applied at `t`. -/
structure Thread.Sampled (p t₀ t : Int) (th : Thread) : Prop where
  status : th.status = .READY
  init : th.sys_q_stub.init_priority = p
  clock : th.sys_q_stub.tick_cache = t₀ + AGING_TICK * ((t - t₀) / AGING_TICK)
  priority : th.getPriority = min 149 (p + 10 * ((t - t₀) / AGING_TICK))

namespace Thread.Sampled
variable {p t₀ t t' : Int} {th : Thread}

theorem wf (h : Sampled p t₀ t th) (hp : 0 ≤ p ∧ p ≤ 149) (hge : t₀ ≤ t)
    (hle : t ≤ t') : th.sys_q_stub.WF t' := by
  have hperiods : 0 ≤ (t - t₀) / AGING_TICK :=
    Int.ediv_nonneg (Int.sub_nonneg.mpr hge) (by decide)
  have hpast :=
    Int.mul_ediv_self_le (x := t - t₀) (show AGING_TICK ≠ 0 by decide)
  have hprio : th.sys_q_stub.priority = _ := h.priority
  refine ⟨h.init.symm ▸ hp.1, ?_, ?_, ?_⟩
  · rw [h.init, hprio]
    omega
  · rw [hprio]
    omega
  · rw [h.clock]
    omega

/-- The periods since the thread became ready are those counted so far and those
that a call of `aging` finds. -/
theorem periods (h : Sampled p t₀ t th) (hle : t ≤ t') :
    (t' - t₀) / AGING_TICK = (t - t₀) / AGING_TICK + th.sys_q_stub.age t' := by
  have hpast :=
    Int.mul_ediv_self_le (x := t - t₀) (show AGING_TICK ≠ 0 by decide)
  rw [OrderManager.age, h.clock, Int.tdiv_eq_ediv_of_nonneg (by omega)]
  simp only [AGING_TICK]
  omega

theorem aging (h : Sampled p t₀ t th) (hp : 0 ≤ p ∧ p ≤ 149) (hge : t₀ ≤ t)
    (hle : t ≤ t') :
    ∃ th', th.aging t' = .ok th' ∧ Sampled p t₀ t' th' := by
  have hwf := h.wf hp hge hle
  have hperiods := h.periods hle
  have hage := hwf.age_nonneg
  have hprio : th.sys_q_stub.priority = _ := h.priority
  refine ⟨{ th with sys_q_stub := th.sys_q_stub.aged t' }, ?_, h.status,
    h.init, ?_, ?_⟩
  · rw [Thread.aging, h.status, hwf.aging_eq, Outcome.ok_bind]
    rfl
  · show th.sys_q_stub.tick_cache + _ = _
    rw [h.clock, hperiods, Int.mul_add, Int.add_assoc]
  · show min (th.sys_q_stub.priority + _) _ = _
    rw [hprio, hperiods]
    omega

theorem run (hp : 0 ≤ p ∧ p ≤ 149) : ∀ {ts : List Int} {t : Int} {th : Thread},
    Sampled p t₀ t th → t₀ ≤ t →
    (t :: ts).IsChain (· ≤ ·) →
    ∃ th', ts.foldlM Thread.aging th = .ok th' ∧
      Sampled p t₀ (ts.getLast?.getD t) th'
  | [], t, th, h, _, _ => ⟨th, rfl, h⟩
  | t' :: ts, t, th, h, hge, hts => by
      obtain ⟨hle, hrest⟩ := List.isChain_cons_cons.mp hts
      obtain ⟨th₁, hrun, h₁⟩ := h.aging hp hge hle
      obtain ⟨th', hruns, h'⟩ := run hp h₁ (hge.trans hle) hrest
      refine ⟨th', ?_, ?_⟩
      · rw [List.foldlM_cons, hrun]
        exact hruns
      · rw [List.getLast?_cons]
        exact h'

end Thread.Sampled

/-- A thread made with priority `p` becomes ready at `t₀`, and is aged at the
ticks `ts`. -/
theorem aging_of_samples {p : Int}
    (hp : 0 ≤ p ∧ p ≤ 149) {th ready : Thread} (hlife : th.Lives p)
    {t₀ : Int} (hready : th.setStatus .READY t₀ = .ok ready) {ts : List Int}
    (hts : (t₀ :: ts).IsChain (· ≤ ·)) :
    ready.getPriority = p ∧ ∃ last, ts.foldlM Thread.aging ready = .ok last ∧
      last.getPriority =
        min 149 (p + 10 * ((ts.getLast?.getD t₀ - t₀) / 1500)) := by
  obtain ⟨hst, hinit, hreset⟩ := Thread.setStatus_spec hready
  obtain ⟨hclock, hprio⟩ := hreset rfl
  rw [hlife.init] at hinit hprio
  have hstart : ready.Sampled p t₀ t₀ := by
    refine ⟨hst, hinit, ?_, ?_⟩
    · rw [hclock, Int.sub_self, Int.zero_ediv, Int.mul_zero, Int.add_zero]
    · rw [hprio, Int.sub_self, Int.zero_ediv]
      omega
  obtain ⟨last, hrun, hlast⟩ := Thread.Sampled.run hp hstart (Int.le_refl _) hts
  exact ⟨hprio, last, hrun, hlast.priority⟩

/-- Ready at tick 100 with priority 138, and aged three times in the next 3000
ticks. -/
theorem aging_of_samples_three :
    ∃ ready, (Thread.new 138 0).setStatus .READY 100 = .ok ready ∧
    ready.getPriority = 138 ∧
      ∃ last, [1600, 3099, 3100].foldlM Thread.aging ready = .ok last ∧
      last.getPriority = min 149 (138 + 10 * ((3100 - 100) / 1500)) :=
  ⟨_, rfl, aging_of_samples (by decide) (.new 0) rfl (by simp)⟩

end EroikoBlue.MP3
