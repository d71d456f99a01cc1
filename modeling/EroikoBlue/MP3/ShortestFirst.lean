/-
# `MP3.ShortestFirst` — the order of L1

L1 is sorted by `cmpRemainTime`, which casts a difference of two times to `int`:
times less than a tick apart compare as equal, and this is not transitive.  What
holds of any two threads in L1 is `Shorter` (`MP3.SystemQueue`): the one in
front has less than a tick more to run.  Putting a thread in keeps that,
whatever the priorities are, and nothing else that happens to the queues can
break it.

`Queued` are all the states the queues can get into: threads are appended by
`ReadyToRun` and moved by `Aging`, taken out at the front, and outside the
queues anything may happen to them.  The states of the kernel have the property
too (`Reachable.nearly_sorted`).

## The step

Inserting into a list that is sorted by a relation which is not transitive need
not give a sorted list.  It does give this much: in front of the new thread are
those that are not longer by a tick or more, behind it those that are not
shorter, because the scan from the front stops at the first one that is longer
by a tick.  `Lined.regrouped` does it for a whole `Aging`, which takes threads
out of one queue and puts them into another.

`shortest_first_two` are two threads half a tick apart: they stay as they came.
-/
import EroikoBlue.MP3.Preemption

namespace EroikoBlue.MP3

open SystemQueue (Lined Regrouped Front)

/-- The states of the ready queues, with the threads and the time. -/
inductive Queued : Threads → Int → SystemQueue → Prop
  | start (T : Threads) (now : Int) : Queued T now ⟨[], [], []⟩
  /-- `ReadyToRun` on a thread that waits in none of the queues. -/
  | append {T : Threads} {now : Int} {q q' : SystemQueue} {t : ThreadId}
      (h : Queued T now q)
      (hready : T.status t = some .READY) (ht : t ∉ q.all)
        (hrun : q.append T now t = .ok q') : Queued T now q'
  | removeFront {T : Threads} {now : Int} {q q' : SystemQueue} {t : ThreadId}
      (h : Queued T now q)
      (hrun : q.removeFront = .ok (t, q')) : Queued T now q'
  | aging {T T' : Threads} {now : Int} {q q' : SystemQueue} (h : Queued T now q)
      (hrun : q.aging T now = .ok (T', q')) : Queued T' now q'
  /-- Time passes, and the threads that are in no queue run, wait, come and
  go. -/
  | later {T T' : Threads} {now now' : Int} {q : SystemQueue}
      (h : Queued T now q)
      (hT : ∀ t ∈ q.all, T' t = T t) : Queued T' now' q

/-! ## `Aging`, on any threads -/

theorem Thread.aging_spec {th th' : Thread} {now : Int}
    (h : th.aging now = .ok th') :
    th'.status = th.status ∧
      th'.sys_q_stub.remain_burst_time = th.sys_q_stub.remain_burst_time ∧
      th'.sys_q_stub.current_burst_time = th.sys_q_stub.current_burst_time := by
  obtain ⟨o, ho, hpure⟩ := Outcome.bind_eq_ok.mp h
  cases hpure
  refine ⟨rfl, ?_⟩
  obtain ⟨_, _, hrest⟩ := Outcome.bind_eq_ok.mp ho
  split at hrest
  · obtain ⟨_, _, hpure⟩ := Outcome.bind_eq_ok.mp hrest
    cases hpure
    exact ⟨rfl, rfl⟩
  · cases hrest
    exact ⟨rfl, rfl⟩

namespace SystemQueue
variable {S : Prop} {T T' : Threads} {now : Int} {q q' : SystemQueue}

/-- Aging changes neither the status of a thread nor what it has still to
run. -/
theorem applyAging_spec :
    ∀ {l : List ThreadId} {T T' : Threads}, applyAging now l T = .ok T' →
    ∀ t, T'.status t = T.status t ∧ T'.rest t = T.rest t
  | [], T, T', h, t => by
      cases h
      exact ⟨rfl, rfl⟩
  | x :: l, T, T', h, t => by
      obtain ⟨th, hth, h⟩ := Outcome.bind_eq_ok.mp h
      obtain ⟨th', haging, h⟩ := Outcome.bind_eq_ok.mp h
      have hx : T x = some th := by
        rw [Threads.deref] at hth
        split at hth
        · next heq =>
          cases hth
          exact heq
        · cases hth
      obtain ⟨hst, hremain, hcurrent⟩ := Thread.aging_spec haging
      obtain ⟨hst', hrest'⟩ := applyAging_spec h t
      rw [hst', hrest']
      by_cases htx : t = x
      · subst htx
        have hnow : Function.update T t (some th') t = some th' :=
          Function.update_self _ _ _
        rw [Threads.status_eq hnow, Threads.status_eq hx, Threads.rest_eq hnow,
          Threads.rest_eq hx, hst, hremain,
          hcurrent]
        exact ⟨rfl, rfl⟩
      · rw [Threads.status_update_of_ne htx, Threads.rest, Threads.rest,
          Function.update_of_ne htx]
        exact ⟨rfl, rfl⟩

theorem apply_spec (h : q.apply now T = .ok T') (t : ThreadId) :
    T'.status t = T.status t ∧ T'.rest t = T.rest t := by
  obtain ⟨T₁, h₁, h⟩ := Outcome.bind_eq_ok.mp h
  obtain ⟨T₂, h₂, h₃⟩ := Outcome.bind_eq_ok.mp h
  obtain ⟨hst₁, hrest₁⟩ := applyAging_spec h₁ t
  obtain ⟨hst₂, hrest₂⟩ := applyAging_spec h₂ t
  obtain ⟨hst₃, hrest₃⟩ := applyAging_spec h₃ t
  exact ⟨hst₃.trans (hst₂.trans hst₁), hrest₃.trans (hrest₂.trans hrest₁)⟩

/-- L1 stays in order when the threads change as aging changes them. -/
theorem Lined.of_same (h : Lined False T q)
    (hT : ∀ t, T'.status t = T.status t ∧ T'.rest t = T.rest t) :
    Lined False T' q := by
  refine ⟨h.nodup, ?_, ?_, nofun⟩
  · intro t ht
    rw [(hT t).1]
    exact h.ready t ht
  · refine h.shorter.imp ?_
    intro x y hxy
    unfold Threads.Shorter at hxy ⊢
    rw [(hT x).2, (hT y).2]
    exact hxy

/-- The two loops of `Aging` find every thread they look for, and keep L1 in
order. -/
theorem Lined.regrouped (h : Lined False T q)
    (hrun : q.regroup T now = .ok q') : Lined False T q' := by
  obtain ⟨q₁, hrun₁, hre₁, _⟩ :=
    Lined.agingLoop_ok now .Lv3 [] q.L3 none h rfl nofun nofun
      (Nat.lt_succ_self _)
  obtain ⟨q₂, hrun₂, hre₂, _⟩ :=
    Lined.agingLoop_ok now .Lv2 [] q₁.L2 none hre₁.lined rfl nofun nofun
      (Nat.lt_succ_self _)
  rw [regroup, hrun₁, Outcome.ok_bind, hrun₂] at hrun
  cases hrun
  exact hre₂.lined

end SystemQueue

theorem Queued.lined {T : Threads} {now : Int} {q : SystemQueue}
    (h : Queued T now q) : Lined False T q := by
  induction h with
  | start T now => exact ⟨List.nodup_nil, nofun, .nil, nofun⟩
  | append _ hready ht hrun ih =>
      obtain ⟨q', hrun', happ⟩ := ih.append_ok _ hready ht
      cases hrun.symm.trans hrun'
      exact happ.lined
  | @removeFront T now q q' t _ hrun ih =>
      cases hempty : q.isEmpty with
      | true =>
          rw [SystemQueue.removeFront, assertMsg_neg (by simp [hempty])] at hrun
          cases hrun
      | false =>
          obtain ⟨t', q₁, hrun', hfront⟩ := SystemQueue.removeFront_ok hempty
          cases hrun.symm.trans hrun'
          exact hfront.lined ih
  | aging _ hrun ih =>
      obtain ⟨T₁, happly, hrun⟩ := Outcome.bind_eq_ok.mp hrun
      obtain ⟨q₁, hregroup, hpure⟩ := Outcome.bind_eq_ok.mp hrun
      cases hpure
      exact (ih.of_same (SystemQueue.apply_spec happly)).regrouped hregroup
  | later _ hT ih => exact ih.congr hT

/-! ## What the order is good for -/

/-- L1 is in order up to less than a tick: so is the thread at its front, and
`SanityCheck` passes. -/
structure NearlySorted (T : Threads) (now : Int) (q : SystemQueue) : Prop where
  pairs : q.L1.Pairwise fun x y => T.remain now x < T.remain now y + 1
  front : ∀ t q', q.L1 ≠ [] → q.removeFront = .ok (t, q') →
    t ∈ q.L1 ∧ ∀ x ∈ q.L1, T.remain now t < T.remain now x + 1
  sane : LinkedList.sanityCheck (cmpRemainTime T now) q.L1 = .ok ()

theorem SystemQueue.Lined.nearly_sorted {S : Prop} {T : Threads}
    {q : SystemQueue} (now : Int) (h : Lined S T q) :
    NearlySorted T now q := by
  have hready : ∀ x ∈ q.L1, T.status x = some .READY :=
    fun x hx => h.ready_of_mem .Lv1 hx
  have hpairs : q.L1.Pairwise fun x y =>
      T.remain now x < T.remain now y + 1 := by
    refine h.shorter.imp_of_mem ?_
    intro x y hx hy hxy
    rw [Threads.remain_of_ready (hready x hx),
      Threads.remain_of_ready (hready y hy)]
    exact hxy
  refine ⟨hpairs, ?_, ?_⟩
  · intro t q' hne hrun
    cases hL1 : q.L1 with
    | nil => exact absurd hL1 hne
    | cons front l =>
        have hempty : q.isEmpty = false := by rw [isEmpty, hL1]; rfl
        obtain ⟨t', q₁, hrun', hfront⟩ := removeFront_ok hempty
        cases hrun.symm.trans hrun'
        have ht : t = front := by
          cases hfront with
          | Lv1 => exact (List.cons.inj hL1).1
          | Lv2 => cases hL1
          | Lv3 => cases hL1
        subst ht
        refine ⟨.head _, ?_⟩
        rw [hL1, List.pairwise_cons] at hpairs
        intro x hx
        rcases List.mem_cons.mp hx with rfl | hx
        · exact lt_add_one _
        · exact hpairs.1 x hx
  · have hcmp : ∀ x ∈ q.L1, ∀ y ∈ q.L1, cmpRemainTime T now x y =
        .ok (trunc (T.rest x - T.rest y)) := by
      intro x hx y hy
      exact Threads.cmpRemainTime_ok now (hready x hx) (hready y hy)
    refine LinkedList.sanityCheck_ok hcmp (h.shorter.imp ?_)
    intro x y hxy
    have hlt : T.rest x < T.rest y + 1 := hxy
    refine Int.not_lt.mp fun hpos => ?_
    have hle := trunc_pos.mp hpos
    linarith

/-- In every state of the ready queues, L1 is in order up to less than a
tick. -/
theorem shortest_first {T : Threads} {now : Int} {q : SystemQueue}
    (h : Queued T now q) : NearlySorted T now q :=
  h.lined.nearly_sorted now

/-- Two threads of L1 that are ready, with 5 and 4.5 ticks to run. -/
def halfTickApart : Threads := fun t =>
  if t = 1 then some ⟨.READY, ⟨5, 0, 0, 120, 120, 0⟩, .IntOn, none⟩
  else if t = 2 then some ⟨.READY, ⟨9 / 2, 0, 0, 120, 120, 0⟩, .IntOn, none⟩
  else none

/-- They stay in the order they came in. -/
theorem shortest_first_two : ∃ q, q.L1 = [1, 2] ∧
    NearlySorted halfTickApart 0 q :=
  ⟨⟨[1, 2], [], []⟩, rfl, shortest_first (.append (t := 2) (q := ⟨[1], [], []⟩)
    (.append (t := 1) (.start _ _) rfl (by decide) rfl) rfl (by decide)
      (by decide +kernel))⟩

/-- In every state of the kernel L1 is in that order, too. -/
theorem Reachable.nearly_sorted {cond : Kernel → Op → Prop} {k : Kernel}
    (h : Reachable cond k) :
    NearlySorted k.threads k.totalTicks k.readyList :=
  (h.inv (S := False) nofun).queues.lined.nearly_sorted k.totalTicks

end EroikoBlue.MP3
