/-
# `MP3.SystemQueue` — the three ready queues

`Scheduler::SystemQueue` keeps the ready threads in three lists by priority:

    L1   100 … 149   `SortedList` by `cmpRemainTime`
    L2    50 …  99   `SortedList` by `cmpPriority`
    L3     0 …  49   `List`

`Aging` changes the priorities of the threads where they stand and then walks
over L3 and L2, moving every thread that has come to belong elsewhere; the walk
goes on while the list under its iterator changes.

What the queues keep is `Lined` (each thread once, ready, L1 in the order of its
comparator as far as that is an order, L2 by priority), and `Placed` for each
level.  The order of L2 is carried under a hypothesis `S`, since `Aging` need
not keep it.
-/
import EroikoBlue.LinkedList
import EroikoBlue.MP3.Thread

namespace EroikoBlue.MP3

open SortedList (Placed)

/-- `Thread *`. -/
abbrev ThreadId := Nat

/-- The threads that exist, by their addresses. -/
abbrev Threads := ThreadId → Option Thread

namespace Threads

def deref (T : Threads) (t : ThreadId) : Except Fault Thread :=
  match T t with
  | some th => pure th
  | none => .error (.undefined "a pointer to no thread")

def status (T : Threads) (t : ThreadId) : Option ThreadStatus :=
  (T t).map (·.status)

end Threads

/-- The assertion of the two comparators. -/
def Comparable (st₁ st₂ : ThreadStatus) : Prop :=
  st₁ = .READY ∧ st₂ = .RUNNING ∨ st₂ = .READY ∧ st₁ = .RUNNING ∨ st₁ = .READY ∧
    st₂ = .READY

instance (st₁ st₂ : ThreadStatus) : Decidable (Comparable st₁ st₂) := by
  unfold Comparable
  infer_instance

/-- `Thread::cmpRemainTime`. -/
def cmpRemainTime (T : Threads) (now : Int) (t₁ t₂ : ThreadId) :
    Except Fault Int := do
  let th₁ ← T.deref t₁
  let th₂ ← T.deref t₂
  assertMsg (Comparable th₁.status th₂.status)
    "attempt to compare the priority of two thread["
  pure (trunc (th₁.getRemainTime now - th₂.getRemainTime now))

/-- `Thread::cmpPriority`. -/
def cmpPriority (T : Threads) (t₁ t₂ : ThreadId) : Except Fault Int := do
  let th₁ ← T.deref t₁
  let th₂ ← T.deref t₂
  assertMsg (Comparable th₁.status th₂.status)
    "attempt to compare the priority of two thread["
  pure (th₂.getPriority - th₁.getPriority)

inductive Level where
  | Lv1
  | Lv2
  | Lv3
  deriving DecidableEq, Repr

def levelOf (p : Int) : Level :=
  if 0 ≤ p ∧ p < 50 then .Lv3
  else if 50 ≤ p ∧ p < 100 then .Lv2
  else .Lv1

/-- `SystemQueue::getLevel`. -/
def getLevel (th : Thread) : Level := levelOf th.getPriority

structure SystemQueue where
  L1 : List ThreadId
  L2 : List ThreadId
  L3 : List ThreadId
  deriving DecidableEq, Repr

namespace SystemQueue

def queue (q : SystemQueue) : Level → List ThreadId
  | .Lv1 => q.L1
  | .Lv2 => q.L2
  | .Lv3 => q.L3

def set (q : SystemQueue) (l : List ThreadId) : Level → SystemQueue
  | .Lv1 => { q with L1 := l }
  | .Lv2 => { q with L2 := l }
  | .Lv3 => { q with L3 := l }

/-- All ready threads, in the order in which they would be taken out. -/
def all (q : SystemQueue) : List ThreadId := q.L1 ++ q.L2 ++ q.L3

/-- How a thread is put into the queue of a level: `Insert` or `Append`. -/
def enqueue (T : Threads) (now : Int) (l : List ThreadId) (t : ThreadId) :
    Level → Except Fault (List ThreadId)
  | .Lv1 => LinkedList.insert (cmpRemainTime T now) l t
  | .Lv2 => LinkedList.insert (cmpPriority T) l t
  | .Lv3 => LinkedList.append l t

/-- `SystemQueue::Append`. -/
def append (q : SystemQueue) (T : Threads) (now : Int) (t : ThreadId) :
    Except Fault SystemQueue := do
  let th ← T.deref t
  let l ← enqueue T now (q.queue (getLevel th)) t (getLevel th)
  pure (q.set l (getLevel th))

/-- `SystemQueue::IsEmpty`. -/
def isEmpty (q : SystemQueue) : Bool := q.L1.isEmpty && q.L2.isEmpty &&
    q.L3.isEmpty

/-- `SystemQueue::RemoveFront`. -/
def removeFront (q : SystemQueue) : Except Fault (ThreadId × SystemQueue) := do
  assertMsg (¬ q.isEmpty)
    "Can't remove thread in SystemQueue when queue is empty"
  let level := if ¬ q.L1.isEmpty then .Lv1 else if ¬ q.L2.isEmpty then
    .Lv2 else .Lv3
  let (t, l) ← LinkedList.removeFront (q.queue level)
  pure (t, q.set l level)

/-- `List::Apply(Thread::Aging)`. -/
def applyAging (now : Int) : List ThreadId → Threads → Except Fault Threads
  | [], T => pure T
  | t :: l, T => do
    let th ← T.deref t
    let th ← th.aging now
    applyAging now l (Function.update T t (some th))

/-- `SystemQueue::Apply(Thread::Aging)`. -/
def apply (q : SystemQueue) (now : Int) (T : Threads) :
    Except Fault Threads := do
  let T ← applyAging now q.L1 T
  let T ← applyAging now q.L2 T
  applyAging now q.L3 T

/-- `if (to_ch)` in a loop of `Aging`: the thread the last turn found is put in
again. -/
def change (q : SystemQueue) (T : Threads) (now : Int) (lv : Level) :
    Option ThreadId → Except Fault SystemQueue
  | none => pure q
  | some to_ch => do
    let l ← LinkedList.remove (q.queue lv) to_ch
    (q.set l lv).append T now to_ch

/-- One of the two loops of `Aging`, over the queue of `lv`; `it` is its
iterator. -/
def agingLoop (T : Threads) (now : Int) (lv : Level) :
    Nat → SystemQueue → Option ThreadId → Option ThreadId →
      Except Fault SystemQueue
  | 0, _, _, _ => .error .diverges
  | fuel + 1, q, to_ch, it => do
    let q ← q.change T now lv to_ch
    match it with
    | none => pure q
    | some t => do
      let th ← T.deref t
      let it ← LinkedList.next (q.queue lv) t
      agingLoop T now lv fuel q (if getLevel th ≠ lv then some t else none) it

/-- `SystemQueue::Aging`, after `Apply(Thread::Aging)`. -/
def regroup (q : SystemQueue) (T : Threads) (now : Int) :
    Except Fault SystemQueue := do
  let q ← agingLoop T now .Lv3 (q.L3.length + 1) q none q.L3.head?
  agingLoop T now .Lv2 (q.L2.length + 1) q none q.L2.head?

/-- `SystemQueue::Aging`. -/
def aging (q : SystemQueue) (T : Threads) (now : Int) :
    Except Fault (Threads × SystemQueue) := do
  let T ← q.apply now T
  let q ← q.regroup T now
  pure (T, q)

/-- `SystemQueue::ShouldPreempt`; `t` is `kernel->currentThread`. -/
def shouldPreempt (q : SystemQueue) (T : Threads) (now : Int) (t : ThreadId) :
    Except Fault Bool := do
  let th ← T.deref t
  if getLevel th = .Lv3 then pure true
  else match q.L1 with
    | [] => pure false
    | front :: _ =>
      if getLevel th = .Lv2 then pure true
      else do
        let c ← cmpRemainTime T now t front
        pure (decide (0 < c))

end SystemQueue

/-! ## What the comparators see of a thread -/

namespace Threads
variable {T T' : Threads} {now : Int} {t t₁ t₂ : ThreadId} {th : Thread}

/-- The remaining burst time of a thread that is not running. -/
def rest (T : Threads) (t : ThreadId) : ℚ :=
  ((T t).map fun th =>
    th.sys_q_stub.remain_burst_time - th.sys_q_stub.current_burst_time).getD 0

def priority (T : Threads) (t : ThreadId) : Int :=
  ((T t).map (·.getPriority)).getD 0

def level (T : Threads) (t : ThreadId) : Level := levelOf (T.priority t)

theorem deref_ok (h : T t = some th) : T.deref t = .ok th := by
  rw [deref, h]
  rfl

theorem status_eq (h : T t = some th) : T.status t = some th.status := by
  rw [status, h]
  rfl

theorem exists_of_status {st : ThreadStatus} (h : T.status t = some st) :
    ∃ th, T t = some th ∧ th.status = st := by
  obtain ⟨th, hth, hst⟩ := Option.map_eq_some_iff.mp h
  exact ⟨th, hth, hst⟩

theorem rest_eq (h : T t = some th) :
    T.rest t =
      th.sys_q_stub.remain_burst_time - th.sys_q_stub.current_burst_time := by
  rw [rest, h]
  rfl

theorem priority_eq (h : T t = some th) : T.priority t = th.getPriority := by
  rw [priority, h]
  rfl

theorem level_eq (h : T t = some th) : T.level t = getLevel th := by
  rw [level, priority_eq h]
  rfl

theorem remain_ready (h : th.status = .READY) :
    th.getRemainTime now =
      th.sys_q_stub.remain_burst_time - th.sys_q_stub.current_burst_time := by
  rw [Thread.getRemainTime, OrderManager.getRemainTime,
    if_neg (by rw [h]; decide)]

theorem cmpRemainTime_ok (now : Int) (h₁ : T.status t₁ = some .READY)
    (h₂ : T.status t₂ = some .READY) :
    cmpRemainTime T now t₁ t₂ = .ok (trunc (T.rest t₁ - T.rest t₂)) := by
  obtain ⟨th₁, hth₁, hst₁⟩ := exists_of_status h₁
  obtain ⟨th₂, hth₂, hst₂⟩ := exists_of_status h₂
  rw [cmpRemainTime, deref_ok hth₁, Outcome.ok_bind, deref_ok hth₂,
    Outcome.ok_bind,
    assertMsg_pos (.inr (.inr ⟨hst₁, hst₂⟩)), Outcome.ok_bind,
      remain_ready hst₁, remain_ready hst₂,
    rest_eq hth₁, rest_eq hth₂]
  rfl

theorem cmpPriority_ok (h₁ : T.status t₁ = some .READY)
    (h₂ : T.status t₂ = some .READY) :
    cmpPriority T t₁ t₂ = .ok (T.priority t₂ - T.priority t₁) := by
  obtain ⟨th₁, hth₁, hst₁⟩ := exists_of_status h₁
  obtain ⟨th₂, hth₂, hst₂⟩ := exists_of_status h₂
  rw [cmpPriority, deref_ok hth₁, Outcome.ok_bind, deref_ok hth₂,
    Outcome.ok_bind,
    assertMsg_pos (.inr (.inr ⟨hst₁, hst₂⟩)), Outcome.ok_bind, priority_eq hth₁,
      priority_eq hth₂]
  rfl

/-- The order L1 keeps: the comparator truncates, so it holds up to less than
one tick. -/
def Shorter (T : Threads) (x y : ThreadId) : Prop := T.rest x < T.rest y + 1

/-- The order L2 keeps among the threads that belong there. -/
def Higher (T : Threads) (x y : ThreadId) : Prop := T.priority y < 100 →
    T.priority y ≤ T.priority x

end Threads

/-! ## Putting a thread in, taking one out -/

namespace SystemQueue
variable {S : Prop} {T T' : Threads} {now : Int} {q q' : SystemQueue}
  {t : ThreadId} {lv : Level}

@[simp] theorem queue_set (l : List ThreadId) : (q.set l lv).queue lv = l := by
  cases lv <;> rfl

theorem queue_set_of_ne {lv' : Level} (l : List ThreadId) (h : lv' ≠ lv) :
    (q.set l lv).queue lv' = q.queue lv' := by
  cases lv <;> cases lv' <;> first | rfl | exact absurd rfl h

theorem mem_all : t ∈ q.all ↔ ∃ lv, t ∈ q.queue lv := by
  constructor
  · intro h
    rcases List.mem_append.mp h with h | h
    · rcases List.mem_append.mp h with h | h
      · exact ⟨.Lv1, h⟩
      · exact ⟨.Lv2, h⟩
    · exact ⟨.Lv3, h⟩
  · rintro ⟨lv, h⟩
    cases lv with
    | Lv1 => exact List.mem_append_left _ (List.mem_append_left _ h)
    | Lv2 => exact List.mem_append_left _ (List.mem_append_right _ h)
    | Lv3 => exact List.mem_append_right _ h

theorem all_set_perm {l : List ThreadId} (h : l.Perm (t :: q.queue lv)) :
    (q.set l lv).all.Perm (t :: q.all) := by
  cases lv with
  | Lv1 => exact (h.append_right _).append_right _
  | Lv2 => exact ((h.append_left _).trans List.perm_middle).append_right _
  | Lv3 => exact (h.append_left _).trans List.perm_middle

theorem all_of_set_perm {l : List ThreadId} (h : (q.queue lv).Perm (t :: l)) :
    q.all.Perm (t :: (q.set l lv).all) := by
  cases lv with
  | Lv1 => exact (h.append_right _).append_right _
  | Lv2 => exact ((h.append_left _).trans List.perm_middle).append_right _
  | Lv3 => exact (h.append_left _).trans List.perm_middle

/-- Each thread stands once in the queues, and these are in order. -/
structure Lined (S : Prop) (T : Threads) (q : SystemQueue) : Prop where
  nodup : q.all.Nodup
  ready : ∀ t ∈ q.all, T.status t = some .READY
  shorter : q.L1.Pairwise T.Shorter
  higher : S → q.L2.Pairwise T.Higher

/-- The queue of `lv` holds threads of that level. -/
def Filed (T : Threads) (q : SystemQueue) (lv : Level) : Prop :=
  ∀ t ∈ q.queue lv, T.level t = lv

theorem Lined.queue_nodup (h : Lined S T q) (lv : Level) :
    (q.queue lv).Nodup := by
  obtain ⟨h12, h3, _⟩ := List.nodup_append.mp h.nodup
  obtain ⟨h1, h2, _⟩ := List.nodup_append.mp h12
  cases lv with
  | Lv1 => exact h1
  | Lv2 => exact h2
  | Lv3 => exact h3

theorem Lined.congr (h : Lined S T q) (hT : ∀ t ∈ q.all, T' t = T t) :
    Lined S T' q := by
  have hmem : ∀ lv, ∀ t ∈ q.queue lv, T' t = T t :=
    fun lv t ht => hT t (mem_all.mpr ⟨lv, ht⟩)
  refine ⟨h.nodup, ?_, ?_, ?_⟩
  · intro t ht
    rw [Threads.status, hT t ht]
    exact h.ready t ht
  · refine h.shorter.imp_of_mem ?_
    intro x y hx hy hxy
    unfold Threads.Shorter Threads.rest
    rw [hmem .Lv1 x hx, hmem .Lv1 y hy]
    exact hxy
  · intro hS
    refine (h.higher hS).imp_of_mem ?_
    intro x y hx hy hxy
    unfold Threads.Higher Threads.priority
    rw [hmem .Lv2 x hx, hmem .Lv2 y hy]
    exact hxy

theorem Filed.congr (h : Filed T q lv) (hT : ∀ t ∈ q.all, T' t = T t) :
    Filed T' q lv := by
  intro t ht
  rw [Threads.level, Threads.priority, hT t (mem_all.mpr ⟨lv, ht⟩)]
  exact h t ht

/-- What `append` does: the queue of the level gets the thread, in order. -/
structure Appended (S : Prop) (T : Threads) (t : ThreadId)
    (q q' : SystemQueue) : Prop where
  lined : Lined S T q'
  perm : q'.all.Perm (t :: q.all)
  queue : (q'.queue (T.level t)).Perm (t :: q.queue (T.level t))
  sublist : (q.queue (T.level t)).Sublist (q'.queue (T.level t))
  other : ∀ lv, lv ≠ T.level t → q'.queue lv = q.queue lv

theorem Appended.filed (h : Appended S T t q q') (hq : Filed T q lv) :
    Filed T q' lv := by
  intro x hx
  by_cases hlv : lv = T.level t
  · subst hlv
    rcases List.mem_cons.mp (h.queue.mem_iff.mp hx) with rfl | hx
    · rfl
    · exact hq x hx
  · rw [h.other lv hlv] at hx
    exact hq x hx

theorem Appended.queue_sublist (h : Appended S T t q q') (lv : Level) :
    (q.queue lv).Sublist (q'.queue lv) := by
  by_cases hlv : lv = T.level t
  · exact hlv ▸ h.sublist
  · rw [h.other lv hlv]

theorem appended_of_perm {l : List ThreadId} (h : Lined S T q)
    (hready : T.status t = some .READY)
    (ht : t ∉ q.all) (hl : l.Perm (t :: q.queue (T.level t)))
    (hsub : (q.queue (T.level t)).Sublist l)
    (h1 : T.level t = .Lv1 → l.Pairwise T.Shorter)
    (h2 : S → T.level t = .Lv2 → l.Pairwise T.Higher) :
    Appended S T t q (q.set l (T.level t)) := by
  have hperm := all_set_perm hl
  refine ⟨⟨?_, ?_, ?_, ?_⟩, hperm, ?_, ?_, ?_⟩
  · exact hperm.nodup_iff.mpr (List.nodup_cons.mpr ⟨ht, h.nodup⟩)
  · intro x hx
    rcases List.mem_cons.mp (hperm.mem_iff.mp hx) with rfl | hx
    · exact hready
    · exact h.ready x hx
  · cases hlv : T.level t with
    | Lv1 => exact h1 hlv
    | Lv2 => exact h.shorter
    | Lv3 => exact h.shorter
  · intro hS
    cases hlv : T.level t with
    | Lv1 => exact h.higher hS
    | Lv2 => exact h2 hS hlv
    | Lv3 => exact h.higher hS
  · rw [queue_set]
    exact hl
  · rw [queue_set]
    exact hsub
  · intro lv hlv
    exact queue_set_of_ne l hlv

theorem placed_sublist {cmp : ThreadId → Int} {l l' : List ThreadId}
    (h : Placed cmp t l l') : l.Sublist l' := by
  obtain ⟨a, b, rfl, rfl, _, _⟩ := h
  exact (List.Sublist.refl a).append (List.sublist_cons_self t b)

theorem shorter_placed {l l' : List ThreadId} (h : l.Pairwise T.Shorter)
    (hplaced : Placed (fun x => trunc (T.rest t - T.rest x)) t l l') :
    l'.Pairwise T.Shorter := by
  refine hplaced.pairwise h ?_ ?_
  · intro x _ hx
    have hlt :=
      not_le.mp fun hle => absurd (trunc_neg.mpr hle) (Int.not_lt.mpr hx)
    show T.rest x < T.rest t + 1
    linarith
  · intro x _ hx
    have hle := trunc_neg.mp hx
    constructor
    · show T.rest t < T.rest x + 1
      linarith
    · intro y _ hxy
      have hxy : T.rest x < T.rest y + 1 := hxy
      show T.rest t < T.rest y + 1
      linarith

theorem higher_placed {l l' : List ThreadId} (h : l.Pairwise T.Higher)
    (hplaced : Placed (fun x => T.priority x - T.priority t) t l l') :
    l'.Pairwise T.Higher := by
  refine hplaced.pairwise h ?_ ?_
  · intro x _ hx _
    exact Int.sub_nonneg.mp hx
  · intro x _ hx
    have hlt : T.priority x < T.priority t := sub_neg.mp hx
    constructor
    · intro _
      exact hlt.le
    · intro y _ hxy hy
      exact (hxy hy).trans hlt.le

theorem Lined.append_ok (h : Lined S T q) (now : Int)
    (hready : T.status t = some .READY) (ht : t ∉ q.all) :
    ∃ q', q.append T now t = .ok q' ∧ Appended S T t q q' := by
  obtain ⟨th, hth, _⟩ := Threads.exists_of_status hready
  have hnot : ∀ lv, t ∉ q.queue lv := fun lv hlv => ht (mem_all.mpr ⟨lv, hlv⟩)
  have hin : ∀ lv, ∀ x ∈ q.queue lv, T.status x = some .READY :=
    fun lv x hx => h.ready x (mem_all.mpr ⟨lv, hx⟩)
  suffices hl : ∃ l, enqueue T now (q.queue (T.level t)) t (T.level t) = .ok l ∧
      Appended S T t q (q.set l (T.level t)) by
    obtain ⟨l, hl, happ⟩ := hl
    refine ⟨_, ?_, happ⟩
    rw [append, Threads.deref_ok hth, Outcome.ok_bind,
      ← Threads.level_eq hth, hl]
    rfl
  cases hlv : T.level t with
  | Lv1 =>
      obtain ⟨l, hl, hplaced⟩ := LinkedList.insert_ok (hnot .Lv1)
        fun x hx => Threads.cmpRemainTime_ok now hready (hin .Lv1 x hx)
      refine ⟨l, hl, hlv ▸ appended_of_perm h hready ht ?_ ?_ ?_ ?_⟩
      · exact hlv ▸ hplaced.perm
      · exact hlv ▸ placed_sublist hplaced
      · intro _
        exact shorter_placed h.shorter hplaced
      · intro _ h2
        exact absurd (hlv.symm.trans h2) (by decide)
  | Lv2 =>
      obtain ⟨l, hl, hplaced⟩ := LinkedList.insert_ok (hnot .Lv2)
        fun x hx => Threads.cmpPriority_ok hready (hin .Lv2 x hx)
      refine ⟨l, hl, hlv ▸ appended_of_perm h hready ht ?_ ?_ ?_ ?_⟩
      · exact hlv ▸ hplaced.perm
      · exact hlv ▸ placed_sublist hplaced
      · intro h1
        exact absurd (hlv.symm.trans h1) (by decide)
      · intro hS _
        exact higher_placed (h.higher hS) hplaced
  | Lv3 =>
      refine ⟨q.L3 ++ [t], LinkedList.append_ok (hnot .Lv3),
        hlv ▸ appended_of_perm h hready ht ?_ ?_ ?_ ?_⟩
      · exact hlv ▸ List.perm_append_comm
      · exact hlv ▸ List.sublist_append_left _ _
      · intro h1
        exact absurd (hlv.symm.trans h1) (by decide)
      · intro _ h2
        exact absurd (hlv.symm.trans h2) (by decide)

theorem all_set_sublist {l : List ThreadId} (h : l.Sublist (q.queue lv)) :
    (q.set l lv).all.Sublist q.all := by
  cases lv with
  | Lv1 => exact (h.append_right _).append_right _
  | Lv2 => exact (h.append_left _).append_right _
  | Lv3 => exact h.append_left _

theorem Lined.sublist (h : Lined S T q) {l : List ThreadId}
    (hl : l.Sublist (q.queue lv)) :
    Lined S T (q.set l lv) := by
  have hall := all_set_sublist hl
  refine ⟨h.nodup.sublist hall, fun t ht => h.ready t (hall.subset ht), ?_, ?_⟩
  · cases lv with
    | Lv1 => exact h.shorter.sublist hl
    | Lv2 => exact h.shorter
    | Lv3 => exact h.shorter
  · intro hS
    cases lv with
    | Lv1 => exact h.higher hS
    | Lv2 => exact (h.higher hS).sublist hl
    | Lv3 => exact h.higher hS

theorem Filed.sublist {lv' : Level} (h : Filed T q lv') {l : List ThreadId}
    (hl : l.Sublist (q.queue lv)) :
    Filed T (q.set l lv) lv' := by
  by_cases hlv : lv' = lv
  · subst hlv
    intro t ht
    rw [queue_set] at ht
    exact h t (hl.subset ht)
  · intro t ht
    rw [queue_set_of_ne l hlv] at ht
    exact h t ht

/-- `t` is the front of `q`, and `q'` is what is behind it. -/
inductive Front (t : ThreadId) : SystemQueue → SystemQueue → Prop
  | Lv1 {l1 l2 l3 : List ThreadId} : Front t ⟨t :: l1, l2, l3⟩ ⟨l1, l2, l3⟩
  | Lv2 {l2 l3 : List ThreadId} : Front t ⟨[], t :: l2, l3⟩ ⟨[], l2, l3⟩
  | Lv3 {l3 : List ThreadId} : Front t ⟨[], [], t :: l3⟩ ⟨[], [], l3⟩

theorem Front.all (h : Front t q q') : q.all = t :: q'.all := by
  cases h <;> rfl

theorem Front.set (h : Front t q q') : ∃ lv, q.queue lv = t :: q'.queue lv ∧
    q' = q.set (q'.queue lv) lv := by
  cases h with
  | Lv1 => exact ⟨.Lv1, rfl, rfl⟩
  | Lv2 => exact ⟨.Lv2, rfl, rfl⟩
  | Lv3 => exact ⟨.Lv3, rfl, rfl⟩

theorem Front.lined (h : Front t q q') (hq : Lined S T q) : Lined S T q' := by
  obtain ⟨lv, hlv, heq⟩ := h.set
  rw [heq]
  exact hq.sublist (hlv ▸ List.sublist_cons_self t _)

theorem Front.filed (h : Front t q q') (hq : Filed T q lv) : Filed T q' lv := by
  obtain ⟨lv', hlv', heq⟩ := h.set
  rw [heq]
  exact hq.sublist (hlv' ▸ List.sublist_cons_self t _)

theorem isEmpty_iff : q.isEmpty = true ↔ q.all = [] := by
  obtain ⟨l1, l2, l3⟩ := q
  simp [isEmpty, all, and_assoc]

theorem removeFront_ok (h : q.isEmpty = false) :
    ∃ t q', q.removeFront = .ok (t, q') ∧ Front t q q' := by
  rw [removeFront, assertMsg_pos (by rw [h]; decide), Outcome.ok_bind]
  match q, h with
  | ⟨t :: l1, l2, l3⟩, _ => exact ⟨t, _, rfl, .Lv1⟩
  | ⟨[], t :: l2, l3⟩, _ => exact ⟨t, _, rfl, .Lv2⟩
  | ⟨[], [], t :: l3⟩, _ => exact ⟨t, _, rfl, .Lv3⟩

/-! ## The two loops of `Aging` -/

/-- What a loop of `Aging` does: every thread is still there once, and those in
the queue of `lv` belong there. -/
structure Regrouped (S : Prop) (T : Threads) (q q' : SystemQueue) : Prop where
  lined : Lined S T q'
  perm : q'.all.Perm q.all
  filed : ∀ lv, Filed T q lv → Filed T q' lv
  /-- Threads that belong where they are stay in the order they have. -/
  sublist : ∀ lv, ((q.queue lv).filter (T.level · = lv)).Sublist (q'.queue lv)

theorem Regrouped.refl (h : Lined S T q) : Regrouped S T q q :=
  ⟨h, .refl _, fun _ h => h, fun _ => List.filter_sublist⟩

theorem Regrouped.trans {q'' : SystemQueue} (h : Regrouped S T q q')
    (h' : Regrouped S T q' q'') :
    Regrouped S T q q'' := by
  refine ⟨h'.lined, h'.perm.trans h.perm,
    fun lv hlv => h'.filed lv (h.filed lv hlv), ?_⟩
  intro lv
  refine List.Sublist.trans ?_ (h'.sublist lv)
  have hsub := (h.sublist lv).filter (fun t => decide (T.level t = lv))
  rw [List.filter_filter] at hsub
  simpa using hsub

/-- A thread is taken out of the queue of `lv`, where it does not belong, and
put in again. -/
theorem Lined.change_ok (h : Lined S T q) (now : Int) (ht : t ∈ q.queue lv)
    (hlv : T.level t ≠ lv) :
    ∃ q', q.change T now lv (some t) = .ok q' ∧ Regrouped S T q q' ∧
      q'.queue lv = (q.queue lv).erase t := by
  have hmem : t ∈ q.all := mem_all.mpr ⟨lv, ht⟩
  have hperm : q.all.Perm (t :: (q.set ((q.queue lv).erase t) lv).all) :=
    all_of_set_perm (List.perm_cons_erase ht)
  have herase : ((q.queue lv).erase t).Sublist (q.queue lv) :=
    List.erase_sublist
  have hnot : t ∉ (q.set ((q.queue lv).erase t) lv).all :=
    (List.nodup_cons.mp (hperm.nodup_iff.mp h.nodup)).1
  obtain ⟨q', hq', happ⟩ :=
    (h.sublist herase).append_ok now (h.ready t hmem) hnot
  have hqueue : q'.queue lv = (q.queue lv).erase t := by
    rw [happ.other lv (Ne.symm hlv), queue_set]
  refine ⟨q', ?_, ⟨happ.lined, happ.perm.trans hperm.symm, ?_, ?_⟩, hqueue⟩
  · rw [change, LinkedList.remove_ok (h.queue_nodup lv) ht, Outcome.ok_bind]
    exact hq'
  · intro lv' hfiled
    exact happ.filed (hfiled.sublist herase)
  · intro lv'
    by_cases hlv' : lv' = lv
    · subst hlv'
      rw [hqueue, (h.queue_nodup lv').erase_eq_filter]
      refine List.monotone_filter_right _ ?_
      intro x hx
      have hne : x ≠ t := fun heq => hlv (heq ▸ of_decide_eq_true hx)
      simpa using hne
    · refine List.filter_sublist.trans ?_
      rw [← queue_set_of_ne _ hlv']
      exact happ.queue_sublist lv'

/-- The loop, at the element `b.head?`: `a` is what it has passed and left where
it is. -/
theorem Lined.agingLoop_ok (now : Int) (lv : Level) :
    ∀ {fuel : Nat} {q : SystemQueue} (a b : List ThreadId)
    (to_ch : Option ThreadId), Lined S T q →
    q.queue lv = a ++ (to_ch.toList ++ b) → (∀ t ∈ a, T.level t = lv) →
    (∀ t ∈ to_ch, T.level t ≠ lv) → b.length < fuel →
    ∃ q', agingLoop T now lv fuel q to_ch b.head? = .ok q' ∧
      Regrouped S T q q' ∧ Filed T q' lv
  | 0, _, _, _, _, _, _, _, _, hfuel => absurd hfuel (Nat.not_lt_zero _)
  | fuel + 1, q, a, b, to_ch, h, hq, ha, hch, hfuel => by
      obtain ⟨q₁, hrun, hre, hq₁⟩ : ∃ q₁, q.change T now lv to_ch = .ok q₁ ∧
          Regrouped S T q q₁ ∧ q₁.queue lv = a ++ b := by
        cases to_ch with
        | none => exact ⟨q, rfl, .refl h, hq⟩
        | some t =>
            have hlv : T.level t ≠ lv := hch t rfl
            have ht : t ∈ q.queue lv := by
              rw [hq]
              exact List.mem_append_right _ (.head _)
            obtain ⟨q₁, hrun, hre, hq₁⟩ := h.change_ok now ht hlv
            refine ⟨q₁, hrun, hre, ?_⟩
            rw [hq₁, hq, List.erase_append_right _ fun hmem => hlv (ha t hmem)]
            exact congrArg (a ++ ·) (List.erase_cons_head t b)
      rw [agingLoop, hrun, Outcome.ok_bind]
      cases b with
      | nil =>
          refine ⟨q₁, rfl, hre, ?_⟩
          intro t ht
          rw [hq₁, List.append_nil] at ht
          exact ha t ht
      | cons x b =>
          have hx : x ∈ q₁.queue lv := by
            rw [hq₁]
            exact List.mem_append_right _ (.head _)
          obtain ⟨th, hth, _⟩ :=
            Threads.exists_of_status (hre.lined.ready x (mem_all.mpr ⟨lv, hx⟩))
          have hnodup := hre.lined.queue_nodup lv
          rw [hq₁] at hnodup
          have hnext : LinkedList.next (q₁.queue lv) x = .ok b.head? := by
            rw [hq₁]
            refine LinkedList.next_ok fun hmem => ?_
            exact (List.nodup_append.mp hnodup).2.2 x hmem x (.head _) rfl
          have hlen : b.length < fuel := Nat.lt_of_succ_lt_succ hfuel
          dsimp only [List.head?_cons]
          rw [Threads.deref_ok hth, Outcome.ok_bind, hnext, Outcome.ok_bind,
            ← Threads.level_eq hth]
          by_cases hlv : T.level x = lv
          · rw [if_neg (not_not.mpr hlv)]
            have hpassed : ∀ t ∈ a ++ [x], T.level t = lv := by
              intro t ht
              rcases List.mem_append.mp ht with ht | ht
              · exact ha t ht
              · exact List.mem_singleton.mp ht ▸ hlv
            obtain ⟨q', hrun', hre', hfiled⟩ := agingLoop_ok now lv (a ++ [x]) b
              none hre.lined
              (by rw [hq₁]; simp) hpassed nofun hlen
            exact ⟨q', hrun', hre.trans hre', hfiled⟩
          · rw [if_pos hlv]
            obtain ⟨q', hrun', hre', hfiled⟩ := agingLoop_ok now lv a b
              (some x) hre.lined
              hq₁ ha (by rintro t ⟨⟩; exact hlv) hlen
            exact ⟨q', hrun', hre.trans hre', hfiled⟩

/-- After both loops every thread is where it belongs. -/
theorem Lined.regroup_ok (h : Lined S T q) (now : Int) (h1 : Filed T q .Lv1) :
    ∃ q', q.regroup T now = .ok q' ∧ Regrouped S T q q' ∧
      ∀ lv, Filed T q' lv := by
  obtain ⟨q₁, hrun₁, hre₁, hf₁⟩ :=
    Lined.agingLoop_ok now .Lv3 [] q.L3 none h rfl nofun nofun
      (Nat.lt_succ_self _)
  obtain ⟨q₂, hrun₂, hre₂, hf₂⟩ :=
    Lined.agingLoop_ok now .Lv2 [] q₁.L2 none hre₁.lined rfl nofun nofun
      (Nat.lt_succ_self _)
  refine ⟨q₂, ?_, hre₁.trans hre₂, ?_⟩
  · rw [regroup, hrun₁, Outcome.ok_bind]
    exact hrun₂
  · intro lv
    cases lv with
    | Lv1 => exact hre₂.filed _ (hre₁.filed _ h1)
    | Lv2 => exact hf₂
    | Lv3 => exact hre₂.filed _ hf₁

end SystemQueue

/-! ## What aging does to the threads -/

namespace Threads
variable {T : Threads} {now : Int} {t : ThreadId} {th : Thread}

/-- `Thread::Aging` on every ready thread. -/
def aged (T : Threads) (now : Int) : Threads := fun t =>
  (T t).map fun th => if th.status = .READY then
    { th with sys_q_stub := th.sys_q_stub.aged now } else th

/-- The priority a ready thread has after aging. -/
def agedPriority (T : Threads) (now : Int) (t : ThreadId) : Int :=
  ((T t).map (·.sys_q_stub.agedPriority now)).getD 0

/-- The bookkeeping of every thread is in range. -/
def WF (T : Threads) (now : Int) : Prop := ∀ t th, T t = some th →
    th.sys_q_stub.WF now

theorem aged_ready (h : T t = some th) (hst : th.status = .READY) :
    T.aged now t = some { th with sys_q_stub := th.sys_q_stub.aged now } := by
  rw [aged, h, Option.map_some, if_pos hst]

theorem aged_congr {T' : Threads} (h : T' t = T t) :
    T'.aged now t = T.aged now t := by
  rw [aged, aged, h]

theorem aged_other (now : Int) (h : T.status t ≠ some .READY) :
    T.aged now t = T t := by
  rw [aged]
  cases hth : T t with
  | none => rfl
  | some th =>
      rw [Option.map_some, if_neg fun hst => h (by rw [status_eq hth, hst])]

@[simp] theorem status_aged : (T.aged now).status t = T.status t := by
  rw [status, aged, status, Option.map_map]
  cases T t with
  | none => rfl
  | some th =>
      show some (if th.status = .READY then
        { th with sys_q_stub := th.sys_q_stub.aged now } else th).status = _
      split <;> rfl

@[simp] theorem rest_aged : (T.aged now).rest t = T.rest t := by
  rw [rest, aged, rest, Option.map_map]
  cases T t with
  | none => rfl
  | some th =>
      show (if th.status = .READY then
          { th with sys_q_stub := th.sys_q_stub.aged now } else
          th).sys_q_stub.remain_burst_time -
        (if th.status = .READY then
            { th with sys_q_stub := th.sys_q_stub.aged now } else
          th).sys_q_stub.current_burst_time = _
      split <;> rfl

theorem priority_aged (h : T.status t = some .READY) :
    (T.aged now).priority t = T.agedPriority now t := by
  obtain ⟨th, hth, hst⟩ := exists_of_status h
  rw [priority_eq (aged_ready hth hst), agedPriority, hth]
  rfl

theorem WF.le_agedPriority (h : T.WF now) (t : ThreadId) :
    T.priority t ≤ T.agedPriority now t := by
  rw [priority, agedPriority]
  cases hth : T t with
  | none => exact Int.le_refl 0
  | some th => exact (h t th hth).le_agedPriority

theorem WF.aged (h : T.WF now) : (T.aged now).WF now := by
  intro t th' hth'
  obtain ⟨th, hth, rfl⟩ := Option.map_eq_some_iff.mp hth'
  split
  · exact (h t th hth).aged
  · exact h t th hth

theorem WF.priority_nonneg (h : T.WF now) (t : ThreadId) :
    0 ≤ T.priority t := by
  rw [priority]
  cases hth : T t with
  | none => exact Int.le_refl 0
  | some th => exact (h t th hth).init.trans (h t th hth).ge_init

theorem level_one {p : Int} (h : 0 ≤ p) : levelOf p = .Lv1 ↔ 100 ≤ p := by
  unfold levelOf
  split
  · simp
    omega
  · split
    · simp
      omega
    · simp
      omega

theorem level_two {p : Int} : levelOf p = .Lv2 ↔ 50 ≤ p ∧ p < 100 := by
  unfold levelOf
  split
  · simp
    omega
  · split
    · next h => exact ⟨fun _ => h, fun _ => rfl⟩
    · next h => exact ⟨nofun, fun h' => absurd h' h⟩

theorem WF.level_aged (h : T.WF now) (hready : T.status t = some .READY)
    (hlv : T.level t = .Lv1) :
    (T.aged now).level t = .Lv1 := by
  have hle := h.le_agedPriority t
  have hp := (level_one (h.priority_nonneg t)).mp hlv
  rw [level, priority_aged hready, level_one] <;> omega

end Threads

namespace SystemQueue
variable {S : Prop} {T : Threads} {now : Int} {q q' : SystemQueue}
  {t : ThreadId} {lv : Level}

theorem applyAging_append (a b : List ThreadId) (T : Threads) :
    applyAging now (a ++ b) T = applyAging now a T >>= applyAging now b := by
  induction a generalizing T with
  | nil => exact (Outcome.ok_bind T _).symm
  | cons t a ih =>
      simp only [List.cons_append, applyAging, bind_assoc]
      exact bind_congr fun th => bind_congr fun th' => ih _

theorem applyAging_ok : ∀ {l : List ThreadId} {T : Threads}, l.Nodup →
    T.WF now →
    (∀ t ∈ l, T.status t = some .READY) →
    applyAging now l T = .ok fun t => if t ∈ l then T.aged now t else T t
  | [], T, _, _, _ => by simp [applyAging, pure, Except.pure]
  | x :: l, T, hnodup, hwf, hready => by
      obtain ⟨hx, hl⟩ := List.nodup_cons.mp hnodup
      obtain ⟨th, hth, hst⟩ := Threads.exists_of_status (hready x (.head _))
      have hth' := hwf x th hth
      have haging : th.aging now =
          .ok { th with sys_q_stub := th.sys_q_stub.aged now } := by
        rw [Thread.aging, hst, hth'.aging_eq]
        rfl
      rw [applyAging, Threads.deref_ok hth, Outcome.ok_bind, haging,
        Outcome.ok_bind,
        ← Threads.aged_ready hth hst]
      have hother : ∀ t, t ≠ x → Function.update T x (T.aged now x) t = T t :=
        fun t ht => Function.update_of_ne ht _ _
      have hne : ∀ t ∈ l, t ≠ x := fun t ht => ne_of_mem_of_not_mem ht hx
      rw [applyAging_ok hl]
      · refine congrArg _ (funext fun t => ?_)
        by_cases htx : t = x
        · subst htx
          rw [if_neg hx, if_pos (.head _), Function.update_self]
        · rw [Threads.aged_congr (hother t htx), hother t htx]
          simp only [List.mem_cons, htx, false_or]
      · intro t th' h
        by_cases htx : t = x
        · subst htx
          rw [Function.update_self] at h
          exact hwf.aged t th' h
        · rw [hother t htx] at h
          exact hwf t th' h
      · intro t ht
        rw [Threads.status, hother t (hne t ht)]
        exact hready t (.tail _ ht)

theorem apply_ok (h : Lined S T q) (hwf : T.WF now)
    (hall : ∀ t, T.status t = some .READY → t ∈ q.all) :
    q.apply now T = .ok (T.aged now) := by
  have happly : q.apply now T = applyAging now q.all T := by
    rw [all, applyAging_append, applyAging_append, bind_assoc]
    rfl
  rw [happly, applyAging_ok h.nodup hwf h.ready]
  refine congrArg _ (funext fun t => ?_)
  split
  · rfl
  · next ht => exact (Threads.aged_other now fun hst => ht (hall t hst)).symm

/-- Aging lets no thread of L2 that stays there pass one ahead of it. -/
def AgesInOrder (q : SystemQueue) (T : Threads) (now : Int) : Prop :=
  q.L2.Pairwise fun x y => T.agedPriority now y < 100 →
    T.agedPriority now y ≤ T.agedPriority now x

theorem Lined.ready_of_mem (h : Lined S T q) (lv : Level)
    (ht : t ∈ q.queue lv) : T.status t = some .READY :=
  h.ready t (mem_all.mpr ⟨lv, ht⟩)

theorem Lined.aged (h : Lined S T q) (horder : S → q.AgesInOrder T now) :
    Lined S (T.aged now) q := by
  refine ⟨h.nodup, ?_, ?_, ?_⟩
  · intro t ht
    rw [Threads.status_aged]
    exact h.ready t ht
  · refine h.shorter.imp ?_
    intro x y hxy
    rw [Threads.Shorter, Threads.rest_aged, Threads.rest_aged]
    exact hxy
  · intro hS
    refine (horder hS).imp_of_mem ?_
    intro x y hx hy hxy
    rw [Threads.Higher, Threads.priority_aged (h.ready_of_mem .Lv2 hx),
      Threads.priority_aged (h.ready_of_mem .Lv2 hy)]
    exact hxy

theorem Lined.aging_ok (h : Lined S T q) (hfiled : ∀ lv, Filed T q lv)
    (hwf : T.WF now) (hall : ∀ t, T.status t = some .READY → t ∈ q.all)
    (horder : S → q.AgesInOrder T now) :
    ∃ q', q.aging T now = .ok (T.aged now, q') ∧ Regrouped S (T.aged now) q q' ∧
      ∀ lv, Filed (T.aged now) q' lv := by
  have h1 : Filed (T.aged now) q .Lv1 := fun t ht =>
    hwf.level_aged (h.ready_of_mem .Lv1 ht) (hfiled .Lv1 t ht)
  obtain ⟨q', hrun, hre, hf⟩ := (h.aged horder).regroup_ok now h1
  refine ⟨q', ?_, hre, hf⟩
  rw [aging, apply_ok h hwf hall, Outcome.ok_bind, hrun]
  rfl

end SystemQueue

end EroikoBlue.MP3
