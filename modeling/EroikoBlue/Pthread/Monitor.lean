/-
# `Pthread.Monitor` — a queue and the threads in its calls

A thread whose condition fails waits on a condition variable; it is woken, by a
signal or by nothing, locks the mutex again when it comes to that, and goes back
to the test of its loop.  A step is all that happens while the mutex is held, so
the mutex is free between steps.

    bounded_fifo      the ring holds what was enqueued and not yet dequeued, in order
    no_lost_wakeup    whoever sleeps has nothing to do that nobody was woken for

The second rests on a count: while some call sleeps, as many others have been
woken as there are items, or free cells, for them.

## Waiting twice

Between the signal and the moment at which the woken thread has the mutex again,
another thread may take the item or the cell.  Then the woken one sleeps again,
and nothing was lost, because the other call had no need to sleep.  That is what
the count says, and why it is not enough to look at the thread that was
signalled.

A thread may also wake up for no reason, as the documentation of
`pthread_cond_wait` allows; it tests its condition and goes to sleep again.

`dequeue_served` and `enqueue_served` say what comes of it: while there are
items, one of the calls of `dequeue` can take one, and while there is room, one
of the calls of `enqueue` can put one.
-/
import Mathlib.Data.List.Perm.Basic
import EroikoBlue.Pthread.TSQueue

namespace EroikoBlue.Pthread

open Ring (slot)

abbrev ThreadId := Nat

/-- A condition variable: who waits on it, and who was woken and is about to
lock the mutex. -/
structure Cond (β : Type) where
  waiting : List β
  woken : List β

/-- The waiters `w` are woken. -/
structure Cond.Wakes {β : Type} (c : Cond β) (w : List β)
    (c' : Cond β) : Prop where
  waiting : c.waiting.Perm (w ++ c'.waiting)
  woken : c'.woken = c.woken ++ w

/-- `pthread_cond_signal` wakes one waiter at least, if there is one. -/
structure Cond.Signals {β : Type} (c : Cond β) (w : List β) (c' : Cond β) :
    Prop extends c.Wakes w c' where
  some : c.waiting ≠ [] → w ≠ []

theorem Cond.signals_all {β : Type} (c : Cond β) :
    c.Signals c.waiting ⟨[], c.woken ++ c.waiting⟩ where
  waiting := .of_eq (List.append_nil _).symm
  woken := rfl
  some := id

structure Monitor (α : Type) where
  queue : TSQueue α
  /-- The calls of `enqueue` that wait, with their items. -/
  condEnqueue : Cond (ThreadId × α)
  condDequeue : Cond ThreadId
  /-- A record of what passed through the queue. -/
  enqueued : List α
  dequeued : List α

namespace Monitor

variable {α : Type}

def new (bufferSize : Nat) : Monitor α where
  queue := .new bufferSize
  condEnqueue := ⟨[], []⟩
  condDequeue := ⟨[], []⟩
  enqueued := []
  dequeued := []

/-- The thread is in no call. -/
def Idle (m : Monitor α) (t : ThreadId) : Prop :=
  (∀ item, (t, item) ∉ m.condEnqueue.waiting ++ m.condEnqueue.woken) ∧
    t ∉ m.condDequeue.waiting ++ m.condDequeue.woken

/-- `enqueue` from the test of its loop to where it lets go of the mutex. -/
inductive Enqueues (m : Monitor α) (t : ThreadId) (item : α) : Monitor α → Prop
  | waits (h : m.queue.enqueue item = .error .blocked) : Enqueues m t item
      { m with condEnqueue := { m.condEnqueue with
        waiting := m.condEnqueue.waiting ++ [(t, item)] } }
  | passes {q : TSQueue α} {w : List ThreadId} {c : Cond ThreadId}
      (h : m.queue.enqueue item = .ok q)
      (hsignal : m.condDequeue.Signals w c) : Enqueues m t item
      { m with queue := q, condDequeue := c, enqueued := m.enqueued ++ [item] }

/-- `dequeue`, likewise. -/
inductive Dequeues (m : Monitor α) (t : ThreadId) : Monitor α → Prop
  | waits (h : m.queue.dequeue = .error .blocked) : Dequeues m t
      { m with condDequeue := { m.condDequeue with
        waiting := m.condDequeue.waiting ++ [t] } }
  | passes {ret : α} {q : TSQueue α} {w : List (ThreadId × α)}
      {c : Cond (ThreadId × α)}
      (h : m.queue.dequeue = .ok (ret, q))
        (hsignal : m.condEnqueue.Signals w c) : Dequeues m t
      { m with queue := q, condEnqueue := c, dequeued := m.dequeued ++ [ret] }

inductive Step (m : Monitor α) : Monitor α → Prop
  | enqueue {m' : Monitor α} (t : ThreadId) (item : α) (hidle : m.Idle t)
      (h : m.Enqueues t item m') : Step m m'
  | dequeue {m' : Monitor α} (t : ThreadId) (hidle : m.Idle t)
      (h : m.Dequeues t m') : Step m m'
  /-- A woken thread has the mutex again. -/
  | enqueueResumes {m' : Monitor α} {t : ThreadId} {item : α}
      {l₁ l₂ : List (ThreadId × α)}
      (hwoken : m.condEnqueue.woken = l₁ ++ (t, item) :: l₂)
      (h : Enqueues { m with condEnqueue := { m.condEnqueue with
        woken := l₁ ++ l₂ } } t item m') : Step m m'
  | dequeueResumes {m' : Monitor α} {t : ThreadId} {l₁ l₂ : List ThreadId}
      (hwoken : m.condDequeue.woken = l₁ ++ t :: l₂)
      (h : Dequeues { m with condDequeue := { m.condDequeue with
        woken := l₁ ++ l₂ } } t m') : Step m m'
  /-- A wakeup without a signal. -/
  | enqueueWakes {w : List (ThreadId × α)} {c : Cond (ThreadId × α)}
      (h : m.condEnqueue.Wakes w c) :
      Step m { m with condEnqueue := c }
  | dequeueWakes {w : List ThreadId} {c : Cond ThreadId}
      (h : m.condDequeue.Wakes w c) :
      Step m { m with condDequeue := c }

inductive Reachable (cap : Nat) : Monitor α → Prop
  | start : Reachable cap (.new cap)
  | step {m m' : Monitor α} (h : Reachable cap m) (hstep : m.Step m') :
      Reachable cap m'

/-! ## The invariant -/

/-- The queue holds what was enqueued and not yet dequeued. -/
structure Live (cap : Nat) (m : Monitor α) (xs : List α) : Prop where
  cap : m.queue.bufferSize = cap
  holds : m.queue.Holds xs
  record : m.enqueued = m.dequeued ++ xs

structure Inv (cap : Nat) (m : Monitor α) : Prop where
  live : ∃ xs, Live cap m xs
  dequeuers : m.condDequeue.waiting ≠ [] →
    m.queue.size ≤ m.condDequeue.woken.length
  enqueuers : m.condEnqueue.waiting ≠ [] →
    cap ≤ m.queue.size + m.condEnqueue.woken.length

section
variable {cap : Nat} {m m' : Monitor α} {t : ThreadId} {item : α}

/-- Who waits after a signal waited before it, and one more has been woken. -/
theorem signal_counts {β : Type} {c c' : Cond β} {w : List β}
    {n : Nat} (h : c.Signals w c') (hn : c.waiting ≠ [] → n ≤ c.woken.length) :
    c'.waiting ≠ [] → n + 1 ≤ c'.woken.length := by
  intro hwaits
  have hbefore : c.waiting ≠ [] := by
    rintro hnil
    exact hwaits
      (List.append_eq_nil_iff.mp (List.nil_perm.mp (hnil ▸ h.waiting))).2
  rw [h.woken, List.length_append]
  exact Nat.add_le_add (hn hbefore) (List.length_pos_of_ne_nil (h.some hbefore))

theorem wake_counts {β : Type} {c c' : Cond β} {w : List β}
    {n : Nat} (h : c.Wakes w c') (hn : c.waiting ≠ [] → n ≤ c.woken.length) :
    c'.waiting ≠ [] → n ≤ c'.woken.length := by
  intro hwaits
  have hbefore : c.waiting ≠ [] := by
    rintro hnil
    exact hwaits
      (List.append_eq_nil_iff.mp (List.nil_perm.mp (hnil ▸ h.waiting))).2
  rw [h.woken, List.length_append]
  exact (hn hbefore).trans (Nat.le_add_right ..)

theorem Live.valid {xs : List α} (h : Live cap m xs) : m.queue.Valid cap :=
  h.holds.valid h.cap

/-- `enqueue` keeps the invariant, also if its thread is one of those that were
woken. -/
theorem Enqueues.inv (h : m.Enqueues t item m') {xs : List α}
    (hlive : Live cap m xs) (hdeq : m.condDequeue.waiting ≠ [] → m.queue.size ≤
      m.condDequeue.woken.length) (henq : m.condEnqueue.waiting ≠ [] →
      cap ≤ m.queue.size + 1 + m.condEnqueue.woken.length) : Inv cap m' := by
  cases h with
  | waits h =>
      have hfull : m.queue.size = cap :=
        hlive.valid.getSize.trans (hlive.valid.enqueue_error h).2
      exact ⟨⟨xs, hlive.cap, hlive.holds, hlive.record⟩, hdeq,
        fun _ => hfull ▸ Nat.le_add_right ..⟩
  | @passes q w c h hsignal =>
      obtain ⟨hq, hcontents⟩ := hlive.valid.enqueue h
      rw [hlive.holds.contents] at hcontents
      have hholds : q.Holds (xs ++ [item]) := hcontents ▸ hq.holds
      have hsize : q.size = m.queue.size + 1 := by
        rw [hholds.size, List.length_append, hlive.holds.size]
        rfl
      refine ⟨⟨xs ++ [item], hq.cap, hholds, ?_⟩, ?_, ?_⟩
      · rw [hlive.record, List.append_assoc]
      · exact fun hw => hsize ▸ signal_counts hsignal hdeq hw
      · exact fun hw => hsize ▸ henq hw

theorem Dequeues.inv (h : m.Dequeues t m') {xs : List α}
    (hlive : Live cap m xs) (hdeq : m.condDequeue.waiting ≠ [] → m.queue.size ≤
      m.condDequeue.woken.length + 1) (henq : m.condEnqueue.waiting ≠ [] →
      cap ≤ m.queue.size + m.condEnqueue.woken.length) : Inv cap m' := by
  cases h with
  | waits h =>
      have hempty : m.queue.size = 0 := by
        rw [← TSQueue.getSize, hlive.valid.getSize,
          (hlive.valid.dequeue_error h).2]
        rfl
      exact ⟨⟨xs, hlive.cap, hlive.holds, hlive.record⟩,
        fun _ => hempty ▸ Nat.zero_le _, henq⟩
  | @passes ret q w c h hsignal =>
      obtain ⟨hq, hcontents⟩ := hlive.valid.dequeue h
      rw [hlive.holds.contents] at hcontents
      have hsize : m.queue.size = q.size + 1 := by
        rw [hlive.holds.size, hcontents, List.length_cons, hq.holds.size]
      rw [hsize] at hdeq henq
      refine ⟨⟨q.contents, hq.cap, hq.holds, ?_⟩,
        fun hw => Nat.le_of_succ_le_succ (hdeq hw), ?_⟩
      · rw [hlive.record, List.append_assoc, hcontents]
        rfl
      · intro hw
        have hwoken := signal_counts hsignal (fun hw => Nat.sub_le_iff_le_add'.mpr (henq hw)) hw
        dsimp only at hwoken ⊢
        omega

theorem Inv.step (h : Inv cap m) (hstep : m.Step m') : Inv cap m' := by
  obtain ⟨xs, hlive⟩ := h.live
  cases hstep with
  | enqueue _ _ _ hcall =>
      exact hcall.inv hlive h.dequeuers fun hw =>
        (h.enqueuers hw).trans (by omega)
  | dequeue _ _ hcall => exact hcall.inv hlive (fun hw => (h.dequeuers hw).trans (Nat.le_succ _)) h.enqueuers
  | enqueueResumes hwoken hcall =>
      refine hcall.inv ⟨hlive.cap, hlive.holds, hlive.record⟩ h.dequeuers
        fun hw => ?_
      have hle := h.enqueuers hw
      rw [hwoken, List.length_append, List.length_cons] at hle
      dsimp only
      rw [List.length_append]
      omega
  | dequeueResumes hwoken hcall =>
      refine hcall.inv ⟨hlive.cap, hlive.holds, hlive.record⟩
        (fun hw => ?_) h.enqueuers
      have hle := h.dequeuers hw
      rw [hwoken, List.length_append, List.length_cons] at hle
      dsimp only
      rw [List.length_append]
      exact hle
  | enqueueWakes hwake =>
      refine ⟨⟨xs, hlive.cap, hlive.holds, hlive.record⟩, h.dequeuers,
        fun hw => ?_⟩
      have hle := wake_counts hwake
        (fun hw => Nat.sub_le_iff_le_add'.mpr (h.enqueuers hw)) hw
      dsimp only at hle ⊢
      omega
  | dequeueWakes hwake =>
      exact ⟨⟨xs, hlive.cap, hlive.holds, hlive.record⟩,
        wake_counts hwake h.dequeuers, h.enqueuers⟩

/-- With an item in the queue, a thread sleeps in `dequeue` only if another one
has been woken. -/
theorem Inv.dequeuer_woken (h : Inv cap m) (hwaits : m.condDequeue.waiting ≠ [])
    (hsize : 0 < m.queue.size) :
    m.condDequeue.woken ≠ [] := by
  intro hnone
  have hle := h.dequeuers hwaits
  rw [hnone] at hle
  exact Nat.not_lt.mpr hle hsize

theorem Inv.enqueuer_woken (h : Inv cap m) (hwaits : m.condEnqueue.waiting ≠ [])
    (hroom : m.queue.size < m.queue.bufferSize) : m.condEnqueue.woken ≠ [] := by
  intro hnone
  obtain ⟨xs, hlive⟩ := h.live
  have hle := h.enqueuers hwaits
  rw [hnone, ← hlive.cap] at hle
  exact Nat.not_lt.mpr hle hroom

theorem Reachable.inv (hcap : 0 < cap) (h : Reachable cap m) : Inv cap m := by
  induction h with
  | start => exact ⟨⟨[], rfl, TSQueue.new_holds hcap, rfl⟩,
        fun hw => absurd rfl hw, fun hw => absurd rfl hw⟩
  | step _ hstep ih => exact ih.step hstep

end

/-! ## The queue of a run -/

/-- The items that are in the queue. -/
def pending (m : Monitor α) : List α := m.enqueued.drop m.dequeued.length

structure BoundedFifo (cap : Nat) (m : Monitor α) : Prop where
  order : m.dequeued <+: m.enqueued
  bufferSize : m.queue.bufferSize = cap
  size_le : m.queue.size ≤ m.queue.bufferSize
  tail : (m.queue.head + 1 + m.queue.size) % m.queue.bufferSize = m.queue.tail
  size : m.queue.size = m.pending.length
  cells : ∀ i x, m.pending[i]? = some x →
    m.queue.buffer ((m.queue.head + 1 + i) % m.queue.bufferSize) = some x
  /-- The cell the next `enqueue` writes to holds none of them. -/
  kept : m.queue.size < m.queue.bufferSize →
    ∀ i < m.queue.size, (m.queue.head + 1 + i) % m.queue.bufferSize ≠
      m.queue.tail

theorem bounded_fifo {cap : Nat} (hcap : 1 ≤ cap) {m : Monitor α}
    (h : Reachable cap m) : m.BoundedFifo cap := by
  obtain ⟨xs, hlive⟩ := (h.inv hcap).live
  have hpending : m.pending = xs := by
    rw [pending, hlive.record, List.drop_left]
  constructor
  case order => exact ⟨xs, hlive.record.symm⟩
  case bufferSize => exact hlive.cap
  case size_le => exact hlive.holds.size.trans_le hlive.holds.ring.le
  case tail =>
    rw [hlive.holds.size, hlive.holds.tail]
    rfl
  case size => rw [hpending, hlive.holds.size]
  case cells =>
    rw [hpending]
    exact hlive.holds.ring.cell
  case kept =>
    intro hroom i hi
    rw [hlive.holds.size] at hroom hi
    rw [hlive.holds.tail]
    exact Ring.slot_length_ne hi hroom

/-- One cell: 7 went through, 8 found the cell taken, and its thread has been
woken since. -/
def oneCell : Monitor Nat where
  queue := ⟨1, fun k => if k = 0 then some 7 else none, 0, 0, 0⟩
  condEnqueue := ⟨[], [(1, 8)]⟩
  condDequeue := ⟨[], []⟩
  enqueued := [7]
  dequeued := [7]

theorem reachable_oneCell : Reachable 1 oneCell := by
  have h₁ : Reachable 1 (⟨⟨1, fun k => if k = 0 then some 7 else none, 1, 0, 0⟩,
      ⟨[], []⟩, ⟨[], []⟩, [7], []⟩ :
      Monitor Nat) :=
    .step .start
      (.enqueue 0 7 ⟨nofun, nofun⟩ (.passes rfl (Cond.signals_all _)))
  have h₂ : Reachable 1 (⟨⟨1, fun k => if k = 0 then some 7 else none, 1, 0, 0⟩,
      ⟨[(1, 8)], []⟩, ⟨[], []⟩, [7], []⟩ :
      Monitor Nat) :=
    .step h₁ (.enqueue 1 8 ⟨nofun, nofun⟩ (.waits rfl))
  have hidle : ∀ item : Nat, (2, item) ∉ [(1, 8)] ++ [] := by
    intro item hmem
    cases List.mem_singleton.mp hmem
  exact .step h₂ (.dequeue 2 ⟨hidle, nofun⟩ (.passes rfl (Cond.signals_all _)))

theorem bounded_fifo_oneCell : oneCell.BoundedFifo 1 :=
  bounded_fifo (Nat.le_refl 1) reachable_oneCell

theorem no_lost_wakeup {cap : Nat} (hcap : 1 ≤ cap) {m : Monitor α}
    (h : Reachable cap m) :
    ¬ (m.condDequeue.waiting ≠ [] ∧ 0 < m.queue.size ∧
        m.condDequeue.woken = []) ∧
      ¬ (m.condEnqueue.waiting ≠ [] ∧ m.queue.size < m.queue.bufferSize ∧
        m.condEnqueue.woken = []) := by
  have hinv := h.inv hcap
  constructor
  · rintro ⟨hwaits, hsize, hnone⟩
    exact hinv.dequeuer_woken hwaits hsize hnone
  · rintro ⟨hwaits, hroom, hnone⟩
    exact hinv.enqueuer_woken hwaits hroom hnone

theorem no_lost_wakeup_oneCell :
    ¬ (oneCell.condDequeue.waiting ≠ [] ∧ 0 < oneCell.queue.size ∧
        oneCell.condDequeue.woken = []) ∧
      ¬ (oneCell.condEnqueue.waiting ≠ [] ∧
        oneCell.queue.size < oneCell.queue.bufferSize ∧
        oneCell.condEnqueue.woken = []) :=
  no_lost_wakeup (Nat.le_refl 1) reachable_oneCell

/-! ## The queue of the calls -/

section
variable {cap : Nat} {m m' : Monitor α} {t : ThreadId} {item : α}

theorem Enqueues.queue (h : m.Enqueues t item m') :
    m'.queue = m.queue ∨ m.queue.enqueue item = .ok m'.queue := by
  cases h with
  | waits => exact .inl rfl
  | passes h => exact .inr h

theorem Dequeues.queue (h : m.Dequeues t m') :
    m'.queue = m.queue ∨ ∃ item, m.queue.dequeue = .ok (item, m'.queue) := by
  cases h with
  | waits => exact .inl rfl
  | passes h => exact .inr ⟨_, h⟩

/-- A step leaves the queue alone, or does to it what one call does that does
not wait. -/
theorem Step.queue (h : m.Step m') : m'.queue = m.queue ∨
    (∃ item, m.queue.enqueue item = .ok m'.queue) ∨
      ∃ item, m.queue.dequeue = .ok (item, m'.queue) := by
  cases h with
  | enqueue _ _ _ hcall => exact hcall.queue.imp_right fun h => .inl ⟨_, h⟩
  | dequeue _ _ hcall => exact hcall.queue.imp_right .inr
  | enqueueResumes _ hcall => exact hcall.queue.imp_right fun h => .inl ⟨_, h⟩
  | dequeueResumes _ hcall => exact hcall.queue.imp_right .inr
  | enqueueWakes => exact .inl rfl
  | dequeueWakes => exact .inl rfl

/-- While there are items, the calls of `dequeue` are not stuck: one of them can
take an item. -/
theorem dequeue_served (hcap : 1 ≤ cap) (h : Reachable cap m)
    (hcalls : m.condDequeue.waiting ++ m.condDequeue.woken ≠ [])
    (hsize : 0 < m.queue.size) :
    ∃ m' item, m.Step m' ∧ m.queue.dequeue = .ok (item, m'.queue) := by
  have hinv := h.inv hcap
  have hwoken : m.condDequeue.woken ≠ [] := by
    intro hnone
    rw [hnone, List.append_nil] at hcalls
    exact hinv.dequeuer_woken hcalls hsize hnone
  obtain ⟨t, l, hl⟩ := List.exists_cons_of_ne_nil hwoken
  have hresumes : m.condDequeue.woken = [] ++ t :: l := hl
  obtain ⟨xs, hlive⟩ := hinv.live
  cases xs with
  | nil => exact absurd hlive.holds.size hsize.ne'
  | cons x xs =>
      obtain ⟨q, hq, _⟩ := hlive.holds.dequeue
      exact ⟨_, x, .dequeueResumes hresumes (.passes hq (Cond.signals_all _)),
        hq⟩

/-- And while there is room, one of the calls of `enqueue` can put its item. -/
theorem enqueue_served (hcap : 1 ≤ cap) (h : Reachable cap m)
    (hcalls : m.condEnqueue.waiting ++ m.condEnqueue.woken ≠ [])
    (hroom : m.queue.size < m.queue.bufferSize) :
    ∃ m' item, m.Step m' ∧ m.queue.enqueue item = .ok m'.queue := by
  have hinv := h.inv hcap
  have hwoken : m.condEnqueue.woken ≠ [] := by
    intro hnone
    rw [hnone, List.append_nil] at hcalls
    exact hinv.enqueuer_woken hcalls hroom hnone
  obtain ⟨⟨t, item⟩, l, hl⟩ := List.exists_cons_of_ne_nil hwoken
  have hresumes : m.condEnqueue.woken = [] ++ (t, item) :: l := hl
  have hput : m.queue.enqueue item = .ok (m.queue.put item) := if_neg hroom.ne
  exact ⟨_, item, .enqueueResumes hresumes (.passes hput (Cond.signals_all _)),
    hput⟩

end

end Monitor

end EroikoBlue.Pthread
