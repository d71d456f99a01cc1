/-
# `MP3.SynchList` — `threads/synchlist.cc` over the condition of `threads/synch.cc`

`Append` puts an item on the list under a lock and signals; `RemoveFront` waits
while the list is empty.  `Condition::Wait` makes a semaphore, puts it on the
condition's queue, lets go of the lock and only then sleeps on the semaphore; a
signal takes a semaphore off the queue and raises it, so it may come before the
sleep, and between it and the return to the lock other threads may take the
item.

Semaphores made by `Wait` are numbered.  A number is in `waitQueue` until it is
signalled and in `signalled` until its thread is back under the lock and deletes
it.  Items and wakeups balance there:

    waitQueue ≠ []  →  list.length ≤ signalled.length

and one more while an item is appended and not signalled, or a waiter is back
and has not looked at the list.  `Consistent` says this with two counts, and
`Out` and `Held` say where a thread may be, outside the lock and under it.  That
the statements keep it is in `MP3.Wakeups`.
-/
import EroikoBlue.Lib.Threads
import EroikoBlue.LinkedList

namespace EroikoBlue.MP3.SynchList

open Threads
open Function (update)

/-! ## The statements -/

/-- `lock->semaphore`, and the semaphores of waiters by their numbers. -/
inductive ListSem where
  | lock
  | waiter (n : Nat)
  deriving DecidableEq

theorem ListSem.lock_ne_waiter (n : Nat) : ListSem.lock ≠ .waiter n := nofun

inductive ListCall (α : Type) where
  | append (item : α)
  | removeFront

/-- The list, its lock and its condition. -/
structure ListData (Id α : Type) where
  lockHolder : Option Id
  list : List α
  waitQueue : List Nat
  /-- The number of the next `new Semaphore`. -/
  next : Nat
  /-- Who made the semaphore of that number. -/
  owner : Nat → Option Id
  /-- Those taken off `waitQueue` and not deleted. -/
  signalled : List Nat
  /-- A record of what passed through the list. -/
  appended : List α
  removed : List α

inductive ListAct (α : Type) where
  /-- `lockHolder = kernel->currentThread`. -/
  | setHolder
  /-- `ASSERT(IsHeldByCurrentThread())`. -/
  | assertHeld
  /-- `lockHolder = NULL`. -/
  | clearHolder
  | append (item : α)
  /-- The test of the loop of `RemoveFront`. -/
  | isEmpty
  | removeFront
  /-- `waiter = new Semaphore("condition", 0)` and
  `waitQueue->Append(waiter)`. -/
  | enqueue
  /-- What `Signal` does to `waitQueue`. -/
  | signal
  /-- `delete waiter`. -/
  | delete (n : Nat)

abbrev ListStmt (α : Type) := Stmt ListSem (ListAct α)

section
variable {Id α : Type}

/-- `Lock::Acquire`. -/
def acquire : List (ListStmt α) := [.P .lock, .act .setHolder]

/-- `Lock::Release`. -/
def release : List (ListStmt α) :=
  [.act .assertHeld, .act .clearHolder, .V .lock]

/-- `Condition::Wait`, up to where the waiter has a number. -/
def wait : List (ListStmt α) := [.act .assertHeld, .act .enqueue]

/-- The rest of `Condition::Wait`, for the waiter with that number. -/
def waitFor (n : Nat) : List (ListStmt α) :=
  release ++ .P (.waiter n) :: (acquire ++ [.act (.delete n)])

/-- `Condition::Signal`. -/
def signal : List (ListStmt α) := [.act .assertHeld, .act .signal]

/-- `SynchList<T>::Append`. -/
def append (item : α) : List (ListStmt α) :=
  acquire ++ .act (.append item) :: (signal ++ release)

/-- `SynchList<T>::RemoveFront`; the body of its loop is put in front of the
test. -/
def removeFront : List (ListStmt α) :=
  acquire ++ .act .isEmpty :: .act .removeFront :: release

namespace ListCall

def program : ListCall α → List (ListStmt α)
  | .append item => SynchList.append item
  | .removeFront => SynchList.removeFront

def item : ListCall α → Option α
  | .append item => some item
  | .removeFront => none

end ListCall

/-- What each does, run by thread `t`, and the statements it leads to. -/
def ListData.act [DecidableEq Id] [DecidableEq α] (t : Id) (d : ListData Id α) :
    ListAct α → Except Fault (ListData Id α × List (ListStmt α))
  | .setHolder => pure ({ d with lockHolder := some t }, [])
  | .assertHeld => do
    assertMsg (d.lockHolder = some t) ""
    pure (d, [])
  | .clearHolder => pure ({ d with lockHolder := none }, [])
  | .append item => do
    let list ← LinkedList.append d.list item
    pure ({ d with list := list, appended := d.appended ++ [item] }, [])
  | .isEmpty => pure (d, if d.list.isEmpty then wait ++ [.act .isEmpty] else [])
  | .removeFront => do
    let (item, list) ← LinkedList.removeFront d.list
    pure ({ d with list := list, removed := d.removed ++ [item] }, [])
  | .enqueue => do
    let waitQueue ← LinkedList.append d.waitQueue d.next
    pure ({ d with waitQueue := waitQueue, next := d.next + 1, owner := update d.owner d.next (some t) },
      waitFor d.next)
  | .signal =>
    if d.waitQueue.isEmpty then pure (d, [])
    else do
      let (waiter, waitQueue) ← LinkedList.removeFront d.waitQueue
      pure ({ d with waitQueue := waitQueue, signalled := d.signalled ++ [waiter] }, [.V (.waiter waiter)])
  | .delete n => pure ({ d with signalled := d.signalled.erase n }, [])

abbrev ListShared (Id α : Type) := Shared ListSem (ListCall α) (ListData Id α)
abbrev ListWorld (Id α : Type) := World Id ListSem (ListAct α) (ListCall α)
    (ListData Id α)

end

section
variable (Id α : Type)

def synchList [DecidableEq Id] [DecidableEq α] :
    System Id ListSem (ListAct α) (ListCall α) (ListData Id α) Fault where
  program := ListCall.program
  act := fun t a d => d.act t a
  handler := fun _ => none

/-- `SynchList<T>::SynchList`. -/
def newSynchList : ListWorld Id α :=
  .init (fun | .lock => 1 | .waiter _ => 0)
    { lockHolder := none, list := [], waitQueue := [], next := 0,
      owner := fun _ => none, signalled := [],
      appended := [], removed := [] }

end

/-! ## The semaphores of the condition -/

/-- Numbers are given out once, and only a signal raises their semaphores. -/
structure Waiters (value : ListSem → Nat) (waitQueue signalled : List Nat)
    (next : Nat) : Prop where
  nodup : (waitQueue ++ signalled).Nodup
  made : ∀ n ∈ waitQueue ++ signalled, n < next
  asleep : ∀ n ∈ waitQueue, value (.waiter n) = 0
  unmade : ∀ n, next ≤ n → value (.waiter n) = 0

namespace Waiters
variable {value value' : ListSem → Nat} {waitQueue signalled : List Nat}
  {next n : Nat}

theorem mono (h : Waiters value waitQueue signalled next)
    (hle : ∀ n, value' (.waiter n) ≤ value (.waiter n)) :
    Waiters value' waitQueue signalled next where
  nodup := h.nodup
  made := h.made
  asleep := fun n hn => Nat.le_zero.mp (h.asleep n hn ▸ hle n)
  unmade := fun n hn => Nat.le_zero.mp (h.unmade n hn ▸ hle n)

theorem signal (h : Waiters value (n :: waitQueue) signalled next) :
    Waiters value waitQueue (signalled ++ [n]) next := by
  have hperm : (waitQueue ++ (signalled ++ [n])).Perm
      (n :: waitQueue ++ signalled) := by
    rw [← List.append_assoc]
    exact List.perm_append_singleton n _
  exact ⟨hperm.nodup_iff.mpr h.nodup,
    fun m hm => h.made m (hperm.mem_iff.mp hm),
    fun m hm => h.asleep m (.tail _ hm), h.unmade⟩

theorem not_mem_waitQueue (h : Waiters value waitQueue signalled next)
    (hn : n ∈ signalled) : n ∉ waitQueue :=
  fun hmem => (List.nodup_append.mp h.nodup).2.2 n hmem n hn rfl

theorem next_not_mem (h : Waiters value waitQueue signalled next) :
    next ∉ waitQueue ++ signalled :=
  fun hmem => Nat.lt_irrefl _ (h.made next hmem)

theorem raise (h : Waiters value waitQueue signalled next) (hn : n ∈ signalled)
    (hother : ∀ m, m ≠ n → value' (.waiter m) = value (.waiter m)) :
    Waiters value' waitQueue signalled next where
  nodup := h.nodup
  made := h.made
  asleep := by
    intro m hm
    rw [hother m fun heq => h.not_mem_waitQueue hn (heq ▸ hm)]
    exact h.asleep m hm
  unmade := by
    intro m hm
    have hlt : n < next := h.made n (List.mem_append_right _ hn)
    rw [hother m fun heq => Nat.not_lt.mpr hm (heq ▸ hlt)]
    exact h.unmade m hm

theorem enqueue (h : Waiters value waitQueue signalled next) :
    Waiters value (waitQueue ++ [next]) signalled (next + 1) := by
  have hperm : (waitQueue ++ [next] ++ signalled).Perm
      (next :: (waitQueue ++ signalled)) := by
    rw [List.append_assoc]
    exact List.perm_middle
  refine ⟨hperm.nodup_iff.mpr (List.nodup_cons.mpr ⟨h.next_not_mem, h.nodup⟩),
    fun m hm => ?_, fun m hm => ?_,
    fun m hm => h.unmade m (Nat.le_of_succ_le hm)⟩
  · rcases List.mem_cons.mp (hperm.mem_iff.mp hm) with rfl | hm
    · exact Nat.lt_succ_self m
    · exact Nat.lt_succ_of_lt (h.made m hm)
  · rcases List.mem_append.mp hm with hm | hm
    · exact h.asleep m hm
    · exact List.mem_singleton.mp hm ▸ h.unmade next (Nat.le_refl next)

theorem delete (h : Waiters value waitQueue signalled next) (n : Nat) :
    Waiters value waitQueue (signalled.erase n) next where
  nodup := h.nodup.sublist (List.Sublist.append_left List.erase_sublist _)
  made := fun m hm =>
    h.made m ((List.Sublist.append_left List.erase_sublist _).subset hm)
  asleep := h.asleep
  unmade := h.unmade

end Waiters

/-! ## Where the threads are -/

section
variable {Id α : Type} {t u : Id} {d d' : ListData Id α}
  {sh sh' : ListShared Id α}

/-- `t` made the semaphore `n` and has not deleted it. -/
def ListData.Waits (d : ListData Id α) (t : Id) (n : Nat) : Prop :=
  n ∈ d.waitQueue ++ d.signalled ∧ d.owner n = some t

/-- The semaphore of `t`, if it has one, is `mine`. -/
def ListData.Owns (d : ListData Id α) (t : Id) (mine : Option Nat) : Prop :=
  ∀ n, d.Waits t n ↔ mine = some n

/-- What a thread other than `t` sees of a step of `t`. -/
structure Others (t : Id) (d d' : ListData Id α) : Prop where
  waits : ∀ u, u ≠ t → ∀ n, d'.Waits u n ↔ d.Waits u n
  signalled : ∀ u, u ≠ t → ∀ n, d.owner n = some u → n ∈ d.signalled →
    n ∈ d'.signalled

/-- `RemoveFront` from the test on. -/
def test : List (ListStmt α) := .act .isEmpty :: .act .removeFront :: release

/-- `RemoveFront` from where a waiter is awake. -/
def back (n : Nat) : List (ListStmt α) := acquire ++ .act (.delete n) :: test

/-- Where the threads without the lock are. -/
inductive Out (t : Id) : Option (ListCall α) → List (ListStmt α) →
    ListShared Id α → Prop
  | idle {c : Option (ListCall α)} {sh : ListShared Id α}
      (ho : sh.data.Owns t none) : Out t c [] sh
  | starting {sh : ListShared Id α} (c : ListCall α)
      (ho : sh.data.Owns t none) : Out t (some c) c.program sh
  | waiting {n : Nat} {sh : ListShared Id α} (ho : sh.data.Owns t (some n)) :
      Out t (some .removeFront) (.P (.waiter n) :: back n) sh
  | back {n : Nat} {sh : ListShared Id α} (ho : sh.data.Owns t (some n))
      (hn : n ∈ sh.data.signalled) :
      Out t (some .removeFront) (back n) sh

/-- What holds of the list and the condition: `todo` is on its way to the list,
and `k` items more than there are wakeups. -/
structure Consistent (lock k : Nat) (todo : List α)
    (sh : ListShared Id α) : Prop where
  lock : sh.value .lock = lock
  owned : ∀ n ∈ sh.data.waitQueue ++ sh.data.signalled, ∃ t,
    sh.data.owner n = some t
  waiters : Waiters sh.value sh.data.waitQueue sh.data.signalled sh.data.next
  items : sh.data.appended = sh.data.removed ++ sh.data.list
  passed : (sh.passed .lock).filterMap ListCall.item = sh.data.appended ++ todo
  woken : sh.data.waitQueue ≠ [] →
    sh.data.list.length ≤ sh.data.signalled.length + k

/-- What a call has left after `Release`: nothing, or to wait for `mine`. -/
inductive After : ListCall α → Option Nat → List (ListStmt α) → Prop
  | done (c : ListCall α) : After c none []
  | asleep (n : Nat) : After .removeFront (some n) (.P (.waiter n) :: back n)

/-- Where the holder of the lock is, and what is so there. -/
inductive Held (t : Id) : ListCall α → List (ListStmt α) →
    ListShared Id α → Prop
  | appendEntered {item : α} {sh : ListShared Id α}
      (hc : Consistent 0 0 [item] sh) (ho : sh.data.Owns t none) :
      Held t (.append item)
        (.act .setHolder :: .act (.append item) :: (signal ++ release)) sh
  | appending {item : α} {sh : ListShared Id α} (hc : Consistent 0 0 [item] sh)
      (ho : sh.data.Owns t none)
      (hh : sh.data.lockHolder = some t) : Held t (.append item)
        (.act (.append item) :: (signal ++ release)) sh
  | appended {c : ListCall α} {sh : ListShared Id α} (hc : Consistent 0 1 [] sh)
      (ho : sh.data.Owns t none)
      (hh : sh.data.lockHolder = some t) :
        Held t c (.act .assertHeld :: .act .signal :: release) sh
  | signalling {c : ListCall α} {sh : ListShared Id α}
      (hc : Consistent 0 1 [] sh) (ho : sh.data.Owns t none)
      (hh : sh.data.lockHolder = some t) : Held t c (.act .signal :: release) sh
  | waking {c : ListCall α} {n : Nat} {sh : ListShared Id α}
      (hc : Consistent 0 0 [] sh) (ho : sh.data.Owns t none)
      (hh : sh.data.lockHolder = some t) (hn : n ∈ sh.data.signalled) :
        Held t c (.V (.waiter n) :: release) sh
  | entered {sh : ListShared Id α} (hc : Consistent 0 0 [] sh)
      (ho : sh.data.Owns t none) :
      Held t .removeFront (.act .setHolder :: test) sh
  | reentered {n : Nat} {sh : ListShared Id α} (hc : Consistent 0 0 [] sh)
      (ho : sh.data.Owns t (some n))
      (hn : n ∈ sh.data.signalled) : Held t .removeFront
        (.act .setHolder :: .act (.delete n) :: test) sh
  | deleting {n : Nat} {sh : ListShared Id α} (hc : Consistent 0 0 [] sh)
      (ho : sh.data.Owns t (some n))
      (hh : sh.data.lockHolder = some t) (hn : n ∈ sh.data.signalled) :
      Held t .removeFront (.act (.delete n) :: test) sh
  | testing {sh : ListShared Id α} (hc : Consistent 0 1 [] sh)
      (ho : sh.data.Owns t none)
      (hh : sh.data.lockHolder = some t) : Held t .removeFront test sh
  | mustWait {sh : ListShared Id α} (hc : Consistent 0 0 [] sh)
      (ho : sh.data.Owns t none)
      (hh : sh.data.lockHolder = some t) (hl : sh.data.list = []) :
      Held t .removeFront (.act .assertHeld :: .act .enqueue :: test) sh
  | enqueueing {sh : ListShared Id α} (hc : Consistent 0 0 [] sh)
      (ho : sh.data.Owns t none)
      (hh : sh.data.lockHolder = some t) (hl : sh.data.list = []) :
        Held t .removeFront (.act .enqueue :: test) sh
  | removing {sh : ListShared Id α} (hc : Consistent 0 1 [] sh)
      (ho : sh.data.Owns t none)
      (hh : sh.data.lockHolder = some t) (hl : sh.data.list ≠ []) :
      Held t .removeFront (.act .removeFront :: release) sh
  | releasing {c : ListCall α} {mine : Option Nat} {l : List (ListStmt α)}
      {sh : ListShared Id α}
      (hc : Consistent 0 0 [] sh) (ho : sh.data.Owns t mine)
        (hh : sh.data.lockHolder = some t)
      (hl : After c mine l) :
        Held t c (.act .assertHeld :: .act .clearHolder :: .V .lock :: l) sh
  | clearing {c : ListCall α} {mine : Option Nat} {l : List (ListStmt α)}
      {sh : ListShared Id α}
      (hc : Consistent 0 0 [] sh) (ho : sh.data.Owns t mine)
        (hl : After c mine l) :
      Held t c (.act .clearHolder :: .V .lock :: l) sh
  | leaving {c : ListCall α} {mine : Option Nat} {l : List (ListStmt α)}
      {sh : ListShared Id α}
      (hc : Consistent 0 0 [] sh) (ho : sh.data.Owns t mine)
        (hl : After c mine l) : Held t c (.V .lock :: l) sh

/-! ## What a step leaves alone -/

theorem Others.of_eq (hqueue : d'.waitQueue = d.waitQueue)
    (hsignalled : d'.signalled = d.signalled) (howner : d'.owner = d.owner) :
    Others t d d' where
  waits := fun u _ n => by
    rw [ListData.Waits, ListData.Waits, hqueue, hsignalled, howner]
  signalled := fun u _ n _ hn => hsignalled ▸ hn

theorem ListData.Owns.congr {mine : Option Nat} (h : d.Owns t mine)
    (hw : ∀ n, d'.Waits t n ↔ d.Waits t n) :
    d'.Owns t mine := fun n => (hw n).trans (h n)

theorem Out.mono {c : Option (ListCall α)} {l : List (ListStmt α)}
    (h : Out t c l sh) (hwaits : ∀ n, sh'.data.Waits t n ↔ sh.data.Waits t n)
    (hsignalled : ∀ n, sh.data.owner n = some t → n ∈ sh.data.signalled →
      n ∈ sh'.data.signalled) :
    Out t c l sh' := by
  cases h with
  | idle ho => exact .idle (ho.congr hwaits)
  | starting c ho => exact .starting c (ho.congr hwaits)
  | waiting ho => exact .waiting (ho.congr hwaits)
  | back ho hn =>
      exact .back (ho.congr hwaits) (hsignalled _ ((ho _).mpr rfl).2 hn)

theorem Others.keeps (h : Others t sh.data sh'.data) :
    System.Keeps Out t sh sh' :=
  fun u hu _ _ hout => hout.mono (h.waits u hu) (h.signalled u hu)

section
variable {lock k : Nat} {todo : List α}

theorem Consistent.setHolder (h : Consistent lock k todo sh)
    (holder : Option Id) :
    Consistent lock k todo { sh with
        data := { sh.data with lockHolder := holder } } :=
  ⟨h.lock, h.owned, h.waiters, h.items, h.passed, h.woken⟩

theorem Consistent.enter (h : Consistent 1 0 [] sh) (c : ListCall α) :
    Consistent 0 0 c.item.toList (sh.pass .lock (some c)) where
  lock := by rw [Shared.value_pass, h.lock]
  owned := h.owned
  waiters := h.waiters.mono fun n =>
    Nat.le_of_eq (Shared.value_pass_of_ne (ListSem.lock_ne_waiter n).symm)
  items := h.items
  passed := by
    have hpassed := h.passed
    rw [List.append_nil] at hpassed
    rw [Shared.passed_pass, List.filterMap_append, hpassed]
    cases c with
    | append item => rfl
    | removeFront => rfl
  woken := h.woken

theorem Consistent.leave (h : Consistent 0 0 [] sh) :
    Consistent 1 0 [] (sh.raise .lock) where
  lock := by rw [Shared.value_raise, h.lock]
  owned := h.owned
  waiters := h.waiters.mono fun n =>
    Nat.le_of_eq (Shared.value_raise_of_ne (ListSem.lock_ne_waiter n).symm)
  items := h.items
  passed := h.passed
  woken := h.woken

theorem Consistent.pass (h : Consistent lock k todo sh) (n : Nat)
    (c : Option (ListCall α)) :
    Consistent lock k todo (sh.pass (.waiter n) c) where
  lock := by
    rw [Shared.value_pass_of_ne (ListSem.lock_ne_waiter n)]
    exact h.lock
  owned := h.owned
  waiters := by
    refine h.waiters.mono fun m => ?_
    by_cases hm : m = n
    · subst hm
      rw [Shared.value_pass]
      exact Nat.sub_le _ 1
    · rw [Shared.value_pass_of_ne fun heq => hm (ListSem.waiter.inj heq)]
  items := h.items
  passed := by
    rw [Shared.passed_pass_of_ne (ListSem.lock_ne_waiter n)]
    exact h.passed
  woken := h.woken

theorem Consistent.raise (h : Consistent lock k todo sh) {n : Nat}
    (hn : n ∈ sh.data.signalled) :
    Consistent lock k todo (sh.raise (.waiter n)) where
  lock := by
    rw [Shared.value_raise_of_ne (ListSem.lock_ne_waiter n)]
    exact h.lock
  owned := h.owned
  waiters := h.waiters.raise hn fun m hm => Shared.value_raise_of_ne fun heq =>
    hm (ListSem.waiter.inj heq)
  items := h.items
  passed := h.passed
  woken := h.woken

/-- With no more items than wakeups there are no more than with one to spare. -/
theorem Consistent.spare (h : Consistent lock 0 todo sh) :
    Consistent lock 1 todo sh :=
  { h with woken := fun hw => Nat.le_succ_of_le (h.woken hw) }

theorem Consistent.of_empty (h : Consistent lock k todo sh)
    (hl : sh.data.list = []) : Consistent lock 0 todo sh :=
  { h with woken := fun _ => by rw [hl]; exact Nat.zero_le _ }

end

theorem Held.exists_consistent {c : ListCall α} {l : List (ListStmt α)}
    (h : Held t c l sh) :
    ∃ k todo, Consistent 0 k todo sh := by
  cases h with
  | appendEntered hc | appending hc | appended hc | signalling hc | waking hc
  | entered hc | reentered hc
  | deleting hc | testing hc | mustWait hc | enqueueing hc | removing hc
  | releasing hc | clearing hc
  | leaving hc => exact ⟨_, _, hc⟩

theorem Held.lock {c : ListCall α} {l : List (ListStmt α)} (h : Held t c l sh) :
    sh.value .lock = 0 := by
  obtain ⟨_, _, hc⟩ := h.exists_consistent
  exact hc.lock

theorem Held.pass {c : ListCall α} {l : List (ListStmt α)}
    (h : Held t c l sh) (n : Nat) (c' : Option (ListCall α)) :
    Held t c l (sh.pass (.waiter n) c') := by
  cases h with
  | appendEntered hc ho => exact .appendEntered (hc.pass n c') ho
  | appending hc ho hh => exact .appending (hc.pass n c') ho hh
  | appended hc ho hh => exact .appended (hc.pass n c') ho hh
  | signalling hc ho hh => exact .signalling (hc.pass n c') ho hh
  | waking hc ho hh hn => exact .waking (hc.pass n c') ho hh hn
  | entered hc ho => exact .entered (hc.pass n c') ho
  | reentered hc ho hn => exact .reentered (hc.pass n c') ho hn
  | deleting hc ho hh hn => exact .deleting (hc.pass n c') ho hh hn
  | testing hc ho hh => exact .testing (hc.pass n c') ho hh
  | mustWait hc ho hh hl => exact .mustWait (hc.pass n c') ho hh hl
  | enqueueing hc ho hh hl => exact .enqueueing (hc.pass n c') ho hh hl
  | removing hc ho hh hl => exact .removing (hc.pass n c') ho hh hl
  | releasing hc ho hh hl => exact .releasing (hc.pass n c') ho hh hl
  | clearing hc ho hl => exact .clearing (hc.pass n c') ho hl
  | leaving hc ho hl => exact .leaving (hc.pass n c') ho hl

theorem Held.leave {c : ListCall α} {l : List (ListStmt α)}
    (h : Held t c (.V .lock :: l) sh) :
    Consistent 1 0 [] (sh.raise .lock) ∧ Out t (some c) l (sh.raise .lock) := by
  cases h with
  | leaving hc ho hl =>
      refine ⟨hc.leave, ?_⟩
      cases hl with
      | done => exact .idle ho
      | asleep n => exact .waiting ho

theorem Held.wake {c : ListCall α} {s : ListSem} {l : List (ListStmt α)}
    (h : Held t c (.V s :: l) sh) (hs : s ≠ .lock) :
    Held t c l (sh.raise s) := by
  cases h with
  | waking hc ho hh hn => exact .releasing (hc.raise hn) ho hh (.done c)
  | leaving => exact absurd rfl hs

/-- Under the lock a thread takes from the list, or waits for it, where it came
from. -/
theorem Out.enter {c : Option (ListCall α)} {l : List (ListStmt α)}
    (h : Out t c (.P .lock :: l) sh) (hfree : Consistent 1 0 [] sh) :
    ∃ c', c = some c' ∧ Held t c' l (sh.pass .lock c) := by
  generalize hl : Stmt.P ListSem.lock :: l = l' at h
  cases h with
  | idle => cases hl
  | starting c ho =>
      cases c with
      | append item =>
          cases hl
          exact ⟨_, rfl, .appendEntered (hfree.enter (.append item)) ho⟩
      | removeFront =>
          cases hl
          exact ⟨_, rfl, .entered (hfree.enter .removeFront) ho⟩
  | waiting => cases hl
  | back ho hn =>
      cases hl
      exact ⟨_, rfl, .reentered (hfree.enter .removeFront) ho hn⟩

theorem Out.wake {c : Option (ListCall α)} {s : ListSem} {l : List (ListStmt α)}
    (h : Out t c (.P s :: l) sh) (hs : s ≠ .lock) (hv : sh.value s ≠ 0)
    (hw : Waiters sh.value sh.data.waitQueue sh.data.signalled sh.data.next) :
    Out t c l (sh.pass s c) ∧ ∃ n, s = .waiter n := by
  generalize hl : Stmt.P s :: l = l' at h
  cases h with
  | idle => cases hl
  | starting c ho =>
      cases c with
      | append item =>
          cases hl
          exact absurd rfl hs
      | removeFront =>
          cases hl
          exact absurd rfl hs
  | @waiting n _ ho =>
      cases hl
      have hmem := ((ho n).mpr rfl).1
      rcases List.mem_append.mp hmem with hn | hn
      · exact absurd (hw.asleep n hn) hv
      · exact ⟨.back ho hn, n, rfl⟩
  | back ho hn =>
      cases hl
      exact absurd rfl hs

end

end EroikoBlue.MP3.SynchList
