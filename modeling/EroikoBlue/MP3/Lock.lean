/-
# `MP3.Lock` — semaphores and locks in every run of the kernel

A lock is a semaphore that starts with 1, together with the thread that holds
it; the run follows each thread through `Acquire` and `Release` statement by
statement:

    acquiring   in `P` of `Acquire`           releasing   in `Release`, past the assertion
    acquired    past it                       leaving     `lockHolder` is NULL again
    held        `Acquire` has returned        outside     the rest

Threads are switched where interrupts are on or inside `Sleep`: never between
the return of a woken thread to `P` and its test.

`semaphores_and_locks` is about the runs in which every `V` finds a value that
can be raised (`Fits`).  The others break what `synch.h` says of `value`: one
`V` at the largest `int` is enough (`raised_too_often`).
-/
import EroikoBlue.MP3.Semaphore

namespace EroikoBlue.MP3

/-! ## Locks -/

/-- Where a thread is, for a lock. -/
inductive Place where
  | outside
  /-- In `P` of `Acquire`. -/
  | acquiring
  /-- Past it. -/
  | acquired
  /-- `Acquire` has returned. -/
  | held
  /-- In `Release`, past the assertion. -/
  | releasing
  /-- `lockHolder` is NULL again. -/
  | leaving
  deriving DecidableEq

/-- Past the `P` of `Acquire`, and before the `V` of `Release`. -/
def Place.Inside : Place → Prop
  | .outside => False
  | .acquiring => False
  | _ => True

/-- The statements of `Acquire` and `Release` besides `P` and `V`. -/
inductive LockStmt where
  /-- `lockHolder = kernel->currentThread`. -/
  | setHolder
  /-- `ASSERT(IsHeldByCurrentThread())`. -/
  | assertHeld
  /-- `lockHolder = NULL`. -/
  | clearHolder

/-- Where the thread that runs a statement is. -/
def LockStmt.place : LockStmt → Place
  | .setHolder => .acquired
  | .assertHeld => .held
  | .clearHolder => .releasing

/-- The kernel, its locks, and the observer. -/
structure Synch where
  kernel : Kernel
  counts : Counts
  lockHolder : SemId → Option ThreadId
  place : SemId → ThreadId → Place

namespace Synch

def init (k : Kernel) : Synch where
  kernel := k
  counts := .zero
  lockHolder := fun _ => none
  place := fun _ _ => .outside

/-- The current thread is at `p` of the lock `m`. -/
def goTo (st : Synch) (m : SemId) (p : Place) : Synch :=
  { st with place := Function.update st.place m (Function.update (st.place m) st.kernel.currentThread p) }

/-- What an operation that led to `k'` does to the places of the threads. -/
def move (st : Synch) : Op → Synch
  | .p s => st.goTo s (if (st.kernel.semaphores s).value = 0 then .acquiring
        else .acquired)
  | .pLoop s => st.goTo s (if (st.kernel.semaphores s).value = 0 then .acquiring
        else .acquired)
  | .v s => st.goTo s .outside
  | _ => st

def next (st : Synch) (op : Op) (k' : Kernel) : Synch :=
  { st.move op with kernel := k', counts := st.counts.next st.kernel op }

/-- A statement of the lock `m`, by the current thread. -/
def lockStmt (st : Synch) (m : SemId) : LockStmt → Except Fault Synch
  | .setHolder =>
    pure { st.goTo m .held with
      lockHolder :=
        Function.update st.lockHolder m (some st.kernel.currentThread) }
  | .assertHeld => do
    assertMsg (st.lockHolder m = some st.kernel.currentThread) ""
    pure (st.goTo m .releasing)
  | .clearHolder => pure { st.goTo m .leaving with
        lockHolder := Function.update st.lockHolder m none }

end Synch

/-- Only `Release` raises the semaphore of a lock. -/
def Released (locks : SemId → Prop) (st : Synch) (op : Op) : Prop :=
  ∀ m, locks m → op = .v m → st.kernel.Executing ∧
    st.place m st.kernel.currentThread = .leaving

/-- Every `V` finds a value that can be raised. -/
def Fits (k : Kernel) (op : Op) : Prop := ∀ s, op = .v s →
    (k.semaphores s).value < 2147483647

/-- The states of all runs whose operations meet `cond`: threads and handlers in
any order, switched where interrupts are on or inside `Sleep`. -/
inductive Synched (cond : Kernel → Op → Prop) (values : SemId → Int)
    (locks : SemId → Prop) : Synch → Prop
  | start {k : Kernel} (hrun : Kernel.boot values = .ok k) :
      Synched cond values locks (.init k)
  | op {st : Synch} {k' : Kernel} (h : Synched cond values locks st) (op : Op)
      (hallowed : op.Allowed st.kernel)
      (hswitch : op = .handlersDone → st.kernel.waitsFor = none)
        (hreleased : Released locks st op)
      (hcond : cond st.kernel op) (hrun : op.run st.kernel = .ok k') :
        Synched cond values locks (st.next op k')
  | lockStmt {st st' : Synch} (h : Synched cond values locks st) (m : SemId)
      (a : LockStmt)
      (hexec : st.kernel.Executing)
        (hplace : st.place m st.kernel.currentThread = a.place)
      (hrun : st.lockStmt m a = .ok st') : Synched cond values locks st'

/-- One thread is inside at most, the unit of the semaphore is out while one is,
and `lockHolder` names it from the assignment in `Acquire` to that in
`Release`. -/
structure Mutex (value : Int) (lockHolder : Option ThreadId)
    (place : ThreadId → Place) : Prop where
  le_one : value ≤ 1
  alone : ∀ t u, (place t).Inside → (place u).Inside → t = u
  out : ∀ t, (place t).Inside → value = 0
  held : ∀ t, place t = .held ∨ place t = .releasing → lockHolder = some t

namespace Mutex
variable {value : Int} {lockHolder : Option ThreadId} {place : ThreadId → Place}
  {t : ThreadId} {p : Place}

theorem inside_update {u : ThreadId}
    (h : (Function.update place t p u).Inside) :
    u = t ∧ p.Inside ∨ u ≠ t ∧ (place u).Inside := by
  by_cases hu : u = t
  · subst hu
    rw [Function.update_self] at h
    exact .inl ⟨rfl, h⟩
  · rw [Function.update_of_ne hu] at h
    exact .inr ⟨hu, h⟩

theorem inside_of_held {p : Place} (h : p = .held ∨ p = .releasing) :
    p.Inside := by
  rcases h with rfl | rfl
  · trivial
  · trivial

theorem goOut (h : Mutex value lockHolder place) (hp : ¬ p.Inside) :
    Mutex value lockHolder (Function.update place t p) := by
  have hinside : ∀ u, (Function.update place t p u).Inside →
      (place u).Inside := by
    intro u hu
    rcases inside_update hu with ⟨-, hp'⟩ | ⟨-, hu⟩
    · exact absurd hp' hp
    · exact hu
  refine ⟨h.le_one,
    fun u u' hu hu' => h.alone u u' (hinside u hu) (hinside u' hu'),
    fun u hu => h.out u (hinside u hu), fun u hu => ?_⟩
  have hne : u ≠ t := by
    rintro rfl
    have hin := inside_of_held hu
    rw [Function.update_self] at hin
    exact hp hin
  rw [Function.update_of_ne hne] at hu
  exact h.held u hu

theorem goIn (h : Mutex value lockHolder place) (hnonneg : 0 ≤ value)
    (hvalue : value ≠ 0) :
    Mutex (value - 1) lockHolder (Function.update place t .acquired) := by
  have hone : value = 1 := by
    have hle := h.le_one
    omega
  have hinside : ∀ u, (Function.update place t .acquired u).Inside → u = t := by
    intro u hu
    rcases inside_update hu with ⟨rfl, -⟩ | ⟨-, hu⟩
    · rfl
    · exact absurd (h.out u hu) hvalue
  refine ⟨by omega, fun u u' hu hu' => (hinside u hu).trans
    (hinside u' hu').symm, fun _ _ => by omega,
    fun u hu => ?_⟩
  cases hinside u (inside_of_held hu)
  rw [Function.update_self] at hu
  rcases hu with hu | hu
  · cases hu
  · cases hu

theorem test (h : Mutex value lockHolder place) (hnonneg : 0 ≤ value) :
    Mutex (if value = 0 then value else value - 1) lockHolder
      (Function.update place t (if value = 0 then .acquiring
        else .acquired)) := by
  by_cases hvalue : value = 0
  · rw [if_pos hvalue, if_pos hvalue]
    exact h.goOut id
  · rw [if_neg hvalue, if_neg hvalue]
    exact h.goIn hnonneg hvalue

theorem goOn {lockHolder' : Option ThreadId} (h : Mutex value lockHolder place)
    (ht : (place t).Inside)
    (hheld : p = .held ∨ p = .releasing → lockHolder' = some t) :
    Mutex value lockHolder' (Function.update place t p) := by
  have hinside : ∀ u, (Function.update place t p u).Inside → u = t := by
    intro u hu
    rcases inside_update hu with ⟨rfl, -⟩ | ⟨-, hu⟩
    · rfl
    · exact h.alone u t hu ht
  refine ⟨h.le_one, fun u u' hu hu' => (hinside u hu).trans
    (hinside u' hu').symm, fun _ _ => h.out t ht,
    fun u hu => ?_⟩
  cases hinside u (inside_of_held hu)
  rw [Function.update_self] at hu
  exact hheld hu

theorem release (h : Mutex value lockHolder place) (ht : (place t).Inside) :
    Mutex (value + 1) lockHolder (Function.update place t .outside) := by
  have hnobody : ∀ u, ¬ (Function.update place t .outside u).Inside := by
    intro u hu
    rcases inside_update hu with ⟨-, hp⟩ | ⟨hne, hu⟩
    · exact hp
    · exact hne (h.alone u t hu ht)
  refine ⟨?_, fun u _ hu _ => absurd hu (hnobody u),
    fun u hu => absurd hu (hnobody u),
    fun u hu => absurd (inside_of_held hu) (hnobody u)⟩
  rw [h.out t ht]
  exact Int.le_refl 1

end Mutex

/-! ## Every run -/

section
variable {cond : Kernel → Op → Prop} {values : SemId → Int}
  {locks : SemId → Prop} {st : Synch}

theorem Synch.kernel_lockStmt {st' : Synch} {m : SemId} {a : LockStmt}
    (hrun : st.lockStmt m a = .ok st') :
    st'.kernel = st.kernel ∧ st'.counts = st.counts := by
  cases a with
  | setHolder | clearHolder =>
      cases hrun
      exact ⟨rfl, rfl⟩
  | assertHeld =>
      obtain ⟨_, -, hrun⟩ := Outcome.bind_eq_ok.mp hrun
      cases hrun
      exact ⟨rfl, rfl⟩

theorem Synched.reachable (h : Synched cond values locks st) :
    Reachable (fun _ _ => True) st.kernel := by
  induction h with
  | start hrun => exact .start hrun
  | op _ op hallowed _ _ _ hrun ih => exact ih.step op hallowed trivial hrun
  | lockStmt _ m a _ _ hrun ih =>
      rw [(Synch.kernel_lockStmt hrun).1]
      exact ih

theorem Sound.op {initial : Int} {k k' : Kernel} {c : Counts} {op : Op}
    {x : SemId} (h : Inv False k)
    (hallowed : op.Allowed k) (hswitch : op = .handlersDone → k.waitsFor = none)
    (hfits : Fits k op) (hrun : op.run k = .ok k') (hx : Sound initial k c x) :
    Sound initial k' (c.next k op) x := by
  cases op with
  | p s =>
      obtain ⟨k₁, hsave, hrun⟩ := Outcome.bind_eq_ok.mp hrun
      obtain ⟨T, hsave', hinv, -⟩ :=
        h.save hallowed.1 k.level .IntOff (some s) fun _ => rfl
      cases hsave.symm.trans hsave'
      obtain ⟨th, hth, hwaits⟩ := Kernel.save_same hsave
      cases hth
      have hcur := (h.running k.currentThread).mpr ⟨rfl, hallowed.1⟩
      let k₁ : Kernel := { k with
        threads := Function.update k.threads k.currentThread (some th), level :=
          .IntOff }
      have hq : Quiet k k₁ := by
        refine ⟨rfl, fun y t ht => Threads.waitsFor_update_of_ne ?_,
          fun y t ht => ht.congr ?_⟩
        · rintro rfl
          cases hcur.symm.trans (h.queues.waiting.blocked y _ ht)
        · refine Function.update_of_ne ?_ _ _
          rintro rfl
          exact h.awake_not_running (fun _ => hallowed.2) y _ ht hcur
      have hself : k₁.waitsFor = some s := by
        rw [Kernel.waitsFor, Threads.waitsFor,
          show k₁.threads k₁.currentThread = _ from Function.update_self _ _ _]
        exact hwaits
      have hp : Sound initial k' (c.test k₁ s) x :=
        (hx.quiet hq).pLoop hinv hallowed.1 hself hrun
      exact hp
  | pLoop s => exact hx.pLoop h hallowed.1 hallowed.2 hrun
  | v s => exact hx.v h (hfits s rfl) hrun
  | create | fork | yield | finish | setLevel | setStatus | advance | callBack
  | handlersDone | idleReturn =>
      exact hx.quiet (h.quiet hallowed hswitch
        (fun s => ⟨(by rintro ⟨⟩), (by rintro ⟨⟩), (by rintro ⟨⟩)⟩) hrun)

theorem Synched.inv (h : Synched cond values locks st) : Inv False st.kernel :=
  h.reachable.inv nofun

theorem Synched.sound (h : Synched Fits values locks st) {s : SemId}
    (hs : 0 ≤ values s ∧ values s ≤ 2147483647) :
    Sound (values s) st.kernel st.counts s := by
  induction h with
  | start hrun =>
      rw [boot_eq] at hrun
      cases hrun
      have hbalance : values s =
        values s + ((0 : Nat) : Int) - ((0 : Nat) : Int) := by simp
      exact ⟨hs.1, hs.2, hbalance, nofun, .nil, nofun,
        fun hne => absurd rfl hne⟩
  | @op st k' h op hallowed hswitch _ hfits hrun ih =>
      exact ih.op h.inv hallowed hswitch hfits hrun
  | lockStmt _ m a _ _ hrun ih =>
      obtain ⟨hkernel, hcounts⟩ := Synch.kernel_lockStmt hrun
      rw [hkernel, hcounts]
      exact ih

theorem Synch.next_cases (st : Synch) (op : Op) (k' : Kernel) (m : SemId) :
    (st.next op k').counts = st.counts.test st.kernel m ∧
        (st.next op k').place m =
          Function.update (st.place m) st.kernel.currentThread
          (if (st.kernel.semaphores m).value = 0 then .acquiring
            else .acquired) ∨
      op = .v m ∨
      (st.next op k').counts.passed m = st.counts.passed m ∧ (st.next op k').counts.raised m = st.counts.raised m ∧
        (st.next op k').place m = st.place m := by
  cases op with
  | p s | pLoop s =>
      by_cases hs : m = s
      · subst hs
        exact .inl ⟨rfl, Function.update_self _ _ _⟩
      · exact .inr (.inr ⟨Counts.passed_test_of_ne hs, rfl, Function.update_of_ne hs _ _⟩)
  | v s =>
      by_cases hs : m = s
      · subst hs
        exact .inr (.inl rfl)
      · exact .inr (.inr ⟨rfl, Function.update_of_ne hs _ _,
          Function.update_of_ne hs _ _⟩)
  | create | fork | yield | finish | setLevel | setStatus | advance | callBack
  | handlersDone | idleReturn =>
      exact .inr (.inr ⟨rfl, rfl, rfl⟩)

theorem Synch.lockHolder_next (st : Synch) (op : Op) (k' : Kernel) :
    (st.next op k').lockHolder = st.lockHolder := by
  cases op with
  | _ => rfl

/-- After a statement of `m` its thread is at the next place, with `lockHolder`
as it should be there. -/
theorem Synch.lockStmt_self {st' : Synch} {m : SemId}
    {a : LockStmt} (hat : st.place m st.kernel.currentThread = a.place)
    (hholder : st.place m st.kernel.currentThread = .held ∨
      st.place m st.kernel.currentThread = .releasing →
      st.lockHolder m =
        some st.kernel.currentThread) (hrun : st.lockStmt m a = .ok st') :
    ∃ p, st'.place m = Function.update (st.place m) st.kernel.currentThread p ∧
      (p = .held ∨ p = .releasing →
        st'.lockHolder m = some st.kernel.currentThread) := by
  cases a with
  | setHolder =>
      cases hrun
      exact ⟨.held, Function.update_self _ _ _,
        fun _ => Function.update_self _ _ _⟩
  | assertHeld =>
      obtain ⟨_, -, hrun⟩ := Outcome.bind_eq_ok.mp hrun
      cases hrun
      exact ⟨.releasing, Function.update_self _ _ _,
        fun _ => hholder (.inl hat)⟩
  | clearHolder =>
      cases hrun
      exact ⟨.leaving, Function.update_self _ _ _, nofun⟩

theorem Synch.lockStmt_of_ne {st' : Synch} {m n : SemId}
    {a : LockStmt} (hne : m ≠ n) (hrun : st.lockStmt n a = .ok st') :
    st'.lockHolder m = st.lockHolder m ∧ st'.place m = st.place m := by
  cases a with
  | setHolder | clearHolder =>
      cases hrun
      exact ⟨Function.update_of_ne hne _ _, Function.update_of_ne hne _ _⟩
  | assertHeld =>
      obtain ⟨_, -, hrun⟩ := Outcome.bind_eq_ok.mp hrun
      cases hrun
      exact ⟨rfl, Function.update_of_ne hne _ _⟩

theorem Synched.mutex {m : SemId} (hone : values m = 1) (hm : locks m)
    (h : Synched Fits values locks st) :
    Mutex (st.kernel.semaphores m).value (st.lockHolder m) (st.place m) := by
  have hs : 0 ≤ values m ∧ values m ≤ 2147483647 := by
    rw [hone]
    decide
  induction h with
  | start hrun =>
      rw [boot_eq] at hrun
      cases hrun
      exact ⟨Int.le_of_eq hone, nofun, nofun,
        fun t ht => absurd (Mutex.inside_of_held ht) id⟩
  | @op st k' h op hallowed hswitch hreleased hfits hrun ih =>
      have hsound := h.sound hs
      have hsound' := (h.op op hallowed hswitch hreleased hfits hrun).sound hs
      rw [Synch.lockHolder_next]
      rcases st.next_cases op k' m with
        ⟨hcounts, hplace⟩ | rfl | ⟨hpassed, hraised, hplace⟩
      · rw [hcounts] at hsound'
        rw [hplace, show ((st.next op k').kernel.semaphores m).value = _
          from hsound.value_test hsound']
        exact ih.test hsound.nonneg
      · have hplace : (st.next (.v m) k').place m =
            Function.update (st.place m) st.kernel.currentThread .outside :=
              Function.update_self _ _ _
        rw [hplace, show ((st.next (.v m) k').kernel.semaphores m).value = _
          from hsound.value_raised hsound']
        refine ih.release ?_
        rw [(hreleased m hm rfl).2]
        trivial
      · have hbalance := hsound'.balance
        rw [hpassed, hraised] at hbalance
        rw [hplace, hbalance.trans hsound.balance.symm]
        exact ih
  | @lockStmt st st' _ n a _ hat hrun ih =>
      rw [(Synch.kernel_lockStmt hrun).1]
      by_cases hn : m = n
      · subst hn
        have hin : (st.place m st.kernel.currentThread).Inside := by
          rw [hat]
          cases a with
          | _ => trivial
        obtain ⟨p, hplace, hheld⟩ :=
          Synch.lockStmt_self hat (fun hp => ih.held _ hp) hrun
        rw [hplace]
        exact ih.goOn hin hheld
      · obtain ⟨hholder, hplace⟩ := Synch.lockStmt_of_ne hn hrun
        rw [hholder, hplace]
        exact ih

/-- What holds of a semaphore that starts with `initial`. -/
structure Balanced (initial : Int) (k : Kernel) (c : Counts)
    (s : SemId) : Prop where
  nonneg : 0 ≤ (k.semaphores s).value
  balance : (k.semaphores s).value = initial + c.raised s - c.passed s
  blocked : ∀ t ∈ (k.semaphores s).queue, k.threads.status t = some .BLOCKED
  once : (k.semaphores s).queue.Nodup
  woken : (c.woken s).Nodup ∧ ∀ t ∈ c.woken s, Awake k.threads s t
  enough : (k.semaphores s).queue ≠ [] →
    (k.semaphores s).value ≤ (c.woken s).length

/-- Semaphores that start with 0 or more, and the locks among them, in every run
in which no value passes the largest `int`: the value is what `P` and `V` make
it, the sleepers are blocked and in the queue once, and nobody sleeps while
there are more units than woken threads; one thread is inside a lock at most,
and the assertion of `Release` holds for the thread that acquired it. -/
theorem semaphores_and_locks (h : Synched Fits values locks st) :
    (∀ s, 0 ≤ values s → values s ≤ 2147483647 →
        Balanced (values s) st.kernel st.counts s) ∧
      ∀ m, locks m → values m = 1 →
        (∀ t u, (st.place m t).Inside → (st.place m u).Inside → t = u) ∧
          (st.place m st.kernel.currentThread = .held → ∃ st',
            st.lockStmt m .assertHeld = .ok st') := by
  refine ⟨fun s hs hint => ?_, fun m hm hone => ?_⟩
  · have hsound := h.sound ⟨hs, hint⟩
    have hwaiting := h.inv.queues.waiting
    exact ⟨hsound.nonneg, hsound.balance, hwaiting.blocked s, hwaiting.nodup s,
      ⟨hsound.nodup, hsound.awake⟩,
      hsound.enough⟩
  · have hmutex := h.mutex hone hm
    refine ⟨hmutex.alone, fun hheld => ⟨st.goTo m .releasing, ?_⟩⟩
    rw [Synch.lockStmt, assertMsg_pos (hmutex.held _ (.inl hheld)),
      Outcome.ok_bind]
    rfl

end

/-- Neither a `V` of a lock or of a value that cannot be raised, nor a switch
after handlers. -/
def Plain (locks : SemId → Prop) (st : Synch) : Op → Prop
  | .v s => ¬ locks s ∧ (st.kernel.semaphores s).value < 2147483647
  | .handlersDone => False
  | _ => True

instance {locks : SemId → Prop} [DecidablePred locks] (st : Synch) : (op : Op) →
    Decidable (Plain locks st op)
  | .v s => inferInstanceAs
        (Decidable (¬ locks s ∧ (st.kernel.semaphores s).value < 2147483647))
  | .handlersDone => isFalse id
  | .create .. | .fork _ | .yield | .p _ | .pLoop _ | .finish | .setLevel _
  | .setStatus _ | .advance _
  | .callBack | .idleReturn => isTrue trivial

/-- A run of such operations, if each of them is allowed. -/
def Synch.steps (locks : SemId → Prop) [DecidablePred locks] (st : Synch) :
    List Op → Option Synch
  | [] => some st
  | op :: ops =>
    if op.Allowed st.kernel ∧ Plain locks st op then
      match op.run st.kernel with
      | .ok k' => (st.next op k').steps locks ops
      | .error _ => none
    else none

/-- What is computed of such a run is so of one of the states of all runs. -/
theorem Synched.steps {values : SemId → Int} {locks : SemId → Prop}
    [DecidablePred locks] {st : Synch} {α : Type}
    (h : Synched Fits values locks st) (ops : List Op) (seen : Synch → α)
    {a : α} (hrun : (st.steps locks ops).map seen = some a) :
    ∃ st', Synched Fits values locks st' ∧ seen st' = a := by
  induction ops generalizing st with
  | nil => exact ⟨st, h, Option.some.inj hrun⟩
  | cons next ops ih =>
      rw [Synch.steps] at hrun
      split at hrun
      · next hstep =>
          split at hrun
          · next k' hop =>
              refine ih (h.op next hstep.1 ?_ ?_ ?_ hop) hrun
              · rintro rfl
                exact hstep.2.elim
              · rintro m hm rfl
                exact absurd hm hstep.2.1
              · rintro s rfl
                exact hstep.2.2
          · cases hrun
      · cases hrun

/-- The main thread takes a lock and waits for a unit, and thread 1 puts one
out: it takes the unit itself, asks for another one and sleeps, and the main
thread is on its way back to its test. -/
theorem semaphores_and_locks_overtaken :
    ∃ st : Synch, (st.kernel.semaphores 0).queue = [1] ∧
    st.counts.woken 0 = [0] ∧ st.counts.raised 0 = 1 ∧ st.counts.passed 0 = 1 ∧
    Balanced 0 st.kernel st.counts 0 ∧
      ∃ st', st.lockStmt 1 .assertHeld = .ok st' := by
  have h₀ : Synched Fits (fun s => if s = 1 then 1 else 0) (· = 1) _ :=
    .start (boot_eq _)
  have h₁ := h₀.op (.p 1) (by decide) nofun nofun nofun rfl
  have h₂ := h₁.lockStmt 1 .setHolder (by decide) rfl rfl
  obtain ⟨st, h₃, hst⟩ := h₂.steps [.create 1 0, .fork 1, .p 0,
    .v 0, .p 0, .p 0]
    (fun st => ((st.kernel.semaphores 0).queue, st.counts.woken 0,
      st.counts.raised 0, st.counts.passed 0,
      st.place 1 st.kernel.currentThread))
    (show _ = some ([1], [0], 1, 1, .held) by decide +kernel)
  simp only [Prod.mk.injEq] at hst
  obtain ⟨hqueue, hwoken, hraised, hpassed, hheld⟩ := hst
  have h := semaphores_and_locks h₃
  exact ⟨st, hqueue, hwoken, hraised, hpassed, h.1 0 (by decide) (by decide),
    (h.2 1 rfl rfl).2 hheld⟩

/-- A semaphore that starts with the largest `int`, and one `V`. -/
theorem raised_too_often : ∃ st : Synch,
    Synched (fun _ _ => True) (fun _ => 2147483647) (fun _ => False) st ∧
      (st.kernel.semaphores 0).value = -2147483648 ∧
          ¬ Balanced 2147483647 st.kernel st.counts 0 := by
  have h₀ : Synched (fun _ _ => True) (fun _ => 2147483647) (fun _ => False)
    _ := .start (boot_eq _)
  have h₁ := h₀.op (.v 0) trivial nofun nofun trivial rfl
  refine ⟨_, h₁, rfl, fun hbalanced => ?_⟩
  exact absurd hbalanced.nonneg (by decide)

end EroikoBlue.MP3
