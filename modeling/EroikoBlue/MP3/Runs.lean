/-
# `MP3.Runs` — runs of the kernel, and where its threads are

A step is one call of the scheduler, by the thread that runs or by an interrupt
handler, or time passing.  The thread acts while it is neither asleep nor inside
`P`; handlers run at any moment.  `Reachable cond` is every state of every run
whose steps all meet `cond`.

`Queues` says where every thread is, by its status: in which ready queue, on
which semaphore.  `out` is the thread that has been taken out of the ready
queues and does not run yet.  There is one lemma for each way the queues change.

## What holds in every state

    `Queues`      the three ready queues hold the threads that are READY, each
                  once, on the level of its priority; the queue of a semaphore
                  holds those that are BLOCKED on it
    `WF`          the priority and the clock of each thread are in range

Every assertion of the scheduler is an error of the model, so a lemma that says
what a function does also says that none of its assertions fails.

`cond` is a parameter because the results differ in what they allow: most hold
of all runs, and a few only while no step does a certain thing.
-/
import EroikoBlue.MP3.Scheduler

namespace EroikoBlue.MP3

open SystemQueue (Lined Filed Front Appended Regrouped)

/-! ## Runs -/

inductive Op where
  | create (t : ThreadId) (priority : Int)
  | fork (t : ThreadId)
  | yield
  | p (s : SemId)
  /-- The current thread was woken in `P`, and is about to test the semaphore
  again. -/
  | pLoop (s : SemId)
  | v (s : SemId)
  | finish
  | setLevel (level : IntStatus)
  | setStatus (status : MachineStatus)
  | advance (ticks : Int)
  | callBack
  | handlersDone
  | idleReturn

def Op.run (k : Kernel) : Op → Except Fault Kernel
  | .create t priority => pure (k.create t priority)
  | .fork t => k.fork t
  | .yield => k.yield
  | .p s => k.p s
  | .pLoop s => k.pLoop s
  | .v s => k.v s
  | .finish => k.finish
  | .setLevel level => pure { k with level := level }
  | .setStatus status => pure { k with status := status }
  | .advance ticks => pure { k with totalTicks := k.totalTicks + ticks }
  | .callBack => k.callBack
  | .handlersDone => k.handlersDone
  | .idleReturn => k.idleReturn

def Threads.waitsFor (T : Threads) (t : ThreadId) : Option SemId :=
  (T t).bind (·.waitsFor)

namespace Kernel

/-- The semaphore in whose `P` the current thread is. -/
def waitsFor (k : Kernel) : Option SemId := k.threads.waitsFor k.currentThread

/-- The current thread runs its own code. -/
def Executing (k : Kernel) : Prop := k.sleeping = none ∧ k.waitsFor = none

/-- `Kernel::Initialize`; the semaphores are made later, with the values they
will start with. -/
def boot (values : SemId → Int) : Except Fault Kernel := do
  let main := Thread.new 0 0
  let main ← main.setStatus .READY 0
  let main ← main.setStatus .RUNNING 0
  pure {
    threads := fun t => if t = 0 then some main else none
    currentThread := 0
    readyList := ⟨[], [], []⟩
    toBeDestroyed := none
    semaphores := fun s => ⟨values s, []⟩
    totalTicks := 0
    level := .IntOn
    status := .SystemMode
    yieldOnReturn := false
    sleeping := none }

end Kernel

def Op.Allowed (k : Kernel) : Op → Prop
  | .create t priority => k.Executing ∧ k.threads t = none ∧ 0 ≤ priority ∧
        priority < 150
  | .fork t => k.Executing ∧ k.threads.status t = some .JUST_CREATED
  | .setStatus status => k.Executing ∧ status ≠ .IdleMode
  | .pLoop s => k.sleeping = none ∧ k.waitsFor = some s
  | .v _ => True
  | .advance ticks => 0 ≤ ticks
  | .callBack => True
  | .handlersDone => k.sleeping = none
  | .idleReturn => k.sleeping ≠ none
  | _ => k.Executing

/-- The states of all runs whose steps meet `cond`. -/
inductive Reachable (cond : Kernel → Op → Prop) : Kernel → Prop
  | start {values : SemId → Int} {k : Kernel}
      (hrun : Kernel.boot values = .ok k) : Reachable cond k
  | step {k k' : Kernel} (h : Reachable cond k) (op : Op)
      (hallowed : op.Allowed k) (hcond : cond k op)
      (hrun : op.run k = .ok k') : Reachable cond k'

/-! ## Where the threads are -/

/-- The threads that wait on semaphores are blocked, each on one of them. -/
structure Waiting (T : Threads) (sems : SemId → Semaphore) : Prop where
  blocked : ∀ s, ∀ t ∈ (sems s).queue, T.status t = some .BLOCKED
  nodup : ∀ s, (sems s).queue.Nodup
  disjoint : ∀ s s' t, t ∈ (sems s).queue → t ∈ (sems s').queue → s = s'

structure Queues (S : Prop) (T : Threads) (now : Int) (q : SystemQueue)
    (sems : SemId → Semaphore) (out : Option ThreadId) : Prop where
  wf : T.WF now
  lined : Lined S T q
  filed : ∀ lv, Filed T q lv
  complete : ∀ t, T.status t = some .READY → some t ≠ out → t ∈ q.all
  taken : ∀ t, out = some t → T.status t = some .READY ∧ t ∉ q.all
  waiting : Waiting T sems

section
variable {S : Prop} {T : Threads} {now : Int} {q q' : SystemQueue}
  {sems : SemId → Semaphore}
  {out : Option ThreadId} {t : ThreadId} {th : Thread} {lv : Level}

namespace Threads

theorem status_update_self : status (Function.update T t (some th)) t =
    some th.status := by
  rw [status, Function.update_self]
  rfl

theorem status_update_of_ne {o : Option Thread} {x : ThreadId} (h : x ≠ t) :
    status (Function.update T t o) x = T.status x := by
  rw [status, Function.update_of_ne h, status]

theorem waitsFor_update_of_ne {o : Option Thread} {x : ThreadId} (h : x ≠ t) :
    waitsFor (Function.update T t o) x = T.waitsFor x := by
  rw [waitsFor, Function.update_of_ne h, waitsFor]

theorem WF.update (h : T.WF now) (hth : th.sys_q_stub.WF now) :
    WF (Function.update T t (some th)) now := by
  intro x th' hx
  by_cases hxt : x = t
  · subst hxt
    rw [Function.update_self] at hx
    exact Option.some.inj hx ▸ hth
  · rw [Function.update_of_ne hxt] at hx
    exact h x th' hx

end Threads

namespace Waiting

theorem not_mem (h : Waiting T sems) (hst : T.status t ≠ some .BLOCKED)
    (s : SemId) : t ∉ (sems s).queue :=
  fun hmem => hst (h.blocked s t hmem)

theorem update {o : Option Thread} (h : Waiting T sems)
    (ht : ∀ s, t ∉ (sems s).queue) :
    Waiting (Function.update T t o) sems := by
  refine ⟨?_, h.nodup, h.disjoint⟩
  intro s x hx
  rw [Threads.status_update_of_ne (ne_of_mem_of_not_mem hx (ht s))]
  exact h.blocked s x hx

theorem setValue (h : Waiting T sems) (s : SemId) (value : Int) :
    Waiting T (Function.update sems s ⟨value, (sems s).queue⟩) := by
  have hqueue : ∀ x, (Function.update sems s ⟨value, (sems s).queue⟩ x).queue =
      (sems x).queue := by
    intro x
    by_cases hx : x = s
    · subst hx
      rw [Function.update_self]
    · rw [Function.update_of_ne hx]
  refine ⟨?_, ?_, ?_⟩
  · intro x
    rw [hqueue x]
    exact h.blocked x
  · intro x
    rw [hqueue x]
    exact h.nodup x
  · intro x y t'
    rw [hqueue x, hqueue y]
    exact h.disjoint x y t'

theorem join {s : SemId} (h : Waiting T sems) (hst : T.status t = some .BLOCKED)
    (ht : ∀ s, t ∉ (sems s).queue) :
    Waiting T (Function.update sems s { sems s with
        queue := (sems s).queue ++ [t] }) := by
  have hmem : ∀ x y, y ∈ (Function.update sems s { sems s with
      queue := (sems s).queue ++ [t] } x).queue →
      y ∈ (sems x).queue ∨ y = t ∧ x = s := by
    intro x y hy
    by_cases hx : x = s
    · subst hx
      rw [Function.update_self] at hy
      rcases List.mem_append.mp hy with hy | hy
      · exact .inl hy
      · exact .inr ⟨List.mem_singleton.mp hy, rfl⟩
    · rw [Function.update_of_ne hx] at hy
      exact .inl hy
  refine ⟨?_, ?_, ?_⟩
  · intro x y hy
    rcases hmem x y hy with hy | ⟨rfl, _⟩
    · exact h.blocked x y hy
    · exact hst
  · intro x
    by_cases hx : x = s
    · subst hx
      rw [Function.update_self]
      refine List.nodup_append.mpr ⟨h.nodup x, List.pairwise_singleton _ t, ?_⟩
      intro y hy z hz heq
      exact ht x (List.mem_singleton.mp hz ▸ heq ▸ hy)
    · rw [Function.update_of_ne hx]
      exact h.nodup x
  · intro x x' y hy hy'
    rcases hmem x y hy with h₁ | ⟨h₁, hx⟩
    · rcases hmem x' y hy' with h₂ | ⟨h₂, _⟩
      · exact h.disjoint x x' y h₁ h₂
      · exact absurd (h₂ ▸ h₁) (ht x)
    · rcases hmem x' y hy' with h₂ | ⟨_, hx'⟩
      · exact absurd (h₁ ▸ h₂) (ht x')
      · exact hx.trans hx'.symm

theorem leave {s : SemId} {rest : List ThreadId} (h : Waiting T sems)
    (value : Int) (hs : (sems s).queue = t :: rest) :
    Waiting T (Function.update sems s ⟨value, rest⟩) ∧
      ∀ x, t ∉ (Function.update sems s ⟨value, rest⟩ x).queue := by
  have hmem : ∀ x y, y ∈ (Function.update sems s ⟨value, rest⟩ x).queue →
      y ∈ (sems x).queue ∧ (x = s → y ∈ rest) := by
    intro x y hy
    by_cases hx : x = s
    · subst hx
      rw [Function.update_self] at hy
      rw [hs]
      exact ⟨.tail _ hy, fun _ => hy⟩
    · rw [Function.update_of_ne hx] at hy
      exact ⟨hy, fun heq => absurd heq hx⟩
  have hnodup : t ∉ rest ∧ rest.Nodup := List.nodup_cons.mp (hs ▸ h.nodup s)
  refine ⟨⟨?_, ?_, ?_⟩, ?_⟩
  · intro x y hy
    exact h.blocked x y (hmem x y hy).1
  · intro x
    by_cases hx : x = s
    · subst hx
      rw [Function.update_self]
      exact hnodup.2
    · rw [Function.update_of_ne hx]
      exact h.nodup x
  · intro x x' y hy hy'
    exact h.disjoint x x' y (hmem x y hy).1 (hmem x' y hy').1
  · intro x hx
    have hxs : x = s := h.disjoint x s t (hmem x t hx).1 (hs ▸ .head _)
    exact hnodup.1 ((hmem x t hx).2 hxs)

end Waiting

namespace Queues

theorem not_mem (h : Queues S T now q sems out)
    (hst : T.status t ≠ some .READY) : t ∉ q.all :=
  fun hmem => hst (h.lined.ready t hmem)

theorem become (h : Queues S T now q sems out)
    (th : Thread) (hwf : th.sys_q_stub.WF now) (hst : th.status ≠ .READY)
    (ht : t ∉ q.all) (hsem : ∀ s, t ∉ (sems s).queue) {out' : Option ThreadId}
    (hout : out' = out ∧ out ≠ some t ∨ out = some t ∧ out' = none) :
    Queues S (Function.update T t (some th)) now q sems out' := by
  have hsame : ∀ x ∈ q.all, Function.update T t (some th) x = T x :=
    fun x hx => Function.update_of_ne (ne_of_mem_of_not_mem hx ht) _ _
  refine ⟨h.wf.update hwf, h.lined.congr hsame,
    fun lv => (h.filed lv).congr hsame, ?_, ?_, h.waiting.update hsem⟩
  · intro x hx hne
    by_cases hxt : x = t
    · subst hxt
      rw [Threads.status_update_self] at hx
      exact absurd (Option.some.inj hx) hst
    · rw [Threads.status_update_of_ne hxt] at hx
      refine h.complete x hx ?_
      rcases hout with ⟨rfl, _⟩ | ⟨rfl, _⟩
      · exact hne
      · exact fun heq => hxt (Option.some.inj heq)
  · intro x hx
    rcases hout with ⟨rfl, hne⟩ | ⟨_, rfl⟩
    · have hxt : x ≠ t := fun heq => hne (heq ▸ hx)
      rw [Threads.status_update_of_ne hxt]
      exact h.taken x hx
    · cases hx

theorem readied (h : Queues S T now q sems out) (th : Thread)
    (hwf : th.sys_q_stub.WF now) (hst : th.status = .READY) (ht : t ∉ q.all)
    (hsem : ∀ s, t ∉ (sems s).queue) (hout : some t ≠ out) :
    ∃ q', q.append (Function.update T t (some th)) now t = .ok q' ∧
      Appended S (Function.update T t (some th)) t q q' ∧
      Queues S (Function.update T t (some th)) now q' sems out := by
  have hsame : ∀ x ∈ q.all, Function.update T t (some th) x = T x :=
    fun x hx => Function.update_of_ne (ne_of_mem_of_not_mem hx ht) _ _
  have hready : Threads.status (Function.update T t (some th)) t =
      some .READY := by
    rw [Threads.status_update_self, hst]
  obtain ⟨q', hq', happ⟩ := (h.lined.congr hsame).append_ok now hready ht
  refine ⟨q', hq', happ, h.wf.update hwf, happ.lined,
    fun lv => happ.filed ((h.filed lv).congr hsame), ?_, ?_,
    h.waiting.update hsem⟩
  · intro x hx hne
    rw [happ.perm.mem_iff, List.mem_cons]
    by_cases hxt : x = t
    · exact .inl hxt
    · rw [Threads.status_update_of_ne hxt] at hx
      exact .inr (h.complete x hx hne)
  · intro x hx
    have hxt : x ≠ t := fun heq => hout (heq ▸ hx.symm)
    rw [Threads.status_update_of_ne hxt, happ.perm.mem_iff,
      List.mem_cons, not_or]
    exact ⟨(h.taken x hx).1, hxt, (h.taken x hx).2⟩

theorem take (h : Queues S T now q sems none) (hfront : Front t q q') :
    Queues S T now q' sems (some t) := by
  have hnodup : t ∉ q'.all ∧ q'.all.Nodup :=
    List.nodup_cons.mp (hfront.all ▸ h.lined.nodup)
  refine ⟨h.wf, hfront.lined h.lined, fun lv => hfront.filed (h.filed lv), ?_,
    ?_, h.waiting⟩
  · intro x hx hne
    have hmem := h.complete x hx nofun
    rw [hfront.all] at hmem
    exact (List.mem_cons.mp hmem).resolve_left fun heq => hne (heq ▸ rfl)
  · rintro x ⟨⟩
    exact ⟨h.lined.ready t (hfront.all ▸ .head _), hnodup.1⟩

theorem delete (h : Queues S T now q sems none)
    (hst : T.status t = some .TERMINATED) :
    Queues S (Function.update T t none) now q sems none := by
  have ht : t ∉ q.all := h.not_mem (by rw [hst]; decide)
  have hsem : ∀ s, t ∉ (sems s).queue := h.waiting.not_mem (by rw [hst]; decide)
  have hsame : ∀ x ∈ q.all, Function.update T t none x = T x :=
    fun x hx => Function.update_of_ne (ne_of_mem_of_not_mem hx ht) _ _
  refine ⟨?_, h.lined.congr hsame, fun lv => (h.filed lv).congr hsame, ?_,
    nofun, h.waiting.update hsem⟩
  · intro x th hx
    by_cases hxt : x = t
    · subst hxt
      rw [Function.update_self] at hx
      cases hx
    · rw [Function.update_of_ne hxt] at hx
      exact h.wf x th hx
  · intro x hx hne
    by_cases hxt : x = t
    · subst hxt
      rw [Threads.status, Function.update_self] at hx
      cases hx
    · rw [Threads.status_update_of_ne hxt] at hx
      exact h.complete x hx hne

theorem later (h : Queues S T now q sems out) {ticks : Int}
    (hticks : 0 ≤ ticks) :
    Queues S T (now + ticks) q sems out :=
  ⟨fun t th hth => (h.wf t th hth).mono (Int.le_add_of_nonneg_right hticks),
    h.lined, h.filed, h.complete, h.taken,
    h.waiting⟩

theorem aging_ok (h : Queues S T now q sems none)
    (horder : S → q.AgesInOrder T now) :
    ∃ q', q.aging T now = .ok (T.aged now, q') ∧ Regrouped S (T.aged now) q q' ∧
      Queues S (T.aged now) now q' sems none := by
  obtain ⟨q', hrun, hre, hfiled⟩ :=
    h.lined.aging_ok h.filed h.wf (fun t ht => h.complete t ht nofun) horder
  refine ⟨q', hrun, hre, h.wf.aged, hre.lined, hfiled, ?_, nofun, ?_,
    h.waiting.nodup, h.waiting.disjoint⟩
  · intro t ht hne
    rw [Threads.status_aged] at ht
    exact hre.perm.mem_iff.mpr (h.complete t ht hne)
  · intro s t ht
    rw [Threads.status_aged]
    exact h.waiting.blocked s t ht

end Queues

end

end EroikoBlue.MP3
