/-
# MP3 — many threads in one memory

Every thread owns two stretches of memory, its saved words and its stack
(`Thread`), and one of them runs.  The running thread may do anything, with one
exception: the saved words and the return address of a thread that does not run
are left alone (`Step.compute`).  It may also fork a thread, which
`Thread::StackAllocate` lays out, delete one, or call `SWITCH`, also with itself
as the one to run next.

`resumes` is what `SWITCH` is for: to its caller it is a call that returns,
however long the others run in between.  `forked_runs` is the other way into a
thread: the first `SWITCH` to it enters `ThreadRoot`, which calls `ThreadBegin`,
the function it was forked with on its argument, and `ThreadFinish`.
-/
import EroikoBlue.MP3.Switch
import Mathlib.Data.Set.Pairwise.Basic
import Mathlib.Logic.Relation

namespace EroikoBlue.MP3.Switching

open Bytes X86

/-! ## `Thread::StackAllocate` -/

/-- `&machineState[i]`. -/
def machineState (t i : Word) : Word := t + (4 + 4 * i)

def StackAllocate (x : Text) (t stack func arg : Word) (m : Mem) : Mem :=
  let stackTop := stack + BitVec.ofNat 32 (4 * StackSize) - 4 * 4
  let m := store m (t + _ESP) stackTop
  let stackTop := stackTop - 4
  let m := store m (t + _ESP) stackTop
  let m := store m stackTop x.ThreadRoot
  let m := store m stack STACK_FENCEPOST
  let m := store m (machineState t PCState) x.ThreadRoot
  let m := store m (machineState t StartupPCState) x.ThreadBegin
  let m := store m (machineState t InitialPCState) func
  let m := store m (machineState t InitialArgState) arg
  store m (machineState t WhenDonePCState) x.ThreadFinish

/-! ## The threads in memory -/

/-- A `Thread` object and its stack; the two are apart from each other and from
`_eax_save`. -/
structure Thread (x : Text) where
  tcb : Word
  stack : Word
  size : Nat
  apart : Apart (saved tcb) (Span stack size)
  away : Apart (Span x._eax_save 4) (saved tcb ∪ Span stack size)

namespace Thread

variable {x : Text} (t : Thread x) {m m' : Mem}

def territory : Set Word := saved t.tcb ∪ Span t.stack t.size

/-- The call of `SWITCH` fits: a return address and two arguments at `esp`. -/
def InStack (esp : Word) : Prop := (esp - t.stack).toNat + 12 ≤ t.size

instance (esp : Word) : Decidable (t.InStack esp) :=
  inferInstanceAs (Decidable (_ ≤ _))

/-- What nobody but `SWITCH` may write while the thread does not run. -/
def control (m : Mem) : Set Word := saved t.tcb ∪ Span (context m t.tcb).esp 4

/-- A thread that does not run: its return address is still where its saved
stack pointer says. -/
structure Suspended (m : Mem) : Prop where
  inStack : t.InStack (context m t.tcb).esp
  ret : load m (context m t.tcb).esp = (context m t.tcb).pc

variable {t}

theorem tcb_mem : t.tcb ∈ t.territory :=
  Or.inl (by rw [saved, mem_span]; bv_omega)

theorem saved_subset : saved t.tcb ⊆ t.territory := Set.subset_union_left

theorem call_subset {esp : Word} (h : t.InStack esp) :
    Span esp 12 ⊆ Span t.stack t.size := span_subset h

theorem call_away {esp : Word} (h : t.InStack esp) :
    Apart (Span x._eax_save 4) (Span esp 12) :=
  t.away.mono_right ((call_subset h).trans Set.subset_union_right)

theorem call_apart {esp : Word} (h : t.InStack esp) :
    Apart (saved t.tcb) (Span esp 12) :=
  t.apart.mono_right (call_subset h)

theorem saved_away : Apart (Span x._eax_save 4) (saved t.tcb) :=
  t.away.mono_right saved_subset

theorem word_subset_territory {esp d : Word} (h : t.InStack esp)
    (hd : d.toNat + 4 ≤ 12) :
    Span (esp + d) 4 ⊆ t.territory :=
  ((word_subset_call hd).trans (call_subset h)).trans Set.subset_union_right

theorem Suspended.control_subset (h : t.Suspended m) :
    t.control m ⊆ t.territory := by
  refine Set.union_subset saved_subset ?_
  have hword :=
    word_subset_territory h.inStack (show (0 : Word).toNat + 4 ≤ 12 by decide)
  rwa [show (context m t.tcb).esp + 0 = (context m t.tcb).esp
    from BitVec.add_zero _] at hword

theorem context_eq (h : ∀ y ∈ saved t.tcb, m' y = m y) :
    context m' t.tcb = context m t.tcb := context_congr h

/-- A thread stays suspended, with the same context, as long as nobody writes
what `SWITCH` left. -/
theorem Suspended.congr (h : t.Suspended m)
    (hkeep : ∀ y ∈ t.control m, m' y = m y) : t.Suspended m' := by
  have hctx : context m' t.tcb = context m t.tcb := context_eq fun y hy =>
    hkeep y (Or.inl hy)
  have hword : load m' (context m t.tcb).esp = load m (context m t.tcb).esp :=
    load_congr fun y hy => hkeep y (Or.inr hy)
  exact ⟨hctx ▸ h.inStack, by rw [hctx, hword, h.ret]⟩

end Thread

/-- The memory, the threads, and the one that runs. -/
structure World (x : Text) where
  cpu : Cpu
  threads : Set (Thread x)
  current : Thread x

inductive Event (x : Text) where
  /-- the running thread does anything else -/
  | compute
  | fork (t : Thread x) (func arg : Word)
  /-- `CheckToBeDestroyed` deletes a thread -/
  | destroy (t : Thread x)
  | switch (t : Thread x)

inductive Step {x : Text} : Event x → World x → World x → Prop
  | compute {w : World x} {c : Cpu}
      (hkeep : ∀ t ∈ w.threads, t ≠ w.current → ∀ y ∈ t.control w.cpu.mem,
        c.mem y = w.cpu.mem y) :
      Step .compute w { w with cpu := c }
  | fork {w : World x} {t : Thread x} {func arg : Word}
      (hsize : t.size = 4 * StackSize)
      (hnew : ∀ u ∈ w.threads, Apart t.territory u.territory) :
      Step (.fork t func arg) w
        { w with
          cpu := { w.cpu with
            mem := StackAllocate x t.tcb t.stack func arg w.cpu.mem }
          threads := insert t w.threads }
  | destroy {w : World x} {t : Thread x} (hrun : t ≠ w.current) :
      Step (.destroy t) w { w with threads := w.threads \ {t} }
  | switch {w : World x} {t : Thread x} {c : Cpu} (heip : w.cpu.eip = x.SWITCH)
      (h₁ : load w.cpu.mem (w.cpu.regs .esp + 4) = w.current.tcb)
      (h₂ : load w.cpu.mem (w.cpu.regs .esp + 8) = t.tcb)
        (hstack : w.current.InStack (w.cpu.regs .esp))
      (hlive : t ∈ w.threads) (hrun : x.code.steps
        ((switchBody x._eax_save).length + 1) w.cpu = some c) :
      Step (.switch t) w { w with cpu := c, current := t }

def Start {x : Text} (w : World x) : Prop := w.threads = {w.current}

def Runs {x : Text} : World x → World x → Prop :=
  Relation.ReflTransGen fun w w' => ∃ ev, Step ev w w'

structure Inv {x : Text} (w : World x) : Prop where
  current : w.current ∈ w.threads
  apart : w.threads.Pairwise fun t u => Apart t.territory u.territory
  suspended : ∀ t ∈ w.threads, t ≠ w.current → t.Suspended w.cpu.mem

section Steps

variable {x : Text} {w w' : World x} {t : Thread x}

/-- What `SWITCH` loads when it is told to go to `t`. -/
def World.target (w : World x) (t : Thread x) : Context :=
  context (saving x._eax_save w.current.tcb w.cpu.toState) t.tcb

theorem World.target_current (w : World x) :
    w.target w.current = leaving w.cpu.toState := context_save

theorem Inv.saving_eq (h : Inv w) (ht : t ∈ w.threads) (hne : t ≠ w.current)
    {y : Word} (hy : y ∈ t.territory) :
    saving x._eax_save w.current.tcb w.cpu.toState y = w.cpu.mem y :=
  saving_of_notMem (fun hmem => t.away hmem hy)
    (fun hmem => h.apart ht h.current hne hy (Thread.saved_subset hmem))

theorem Inv.target_eq (h : Inv w) (ht : t ∈ w.threads) (hne : t ≠ w.current) :
    w.target t = context w.cpu.mem t.tcb :=
  Thread.context_eq fun _ hy => h.saving_eq ht hne (Thread.saved_subset hy)

theorem Inv.target_inStack (h : Inv w)
    (hstack : w.current.InStack (w.cpu.regs .esp)) (ht : t ∈ w.threads) :
    t.InStack (w.target t).esp := by
  by_cases hne : t = w.current
  · subst hne
    rw [w.target_current]
    exact hstack
  · rw [h.target_eq ht hne]
    exact (h.suspended t ht hne).inStack

/-- A call of `SWITCH` with two live threads always comes to its `ret`. -/
theorem Inv.steps_switch (h : Inv w) (heip : w.cpu.eip = x.SWITCH)
    (h₁ : load w.cpu.mem (w.cpu.regs .esp + 4) = w.current.tcb)
    (h₂ : load w.cpu.mem (w.cpu.regs .esp + 8) = t.tcb)
    (hstack : w.current.InStack (w.cpu.regs .esp)) (hlive : t ∈ w.threads) :
    x.code.steps ((switchBody x._eax_save).length + 1) w.cpu =
      some (switched x._eax_save w.current.tcb t.tcb w.cpu.toState) :=
  x.steps_switch heip h₁ h₂ (Thread.call_away hstack) Thread.saved_away
    Thread.saved_away (Thread.call_apart hstack)
    (Thread.call_away (h.target_inStack hstack hlive))

/-- A call of `SWITCH`, as far as the instructions are concerned. -/
structure Switches (w : World x) (t : Thread x) (w' : World x) : Prop where
  live : t ∈ w.threads
  inStack : w.current.InStack (w.cpu.regs .esp)
  goes : t.InStack (w.target t).esp
  eq : w' = { w with cpu := switched x._eax_save w.current.tcb t.tcb w.cpu.toState, current := t }

theorem Inv.switches (h : Inv w) (hstep : Step (.switch t) w w') :
    Switches w t w' := by
  cases hstep with
  | switch heip h₁ h₂ hstack hlive hrun =>
      rw [h.steps_switch heip h₁ h₂ hstack hlive] at hrun
      cases hrun
      exact ⟨hlive, hstack, h.target_inStack hstack hlive, rfl⟩

theorem Switches.slot_subset (h : Switches w t w') :
    Span ((w.target t).esp + 4) 4 ⊆ t.territory :=
  Thread.word_subset_territory h.goes (by decide)

theorem Switches.mem_saving (h : Switches w t w') {y : Word}
    (he : y ∉ Span x._eax_save 4) (hslot : y ∉ Span ((w.target t).esp + 4) 4) :
    w'.cpu.mem y = saving x._eax_save w.current.tcb w.cpu.toState y := by
  rw [h.eq]
  exact switched_of_notMem he hslot

/-- A thread that neither leaves nor comes in does not notice. -/
theorem Switches.mem_other (h : Switches w t w') (hinv : Inv w) {u : Thread x}
    (hu : u ∈ w.threads) (hleave : u ≠ w.current) (hcome : u ≠ t) {y : Word}
    (hy : y ∈ u.territory) : w'.cpu.mem y = w.cpu.mem y := by
  have hslot : y ∉ Span ((w.target t).esp + 4) 4 := fun hmem =>
    hinv.apart hu h.live hcome hy (h.slot_subset hmem)
  rw [h.mem_saving (fun hmem => u.away hmem hy) hslot,
    hinv.saving_eq hu hleave hy]

/-- The thread that leaves finds its registers in its saved words, and its stack
as it was. -/
theorem Switches.mem_leaving (h : Switches w t w') (hinv : Inv w)
    (hne : w.current ≠ t) {y : Word} (hy : y ∈ w.current.territory) :
    w'.cpu.mem y = saving x._eax_save w.current.tcb w.cpu.toState y :=
  h.mem_saving (fun hmem => w.current.away hmem hy)
    (fun hmem => hinv.apart hinv.current h.live hne hy (h.slot_subset hmem))

theorem Switches.context_leaving (h : Switches w t w') (hinv : Inv w)
    (hne : w.current ≠ t) :
    context w'.cpu.mem w.current.tcb = leaving w.cpu.toState := by
  rw [← w.target_current, World.target]
  exact Thread.context_eq fun y hy =>
    h.mem_leaving hinv hne (Thread.saved_subset hy)

/-- On the stacks, a switch writes one word: the argument slot of the thread
that comes in. -/
theorem Switches.mem_stack (h : Switches w t w')
    (hinv : Inv w) {u : Thread x} (hu : u ∈ w.threads) {y : Word}
    (hy : y ∈ Span u.stack u.size) (hslot : y ∉ Span ((w.target t).esp + 4) 4) :
    w'.cpu.mem y = w.cpu.mem y := by
  have he : y ∉ Span x._eax_save 4 := fun hmem => u.away hmem (Or.inr hy)
  have hsaved : y ∉ saved w.current.tcb := by
    intro hmem
    by_cases hne : u = w.current
    · subst hne
      exact w.current.apart hmem hy
    · exact hinv.apart hu hinv.current hne (Or.inr hy) (Or.inl hmem)
  rw [h.mem_saving he hslot, saving_of_notMem he hsaved]

theorem Thread.InStack.ret_subset {esp : Word} (h : t.InStack esp) :
    Span esp 4 ⊆ Span t.stack t.size :=
  (span_subset (by bv_omega)).trans (Thread.call_subset h)

theorem Switches.suspended (h : Switches w t w') (hinv : Inv w)
    (hne : w.current ≠ t) :
    w.current.Suspended w'.cpu.mem := by
  have hctx := h.context_leaving hinv hne
  have hret : load w'.cpu.mem (w.cpu.regs .esp) =
      load w.cpu.mem (w.cpu.regs .esp) := by
    refine load_congr fun y hy => ?_
    have hy' := h.inStack.ret_subset hy
    exact h.mem_stack hinv hinv.current hy' fun hmem =>
      hinv.apart hinv.current h.live hne (Or.inr hy') (h.slot_subset hmem)
  exact ⟨by rw [hctx]; exact h.inStack, by rw [hctx]; exact hret⟩

end Steps

/-! ## A thread laid out by `StackAllocate` -/

section Allocate

variable {x : Text} {t : Thread x} {func arg : Word} {m : Mem}

/-- Where `stackTop` ends up. -/
def stackTop (stack : Word) : Word :=
  stack + BitVec.ofNat 32 (4 * StackSize) - 4 * 4 - 4

theorem StackAllocate_eq (x : Text) (t stack func arg : Word) (m : Mem) :
    StackAllocate x t stack func arg m =
    store (store (store (store
      (store (store (store (store (store m (t + _ESP) (stackTop stack + 4))
      (t + _ESP) (stackTop stack)) (stackTop stack) x.ThreadRoot) stack
        STACK_FENCEPOST) (t + _PC) x.ThreadRoot)
      (t + _ECX) x.ThreadBegin) (t + _ESI) func) (t + _EDX) arg)
        (t + _EDI) x.ThreadFinish := by
  have htop : stackTop stack + 4 =
    stack + BitVec.ofNat 32 (4 * StackSize) - 4 * 4 := BitVec.sub_add_cancel _ _
  rw [htop]
  rfl

theorem top_subset (hsize : t.size = 4 * StackSize) :
    Span (stackTop t.stack) 4 ⊆ Span t.stack t.size :=
  span_subset (by rw [hsize, stackTop, StackSize]; bv_omega)

theorem base_subset (hsize : t.size = 4 * StackSize) :
    Span t.stack 4 ⊆ Span t.stack t.size :=
  span_subset (by rw [hsize, StackSize]; bv_omega)

theorem StackAllocate_of_notMem (hsize : t.size = 4 * StackSize) {y : Word}
    (hy : y ∉ t.territory) :
    StackAllocate x t.tcb t.stack func arg m y = m y := by
  have hword : ∀ d : Word, d.toNat + 4 ≤ 36 → y ∉ Span (t.tcb + d) 4 :=
      fun d hd hmem =>
    hy (Thread.saved_subset (word_subset_saved hd hmem))
  have htop : y ∉ Span (stackTop t.stack) 4 :=
    fun hmem => hy (Or.inr (top_subset hsize hmem))
  have hbase : y ∉ Span t.stack 4 :=
    fun hmem => hy (Or.inr (base_subset hsize hmem))
  rw [StackAllocate_eq, store_of_notMem (hword _ (by decide)),
    store_of_notMem (hword _ (by decide)),
    store_of_notMem (hword _ (by decide)), store_of_notMem
      (hword _ (by decide)),
    store_of_notMem (hword _ (by decide)), store_of_notMem hbase,
      store_of_notMem htop,
    store_of_notMem (hword _ (by decide)), store_of_notMem
      (hword _ (by decide))]

/-- The first switch to a new thread starts from this. -/
def initial (x : Text) (t func arg : Word) (top : Word) (m : Mem) : Context :=
  { context m t with
    esp := top, ecx := x.ThreadBegin, edx := arg, esi := func, edi :=
      x.ThreadFinish, pc := x.ThreadRoot }

theorem context_StackAllocate (hsize : t.size = 4 * StackSize) :
    context (StackAllocate x t.tcb t.stack func arg m) t.tcb =
      initial x t.tcb func arg (stackTop t.stack) m := by
  have htop : ∀ (m : Mem) (d w : Word), d.toNat + 4 ≤ 36 →
      load (store m (stackTop t.stack) w) (t.tcb + d) = load m (t.tcb + d) :=
          fun m d w hd =>
    load_store_of_apart
      (t.apart.symm.mono (top_subset hsize) (word_subset_saved hd))
  have hbase : ∀ (m : Mem) (d w : Word), d.toNat + 4 ≤ 36 →
      load (store m t.stack w) (t.tcb + d) = load m (t.tcb + d) :=
          fun m d w hd =>
    load_store_of_apart
      (t.apart.symm.mono (base_subset hsize) (word_subset_saved hd))
  simp (disch := decide) only [context, StackAllocate_eq, initial, load_store,
    load_store_offset, htop, hbase]

theorem stackTop_StackAllocate (hsize : t.size = 4 * StackSize) :
    load (StackAllocate x t.tcb t.stack func arg m) (stackTop t.stack) =
      x.ThreadRoot := by
  have hword : ∀ (m : Mem) (d w : Word), d.toNat + 4 ≤ 36 →
      load (store m (t.tcb + d) w) (stackTop t.stack) =
          load m (stackTop t.stack) := fun m d w hd =>
    load_store_of_apart (t.apart.mono (word_subset_saved hd) (top_subset hsize))
  have hbase : ∀ (m : Mem) (w : Word),
      load (store m t.stack w) (stackTop t.stack) = load m (stackTop t.stack) :=
    fun m w =>
      load_store_of_apart (apart_span (by rw [stackTop, StackSize]; bv_omega)
      (by rw [stackTop, StackSize]; bv_omega))
  simp (disch := decide) only [StackAllocate_eq, load_store, hword, hbase]

theorem suspended_StackAllocate (hsize : t.size = 4 * StackSize) :
    t.Suspended (StackAllocate x t.tcb t.stack func arg m) := by
  have hctx : context (StackAllocate x t.tcb t.stack func arg m) t.tcb =
      initial x t.tcb func arg (stackTop t.stack) m :=
        context_StackAllocate hsize
  refine ⟨?_, ?_⟩
  · rw [hctx, Thread.InStack, hsize, initial, stackTop, StackSize]
    bv_omega
  · rw [hctx]
    exact stackTop_StackAllocate hsize

end Allocate

/-! ## The invariant over a run -/

section Runs

variable {x : Text} {w w' : World x} {ev : Event x}

theorem Start.inv (h : Start w) : Inv w where
  current := by rw [h]; exact Set.mem_singleton _
  apart := by rw [h]; exact Set.pairwise_singleton _ _
  suspended := by
    intro t ht hne
    rw [h] at ht
    exact absurd ht hne

theorem Inv.step (h : Inv w) (hstep : Step ev w w') : Inv w' := by
  cases ev with
  | compute =>
      cases hstep with
      | compute hkeep =>
          exact ⟨h.current, h.apart,
            fun t ht hne => (h.suspended t ht hne).congr (hkeep t ht hne)⟩
  | fork t func arg =>
      cases hstep with
      | fork hsize hnew =>
          refine ⟨Set.mem_insert_of_mem _ h.current, ?_, ?_⟩
          · exact h.apart.insert fun u hu _ => ⟨hnew u hu, (hnew u hu).symm⟩
          · intro u hu hne
            rcases hu with rfl | hu
            · exact suspended_StackAllocate hsize
            · have hsusp := h.suspended u hu hne
              exact hsusp.congr fun y hy =>
                  StackAllocate_of_notMem hsize fun hmem =>
                hnew u hu hmem (hsusp.control_subset hy)
  | destroy t =>
      cases hstep with
      | destroy hrun =>
          exact ⟨⟨h.current, hrun.symm⟩, h.apart.mono Set.sdiff_subset, fun u hu hne => h.suspended u hu.1 hne⟩
  | switch t =>
      have hsw := h.switches hstep
      have hthreads : w'.threads = w.threads := by rw [hsw.eq]
      have hcurrent : w'.current = t := by rw [hsw.eq]
      refine ⟨by rw [hthreads, hcurrent]; exact hsw.live, by rw [hthreads]; exact h.apart,
        ?_⟩
      intro u hu hne
      rw [hthreads] at hu
      rw [hcurrent] at hne
      by_cases hleave : u = w.current
      · subst hleave
        exact hsw.suspended h hne
      · have hsusp := h.suspended u hu hleave
        exact hsusp.congr fun y hy =>
          hsw.mem_other h hu hleave hne (hsusp.control_subset hy)

/-- Whatever stays on its own stack the running thread may do. -/
theorem Inv.can_compute (h : Inv w) {c : Cpu} (hown : ∀ y,
      y ∉ Span w.current.stack w.current.size → c.mem y = w.cpu.mem y) :
    Step .compute w { w with cpu := c } := by
  refine .compute fun t ht hne y hy => hown y fun hmem => ?_
  exact h.apart ht h.current hne ((h.suspended t ht hne).control_subset hy)
    (Or.inr hmem)

/-- The first instruction of `SWITCH(t1, t2)`. -/
def calling (esp : Word) (t₁ t₂ : Thread x) (m : Mem) : Cpu where
  regs := Function.update (fun _ => 0) .esp esp
  mem := store (store m (esp + 4) t₁.tcb) (esp + 8) t₂.tcb
  eip := x.SWITCH

/-- The running thread can hand over to any live one. -/
theorem Inv.can_call (h : Inv w) {t : Thread x} {esp : Word}
    (hstack : w.current.InStack esp) (hlive : t ∈ w.threads) :
    ∃ c, (∀ y, y ∉ Span w.current.stack w.current.size →
        c.mem y = w.cpu.mem y) ∧
      Step .compute w { w with cpu := c } ∧
      Step (.switch t) { w with cpu := c }
        { w with cpu := switched x._eax_save w.current.tcb t.tcb c.toState, current := t } := by
  have hown : ∀ y, y ∉ Span w.current.stack w.current.size →
      (calling esp w.current t w.cpu.mem).mem y = w.cpu.mem y := by
    intro y hy
    have hword : ∀ d : Word, d.toNat + 4 ≤ 12 → y ∉ Span (esp + d) 4 :=
        fun d hd hmem =>
      hy (Thread.call_subset hstack (word_subset_call hd hmem))
    simp only [calling, store_of_notMem (hword 8 (by decide)),
      store_of_notMem (hword 4 (by decide))]
  have hcompute := h.can_compute hown
  have hinv := h.step hcompute
  have h₁ : load (calling esp w.current t w.cpu.mem).mem (esp + 4) =
      w.current.tcb := by
    rw [calling, load_store_of_apart (apart_span (by bv_omega) (by bv_omega)),
      load_store]
  have h₂ : load (calling esp w.current t w.cpu.mem).mem (esp + 8) = t.tcb :=
    load_store _ _ _
  exact ⟨_, hown, hcompute,
    .switch rfl h₁ h₂ hstack hlive (hinv.steps_switch rfl h₁ h₂ hstack hlive)⟩

theorem Runs.inv (h : Runs w w') (hinv : Inv w) : Inv w' := by
  induction h with
  | refl => exact hinv
  | tail _ hstep ih =>
      obtain ⟨_, hstep⟩ := hstep
      exact ih.step hstep

end Runs

/-! ## Leaving and coming back -/

section Resume

variable {x : Text} {w w' : World x} {t : Thread x} {F : Set Word}

/-- A step of the others while `t` does not run: they leave the bytes `F` of its
stack alone. -/
def Meanwhile (t : Thread x) (F : Set Word) (w w' : World x) : Prop :=
  ∃ ev, Step ev w w' ∧ ev ≠ .switch t ∧ ev ≠ .destroy t ∧
    (ev = .compute → ∀ y ∈ F, w'.cpu.mem y = w.cpu.mem y)

/-- `t` calls `SWITCH` in `a`, and `d` is where it runs again. -/
inductive Back (t : Thread x) (F : Set Word) : World x → World x → Prop
  | once {a d : World x} (hrun : a.current = t) (hto : Step (.switch t) a d) :
      Back t F a d
  | later {a b c d : World x} {u : Thread x} (hrun : a.current = t)
      (hne : u ≠ t) (hto : Step (.switch u) a b)
      (hmean : Relation.ReflTransGen (Meanwhile t F) b c)
        (hback : Step (.switch t) c d) : Back t F a d

/-- `t` has left with the context `k`, and its bytes `F` are as in `m`. -/
structure Left (t : Thread x) (F : Set Word) (k : Context) (m : Mem)
    (w : World x) : Prop where
  live : t ∈ w.threads
  away : t ≠ w.current
  context : context w.cpu.mem t.tcb = k
  mem : ∀ y ∈ F, w.cpu.mem y = m y

theorem Left.step {k : Context} {m : Mem} (hF : F ⊆ t.territory)
    (h : Left t F k m w) (hinv : Inv w) (hstep : Meanwhile t F w w') :
    Left t F k m w' := by
  obtain ⟨ev, hstep, hswitch, hdestroy, hcompute⟩ := hstep
  have hsusp := hinv.suspended t h.live h.away
  -- what the step leaves alone is enough
  have hkeep : t ∈ w'.threads → t ≠ w'.current →
      (∀ y ∈ t.control w.cpu.mem ∪ F, w'.cpu.mem y = w.cpu.mem y) →
      Left t F k m w' := by
    intro hlive haway hmem
    refine ⟨hlive, haway, ?_,
      fun y hy => (hmem y (Or.inr hy)).trans (h.mem y hy)⟩
    rw [Thread.context_eq fun y hy => hmem y (Or.inl (Or.inl hy)), h.context]
  have hterritory : t.control w.cpu.mem ∪ F ⊆ t.territory :=
    Set.union_subset hsusp.control_subset hF
  cases ev with
  | compute =>
      cases hstep with
      | compute hrely =>
          refine hkeep h.live h.away fun y hy => ?_
          rcases hy with hy | hy
          · exact hrely t h.live h.away y hy
          · exact hcompute rfl y hy
  | fork u func arg =>
      cases hstep with
      | fork hsize hnew =>
          refine hkeep (Or.inr h.live) h.away fun y hy =>
            StackAllocate_of_notMem hsize fun hmem => ?_
          exact hnew t h.live hmem (hterritory hy)
  | destroy u =>
      cases hstep with
      | destroy hrun =>
          exact hkeep ⟨h.live, fun heq => hdestroy (heq ▸ rfl)⟩ h.away
            fun y _ => rfl
  | switch u =>
      have hsw := hinv.switches hstep
      have hne : t ≠ u := fun heq => hswitch (heq ▸ rfl)
      refine hkeep (by rw [hsw.eq]; exact h.live) (by rw [hsw.eq]; exact hne)
        fun y hy => ?_
      exact hsw.mem_other hinv h.live h.away hne (hterritory hy)

theorem Left.run {k : Context}
    {m : Mem} (hF : F ⊆ t.territory) (h : Left t F k m w) (hinv : Inv w)
    (hrun : Relation.ReflTransGen (Meanwhile t F) w w') : Left t F k m w' ∧
    Inv w' := by
  induction hrun with
  | refl => exact ⟨h, hinv⟩
  | tail _ hstep ih =>
      obtain ⟨hleft, hinv⟩ := ih
      refine ⟨hleft.step hF hinv hstep, ?_⟩
      obtain ⟨_, hstep, -⟩ := hstep
      exact hinv.step hstep

theorem Switches.regs (h : Switches w t w') :
    w'.cpu.regs =
      Function.update (w.target t).regs .esp ((w.target t).esp + 4) := by
  rw [h.eq]
  rfl

/-- The `ret` at the end of `SWITCH` finds the return address the thread had
when it left. -/
theorem Switches.eip (h : Switches w t w') (hinv : Inv w) :
    w'.cpu.eip = load w.cpu.mem (w.target t).esp := by
  have heip : w'.cpu.eip = load w'.cpu.mem (w.target t).esp := by
    rw [h.eq]
    rfl
  rw [heip]
  refine load_congr fun y hy => h.mem_stack hinv h.live (h.goes.ret_subset hy)
    fun hmem => ?_
  exact (apart_span (by bv_omega) (by bv_omega)) hy hmem

/-- When a thread that has left is switched to, it goes on from its context. -/
theorem Left.back {k : Context} {m : Mem} (h : Left t F k m w) (hinv : Inv w)
    (hF : F ⊆ Span t.stack t.size) (hto : Step (.switch t) w w') :
    w'.cpu.regs = Function.update k.regs .esp (k.esp + 4) ∧ w'.cpu.eip = k.pc ∧
      ∀ y ∈ F, y ∉ Span (k.esp + 4) 4 → w'.cpu.mem y = m y := by
  have hsw := hinv.switches hto
  have htarget : w.target t = k :=
    (hinv.target_eq h.live h.away).trans h.context
  have hret := (hinv.suspended t h.live h.away).ret
  rw [h.context] at hret
  refine ⟨by rw [hsw.regs, htarget], by rw [hsw.eip hinv, htarget, hret],
    fun y hy hslot => ?_⟩
  rw [hsw.mem_stack hinv h.live (hF hy) (by rw [htarget]; exact hslot)]
  exact h.mem y hy

theorem leaving_regs (s : State) : (leaving s).regs = s.regs := by
  funext r
  cases r <;> rfl

/-- What the thread that called `SWITCH` in `a` finds when it comes back in
`d`. -/
structure Resumes (F : Set Word) (a d : World x) : Prop where
  regs : d.cpu.regs = Function.update a.cpu.regs .esp (a.cpu.regs .esp + 4)
  eip : d.cpu.eip = load a.cpu.mem (a.cpu.regs .esp)
  mem : ∀ y ∈ F, y ∉ Span (a.cpu.regs .esp + 4) 4 → d.cpu.mem y = a.cpu.mem y

/-- However long the others run in between, `SWITCH` is to its caller a call
that returns: all registers are as they were, and so is every byte of its stack
that the others leave alone, but for one argument slot. -/
theorem resumes {w₀ a d : World x} (hstart : Start w₀) (hrun : Runs w₀ a)
    (hF : F ⊆ Span t.stack t.size) (hback : Back t F a d) : Resumes F a d := by
  have hinv := hrun.inv hstart.inv
  cases hback with
  | once hcur hto =>
      subst hcur
      have hsw := hinv.switches hto
      have htarget := a.target_current
      refine ⟨?_, ?_, ?_⟩
      · rw [hsw.regs, htarget, leaving_regs]
        rfl
      · rw [hsw.eip hinv, htarget]
        rfl
      · intro y hy hslot
        refine hsw.mem_stack hinv hsw.live (hF hy) ?_
        rw [htarget]
        exact hslot
  | @later b c _ u hcur hne hto hmean hback =>
      subst hcur
      have hsw := hinv.switches hto
      have hF' : F ⊆ a.current.territory := hF.trans Set.subset_union_right
      have hleft : Left a.current F (leaving a.cpu.toState) a.cpu.mem b := by
        refine ⟨?_, ?_, hsw.context_leaving hinv hne.symm, ?_⟩
        · rw [hsw.eq]
          exact hinv.current
        · rw [hsw.eq]
          exact hne.symm
        · exact fun y hy => hsw.mem_stack hinv hinv.current (hF hy) fun hmem =>
            hinv.apart hinv.current hsw.live hne.symm (hF' hy)
              (hsw.slot_subset hmem)
      obtain ⟨hleft, hinvc⟩ := hleft.run hF' (hinv.step hto) hmean
      obtain ⟨hregs, heip, hmem⟩ := hleft.back hinvc hF hback
      rw [leaving_regs] at hregs
      exact ⟨hregs, heip, hmem⟩

end Resume

/-! ## The first time a thread runs -/

section Fork

variable {x : Text} {t : Thread x}

/-- The address just above the stack. -/
def Thread.top (t : Thread x) : Word := t.stack + BitVec.ofNat 32 t.size

/-- `n` instructions lead from `c` to `e` and write only to the thread's own
stack. -/
structure Enters (t : Thread x) (n : Nat) (c e : Cpu) : Prop where
  steps : x.code.steps n c = some e
  mem : ∀ y, y ∉ Span t.stack t.size → e.mem y = c.mem y

/-- A `call` through a register: the stack grows by the return address. -/
theorem enters_call {c : Cpu}
    {r : Reg} {next : Word} (hcode : x.code c.eip = some (.call r, next))
    (hroom : Span (c.regs .esp - 4) 4 ⊆ Span t.stack t.size) :
    Enters t 1 c (Op.exec (.call r) next c) :=
  ⟨steps_one hcode, fun _ hy => store_of_notMem fun hmem => hy (hroom hmem)⟩

theorem enters_root {c : Cpu} {a b : Word}
    (heip : c.eip = x.ThreadRoot) (hlaid : x.code.Laid x.ThreadRoot rootBody a)
    (hcall : x.code a = some (.call StartupPC, b)) :
    x.code.steps 4 c = some
      { regs := Function.update (Function.update c.regs .ebp (c.regs .esp - 4)) .esp (c.regs .esp - 12)
        mem := store (store (store c.mem (c.regs .esp - 4) (c.regs .ebp))
          (c.regs .esp - 8) (c.regs InitialArg))
          (c.regs .esp - 12) b
        eip := c.regs StartupPC } := by
  obtain ⟨s, eip⟩ := c
  cases heip
  have h8 : s.regs .esp - 4 - 4 = s.regs .esp - 8 := by bv_omega
  have h12 : s.regs .esp - 8 - 4 = s.regs .esp - 12 := by bv_omega
  refine (steps_block_op hlaid hcall).trans ?_
  simp (disch := decide) only [rootBody, execs_cons, execs_nil, Instr.exec,
    Op.exec, Function.update_self,
    Function.update_of_ne, InitialArg, StartupPC, h8, h12]
  congr 3
  funext r
  cases r <;> rfl

/-- Whatever happens between `Fork` and the first switch to the thread, it then
enters `ThreadRoot` with the addresses and the argument it was forked with. -/
theorem fork_enters {w₀ a b c d : World x} {func arg : Word}
    (hstart : Start w₀) (hrun : Runs w₀ a) (hfork : Step (.fork t func arg) a b)
    (hmean : Relation.ReflTransGen (Meanwhile t ∅) b c)
    (hto : Step (.switch t) c d) : t.size = 4 * StackSize ∧
    d.cpu.eip = x.ThreadRoot ∧
      d.cpu.regs = Function.update (initial x t.tcb func arg (stackTop t.stack)
          a.cpu.mem).regs .esp
        (stackTop t.stack + 4) := by
  have hinv := hrun.inv hstart.inv
  have hinvb := hinv.step hfork
  cases hfork with
  | fork hsize hnew =>
      have haway : t ≠ a.current := by
        rintro rfl
        exact (hnew a.current hinv.current) Thread.tcb_mem Thread.tcb_mem
      have hleft : Left t ∅
          (initial x t.tcb func arg (stackTop t.stack) a.cpu.mem) a.cpu.mem
          { a with
            cpu := { a.cpu with
              mem := StackAllocate x t.tcb t.stack func arg a.cpu.mem }
            threads := insert t a.threads } :=
        ⟨Set.mem_insert _ _, haway, context_StackAllocate hsize,
          fun _ hy => hy.elim⟩
      obtain ⟨hleft, hinvc⟩ := hleft.run (Set.empty_subset _) hinvb hmean
      obtain ⟨hregs, heip, -⟩ := hleft.back hinvc (Set.empty_subset _) hto
      exact ⟨hsize, heip, hregs⟩

/-- What `ThreadRoot` does from the registers it expects, with room for three
words below the stack pointer. -/
theorem threadRoot_calls {c : Cpu}
    (heip : c.eip = x.ThreadRoot) (hroom : 12 ≤ (c.regs .esp - t.stack).toNat)
    (hesp : (c.regs .esp - t.stack).toNat ≤ t.size)
    (hsize : t.size < 4294967296) :
    ∃ e₁, Enters t 4 c e₁ ∧ e₁.eip = c.regs StartupPC ∧
      ∀ r₁, Returns 0 t.top e₁ r₁ → ∃ e₂, Enters t 1 r₁ e₂ ∧
        e₂.eip = c.regs InitialPC ∧
        load e₂.mem (e₂.regs .esp + 4) = c.regs InitialArg ∧
        ∀ r₂, Returns 4 t.top e₂ r₂ → ∃ e₃, Enters t 1 r₂ e₃ ∧
        e₃.eip = c.regs WhenDonePC := by
  obtain ⟨i₁, i₂, i₃, _, _, _, hlaid, hc₁, hc₂, hc₃, -⟩ := x.root
  have hbelow : ∀ k : Word, 4 ≤ k.toNat → k.toNat ≤ 12 →
      Span (c.regs .esp - k) 4 ⊆ Span t.stack t.size :=
    fun k hk₄ hk₁₂ => span_subset (by bv_omega)
  refine ⟨_, ⟨enters_root heip hlaid hc₁, fun y hy => ?_⟩, rfl,
    fun r₁ hr₁ => ?_⟩
  · simp only [store_of_notMem fun hmem =>
      hy (hbelow 12 (by decide) (by decide) hmem),
      store_of_notMem fun hmem => hy (hbelow 8 (by decide) (by decide) hmem),
      store_of_notMem fun hmem => hy (hbelow 4 (by decide) (by decide) hmem)]
  -- back from `ThreadBegin`, with the argument on top of the stack
  have hesp₁ : r₁.regs .esp = c.regs .esp - 8 := by
    rw [hr₁.esp]
    simp only [Function.update_self]
    bv_omega
  have heip₁ : r₁.eip = i₂ := by
    rw [hr₁.eip]
    simp only [Function.update_self, load_store]
  have hfunc : r₁.regs InitialPC = c.regs InitialPC :=
    hr₁.regs InitialPC (by decide)
  have hfinish : r₁.regs WhenDonePC = c.regs WhenDonePC :=
    hr₁.regs WhenDonePC (by decide)
  have harg : load r₁.mem (r₁.regs .esp) = c.regs InitialArg := by
    have habove : Span (r₁.regs .esp) 4 ⊆
        Span (r₁.regs .esp + 0#32) (t.top - (r₁.regs .esp + 0#32)).toNat := by
      refine span_subset ?_
      rw [hesp₁, Thread.top]
      bv_omega
    have hkept := load_congr fun y hy =>
      hr₁.mem y (by rw [← hr₁.esp]; exact habove hy)
    rw [hkept, hesp₁,
      load_store_of_apart (apart_span (by bv_omega) (by bv_omega)), load_store]
  have hroom₁ : Span (r₁.regs .esp - 4) 4 ⊆ Span t.stack t.size := by
    have hlow := hbelow 12 (by decide) (by decide)
    rwa [hesp₁, show c.regs .esp - 8 - 4 = c.regs .esp - 12 by bv_omega]
  refine ⟨_, enters_call (heip₁ ▸ hc₂) hroom₁, hfunc, ?_, fun r₂ hr₂ => ?_⟩
  · simp only [Op.exec, Function.update_self]
    rw [BitVec.sub_add_cancel,
      load_store_of_apart (apart_span (by bv_omega) (by bv_omega)), harg]
  -- back from the thread's function
  have heip₂ : r₂.eip = i₃ := by
    rw [hr₂.eip]
    simp only [Op.exec, Function.update_self, load_store]
  have hesp₂ : r₂.regs .esp = r₁.regs .esp := by
    rw [hr₂.esp]
    simp only [Op.exec, Function.update_self]
    bv_omega
  exact ⟨_, enters_call (heip₂ ▸ hc₃) (hesp₂ ▸ hroom₁),
    (hr₂.regs WhenDonePC (by decide)).trans hfinish⟩

/-- A forked thread calls `ThreadBegin`, then the function it was forked with on
its argument, then `ThreadFinish`, whatever the others do before it first runs
and whatever the functions do within the calling convention. -/
theorem forked_runs {w₀ a b c d : World x} {func arg : Word}
    (hstart : Start w₀) (hrun : Runs w₀ a) (hfork : Step (.fork t func arg) a b)
    (hmean : Relation.ReflTransGen (Meanwhile t ∅) b c)
    (hto : Step (.switch t) c d) : ∃ e₁, Enters t 4 d.cpu e₁ ∧
    e₁.eip = x.ThreadBegin ∧
      ∀ r₁, Returns 0 t.top e₁ r₁ → ∃ e₂, Enters t 1 r₁ e₂ ∧ e₂.eip = func ∧
        load e₂.mem (e₂.regs .esp + 4) = arg ∧
        ∀ r₂, Returns 4 t.top e₂ r₂ → ∃ e₃, Enters t 1 r₂ e₃ ∧
        e₃.eip = x.ThreadFinish := by
  obtain ⟨hsize, heip, hregs⟩ := fork_enters hstart hrun hfork hmean hto
  have hesp : (d.cpu.regs .esp - t.stack).toNat = 4 * StackSize - 16 := by
    rw [hregs, Function.update_self, stackTop, StackSize]
    bv_omega
  have hcalls := threadRoot_calls (t := t) heip (by rw [hesp]; decide)
    (by rw [hesp, hsize]; decide)
    (by rw [hsize]; decide)
  rw [hregs] at hcalls
  exact hcalls

/-! A text with the lengths the assembler gives the instructions, a main thread and a second one. -/

def sampleLengths : List Word :=
  [5, 4, 3, 3, 3, 3, 3, 3, 2, 6, 3, 3, 3, 4, 3, 6, 3, 3, 3, 3, 3, 3, 2, 3, 4, 5]

def sampleText : Text where
  code :=
    .place 0x1000 ((((switchBody 0x5000).map .plain).zip sampleLengths) ++
      [(.ret, 1)]) <|
      .place 0x2000 [(.plain (.push .ebp), 1), (.plain (.move .esp .ebp), 2),
        (.plain (.push InitialArg), 1),
        (.call StartupPC, 2), (.call InitialPC, 2), (.call WhenDonePC, 2),
          (.plain (.move .ebp .esp), 2),
        (.plain (.pop .ebp), 1), (.ret, 1)] fun _ => none
  SWITCH := 0x1000
  ThreadRoot := 0x2000
  ThreadBegin := 0x3000
  ThreadFinish := 0x4000
  _eax_save := 0x5000
  switch := ⟨_, _, ⟨_, rfl, _, rfl, _, rfl, _, rfl, _, rfl, _, rfl, _, rfl, _,
    rfl, _, rfl, _, rfl, _, rfl, _, rfl,
    _, rfl, _, rfl, _, rfl, _, rfl, _, rfl, _, rfl, _, rfl, _, rfl, _, rfl, _,
      rfl, _, rfl, _, rfl, _, rfl, _, rfl,
    rfl⟩, rfl⟩
  root := ⟨_, _, _, _, _, _, ⟨_, rfl, _, rfl, _, rfl, rfl⟩, rfl, rfl, rfl,
    ⟨_, rfl, _, rfl, rfl⟩, rfl⟩

def sampleMain : Thread sampleText where
  tcb := 0x10000
  stack := 0x20000
  size := 0x1000
  apart := apart_span (by decide) (by decide)
  away := (apart_span (by decide) (by decide)).union_right
    (apart_span (by decide) (by decide))

def sampleOther : Thread sampleText where
  tcb := 0x11000
  stack := 0x30000
  size := 4 * StackSize
  apart := apart_span (by decide) (by decide)
  away := (apart_span (by decide) (by decide)).union_right
    (apart_span (by decide) (by decide))

def sampleStart : World sampleText :=
  ⟨⟨⟨fun _ => 9, fun _ => 1⟩, 0⟩, {sampleMain}, sampleMain⟩

theorem sample_fork : Inv sampleStart ∧
    ∃ b, Step (.fork sampleOther 0x6000 7) sampleStart b ∧
    b.current = sampleMain ∧ sampleMain ∈ b.threads ∧
      sampleOther ∈ b.threads := by
  refine ⟨(show Start sampleStart from rfl).inv, _, .fork rfl ?_, rfl,
    Or.inr rfl, Or.inl rfl⟩
  rintro u rfl
  exact .union_left ((apart_span (by decide) (by decide)).union_right
    (apart_span (by decide) (by decide)))
    ((apart_span (by decide) (by decide)).union_right
      (apart_span (by decide) (by decide)))

theorem forked_runs_sample : ∃ d : World sampleText, ∃ e₁,
    Enters sampleOther 4 d.cpu e₁ ∧ e₁.eip = 0x3000 ∧
    ∀ r₁, Returns 0 sampleOther.top e₁ r₁ → ∃ e₂, Enters sampleOther 1 r₁ e₂ ∧
      e₂.eip = 0x6000 ∧
      load e₂.mem (e₂.regs .esp + 4) = 7 ∧
      ∀ r₂, Returns 4 sampleOther.top e₂ r₂ → ∃ e₃, Enters sampleOther 1 r₂ e₃ ∧
      e₃.eip = 0x4000 := by
  obtain ⟨hinv, b, hfork, hcur, -, hlive⟩ := sample_fork
  obtain ⟨c, -, hcompute, hto⟩ := (hinv.step hfork).can_call
    (hcur ▸ by decide : b.current.InStack 0x20100) hlive
  exact ⟨_, forked_runs (show Start sampleStart from rfl) .refl hfork
    (.single ⟨_, hcompute, nofun, nofun, fun _ _ hy => hy.elim⟩) hto⟩

/-- The second thread calls `SWITCH` as soon as it runs, and the main thread
goes on. -/
theorem resumes_sample :
    ∃ a d, Back sampleMain (Span sampleMain.stack sampleMain.size) a d ∧
    Resumes (Span sampleMain.stack sampleMain.size) a d := by
  obtain ⟨hinv, b, hfork, hcur, hmain, hlive⟩ := sample_fork
  have hinvb := hinv.step hfork
  obtain ⟨c, -, hcall, hto⟩ :=
    hinvb.can_call (hcur ▸ by decide : b.current.InStack 0x20100) hlive
  have hrun : Runs sampleStart { b with cpu := c } :=
    .tail (.single ⟨_, hfork⟩) ⟨_, hcall⟩
  have hinvo := (hinvb.step hcall).step hto
  obtain ⟨c', hown, hcall', hback⟩ :=
    hinvo.can_call (show sampleOther.InStack 0x30100 by decide) hmain
  have hapart : Apart (Span sampleMain.stack sampleMain.size)
      (Span sampleOther.stack sampleOther.size) :=
    apart_span (by decide) (by decide)
  have hmean : Meanwhile sampleMain
      (Span sampleMain.stack sampleMain.size) _ _ :=
    ⟨_, hcall', nofun, nofun, fun _ y hy => hown y fun hmem => hapart hy hmem⟩
  have hne : sampleOther ≠ sampleMain :=
    fun heq => absurd (congrArg Thread.tcb heq) (by decide)
  have hall :=
    Back.later (a := { b with cpu := c }) hcur hne hto (.single hmean) hback
  exact ⟨_, _, hall,
    resumes (show Start sampleStart from rfl) hrun Set.Subset.rfl hall⟩

end Fork

end EroikoBlue.MP3.Switching
