/-
# `MP2.Process` — processes, from `Exec` to the deletion of their threads

A process is a thread with an address space.  `Exec` makes both, the thread
loads its program when it first runs, and `Finish` has the next thread delete
it.  The address spaces are a list that only grows: nothing in the kernel
deletes one.

`Load` takes its frames at once and then only writes into them: its loops keep
the frames of an address space, whatever the program's header says
(`loadSegment_kept`, `load_some`).  What a step does to the frames of all of
them is in `MP2.Exit`.

## What stands for a program

Of the code of a thread only the place is kept (`Code`): a kernel thread, the
start of `ForkExecute`, the program, or the return of `ForkExecute`.  That is
enough for the frames.  What the instructions of a program do to memory is the
subject of `MP2.Sandbox`, and the two meet in `MP2.Computer`.
-/
import EroikoBlue.MP2.FrameTable

namespace EroikoBlue.MP2

open Bytes (Byte int32)

/-! ## `Load` -/

structure Segment where
  virtualAddr : Int
  inFileAddr : Int
  size : Int

structure NoffHeader where
  noffMagic : Int
  code : Segment
  initData : Segment
  readonlyData : Segment
  uninitData : Segment

abbrev NOFFMAGIC : Int := 0xbadfad

/-- A file with a program: its header in the order of the host, and all its
bytes. -/
structure Executable where
  noffH : NoffHeader
  contents : List Byte

abbrev UserStackSize : Int := 1024

/-- The conversion to `unsigned int`. -/
def unsigned (x : Int) : Nat := (x % 4294967296).toNat

def divRoundUp (n s : Nat) : Nat := n / s + if n % s > 0 then 1 else 0

/-- The pages of the program, with its stack. -/
def NoffHeader.numPages (noffH : NoffHeader) : Nat :=
  divRoundUp (unsigned (noffH.code.size + noffH.readonlyData.size +
    noffH.initData.size + noffH.uninitData.size +
    UserStackSize)) PageSize

/-- `ReadAt` into `mainMemory`. -/
def Executable.readAt (e : Executable) (mem : Memory) (into numBytes : Nat)
    (position : Int) : Except Fault Memory := do
  assertMsg (0 ≤ position) ""
  mem.write into ((e.contents.drop position.toNat).take numBytes)

/-- `ExceptionHandler` for what is not a system call: it does not return. -/
def exceptionHandler (_which : ExceptionType) : Except Fault Unit :=
  .error (.assertFailed "ASSERTNOTREACHED")

namespace AddrSpace

/-- One round of it: a page of the segment is copied. -/
def loadPage (e : Executable) (seg : Segment) (isReadWrite : Bool)
    (s : AddrSpace × Memory) (i : Nat) :
    Except Fault (AddrSpace × Memory) := do
  let offset := i * PageSize
  let (ex, paddr, a) ←
    s.1.translate (unsigned (seg.virtualAddr + offset)) isReadWrite
  let _ ← (if ex ≠ .NoException then exceptionHandler ex else pure ())
  let toLoad := if offset + PageSize < seg.size.toNat then PageSize
    else seg.size.toNat - offset
  let mem ← e.readAt s.2 paddr toLoad (int32 (seg.inFileAddr + offset))
  pure (a, mem)

/-- The loop of `Load` over a segment. -/
def loadSegment (e : Executable) (seg : Segment) (isReadWrite : Bool)
    (s : AddrSpace × Memory) :
    Except Fault (AddrSpace × Memory) :=
  if 0 < seg.size then (List.range (divRoundUp seg.size.toNat PageSize)).foldlM
    (loadPage e seg isReadWrite) s
  else pure s

/-- One round of the loop that marks the pages of the read only segment. -/
def markPage (seg : Segment) (a : AddrSpace) (i : Nat) :
    Except Fault AddrSpace :=
  let page := seg.virtualAddr.tdiv PageSize + i
  if 0 ≤ page ∧ page < a.numPages then pure (a.setReadOnly page.toNat)
  else .error (.undefined "an index outside the page table")

def markReadOnly (seg : Segment) (a : AddrSpace) : Except Fault AddrSpace :=
  if 0 < seg.size then
    (List.range (divRoundUp seg.size.toNat PageSize)).foldlM (markPage seg) a
  else pure a

/-- `Load`; `none`: the file is not there. -/
def load (a : AddrSpace) (executable : Option Executable) (ft : FrameTable)
    (mem : Memory) :
    Except Fault (Bool × AddrSpace × FrameTable × Memory) :=
  match executable with
  | none => pure (false, a, ft, mem)
  | some e => do
    assertMsg (e.noffH.noffMagic = NOFFMAGIC) ""
    let numPages := e.noffH.numPages
    let (ptb, ft, mem) ← ft.allocate mem numPages
    let _ ← (if ptb = none then exceptionHandler .MemoryLimitException
      else pure ())
    let a : AddrSpace := ⟨ptb, numPages⟩
    let (a, mem) ← loadSegment e e.noffH.code true (a, mem)
    let (a, mem) ← loadSegment e e.noffH.initData true (a, mem)
    let a ← markReadOnly e.noffH.readonlyData a
    let (a, mem) ← loadSegment e e.noffH.readonlyData false (a, mem)
    pure (true, a, ft, mem)

end AddrSpace

/-! ## The kernel -/

inductive ThreadStatus where
  | JUST_CREATED
  | RUNNING
  | READY
  | BLOCKED
  deriving DecidableEq, Repr

/-- The code a thread is in. -/
inductive Code where
  /-- A kernel thread, such as the one that calls `ExecAll`. -/
  | kernel
  /-- The start of `ForkExecute`. -/
  | forkExecute
  /-- The program. -/
  | user
  /-- `ForkExecute` has returned. -/
  | threadFinish
  deriving DecidableEq, Repr

abbrev ThreadId := Nat

structure Thread where
  /-- The address space, as an index into those that were made. -/
  space : Option Nat
  status : ThreadStatus
  code : Code
  deriving DecidableEq, Repr

structure Kernel where
  threads : ThreadId → Option Thread
  threadNum : Nat
  currentThread : ThreadId
  readyList : List ThreadId
  toBeDestroyed : Option ThreadId
  /-- The current thread is in `Sleep` and no thread is ready; the flag is
  `finishing`. -/
  sleeping : Option Bool
  spaces : List AddrSpace
  frameTable : FrameTable
  mainMemory : Memory
  /-- A record of the threads that were deleted. -/
  deleted : List Thread

/-- A field of a thread is set. -/
def Threads.modify (T : ThreadId → Option Thread) (t : ThreadId)
    (f : Thread → Thread) : ThreadId → Option Thread :=
  fun x => if x = t then (T t).map f else T x

namespace Kernel

/-- `setStatus`, on a thread that may have been deleted. -/
def setStatus (k : Kernel) (t : ThreadId) (status : ThreadStatus) :
    Except Fault Kernel :=
  match k.threads t with
  | none => .error (.undefined "a deleted thread is used")
  | some _ => pure { k with threads := Threads.modify k.threads t fun th =>
      { th with status := status } }

/-- `ReadyToRun`. -/
def readyToRun (k : Kernel) (t : ThreadId) : Except Fault Kernel := do
  let k ← k.setStatus t .READY
  let readyList ← LinkedList.append k.readyList t
  pure { k with readyList }

/-- `delete thread`.  `~Thread` gives the stack back, and nothing else. -/
def deleteThread (k : Kernel) (t : ThreadId) : Except Fault Kernel :=
  match k.threads t with
  | none => .error (.undefined "a deleted thread is used")
  | some th => do
    assertMsg (t ≠ k.currentThread) ""
    pure { k with threads := fun x => if x = t then none else k.threads x, deleted := k.deleted ++ [th] }

/-- `CheckToBeDestroyed`. -/
def checkToBeDestroyed (k : Kernel) : Except Fault Kernel :=
  match k.toBeDestroyed with
  | none => pure k
  | some t => do
    let k ← k.deleteThread t
    pure { k with toBeDestroyed := none }

/-- `Run`, up to where the next thread has called `CheckToBeDestroyed`: after
`SWITCH`, or in `Begin`. -/
def run (k : Kernel) (nextThread : ThreadId) (finishing : Bool) :
    Except Fault Kernel := do
  assertMsg (finishing → k.toBeDestroyed = none) ""
  let toBeDestroyed := if finishing then some k.currentThread
    else k.toBeDestroyed
  let k ← setStatus { k with toBeDestroyed := toBeDestroyed, currentThread := nextThread } nextThread .RUNNING
  k.checkToBeDestroyed

/-- The loop of `Sleep`: a ready thread runs, or the machine idles. -/
def sleepLoop (k : Kernel) (finishing : Bool) : Except Fault Kernel :=
  match k.readyList with
  | [] => pure { k with sleeping := some finishing }
  | nextThread :: readyList => run { k with readyList := readyList, sleeping := none } nextThread finishing

/-- `Sleep`. -/
def sleep (k : Kernel) (finishing : Bool) : Except Fault Kernel := do
  let k ← k.setStatus k.currentThread .BLOCKED
  k.sleepLoop finishing

/-- `Idle` returns to `Sleep`. -/
def idleReturn (k : Kernel) : Except Fault Kernel :=
  match k.sleeping with
  | none => pure k
  | some finishing => k.sleepLoop finishing

/-- `Finish`, also what `SC_Exit` does. -/
def finish (k : Kernel) : Except Fault Kernel := k.sleep true

/-- `Yield`. -/
def yield (k : Kernel) : Except Fault Kernel :=
  match k.readyList with
  | [] => pure k
  | nextThread :: readyList => do
    let k ← readyToRun { k with readyList := readyList } k.currentThread
    k.run nextThread false

/-- `Exec`: a thread with an empty address space, and `Fork`. -/
def exec (k : Kernel) : Except Fault Kernel :=
  if 10 ≤ k.threadNum then
    .error (.undefined "an index outside the thread table")
  else do
    let t := k.threadNum
    let th : Thread := ⟨some k.spaces.length, .JUST_CREATED, .forkExecute⟩
    let k ← readyToRun { k with
      threads := fun x => if x = t then some th else k.threads x
      spaces := k.spaces ++ [.new] } t
    pure { k with threadNum := t + 1 }

/-- `ForkExecute`: the program is loaded, and then it runs; or the thread
returns. -/
def forkExecute (k : Kernel) (executable : Option Executable) :
    Except Fault Kernel := do
  match k.threads k.currentThread with
  | none => .error (.undefined "a deleted thread is used")
  | some th => match th.space with
    | none => .error (.undefined "NULL is used as an address space")
    | some s => match k.spaces[s]? with
      | none => .error (.undefined "no address space is there")
      | some a => do
        let (loaded, a, frameTable, mainMemory) ←
          a.load executable k.frameTable k.mainMemory
        let code := if loaded then Code.user else Code.threadFinish
        pure { k with
          threads := Threads.modify k.threads k.currentThread fun th =>
            { th with code := code }
          spaces := k.spaces.set s a
          frameTable := frameTable
          mainMemory := mainMemory }

/-- `Initialize`. -/
def boot (mem : Memory) : Except Fault Kernel := do
  let frameTable ← FrameTable.new
  pure {
    threads := fun t => if t = 0 then some ⟨none, .RUNNING, .kernel⟩ else none
    threadNum := 1
    currentThread := 0
    readyList := []
    toBeDestroyed := none
    sleeping := none
    spaces := []
    frameTable := frameTable
    mainMemory := mem
    deleted := [] }

end Kernel

/-! ## Runs -/

inductive Op where
  | exec
  | forkExecute (executable : Option Executable)
  /-- The program runs for a while. -/
  | user (mem : Memory)
  | yield
  | sleep
  /-- A semaphore or a device wakes a thread. -/
  | wake (t : ThreadId)
  | idleReturn
  | finish

def Op.run (k : Kernel) : Op → Except Fault Kernel
  | .exec => k.exec
  | .forkExecute executable => k.forkExecute executable
  | .user mem => pure { k with mainMemory := mem }
  | .yield => k.yield
  | .sleep => k.sleep false
  | .wake t => k.readyToRun t
  | .idleReturn => k.idleReturn
  | .finish => k.finish

/-- The code of the current thread, which is not asleep. -/
def Kernel.code (k : Kernel) : Option Code :=
  if k.sleeping = none then (k.threads k.currentThread).map (·.code) else none

def Op.Allowed (k : Kernel) : Op → Prop
  | .exec => k.code = some .kernel
  | .forkExecute _ => k.code = some .forkExecute
  | .user _ => k.code = some .user
  | .yield | .sleep => k.sleeping = none
  | .wake t => (k.threads t).map (·.status) = some .BLOCKED ∧
        ¬ (t = k.currentThread ∧ k.sleeping = some true)
  | .idleReturn => k.sleeping ≠ none
  | .finish => k.sleeping = none ∧ k.code ≠ some .forkExecute

inductive Reachable : Kernel → Prop
  | start {mem : Memory} {k : Kernel}
      (hrun : Kernel.boot mem = .ok k) : Reachable k
  | step {k k' : Kernel} (h : Reachable k) (op : Op) (hallowed : op.Allowed k)
      (hrun : op.run k = .ok k') :
      Reachable k'

/-! ## What `Load` does to the frames -/

section
variable {a a' : AddrSpace} {mem mem' : Memory} {ft ft' : FrameTable}

theorem AddrSpace.Mapped.translate {vaddr paddr : Nat}
    {rw : Bool} {ex : ExceptionType} (ha : a.Mapped)
    (hrun : a.translate vaddr rw = .ok (ex, paddr, a')) : a'.frames = a.frames ∧
    a'.Mapped := by
  obtain ⟨_, _, _, hkept, hframes, ha'⟩ := AddrSpace.translate_kept vaddr rw ha
  cases hkept.symm.trans hrun
  exact ⟨hframes, ha'⟩

theorem AddrSpace.loadSegment_kept {e : Executable} {seg : Segment}
    {rw : Bool} {s s' : AddrSpace × Memory} (hs : s.1.Mapped)
    (hrun : loadSegment e seg rw s = .ok s') : s'.1.frames = s.1.frames ∧
    s'.1.Mapped := by
  have hround : ∀ (p : AddrSpace × Memory) (i : Nat) p',
      p.1.frames = s.1.frames ∧ p.1.Mapped →
      loadPage e seg rw p i = .ok p' → p'.1.frames = s.1.frames ∧
          p'.1.Mapped := by
    intro p i p' hp hpage
    obtain ⟨⟨ex, paddr, b⟩, htranslate, hpage⟩ := Outcome.bind_eq_ok.mp hpage
    obtain ⟨_, _, hpage⟩ := Outcome.bind_eq_ok.mp hpage
    obtain ⟨mem', _, hpage⟩ := Outcome.bind_eq_ok.mp hpage
    cases hpage
    obtain ⟨hframes, hb⟩ := hp.2.translate htranslate
    exact ⟨hframes.trans hp.1, hb⟩
  rw [loadSegment] at hrun
  split at hrun
  · exact Outcome.foldlM_inv hround ⟨rfl, hs⟩ hrun
  · cases hrun
    exact ⟨rfl, hs⟩

theorem AddrSpace.markReadOnly_kept {seg : Segment} (ha : a.Mapped)
    (hrun : markReadOnly seg a = .ok a') :
    a'.frames = a.frames ∧ a'.Mapped := by
  have hround : ∀ (b : AddrSpace) (i : Nat) b', b.frames = a.frames ∧ b.Mapped →
      markPage seg b i = .ok b' →
      b'.frames = a.frames ∧ b'.Mapped := by
    intro b i b' hb hpage
    rw [markPage] at hpage
    split at hpage
    · cases hpage
      exact ⟨(b.frames_setReadOnly _).trans hb.1, hb.2.setReadOnly _⟩
    · cases hpage
  rw [markReadOnly] at hrun
  split at hrun
  · exact Outcome.foldlM_inv hround ⟨rfl, ha⟩ hrun
  · cases hrun
    exact ⟨rfl, ha⟩

theorem AddrSpace.load_some {e : Executable}
    {loaded : Bool} (hfree : ∀ f ∈ ft.available, f < NumPhysPages)
    (hrun : a.load (some e) ft mem = .ok (loaded, a', ft', mem')) :
    loaded = true ∧ a'.Mapped ∧ a'.frames = ft.available.take e.noffH.numPages ∧
      ft' = ⟨ft.available.drop e.noffH.numPages⟩ := by
  obtain ⟨_, _, hrun⟩ := Outcome.bind_eq_ok.mp hrun
  obtain ⟨⟨ptb, ft₁, mem₁⟩, halloc, hrun⟩ := Outcome.bind_eq_ok.mp hrun
  obtain ⟨_, hptb, hrun⟩ := Outcome.bind_eq_ok.mp hrun
  obtain ⟨⟨a₁, m₁⟩, h₁, hrun⟩ := Outcome.bind_eq_ok.mp hrun
  obtain ⟨⟨a₂, m₂⟩, h₂, hrun⟩ := Outcome.bind_eq_ok.mp hrun
  obtain ⟨a₃, h₃, hrun⟩ := Outcome.bind_eq_ok.mp hrun
  obtain ⟨⟨a₄, m₄⟩, h₄, hrun⟩ := Outcome.bind_eq_ok.mp hrun
  cases hrun
  rcases Nat.lt_or_ge ft.remainSize e.noffH.numPages with hn | hn
  · cases (FrameTable.allocate_null hn).symm.trans halloc
    cases hptb
  · obtain ⟨t, _, halloc', hlen, hframes⟩ := @FrameTable.allocate_ok ft mem _ hn
    cases halloc'.symm.trans halloc
    have ha : Mapped ⟨some t, e.noffH.numPages⟩ := by
      refine ⟨⟨t, rfl, hlen⟩, fun f hf => ?_⟩
      rw [frames_mk, hframes] at hf
      exact hfree f (List.mem_of_mem_take hf)
    obtain ⟨hf₁, ha₁⟩ := loadSegment_kept ha h₁
    obtain ⟨hf₂, ha₂⟩ := loadSegment_kept ha₁ h₂
    obtain ⟨hf₃, ha₃⟩ := markReadOnly_kept ha₂ h₃
    obtain ⟨hf₄, ha₄⟩ := loadSegment_kept ha₃ h₄
    refine ⟨rfl, ha₄, ?_, rfl⟩
    calc a'.frames
        _ = a₃.frames := hf₄
        _ = a₂.frames := hf₃
        _ = a₁.frames := hf₂
        _ = t.map (·.physicalPage) := hf₁
        _ = ft.available.take e.noffH.numPages := hframes

end

end EroikoBlue.MP2
