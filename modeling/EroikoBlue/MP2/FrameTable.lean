/-
# `MP2.FrameTable` — physical frames and page tables

`FrameTable` keeps the numbers of the free frames in a list; `Allocate` takes
them from its front, `Release` puts them at its end.  A page table is the array
`Allocate` returns, and the `AddrSpace` that asked for it is the only one to
hold it, so the table is a part of the address space here.

    Pool         the free list, and the address spaces that hold a table
    Pool.Whole   each frame is free or in one table, and in one place only

`frames_conserved` is the statement for all sequences of calls.

## Where a frame can be

`Partition` is the invariant: the free list and the tables together are a
permutation of the frame numbers.  One equation gives everything that is asked:
the numbers add up, no frame is in two tables, none is lost and none is
invented.  Each call moves frames from one part of it to another, and there is a
lemma for each (`Whole.allocate`, `Whole.release` and so on), from which
`run_whole` is an induction over the calls.

`Allocate` answers NULL just when there are fewer frames than it was asked for,
and takes none of them then.
-/
import Mathlib.Data.List.Nodup
import Mathlib.Data.List.Range
import EroikoBlue.LinkedList
import EroikoBlue.Lib.Bytes
import EroikoBlue.Lib.Focus

namespace EroikoBlue.MP2

open Bytes (Byte)

abbrev PageSize : Nat := 128
abbrev NumPhysPages : Nat := 128
abbrev MemorySize : Nat := NumPhysPages * PageSize

inductive ExceptionType where
  | NoException
  | SyscallException
  | PageFaultException
  | ReadOnlyException
  | BusErrorException
  | AddressErrorException
  | OverflowException
  | IllegalInstrException
  | MemoryLimitException
  deriving DecidableEq, Repr

structure TranslationEntry where
  virtualPage : Nat
  physicalPage : Nat
  valid : Bool
  readOnly : Bool
  use : Bool
  dirty : Bool
  deriving DecidableEq, Repr

abbrev PageTable := List TranslationEntry

/-- `machine->mainMemory`. -/
abbrev Memory := Nat → Byte

/-- `bzero(mainMemory + addr, n)`. -/
def bzero (mem : Memory) (addr n : Nat) : Memory := fun a => if addr ≤ a ∧
    a < addr + n then 0 else mem a

/-- A copy of `bytes` to `mainMemory + addr`. -/
def Memory.write (mem : Memory) (addr : Nat) (bytes : List Byte) :
    Except Fault Memory :=
  if MemorySize < addr + bytes.length then
    .error (.undefined "a write past the end of mainMemory")
  else pure fun a => if addr ≤ a then bytes[a - addr]?.getD (mem a) else mem a

/-- `ptb[i]`. -/
def PageTable.entry (ptb : PageTable) (i : Nat) :
    Except Fault TranslationEntry :=
  match ptb[i]? with
  | some pte => pure pte
  | none => .error (.undefined "an index outside the page table")

/-! ## `FrameTable` -/

structure FrameTable where
  available : List Nat

namespace FrameTable

/-- `FrameTable()`. -/
def new : Except Fault FrameTable := do
  let available ← (List.range NumPhysPages).foldlM LinkedList.append []
  pure ⟨available⟩

/-- `RemainSize`. -/
def remainSize (ft : FrameTable) : Nat := ft.available.length

/-- The loop of `Allocate`, from page `i` on; `n` pages are still to be made. -/
def allocateLoop (i : Nat) : Nat → List Nat → Memory →
    Except Fault (PageTable × List Nat × Memory)
  | 0, available, mem => pure ([], available, mem)
  | n + 1, available, mem => do
    let (f, available) ← LinkedList.removeFront available
    let pte := { virtualPage := i, physicalPage := f, valid := true, readOnly := false, use := false, dirty := false }
    let (ptb, available, mem) ←
      allocateLoop (i + 1) n available (bzero mem (f * PageSize) PageSize)
    pure (pte :: ptb, available, mem)

/-- `Allocate`; `none` is NULL. -/
def allocate (ft : FrameTable) (mem : Memory) (pageNum : Nat) :
    Except Fault (Option PageTable × FrameTable × Memory) :=
  if ft.remainSize < pageNum then pure (none, ft, mem)
  else do
    let (ptb, available, mem) ← allocateLoop 0 pageNum ft.available mem
    pure (some ptb, ⟨available⟩, mem)

/-- `Release`. -/
def release (ft : FrameTable) (ptb : Option PageTable) (pageNum : Nat) :
    Except Fault FrameTable :=
  match ptb with
  | none => pure ft
  | some ptb => do
    let available ← (List.range pageNum).foldlM (fun available i => do
      let pte ← ptb.entry i
      LinkedList.append available pte.physicalPage) ft.available
    pure ⟨available⟩

end FrameTable

/-! ## `AddrSpace` -/

structure AddrSpace where
  pageTable : Option PageTable
  numPages : Nat

namespace AddrSpace

/-- `AddrSpace()`; `numPages` is not set. -/
def new : AddrSpace where
  pageTable := none
  numPages := 0

/-- `Translate`: the exception, and with `NoException` also `*paddr` and the
flags it sets. -/
def translate (a : AddrSpace) (vaddr : Nat) (isReadWrite : Bool) :
    Except Fault (ExceptionType × Nat × AddrSpace) := do
  let vpn := vaddr / PageSize
  let offset := vaddr % PageSize
  if a.numPages ≤ vpn then pure (.AddressErrorException, 0, a)
  else match a.pageTable with
    | none => .error (.undefined "NULL is used as a page table")
    | some ptb => do
      let pte ← ptb.entry vpn
      if isReadWrite ∧ pte.readOnly then pure (.ReadOnlyException, 0, a)
      else if NumPhysPages ≤ pte.physicalPage then
        pure (.BusErrorException, 0, a)
      else do
        let pte := { pte with use := true, dirty := pte.dirty || isReadWrite }
        let paddr := pte.physicalPage * PageSize + offset
        assertMsg (paddr < MemorySize) ""
        pure (.NoException, paddr,
          { a with pageTable := some (ptb.set vpn pte) })

/-- `pageTable[page].readOnly = TRUE` in `Load`. -/
def setReadOnly (a : AddrSpace) (page : Nat) : AddrSpace :=
  { a with pageTable := a.pageTable.map (List.modify · page fun pte => { pte with readOnly := true }) }

/-- The frames of the page table. -/
def frames (a : AddrSpace) : List Nat :=
  (a.pageTable.getD []).map (·.physicalPage)

end AddrSpace

/-! ## What the calls do to the free list -/

section
variable {l fs : List Nat} {ft : FrameTable} {mem : Memory} {n : Nat}

theorem appendAll_ok : ∀ {fs l : List Nat}, (l ++ fs).Nodup →
    fs.foldlM LinkedList.append l = .ok (l ++ fs)
  | [], l, _ => by
      rw [List.append_nil]
      rfl
  | f :: fs, l, h => by
      have hf : f ∉ l :=
        fun hmem => (List.nodup_append.mp h).2.2 f hmem f (.head _) rfl
      have hl : ((l ++ [f]) ++ fs).Nodup := by
        rw [List.append_assoc]
        exact h
      rw [List.foldlM_cons, LinkedList.append_ok hf, Outcome.ok_bind,
        appendAll_ok hl, List.append_assoc]
      rfl

theorem FrameTable.new_ok : FrameTable.new = .ok ⟨List.range NumPhysPages⟩ := by
  rw [new, appendAll_ok (show ([] ++ List.range NumPhysPages).Nodup
    from List.nodup_range)]
  rfl

theorem FrameTable.allocateLoop_ok :
    ∀ {n i : Nat} {l : List Nat} {mem : Memory}, n ≤ l.length →
    ∃ ptb mem', allocateLoop i n l mem = .ok (ptb, l.drop n, mem') ∧
      ptb.map (·.physicalPage) = l.take n
  | 0, _, _, mem, _ => ⟨[], mem, rfl, rfl⟩
  | n + 1, i, f :: l, mem, h => by
      obtain ⟨ptb, mem', hrun, hptb⟩ :=
        @allocateLoop_ok n (i + 1) l (bzero mem (f * PageSize) PageSize)
          (Nat.le_of_succ_le_succ h)
      refine ⟨⟨i, f, true, false, false, false⟩ :: ptb, mem', ?_,
        congrArg (f :: ·) hptb⟩
      rw [allocateLoop, LinkedList.removeFront, Outcome.pure_eq_ok,
        Outcome.ok_bind]
      dsimp only
      rw [hrun]
      rfl

theorem FrameTable.allocate_null (h : ft.remainSize < n) :
    ft.allocate mem n = .ok (none, ft, mem) := if_pos h

theorem FrameTable.allocate_ok (h : n ≤ ft.remainSize) : ∃ ptb mem',
    ft.allocate mem n = .ok (some ptb, ⟨ft.available.drop n⟩, mem') ∧
      ptb.length = n ∧
      ptb.map (·.physicalPage) = ft.available.take n := by
  obtain ⟨ptb, mem', hrun, hptb⟩ := @allocateLoop_ok n 0 ft.available mem h
  have hlen : ptb.length = n := by
    rw [← List.length_map, hptb, List.length_take]
    exact Nat.min_eq_left h
  refine ⟨ptb, mem', ?_, hlen, hptb⟩
  rw [allocate, if_neg (Nat.not_lt.mpr h), hrun]
  rfl

theorem FrameTable.release_ok {ptb : PageTable}
    (h : (ft.available ++ ptb.map (·.physicalPage)).Nodup) :
    ft.release (some ptb) ptb.length =
      .ok ⟨ft.available ++ ptb.map (·.physicalPage)⟩ := by
  have hloop : ∀ (rest pre : PageTable) (l : List Nat), pre ++ rest = ptb →
      (List.range' pre.length rest.length).foldlM (fun available i => do
        let pte ← ptb.entry i
        LinkedList.append available pte.physicalPage) l =
            (rest.map (·.physicalPage)).foldlM LinkedList.append l := by
    intro rest
    induction rest with
    | nil => exact fun _ _ _ => rfl
    | cons pte rest ih =>
        intro pre l heq
        have hentry : ptb.entry pre.length = .ok pte := by
          rw [PageTable.entry, ← heq,
            List.getElem?_append_right (Nat.le_refl _), Nat.sub_self]
          rfl
        rw [List.length_cons, List.range'_succ, List.foldlM_cons, hentry,
          Outcome.ok_bind, List.map_cons,
          List.foldlM_cons]
        refine bind_congr fun l' => ?_
        have hrest :=
          ih (pre ++ [pte]) l' (by rw [List.append_assoc]; exact heq)
        rw [List.length_append] at hrest
        exact hrest
  have hrun := hloop ptb [] ft.available rfl
  rw [release, List.range_eq_range']
  rw [show (List.range' 0 ptb.length) =
    List.range' ([] : PageTable).length ptb.length from rfl, hrun,
    appendAll_ok h]
  rfl

end

/-! ## Translation -/

namespace AddrSpace

/-- The page table is as long as `numPages` says, and its frames exist. -/
structure Mapped (a : AddrSpace) : Prop where
  table : ∃ ptb, a.pageTable = some ptb ∧ ptb.length = a.numPages
  frames : ∀ f ∈ a.frames, f < NumPhysPages

theorem frames_mk (ptb : PageTable) (n : Nat) :
    frames ⟨some ptb, n⟩ = ptb.map (·.physicalPage) := rfl

theorem translate_out {a : AddrSpace} {vaddr : Nat} (rw : Bool)
    (h : a.numPages * PageSize ≤ vaddr) :
    a.translate vaddr rw = .ok (.AddressErrorException, 0, a) :=
  if_pos ((Nat.le_div_iff_mul_le (by decide)).mpr h)

theorem paddr_lt {f vaddr : Nat} (h : f < NumPhysPages) :
    f * PageSize + vaddr % PageSize < MemorySize :=
  calc f * PageSize + vaddr % PageSize
      < f * PageSize + PageSize :=
        Nat.add_lt_add_left (Nat.mod_lt _ (by decide)) _
    _ = (f + 1) * PageSize := (Nat.succ_mul ..).symm
    _ ≤ MemorySize := Nat.mul_le_mul_right _ h

theorem translate_page {ptb : PageTable} {n vaddr : Nat}
    (rw : Bool) (hlen : ptb.length = n) (hvpn : vaddr / PageSize < ptb.length)
    (hframe : ptb[vaddr / PageSize].physicalPage < NumPhysPages) :
    translate ⟨some ptb, n⟩ vaddr rw =
      if rw ∧ ptb[vaddr / PageSize].readOnly then
        .ok (.ReadOnlyException, 0, ⟨some ptb, n⟩)
      else .ok (.NoException,
        ptb[vaddr / PageSize].physicalPage * PageSize + vaddr % PageSize,
        ⟨some (ptb.set (vaddr / PageSize) { ptb[vaddr / PageSize] with
          use := true, dirty := ptb[vaddr / PageSize].dirty || rw }), n⟩) := by
  have hentry : ptb.entry (vaddr / PageSize) = .ok ptb[vaddr / PageSize] := by
    rw [PageTable.entry, List.getElem?_eq_getElem hvpn]
    rfl
  rw [translate]
  dsimp only
  rw [if_neg (Nat.not_le.mpr (hvpn.trans_eq hlen)), hentry, Outcome.ok_bind,
    if_neg (Nat.not_le.mpr hframe),
    assertMsg_pos (paddr_lt hframe)]
  rfl

theorem translate_in {a : AddrSpace} {vaddr : Nat} (rw : Bool) (ha : a.Mapped)
    (h : vaddr < a.numPages * PageSize) :
    ∃ f a', a.frames[vaddr / PageSize]? = some f ∧
      a'.frames = a.frames ∧ a'.Mapped ∧
      (a.translate vaddr rw = .ok (.NoException,
        f * PageSize + vaddr % PageSize, a') ∨
        rw = true ∧ a.translate vaddr rw = .ok (.ReadOnlyException,
          0, a')) := by
  obtain ⟨pageTable, numPages⟩ := a
  obtain ⟨⟨ptb, hptb, hlen⟩, hframes⟩ := ha
  cases hptb
  have hvpn : vaddr / PageSize < ptb.length :=
    (Nat.div_lt_of_lt_mul (Nat.mul_comm .. ▸ h)).trans_eq hlen.symm
  have hframe := hframes _ (List.mem_map.mpr ⟨_, List.getElem_mem hvpn, rfl⟩)
  have hfind : (frames ⟨some ptb, numPages⟩)[vaddr / PageSize]? =
      some ptb[vaddr / PageSize].physicalPage := by
    rw [frames_mk, List.getElem?_map, List.getElem?_eq_getElem hvpn]
    rfl
  have hrun := translate_page rw hlen hvpn hframe
  split at hrun
  · next hread => exact ⟨_, _, hfind, rfl, ⟨⟨ptb, rfl, hlen⟩, hframes⟩,
      .inr ⟨hread.1, hrun⟩⟩
  · have hsame :
        frames ⟨some (ptb.set (vaddr / PageSize) { ptb[vaddr / PageSize] with
        use := true, dirty := ptb[vaddr / PageSize].dirty || rw }), numPages⟩ =
            frames ⟨some ptb, numPages⟩ := by
      rw [frames_mk, frames_mk, List.map_set]
      refine List.ext_getElem? fun i => ?_
      grind
    refine ⟨_, _, hfind, hsame, ⟨⟨_, rfl, (List.length_set ..).trans hlen⟩, ?_⟩,
      .inl hrun⟩
    rw [hsame]
    exact hframes

/-- `Translate` leaves the table with the frames it has, whatever the
address. -/
theorem translate_kept {a : AddrSpace} (vaddr : Nat) (rw : Bool)
    (ha : a.Mapped) :
    ∃ ex paddr a', a.translate vaddr rw = .ok (ex, paddr, a') ∧
      a'.frames = a.frames ∧ a'.Mapped := by
  rcases Nat.lt_or_ge vaddr (a.numPages * PageSize) with h | h
  · obtain ⟨f, a', _, hsame, ha', hrun | ⟨_, hrun⟩⟩ := translate_in rw ha h
    · exact ⟨_, _, _, hrun, hsame, ha'⟩
    · exact ⟨_, _, _, hrun, hsame, ha'⟩
  · exact ⟨_, _, _, translate_out rw h, rfl, ha⟩

theorem frames_setReadOnly (a : AddrSpace) (page : Nat) : (a.setReadOnly page).frames = a.frames := by
  obtain ⟨_ | ptb, n⟩ := a
  · rfl
  · rw [setReadOnly, Option.map_some, frames_mk, frames_mk]
    refine List.ext_getElem? fun i => ?_
    grind

theorem Mapped.setReadOnly {a : AddrSpace} (ha : a.Mapped) (page : Nat) :
    (a.setReadOnly page).Mapped := by
  refine ⟨?_, frames_setReadOnly a page ▸ ha.frames⟩
  obtain ⟨ptb, hptb, hlen⟩ := ha.table
  exact ⟨_, congrArg (Option.map _) hptb, (List.length_modify ..).trans hlen⟩

end AddrSpace

/-! ## The pool -/

structure Pool where
  frameTable : FrameTable
  mainMemory : Memory
  /-- The address spaces whose page tables have not been released. -/
  live : List AddrSpace

/-- What is done to the frame table, and in between to memory and to the flags
of pages. -/
inductive Call where
  | allocate (pageNum : Nat)
  | release (i : Nat)
  | translate (i vaddr : Nat) (isReadWrite : Bool)
  | setReadOnly (i page : Nat)
  | store (mem : Memory)

namespace Pool

def new (mem : Memory) : Except Fault Pool := do
  let frameTable ← FrameTable.new
  pure ⟨frameTable, mem, []⟩

/-- A call for the `i`-th live address space.  There is none after it was
released. -/
def onLive (p : Pool) (i : Nat) (f : AddrSpace → Except Fault Pool) :
    Except Fault Pool :=
  match p.live[i]? with
  | none => pure p
  | some a => f a

def call (p : Pool) : Call → Except Fault Pool
  | .allocate pageNum => do
    let (ptb, frameTable, mainMemory) ←
      p.frameTable.allocate p.mainMemory pageNum
    match ptb with
    | none => pure ⟨frameTable, mainMemory, p.live⟩
    | some ptb => pure ⟨frameTable, mainMemory, p.live ++ [⟨some ptb, pageNum⟩]⟩
  | .release i => p.onLive i fun a => do
    let frameTable ← p.frameTable.release a.pageTable a.numPages
    pure ⟨frameTable, p.mainMemory, p.live.eraseIdx i⟩
  | .translate i vaddr isReadWrite => p.onLive i fun a => do
    let (_, _, a) ← a.translate vaddr isReadWrite
    pure { p with live := p.live.set i a }
  | .setReadOnly i page => p.onLive i fun a =>
      pure { p with live := p.live.set i (a.setReadOnly page) }
  | .store mem => pure { p with mainMemory := mem }

/-- A sequence of calls, on fresh memory. -/
def run (mem : Memory) (calls : List Call) : Except Fault Pool := do
  let p ← new mem
  calls.foldlM call p

/-- Each frame is free or in one page table, and in one place only. -/
def Partition (available : List Nat) (spaces : List AddrSpace) : Prop :=
  (available ++ spaces.flatMap AddrSpace.frames).Perm (List.range NumPhysPages)

structure Whole (p : Pool) : Prop where
  frames : Partition p.frameTable.available p.live
  tables : ∀ a ∈ p.live, ∃ ptb, a.pageTable = some ptb ∧ ptb.length = a.numPages

namespace Partition

variable {l l' : List Nat} {spaces : List AddrSpace}
  {a b : AddrSpace} {i j : Nat}

theorem nodup (h : Partition l spaces) :
    (l ++ spaces.flatMap AddrSpace.frames).Nodup :=
  h.nodup_iff.mpr List.nodup_range

theorem lt (h : Partition l spaces) (ha : a ∈ spaces) :
    ∀ f ∈ a.frames, f < NumPhysPages := fun _ hf =>
  List.mem_range.mp
    (h.mem_iff.mp (List.mem_append_right _ (List.mem_flatMap.mpr ⟨a, ha, hf⟩)))

theorem perm_around {l₁ l₂ : List AddrSpace} :
    (l ++ (l₁ ++ a :: l₂).flatMap AddrSpace.frames).Perm
    ((l ++ a.frames) ++ (l₁ ++ l₂).flatMap AddrSpace.frames) := by
  rw [List.flatMap_append, List.flatMap_append, List.flatMap_cons,
    List.append_assoc, ← List.append_assoc _ a.frames,
    ← List.append_assoc a.frames]
  exact (List.perm_append_comm.append_right _).append_left _

/-- An address space is replaced, and the free list pays for it. -/
theorem set (h : Partition l spaces) (ha : spaces[i]? = some a)
    (hperm : (l' ++ b.frames).Perm (l ++ a.frames)) :
    Partition l' (spaces.set i b) := by
  obtain ⟨l₁, l₂, rfl, -, hset⟩ := Focus.around ha
  rw [hset b]
  exact perm_around.trans
    ((hperm.append_right _).trans (perm_around.symm.trans h))

theorem eraseIdx (h : Partition l spaces) (ha : spaces[i]? = some a) :
    Partition (l ++ a.frames) (spaces.eraseIdx i) := by
  obtain ⟨l₁, l₂, rfl, herase, -⟩ := Focus.around ha
  rw [herase]
  exact perm_around.symm.trans h

theorem append (h : Partition l spaces) (hperm : (l' ++ b.frames).Perm l) :
    Partition l' (spaces ++ [b]) := by
  have haround := @perm_around l' b spaces []
  rw [List.append_nil] at haround
  exact haround.trans ((hperm.append_right _).trans h)

theorem nodup_release (h : Partition l spaces) (ha : spaces[i]? = some a) :
    (l ++ a.frames).Nodup := by
  obtain ⟨l₁, l₂, rfl, -, -⟩ := Focus.around ha
  exact (List.nodup_append.mp (perm_around.nodup_iff.mp h.nodup)).1

theorem length_le (h : Partition l spaces) (ha : spaces[i]? = some a) :
    a.frames.length ≤ NumPhysPages := by
  obtain ⟨l₁, l₂, rfl, -, -⟩ := Focus.around ha
  have hlen := (perm_around.symm.trans h).length_eq
  rw [List.length_append, List.length_append, List.length_range] at hlen
  exact (Nat.le_add_left ..).trans ((Nat.le_add_right ..).trans_eq hlen)

/-- Two address spaces have no frame in common. -/
theorem disjoint (h : Partition l spaces) (ha : spaces[i]? = some a)
    (hb : spaces[j]? = some b) (hij : i ≠ j) :
    a.frames.Disjoint b.frames := by
  have hpair := (List.nodup_flatMap.mp (List.nodup_append.mp h.nodup).2.1).2
  obtain ⟨hi, rfl⟩ := List.getElem?_eq_some_iff.mp ha
  obtain ⟨hj, rfl⟩ := List.getElem?_eq_some_iff.mp hb
  rcases Nat.lt_or_gt_of_ne hij with hlt | hlt
  · exact List.pairwise_iff_getElem.mp hpair i j hi hj hlt
  · exact fun f hfa hfb =>
      List.pairwise_iff_getElem.mp hpair j i hj hi hlt hfb hfa

end Partition

section
variable {p : Pool} {a b : AddrSpace} {i j : Nat}

theorem Whole.mapped (h : p.Whole) (ha : a ∈ p.live) : a.Mapped :=
  ⟨h.tables a ha, h.frames.lt ha⟩

theorem onLive_some {f : AddrSpace → Except Fault Pool}
    (h : p.live[i]? = some a) : p.onLive i f = f a := by
  rw [onLive, h]

theorem onLive_none {f : AddrSpace → Except Fault Pool}
    (h : p.live[i]? = none) : p.onLive i f = .ok p := by
  rw [onLive, h]
  rfl

theorem Whole.set (h : p.Whole) (ha : p.live[i]? = some a)
    (hframes : b.frames = a.frames) (hb : b.Mapped) :
    Whole { p with live := p.live.set i b } := by
  refine ⟨h.frames.set ha (.of_eq (congrArg (_ ++ ·) hframes)), ?_⟩
  intro x hx
  rcases List.mem_or_eq_of_mem_set hx with hx | rfl
  · exact h.tables x hx
  · exact hb.table

theorem Whole.store (h : p.Whole) (mem : Memory) :
    Whole { p with mainMemory := mem } := ⟨h.frames, h.tables⟩

/-! One lemma for each call. -/

theorem Whole.allocate (h : p.Whole) (pageNum : Nat) :
    ∃ p', p.call (.allocate pageNum) = .ok p' ∧ p'.Whole := by
  rcases Nat.lt_or_ge p.frameTable.remainSize pageNum with hn | hn
  · refine ⟨p, ?_, h⟩
    rw [call, FrameTable.allocate_null hn]
    rfl
  · obtain ⟨ptb, mem, hrun, hlen, hptb⟩ :=
      @FrameTable.allocate_ok p.frameTable p.mainMemory pageNum hn
    refine ⟨⟨⟨p.frameTable.available.drop pageNum⟩, mem,
      p.live ++ [⟨some ptb, pageNum⟩]⟩, ?_, ?_, ?_⟩
    · rw [call, hrun]
      rfl
    · refine h.frames.append ?_
      rw [AddrSpace.frames_mk, hptb]
      exact List.perm_append_comm.trans (.of_eq (List.take_append_drop ..))
    · intro a ha
      rcases List.mem_append.mp ha with ha | ha
      · exact h.tables a ha
      · cases List.mem_singleton.mp ha
        exact ⟨ptb, rfl, hlen⟩

/-- The frames of a live address space go back without being found on the
list. -/
theorem Whole.release_ok (h : p.Whole) (ha : p.live[i]? = some a) :
    p.frameTable.release a.pageTable a.numPages =
      .ok ⟨p.frameTable.available ++ a.frames⟩ := by
  have hnodup := h.frames.nodup_release ha
  obtain ⟨ptb, hptb, hlen⟩ := h.tables a (List.mem_of_getElem? ha)
  have hframes : a.frames = ptb.map (·.physicalPage) := by
    rw [AddrSpace.frames, hptb]
    rfl
  rw [hframes] at hnodup ⊢
  rw [hptb, ← hlen]
  exact FrameTable.release_ok hnodup

theorem Whole.release (h : p.Whole) (i : Nat) :
    ∃ p', p.call (.release i) = .ok p' ∧ p'.Whole := by
  cases ha : p.live[i]? with
  | none => exact ⟨p, onLive_none ha, h⟩
  | some a =>
      refine ⟨⟨⟨p.frameTable.available ++ a.frames⟩, p.mainMemory,
        p.live.eraseIdx i⟩, ?_, h.frames.eraseIdx ha, ?_⟩
      · rw [call, onLive_some ha, h.release_ok ha]
        rfl
      · exact fun x hx => h.tables x (List.mem_of_mem_eraseIdx hx)

theorem Whole.translate (h : p.Whole) (i vaddr : Nat) (isReadWrite : Bool) :
    ∃ p', p.call (.translate i vaddr isReadWrite) = .ok p' ∧ p'.Whole := by
  cases ha : p.live[i]? with
  | none => exact ⟨p, onLive_none ha, h⟩
  | some a =>
      obtain ⟨ex, paddr, a', hrun, hsame, ha'⟩ :=
        AddrSpace.translate_kept vaddr isReadWrite
          (h.mapped (List.mem_of_getElem? ha))
      refine ⟨_, ?_, h.set ha hsame ha'⟩
      rw [call, onLive_some ha, hrun]
      rfl

theorem Whole.setReadOnly (h : p.Whole) (i page : Nat) :
    ∃ p', p.call (.setReadOnly i page) = .ok p' ∧ p'.Whole := by
  cases ha : p.live[i]? with
  | none => exact ⟨p, onLive_none ha, h⟩
  | some a =>
      have ha' := (h.mapped (List.mem_of_getElem? ha)).setReadOnly page
      exact ⟨_, onLive_some ha, h.set ha (a.frames_setReadOnly page) ha'⟩

theorem Whole.call (h : p.Whole) :
    ∀ c : Call, ∃ p', p.call c = .ok p' ∧ p'.Whole
  | .allocate pageNum => h.allocate pageNum
  | .release i => h.release i
  | .translate i vaddr isReadWrite => h.translate i vaddr isReadWrite
  | .setReadOnly i page => h.setReadOnly i page
  | .store mem => ⟨_, rfl, h.store mem⟩

theorem Whole.calls (h : p.Whole) (calls : List Call) :
    ∃ p', calls.foldlM Pool.call p = .ok p' ∧ p'.Whole := by
  induction calls generalizing p with
  | nil => exact ⟨p, rfl, h⟩
  | cons c calls ih =>
      obtain ⟨p₁, hrun, h₁⟩ := h.call c
      obtain ⟨p', hrest, h'⟩ := ih h₁
      refine ⟨p', ?_, h'⟩
      rw [List.foldlM_cons, hrun]
      exact hrest

theorem run_whole (mem : Memory) (calls : List Call) :
    ∃ p, run mem calls = .ok p ∧ p.Whole := by
  have hstart : Whole ⟨⟨List.range NumPhysPages⟩, mem, []⟩ :=
    ⟨.of_eq (List.append_nil _), nofun⟩
  obtain ⟨p, hrun, hp⟩ := hstart.calls calls
  refine ⟨p, ?_, hp⟩
  rw [run, new, FrameTable.new_ok]
  exact hrun

theorem paddr_div {f vaddr : Nat} :
    (f * PageSize + vaddr % PageSize) / PageSize = f := by
  rw [Nat.mul_comm, Nat.mul_add_div (by decide),
    Nat.div_eq_of_lt (Nat.mod_lt _ (by decide)), Nat.add_zero]

theorem Whole.paddr_ne (h : p.Whole)
    (ha : p.live[i]? = some a) (hb : p.live[j]? = some b)
    (hij : i ≠ j) {va vb pa pb : Nat} {rwa rwb : Bool} {a' b' : AddrSpace}
    (hva : va < a.numPages * PageSize) (hvb : vb < b.numPages * PageSize)
    (hpa : a.translate va rwa = .ok (.NoException, pa, a'))
    (hpb : b.translate vb rwb = .ok (.NoException, pb, b')) : pa ≠ pb := by
  obtain ⟨f, _, hf, _, _, hrun | ⟨_, hrun⟩⟩ :=
    AddrSpace.translate_in rwa (h.mapped (List.mem_of_getElem? ha)) hva
  · obtain ⟨g, _, hg, _, _, hrun' | ⟨_, hrun'⟩⟩ :=
      AddrSpace.translate_in rwb (h.mapped (List.mem_of_getElem? hb)) hvb
    · cases hrun.symm.trans hpa
      cases hrun'.symm.trans hpb
      intro heq
      have hfg : f = g := by rw [← @paddr_div f va, heq, paddr_div]
      exact h.frames.disjoint ha hb hij (List.mem_of_getElem? hf)
        (hfg ▸ List.mem_of_getElem? hg)
    · cases hrun'.symm.trans hpb
  · cases hrun.symm.trans hpa

/-- What the frame table promises those who hold its page tables. -/
structure Conserved (p : Pool) : Prop where
  nodup : p.frameTable.available.Nodup
  frames : (p.frameTable.available ++ p.live.flatMap AddrSpace.frames).Perm
    (List.range NumPhysPages)
  allocate : ∀ pageNum, ∃ ptb frameTable mem,
    p.frameTable.allocate p.mainMemory pageNum = .ok (ptb, frameTable, mem) ∧
      (ptb = none ↔ p.frameTable.remainSize < pageNum) ∧
      (ptb = none → frameTable = p.frameTable ∧ mem = p.mainMemory) ∧
        ∀ t, ptb = some t → t.length = pageNum
  release : ∀ a ∈ p.live, ∃ frameTable,
    p.frameTable.release a.pageTable a.numPages = .ok frameTable
  translate : ∀ a ∈ p.live, ∀ vaddr isReadWrite, ∃ r,
    a.translate vaddr isReadWrite = .ok r
  separate : ∀ (i j : Nat) (a b : AddrSpace), p.live[i]? = some a →
    p.live[j]? = some b → i ≠ j →
    ∀ va vb, va < a.numPages * PageSize → vb < b.numPages * PageSize →
    ∀ (rwa rwb : Bool) (pa pb : Nat) (a' b' : AddrSpace),
      a.translate va rwa = .ok (.NoException, pa, a') →
      b.translate vb rwb = .ok (.NoException, pb, b') → pa ≠ pb

theorem frames_conserved (mem : Memory) (calls : List Call) :
    ∃ p, run mem calls = .ok p ∧ p.Conserved := by
  obtain ⟨p, hrun, h⟩ := run_whole mem calls
  refine ⟨p, hrun, ?_⟩
  constructor
  case nodup => exact (List.nodup_append.mp h.frames.nodup).1
  case frames => exact h.frames
  case allocate =>
    intro pageNum
    rcases Nat.lt_or_ge p.frameTable.remainSize pageNum with hn | hn
    · exact ⟨_, _, _, FrameTable.allocate_null hn, iff_of_true rfl hn,
        fun _ => ⟨rfl, rfl⟩, nofun⟩
    · obtain ⟨ptb, mem', halloc, hlen, _⟩ :=
        @FrameTable.allocate_ok p.frameTable p.mainMemory pageNum hn
      refine ⟨_, _, _, halloc, iff_of_false nofun (Nat.not_lt.mpr hn), nofun,
        ?_⟩
      rintro _ ⟨⟩
      exact hlen
  case release =>
    intro a ha
    obtain ⟨i, hi⟩ := List.mem_iff_getElem?.mp ha
    exact ⟨_, h.release_ok hi⟩
  case translate =>
    intro a ha vaddr isReadWrite
    obtain ⟨_, _, _, htranslate, _⟩ :=
      AddrSpace.translate_kept vaddr isReadWrite (h.mapped ha)
    exact ⟨_, htranslate⟩
  case separate =>
    intro i j a b ha hb hij va vb hva hvb rwa rwb pa pb a' b' hpa hpb
    exact h.paddr_ne ha hb hij hva hvb hpa hpb

end

end Pool

end EroikoBlue.MP2
