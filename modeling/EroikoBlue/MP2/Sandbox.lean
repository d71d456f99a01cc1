/-
# `MP2.Sandbox` — what one instruction can do

From a machine whose page table gives each page a frame of its own, an
instruction

    reads and writes in those frames only     `Stays`
    does the same in other frames             `Alike`
    has done nothing yet when it raises       `Precise`

and the simulator does not stop, but for one quotient.  Each is a statement
about the accesses (`MP2.Accesses`) and then about every instruction.

## Three results from one induction

For each of the three properties there is a relation between the machines before
and after, a lemma for each access, and a lemma for `Looks`, `Sets` and `Acts`.
That every instruction has the property is then `execute_acts`, and no case of
the `switch` is looked at again.

`Ready` is what the machine needs for it: each page has a frame of its own, and
the number of the register of a delayed load is one of a register.  An
instruction keeps it, so all three hold along a run.
-/
import EroikoBlue.Lib.Lockstep
import EroikoBlue.MP2.Accesses
import EroikoBlue.MP2.View

namespace EroikoBlue.MP2

open Bytes (Byte Word wordBytes byteWord)
open ExceptionType OpCode Register Machine

/-! ## What the parts of an instruction do -/

/-- `registers` after `DelayedLoad`. -/
def loaded (registers : Register → Word) (nextReg : BitVec 5)
    (nextValue : Word) : Register → Word := fun r =>
  if r = 0 then 0
  else if r = LoadValueReg then nextValue
  else if r = LoadReg then nextReg.setWidth 32
  else if r.val = (registers LoadReg).toNat then registers LoadValueReg
  else registers r

def View.byte (w : View) (v : Nat) : Byte := (w.bytes v).getD 0

/-- `size` bytes at `v`, as an `int`. -/
def View.word (w : View) (v : Nat) : Nat → Word
  | 1 => (w.byte v).signExtend 32
  | 2 => (w.byte (v + 1) ++ w.byte v).setWidth 32
  | _ => byteWord (w.byte v) (w.byte (v + 1)) (w.byte (v + 2)) (w.byte (v + 3))

namespace Machine

def space (m : Machine) : AddrSpace := ⟨m.pageTable, m.pageTableSize⟩

/-- What the program sees of memory. -/
def view (m : Machine) : View := m.space.view m.mainMemory

/-- A program can run. -/
structure Ready (m : Machine) : Prop where
  placed : m.space.Placed
  /-- A delayed load is for a general register. -/
  load : (m.registers LoadReg).toNat < NumGPRegs

/-- After the flags are set for an access. -/
def touched (m : Machine) (v : Nat) (writing : Bool) : Machine :=
  { m with pageTable := (m.space.touch (v / PageSize) writing).pageTable }

/-- When the exception handler is called. -/
def raised (m : Machine) (badVAddr : Word) : Machine :=
  { m with registers := loaded (fun r => if r = BadVAddrReg then badVAddr
    else m.registers r) 0 0 }

section
variable {m : Machine} {addr value badVAddr : Word} {size v : Nat}
  {writing : Bool} {which : ExceptionType}

theorem loaded_load (registers : Register → Word) (nextReg : BitVec 5)
    (nextValue : Word) :
    (loaded registers nextReg nextValue LoadReg).toNat < NumGPRegs := by
  have hload : loaded registers nextReg nextValue LoadReg =
    nextReg.setWidth 32 := rfl
  rw [hload, BitVec.toNat_setWidth]
  exact Nat.lt_of_le_of_lt (Nat.mod_le _ _) nextReg.isLt

theorem delayedLoad_eq (h : (m.registers LoadReg).toNat < NumGPRegs)
    (nextReg : BitVec 5) (nextValue : Word) :
    delayedLoad nextReg nextValue m =
      .ok () { m with registers := loaded m.registers nextReg nextValue } := by
  have hlt : (m.registers LoadReg).toNat < NumTotalRegs :=
    Nat.lt_trans h (by decide)
  rw [delayedLoad, Outcome.bind_of_ok (show register LoadReg m =
    .ok (m.registers LoadReg) m from rfl), dif_pos hlt]
  refine congrArg (fun registers => EStateM.Result.ok () { m with registers })
    (funext fun r => ?_)
  rw [loaded]
  simp only [Fin.ext_iff]

theorem raiseException_eq (hm : m.Ready) {α : Type} :
    raiseException (α := α) which badVAddr m =
    .error (.exception which) (m.raised badVAddr) := by
  have hset : setRegister BadVAddrReg badVAddr m =
      .ok () { m with registers := fun r => if r = BadVAddrReg then badVAddr
        else m.registers r } := rfl
  have hload : delayedLoad 0 0 { m with registers := fun r => if r = BadVAddrReg then badVAddr else m.registers r } =
      .ok () (m.raised badVAddr) :=
    @delayedLoad_eq { m with registers := fun r => if r = BadVAddrReg then
      badVAddr else m.registers r } hm.load 0 0
  rw [raiseException, Outcome.bind_of_ok hset, Outcome.bind_of_ok hload]
  rfl

theorem Ready.raised (hm : m.Ready) : (m.raised badVAddr).Ready :=
  ⟨hm.placed, loaded_load (fun r => if r = BadVAddrReg then badVAddr
    else m.registers r) 0 0⟩

theorem Ready.touched (hm : m.Ready) : (m.touched v writing).Ready :=
  ⟨hm.placed.touch, hm.load⟩

theorem Ready.set (hm : m.Ready) {r : Register} (hr : r ≠ LoadReg) :
    Ready { m with registers := fun r' => if r' = r then value
        else m.registers r' } := by
  refine ⟨hm.placed, ?_⟩
  dsimp only
  rw [if_neg hr.symm]
  exact hm.load

theorem Ready.delayed (hm : m.Ready) (nextReg : BitVec 5) (nextValue : Word) :
    Ready { m with registers := loaded m.registers nextReg nextValue } :=
  ⟨hm.placed, loaded_load m.registers nextReg nextValue⟩

theorem Ready.store (hm : m.Ready) (mem : Memory) :
    Ready { m with mainMemory := mem } := ⟨hm.placed, hm.load⟩

theorem view_touched : (m.touched v writing).view =
    m.view.touch (v / PageSize) writing := AddrSpace.view_touch

theorem translate_eq (hm : m.Ready) (hsize : size = 1 ∨ size = 2 ∨ size = 4) :
    translate addr size writing m =
    if m.view.check addr.toNat size writing = NoException then
      .ok (NoException, paddr m.space.frames addr.toNat)
        (m.touched addr.toNat writing)
    else .ok (m.view.check addr.toNat size writing, 0) m := by
  have hrun := @AddrSpace.machineTranslate_view m.space addr.toNat size writing
    m.mainMemory hm.placed hsize
  rw [translate, show machineTranslate m.pageTable m.pageTableSize addr.toNat
    size writing = _ from hrun]
  by_cases hcheck : m.view.check addr.toNat size writing = NoException
  · rw [if_pos hcheck, if_pos (show (m.space.view m.mainMemory).check addr.toNat
      size writing = NoException from hcheck)]
    rfl
  · rw [if_neg hcheck, if_neg (show (m.space.view m.mainMemory).check addr.toNat
      size writing ≠ NoException from hcheck)]
    rfl

theorem view_byte {k : Nat} (hv : v < m.pageTableSize * PageSize)
    (hk : v % PageSize + k < PageSize) :
    m.view.byte (v + k) = m.mainMemory (paddr m.space.frames v + k) := by
  have hin : v + k < m.pageTableSize * PageSize := by
    simp only [PageSize] at *
    omega
  rw [View.byte, show m.view.bytes (v + k) = _ from if_pos hin,
    AddrSpace.paddr_add hk]
  rfl

theorem readMem_eq (hm : m.Ready) (hsize : size = 1 ∨ size = 2 ∨ size = 4) :
    readMem addr size m =
    if m.view.check addr.toNat size false = NoException then
      .ok (m.view.word addr.toNat size) (m.touched addr.toNat false)
    else .error (.exception (m.view.check addr.toNat size false))
      (m.raised addr) := by
  have htranslate := @translate_eq m addr size false hm hsize
  split
  · next hcheck =>
      rw [if_pos hcheck] at htranslate
      rw [readMem, Outcome.bind_of_ok htranslate, if_neg (not_not.mpr rfl)]
      obtain ⟨hin, hpage⟩ := AddrSpace.check_ok hsize hcheck
      have hbyte : ∀ k, k < size → m.view.byte (addr.toNat + k) =
          m.mainMemory (paddr m.space.frames addr.toNat + k) :=
        fun k hk => view_byte hin (by omega)
      rcases hsize with rfl | rfl | rfl
      · rw [View.word, show m.view.byte addr.toNat = _ from hbyte 0 (by decide)]
        rfl
      · rw [View.word, show m.view.byte addr.toNat = _ from hbyte 0 (by decide),
          hbyte 1 (by decide)]
        rfl
      · rw [View.word, show m.view.byte addr.toNat = _ from hbyte 0 (by decide),
          hbyte 1 (by decide),
          hbyte 2 (by decide), hbyte 3 (by decide)]
        · rfl
        all_goals exact fun h => nomatch h
  · next hcheck =>
      rw [if_neg hcheck] at htranslate
      rw [readMem, Outcome.bind_of_ok htranslate, if_pos hcheck,
        raiseException_eq hm]

theorem writeMem_eq (hm : m.Ready) (hsize : size = 1 ∨ size = 2 ∨ size = 4) :
    if m.view.check addr.toNat size true = NoException then
      ∃ mem', writeMem addr size value m = .ok () { m.touched addr.toNat
          true with mainMemory := mem' } ∧
        m.space.view mem' = m.view.write addr.toNat
          ((wordBytes value).take size) ∧
        ∀ x, x / PageSize ≠ paddr m.space.frames addr.toNat / PageSize →
          mem' x = m.mainMemory x
    else writeMem addr size value m = .error
        (.exception (m.view.check addr.toNat size true)) (m.raised addr) := by
  have htranslate := @translate_eq m addr size true hm hsize
  split
  · next hcheck =>
      rw [if_pos hcheck] at htranslate
      obtain ⟨hin, hpage⟩ := AddrSpace.check_ok hsize hcheck
      have hlen : ((wordBytes value).take size).length = size := by
        rcases hsize with rfl | rfl | rfl <;> rfl
      obtain ⟨mem', hrun, hview, hkept⟩ := @AddrSpace.write_view m.space
        m.mainMemory addr.toNat
        ((wordBytes value).take size) hm.placed hin (by rw [hlen]; exact hpage)
      refine ⟨mem', ?_, hview, hkept⟩
      rw [writeMem, Outcome.bind_of_ok htranslate, if_neg (not_not.mpr rfl),
        store, if_pos hsize]
      rw [show (m.touched addr.toNat true).mainMemory.write _ _ = _ from hrun]
  · next hcheck =>
      rw [if_neg hcheck] at htranslate
      rw [writeMem, Outcome.bind_of_ok htranslate, if_pos hcheck,
        raiseException_eq hm]

end

end Machine

/-! ## The same in other frames -/

/-- Two machines look the same to a program. -/
structure Alike (m₁ m₂ : Machine) : Prop where
  ready₁ : m₁.Ready
  ready₂ : m₂.Ready
  registers : m₁.registers = m₂.registers
  view : m₁.view = m₂.view

section
open Lockstep (Steps Results)

variable {m₁ m₂ : Machine} {size : Nat}

theorem Alike.touched (h : Alike m₁ m₂) (v : Nat) (writing : Bool) :
    Alike (m₁.touched v writing) (m₂.touched v writing) where
  ready₁ := h.ready₁.touched
  ready₂ := h.ready₂.touched
  registers := h.registers
  view := by rw [view_touched, view_touched, h.view]

theorem Alike.raised (h : Alike m₁ m₂) (badVAddr : Word) :
    Alike (m₁.raised badVAddr) (m₂.raised badVAddr) where
  ready₁ := h.ready₁.raised
  ready₂ := h.ready₂.raised
  registers := by rw [Machine.raised, Machine.raised, h.registers]
  view := h.view

theorem alike_register (r : Register) : Steps Alike (register r) (register r) :=
  fun _ _ h => ⟨congrFun h.registers r, h⟩

theorem alike_setRegister {r : Register} (hr : r ≠ LoadReg) (value : Word) :
    Steps Alike (setRegister r value) (setRegister r value) := by
  intro m₁ m₂ h
  refine ⟨rfl, h.ready₁.set hr, h.ready₂.set hr, funext fun r' => ?_, h.view⟩
  dsimp only
  rw [h.registers]

theorem alike_delayedLoad (nextReg : BitVec 5) (nextValue : Word) :
    Steps Alike (delayedLoad nextReg nextValue)
      (delayedLoad nextReg nextValue) := by
  intro m₁ m₂ h
  rw [delayedLoad_eq h.ready₁.load, delayedLoad_eq h.ready₂.load]
  refine ⟨rfl, h.ready₁.delayed _ _, h.ready₂.delayed _ _, ?_, h.view⟩
  dsimp only
  rw [h.registers]

theorem alike_raise {α : Type} (which : ExceptionType) (badVAddr : Word) :
    Steps Alike (raiseException (α := α) which badVAddr)
      (raiseException which badVAddr) := by
  intro m₁ m₂ h
  rw [raiseException_eq h.ready₁, raiseException_eq h.ready₂]
  exact ⟨rfl, h.raised badVAddr⟩

theorem alike_readMem (addr : Word) (hsize : size = 1 ∨ size = 2 ∨ size = 4) :
    Steps Alike (readMem addr size) (readMem addr size) := by
  intro m₁ m₂ h
  rw [readMem_eq h.ready₁ hsize, readMem_eq h.ready₂ hsize, h.view]
  split
  · exact ⟨rfl, h.touched _ _⟩
  · exact ⟨rfl, h.raised _⟩

theorem alike_writeMem (addr value : Word)
    (hsize : size = 1 ∨ size = 2 ∨ size = 4) :
    Steps Alike (writeMem addr size value) (writeMem addr size value) := by
  intro m₁ m₂ h
  have h₁ := @writeMem_eq m₁ addr value size h.ready₁ hsize
  have h₂ := @writeMem_eq m₂ addr value size h.ready₂ hsize
  rw [h.view] at h₁
  split at h₁
  · next hcheck =>
      rw [if_pos hcheck] at h₂
      obtain ⟨mem₁, hrun₁, hview₁, _⟩ := h₁
      obtain ⟨mem₂, hrun₂, hview₂, _⟩ := h₂
      rw [hrun₁, hrun₂]
      refine ⟨rfl, h.ready₁.touched.store mem₁, h.ready₂.touched.store mem₂,
        h.registers, ?_⟩
      calc (m₁.space.touch (addr.toNat / PageSize) true).view mem₁
          = (m₁.space.view mem₁).touch (addr.toNat / PageSize) true :=
            AddrSpace.view_touch
        _ = (m₂.space.view mem₂).touch (addr.toNat / PageSize) true := by
          rw [hview₁, hview₂]
        _ = (m₂.space.touch (addr.toNat / PageSize) true).view mem₂ :=
          AddrSpace.view_touch.symm
  · next hcheck =>
      rw [if_neg hcheck] at h₂
      rw [h₁, h₂]
      exact ⟨rfl, h.raised _⟩

theorem Looks.alike {α : Type} {x : User α} (h : Looks x) :
    Steps Alike x x := by
  induction h with
  | pure a => exact .pure a
  | register r => exact alike_register r
  | readMem addr hsize => exact alike_readMem addr hsize
  | raise _ => exact alike_raise _ _
  | bind _ _ ih ihf => exact ih.bind ihf

theorem Register.Programs.ne_load {r : Register} (h : r.Programs) :
    r ≠ LoadReg := by
  rintro rfl
  exact absurd h (by decide)

theorem Sets.alike {α : Type} {x : User α} (h : Sets x) : Steps Alike x x := by
  induction h with
  | pure a => exact .pure a
  | register r => exact alike_register r
  | setRegister hr value => exact alike_setRegister hr.ne_load value
  | bind _ _ ih ihf => exact ih.bind ihf

theorem Acts.alike {traps : Prop} {x : User Next} (h : Acts traps x) :
    Steps Alike x x := by
  induction h with
  | looks h _ ih => exact h.alike.bind ih
  | ends h => exact h.alike
  | sets h => exact h.alike
  | stores addr hsize value next =>
      exact (alike_writeMem addr value hsize).bind fun _ => .pure next
  | quotient _ => exact fun _ _ h => ⟨rfl, h⟩

theorem alike_advance (next : Next) :
    Steps Alike (advance next) (advance next) :=
  (alike_delayedLoad _ _).bind fun _ => (alike_register _).bind fun _ =>
    (alike_setRegister (by decide) _).bind fun _ =>
        (alike_register _).bind fun _ =>
      (alike_setRegister (by decide) _).bind fun _ =>
        alike_setRegister (by decide) _

/-- An instruction cannot tell in which frames it runs. -/
theorem alike_oneInstruction : Steps Alike oneInstruction oneInstruction :=
  (alike_register _).bind fun _ => (alike_readMem _ (by decide)).bind fun raw =>
    (Instruction.execute_acts _ (Instruction.decode_executable raw)).alike.bind
      alike_advance

end

/-! ## In its own frames -/

/-- Byte `x` of memory is at an address where the program may write. -/
def Machine.MayWrite (m : Machine) (x : Nat) : Prop :=
  ∃ v < m.pageTableSize * PageSize, paddr m.space.frames v = x ∧
    m.space.readOnlyAt (v / PageSize) = false

/-- Only registers, flags and bytes the program may write have changed. -/
structure Stays (m m' : Machine) : Prop where
  ready : m'.Ready
  frames : m'.space.frames = m.space.frames
  size : m'.pageTableSize = m.pageTableSize
  readOnly : m'.space.readOnlyAt = m.space.readOnlyAt
  memory : ∀ x, ¬ m.MayWrite x → m'.mainMemory x = m.mainMemory x

/-- From `Ready` machines `x` stays in its frames, and the simulator does not
stop. -/
structure Confined {α : Type} (traps : Prop) (x : User α) : Prop where
  stays : ∀ m, m.Ready → Stays m (Outcome.final (x m))
  faults : ∀ m, m.Ready → ∀ f m', x m = .error (.fault f) m' → traps ∧
    f = quotientFault

section
variable {m m' m'' : Machine} {size : Nat} {traps : Prop}

theorem Stays.refl (hm : m.Ready) : Stays m m :=
  ⟨hm, rfl, rfl, rfl, fun _ _ => rfl⟩

theorem Stays.mayWrite (h : Stays m m') (x : Nat) : m'.MayWrite x ↔
    m.MayWrite x := by
  rw [MayWrite, MayWrite, h.frames, h.size, h.readOnly]

theorem Stays.trans (h : Stays m m') (h' : Stays m' m'') : Stays m m'' where
  ready := h'.ready
  frames := h'.frames.trans h.frames
  size := h'.size.trans h.size
  readOnly := h'.readOnly.trans h.readOnly
  memory :=
    fun x hx => (h'.memory x (mt (h.mayWrite x).mp hx)).trans (h.memory x hx)

theorem Stays.registers {registers : Register → Word}
    (hm : Machine.Ready { m with registers }) :
    Stays m { m with registers } := ⟨hm, rfl, rfl, rfl, fun _ _ => rfl⟩

theorem readOnlyAt_touch (a : AddrSpace) (page : Nat) (writing : Bool) :
    (a.touch page writing).readOnlyAt = a.readOnlyAt := by
  obtain ⟨_ | ptb, n⟩ := a
  · rfl
  · funext i
    rw [AddrSpace.readOnlyAt, AddrSpace.readOnlyAt, AddrSpace.touch,
      Option.map_some, Option.getD_some,
      Option.getD_some, List.getElem?_modify]
    cases ptb[i]? with
    | none => rfl
    | some pte =>
        show (if page = i then pte.touch writing else pte).readOnly =
          pte.readOnly
        split <;> rfl

theorem Stays.touched (hm : m.Ready) (v : Nat) (writing : Bool) :
    Stays m (m.touched v writing) :=
  ⟨hm.touched, AddrSpace.frames_touch, rfl, readOnlyAt_touch _ _ _,
    fun _ _ => rfl⟩

theorem Stays.raised (hm : m.Ready) (badVAddr : Word) :
    Stays m (m.raised badVAddr) := .registers hm.raised

theorem writable_of_check {v : Nat} (hm : m.Ready)
    (h : m.view.check v size true = NoException) :
    m.space.readOnlyAt (v / PageSize) = false := by
  obtain ⟨ptb, hptb, hlen⟩ := hm.placed.table
  rw [View.check] at h
  split at h
  · cases h
  split at h
  · cases h
  next hvpn =>
  have hvpn' : v / PageSize < ptb.length :=
    (Nat.lt_of_not_le hvpn).trans_eq hlen.symm
  have hmark : m.view.marks[v / PageSize]? = some ptb[v / PageSize].mark := by
    rw [Machine.view, AddrSpace.view, hptb, Option.getD_some, List.getElem?_map,
      List.getElem?_eq_getElem hvpn']
    rfl
  rw [hmark] at h
  rw [AddrSpace.readOnlyAt, hptb, Option.getD_some,
    List.getElem?_eq_getElem hvpn']
  cases hread : ptb[v / PageSize].readOnly with
  | false => exact hread
  | true =>
      have hread' : ptb[v / PageSize].mark.readOnly = true := hread
      dsimp only at h
      rw [TranslationEntry.check, hread'] at h
      split at h
      · cases h
      · cases h

theorem page_add_lt {v n : Nat} (h : v < n * PageSize) (x : Nat) :
    v / PageSize * PageSize + x % PageSize < n * PageSize := by
  simp only [PageSize] at *
  omega

theorem page_add_mod (page x : Nat) :
    (page * PageSize + x % PageSize) % PageSize = x % PageSize := by
  simp only [PageSize]
  omega

theorem mayWrite_of_check {v x : Nat}
    (hm : m.Ready) (hsize : size = 1 ∨ size = 2 ∨ size = 4)
    (h : m.view.check v size true = NoException)
    (hpage : x / PageSize = paddr m.space.frames v / PageSize) :
    m.MayWrite x := by
  have hin : v < m.pageTableSize * PageSize := (AddrSpace.check_ok hsize h).1
  have hvpn := @AddrSpace.page_lt m.space v hin hm.placed.toMapped
  rw [AddrSpace.paddr_page hvpn] at hpage
  refine ⟨v / PageSize * PageSize + x % PageSize, page_add_lt hin x, ?_, ?_⟩
  · rw [paddr, Pool.paddr_div, page_add_mod, List.getElem?_eq_getElem hvpn,
      Option.getD_some, ← hpage]
    exact Nat.div_add_mod' x PageSize
  · rw [Pool.paddr_div]
    exact writable_of_check hm h

namespace Confined

theorem ok {α : Type} {x : User α} {a : α}
    (h : ∀ m, m.Ready → ∃ m', x m = .ok a m' ∧ Stays m m') :
    Confined traps x where
  stays := by
    intro m hm
    obtain ⟨m', hrun, hstays⟩ := h m hm
    rw [hrun]
    exact hstays
  faults := by
    intro m hm f m'' hfault
    obtain ⟨m', hrun, _⟩ := h m hm
    cases hrun.symm.trans hfault

theorem bind {α β : Type} {x : User α} {f : α → User β} (h : Confined traps x)
    (hf : ∀ a, Confined traps (f a)) :
    Confined traps (x >>= f) where
  stays := by
    intro m hm
    have hx := h.stays m hm
    refine Outcome.final_bind hx fun a m' hrun hstays => ?_
    exact hstays.trans ((hf a).stays m' hstays.ready)
  faults := by
    intro m hm e m'' hfault
    have hx := h.stays m hm
    cases hrun : x m with
    | ok a m' =>
        rw [Outcome.bind_of_ok hrun] at hfault
        rw [hrun] at hx
        exact (hf a).faults m' hx.ready e m'' hfault
    | error e' m' =>
        rw [Outcome.bind_of_error hrun] at hfault
        cases hfault
        exact h.faults m hm e _ hrun

theorem pure {α : Type} (a : α) : Confined traps (pure a : User α) :=
  .ok fun m hm => ⟨m, rfl, .refl hm⟩

theorem register (r : Register) : Confined traps (register r) where
  stays := fun _ hm => .refl hm
  faults := by
    rintro _ _ _ _ ⟨⟩

theorem setRegister {r : Register} (hr : r ≠ LoadReg) (value : Word) :
    Confined traps (setRegister r value) :=
  .ok fun _ hm => ⟨_, rfl, .registers (hm.set hr)⟩

theorem delayedLoad (nextReg : BitVec 5) (nextValue : Word) :
    Confined traps (delayedLoad nextReg nextValue) :=
  .ok fun _ hm => ⟨_, delayedLoad_eq hm.load _ _, .registers (hm.delayed _ _)⟩

theorem raise {α : Type} (which : ExceptionType) (badVAddr : Word) :
    Confined traps (raiseException (α := α) which badVAddr) where
  stays := by
    intro m hm
    rw [raiseException_eq hm]
    exact .raised hm badVAddr
  faults := by
    intro m hm f m' hfault
    cases (raiseException_eq hm).symm.trans hfault

theorem readMem (addr : Word) (hsize : size = 1 ∨ size = 2 ∨ size = 4) :
    Confined traps (readMem addr size) where
  stays := by
    intro m hm
    rw [readMem_eq hm hsize]
    split
    · exact .touched hm _ _
    · exact .raised hm addr
  faults := by
    intro m hm f m' hfault
    rw [readMem_eq hm hsize] at hfault
    split at hfault <;> cases hfault

theorem writeMem (addr value : Word) (hsize : size = 1 ∨ size = 2 ∨ size = 4) :
    Confined traps (writeMem addr size value) := by
  have hrun : ∀ m, m.Ready →
      Stays m (Outcome.final (Machine.writeMem addr size value m)) ∧
      ∀ f m', Machine.writeMem addr size value m ≠ .error (.fault f) m' := by
    intro m hm
    have hwrite := @writeMem_eq m addr value size hm hsize
    split at hwrite
    · next hcheck =>
        obtain ⟨mem', heq, _, hkept⟩ := hwrite
        rw [heq]
        refine ⟨⟨hm.touched.store mem', AddrSpace.frames_touch, rfl,
          readOnlyAt_touch _ _ _, fun x hx => ?_⟩, nofun⟩
        refine hkept x fun hpage => hx ?_
        exact mayWrite_of_check hm hsize hcheck hpage
    · rw [hwrite]
      exact ⟨.raised hm addr, nofun⟩
  exact ⟨fun m hm => (hrun m hm).1,
    fun m hm f m' hfault => absurd hfault ((hrun m hm).2 f m')⟩

end Confined

theorem Looks.confined {α : Type} {x : User α} (h : Looks x) :
    Confined traps x := by
  induction h with
  | pure a => exact .pure a
  | register r => exact .register r
  | readMem addr hsize => exact .readMem addr hsize
  | raise _ => exact .raise _ _
  | bind _ _ ih ihf => exact ih.bind ihf

theorem Sets.confined {α : Type} {x : User α} (h : Sets x) :
    Confined traps x := by
  induction h with
  | pure a => exact .pure a
  | register r => exact .register r
  | setRegister hr value => exact .setRegister hr.ne_load value
  | bind _ _ ih ihf => exact ih.bind ihf

theorem Acts.confined {x : User Next} (h : Acts traps x) :
    Confined traps x := by
  induction h with
  | looks h _ ih => exact h.confined.bind ih
  | ends h => exact h.confined
  | sets h => exact h.confined
  | stores addr hsize value next =>
      exact (Confined.writeMem addr value hsize).bind fun _ => .pure next
  | quotient h =>
      refine ⟨fun m hm => .refl hm, ?_⟩
      rintro m _ f m' ⟨⟩
      exact ⟨h, rfl⟩

theorem confined_advance (next : Next) : Confined traps (advance next) :=
  (Confined.delayedLoad _ _).bind fun _ => (Confined.register _).bind fun _ =>
    (Confined.setRegister (by decide) _).bind fun _ =>
        (Confined.register _).bind fun _ =>
      (Confined.setRegister (by decide) _).bind fun _ =>
        .setRegister (by decide) _

end

/-! ## Before anything is done -/

/-- Only flags have changed. -/
structure Quiet (m m' : Machine) : Prop extends Stays m m' where
  registers : m'.registers = m.registers
  mainMemory : m'.mainMemory = m.mainMemory
  check : m'.view.check = m.view.check

/-- Why an exception is raised: the instruction asks for it, or the address can
not be used. -/
def Cause (m : Machine) (which : ExceptionType) (badVAddr : Word) : Prop :=
  which ∈ [SyscallException, OverflowException, IllegalInstrException] ∧
    badVAddr = 0 ∨
    which ≠ NoException ∧
      ∃ size writing, m.view.check badVAddr.toNat size writing = which

/-- The handler is called as if the instruction had not been there. -/
structure Raised (m m' : Machine) (which : ExceptionType) :
    Prop extends Stays m m' where
  mainMemory : m'.mainMemory = m.mainMemory
  registers : ∃ badVAddr, Cause m which badVAddr ∧
    m'.registers = loaded (fun r => if r = BadVAddrReg then badVAddr
      else m.registers r) 0 0

/-- An exception that ends `x` is raised before `x` has done anything. -/
def Precise {α : Type} (x : User α) : Prop :=
  ∀ m, m.Ready → ∀ which m', x m = .error (.exception which) m' →
    Raised m m' which

section
variable {m m' m'' : Machine} {which : ExceptionType}

theorem check_touch (w : View) (page : Nat) (writing : Bool) :
    (w.touch page writing).check = w.check := by
  funext v size rw
  unfold View.check View.touch
  dsimp only
  rw [List.getElem?_modify]
  cases w.marks[v / PageSize]? with
  | none => rfl
  | some pte =>
      have hpte : (if page = v / PageSize then pte.touch writing
          else pte).check rw = pte.check rw := by
        split <;> rfl
      exact congrArg (fun e => ite _ _ (ite _ _ e)) hpte

theorem Quiet.refl (hm : m.Ready) : Quiet m m := ⟨.refl hm, rfl, rfl, rfl⟩

theorem Quiet.trans (h : Quiet m m') (h' : Quiet m' m'') : Quiet m m'' :=
  ⟨h.toStays.trans h'.toStays, h'.registers.trans h.registers,
    h'.mainMemory.trans h.mainMemory, h'.check.trans h.check⟩

theorem Quiet.touched (hm : m.Ready) (v : Nat) (writing : Bool) :
    Quiet m (m.touched v writing) := by
  refine ⟨.touched hm v writing, rfl, rfl, ?_⟩
  rw [view_touched, check_touch]

theorem Quiet.cause {badVAddr : Word} (h : Quiet m m') :
    Cause m' which badVAddr ↔ Cause m which badVAddr := by
  rw [Cause, Cause, h.check]

theorem Quiet.raised (h : Quiet m m') (h' : Raised m' m'' which) :
    Raised m m'' which := by
  obtain ⟨badVAddr, hcause, hregisters⟩ := h'.registers
  exact ⟨h.toStays.trans h'.toStays, h'.mainMemory.trans h.mainMemory, badVAddr,
    h.cause.mp hcause,
    h.registers ▸ hregisters⟩

theorem Raised.of_cause {badVAddr : Word} (hm : m.Ready)
    (h : Cause m which badVAddr) :
    Raised m (m.raised badVAddr) which :=
  ⟨.raised hm badVAddr, rfl, badVAddr, h, rfl⟩

theorem Raises.cause {badVAddr : Word} : Raises which badVAddr →
    Cause m which badVAddr
  | .inl h => .inl h
  | .inr ⟨heq, halign⟩ => by
      subst heq
      exact .inr ⟨nofun, 4, false,
        AddrSpace.check_misaligned (.inl ⟨rfl, halign⟩)⟩

theorem Looks.quiet {α : Type} {x : User α} (h : Looks x) : ∀ m, m.Ready →
    (∀ a m', x m = .ok a m' → Quiet m m') ∧
      ∀ which m', x m = .error (.exception which) m' → Raised m m' which := by
  induction h with
  | pure a =>
      refine fun m hm => ⟨?_, nofun⟩
      rintro _ _ ⟨⟩
      exact .refl hm
  | register r =>
      refine fun m hm => ⟨?_, nofun⟩
      rintro _ _ ⟨⟩
      exact .refl hm
  | readMem addr hsize =>
      intro m hm
      rw [readMem_eq hm hsize]
      split
      · refine ⟨?_, nofun⟩
        rintro _ _ ⟨⟩
        exact .touched hm _ _
      · next hcheck =>
          refine ⟨nofun, ?_⟩
          rintro _ _ ⟨⟩
          exact .of_cause hm (.inr ⟨hcheck, _, _, rfl⟩)
  | raise h =>
      intro m hm
      rw [raiseException_eq hm]
      refine ⟨nofun, ?_⟩
      rintro _ _ ⟨⟩
      exact .of_cause hm h.cause
  | bind _ _ ih ihf =>
      rename_i x f _ _
      intro m hm
      obtain ⟨hok, herror⟩ := ih m hm
      cases hx : x m with
      | ok a m' =>
          have hquiet := hok a m' hx
          obtain ⟨hok', herror'⟩ := ihf a m' hquiet.ready
          rw [Outcome.bind_of_ok hx]
          exact ⟨fun b m'' hrun => hquiet.trans (hok' b m'' hrun),
            fun which m'' hrun => hquiet.raised (herror' which m'' hrun)⟩
      | error e m' =>
          rw [Outcome.bind_of_error hx]
          refine ⟨nofun, ?_⟩
          rintro which _ ⟨⟩
          exact herror which m' hx

theorem Sets.returns {α : Type} {x : User α} (h : Sets x) :
    ∀ m, ∃ a m', x m = .ok a m' := by
  induction h with
  | pure a => exact fun m => ⟨a, m, rfl⟩
  | register r => exact fun m => ⟨_, m, rfl⟩
  | setRegister _ value => exact fun m => ⟨(), _, rfl⟩
  | bind _ _ ih ihf =>
      intro m
      obtain ⟨a, m', hx⟩ := ih m
      obtain ⟨b, m'', hf⟩ := ihf a m'
      exact ⟨b, m'', (Outcome.bind_of_ok hx).trans hf⟩

theorem Looks.precise_bind {α β : Type} {x : User α} {f : α → User β}
    (h : Looks x) (hf : ∀ a, Precise (f a)) :
    Precise (x >>= f) := by
  intro m hm which m'' hrun
  obtain ⟨hok, herror⟩ := h.quiet m hm
  cases hx : x m with
  | ok a m' =>
      rw [Outcome.bind_of_ok hx] at hrun
      have hquiet := hok a m' hx
      exact hquiet.raised (hf a m' hquiet.ready which m'' hrun)
  | error e m' =>
      rw [Outcome.bind_of_error hx] at hrun
      cases hrun
      exact herror which _ hx

/-- What follows a precise part must not raise. -/
theorem Precise.bind {α β : Type} {x : User α} {f : α → User β} (h : Precise x)
    (hf : ∀ a m m', x m = .ok a m' → m.Ready → ∃ b m'', f a m' = .ok b m'') :
    Precise (x >>= f) := by
  intro m hm which m'' hrun
  cases hx : x m with
  | ok a m' =>
      obtain ⟨b, _, hok⟩ := hf a m m' hx hm
      rw [Outcome.bind_of_ok hx] at hrun
      cases hok.symm.trans hrun
  | error e m' =>
      rw [Outcome.bind_of_error hx] at hrun
      cases hrun
      exact h m hm which _ hx

theorem precise_writeMem (addr value : Word) {size : Nat}
    (hsize : size = 1 ∨ size = 2 ∨ size = 4) :
    Precise (writeMem addr size value) := by
  intro m hm which m' hrun
  have hwrite := @writeMem_eq m addr value size hm hsize
  split at hwrite
  · obtain ⟨_, hok, _⟩ := hwrite
    cases hok.symm.trans hrun
  · next hcheck =>
      cases hwrite.symm.trans hrun
      exact .of_cause hm (.inr ⟨hcheck, _, _, rfl⟩)

theorem Acts.precise {traps : Prop} {x : User Next} (h : Acts traps x) :
    Precise x := by
  induction h with
  | looks h _ ih => exact h.precise_bind ih
  | ends h => exact fun m hm => (h.quiet m hm).2
  | sets h =>
      intro m hm which m' hrun
      obtain ⟨_, _, hok⟩ := h.returns m
      cases hok.symm.trans hrun
  | stores addr hsize value next =>
      exact (precise_writeMem addr value hsize).bind fun _ _ m' _ _ =>
      ⟨next, m', rfl⟩
  | quotient _ =>
      rintro _ _ _ _ ⟨⟩

theorem advance_returns (hm : m.Ready) (next : Next) :
    ∃ m', advance next m = .ok () m' := by
  have hload := delayedLoad_eq hm.load next.nextLoadReg next.nextLoadValue
  exact ⟨_, Outcome.bind_of_ok hload⟩

end

/-! ## Every instruction -/

/-- The instruction at `PCReg`, if it can be fetched. -/
def Machine.instruction (m : Machine) : Instruction :=
  .decode (m.view.word (m.registers PCReg).toNat 4)

/-- The instruction divides the least number by -1. -/
structure Machine.Traps (m : Machine) : Prop where
  fetched : m.view.check (m.registers PCReg).toNat 4 false = NoException
  opCode : m.instruction.opCode = OP_DIV
  rs : m.registers (general m.instruction.rs) = SIGN_BIT
  rt : m.registers (general m.instruction.rt) = -1

section
variable {m m' : Machine} {which : ExceptionType} {f : Fault}

theorem oneInstruction_fetched (hm : m.Ready)
    (h : m.view.check (m.registers PCReg).toNat 4 false = NoException) :
    oneInstruction m = (m.instruction.execute >>=
        advance) (m.touched (m.registers PCReg).toNat false) := by
  have hread := @readMem_eq m (m.registers PCReg) 4 hm (by decide)
  rw [if_pos h] at hread
  exact Outcome.bind_of_ok hread

theorem oneInstruction_raised (hm : m.Ready)
    (h : m.view.check (m.registers PCReg).toNat 4 false ≠ NoException) :
    oneInstruction m =
      .error (.exception (m.view.check (m.registers PCReg).toNat 4 false))
      (m.raised (m.registers PCReg)) := by
  have hread := @readMem_eq m (m.registers PCReg) 4 hm (by decide)
  rw [if_neg h] at hread
  exact (Outcome.bind_of_ok rfl).trans (Outcome.bind_of_error hread)

/-- An instruction stays in the frames of its program. -/
theorem confined_oneInstruction : Confined True oneInstruction :=
  (Confined.register _).bind fun _ => (Confined.readMem _ (by decide)).bind
      fun raw => by
    have hx :=
      (Instruction.execute_acts _ (Instruction.decode_executable raw)).confined
    exact Confined.bind ⟨hx.stays, fun m hm f m' hrun => ⟨trivial,
      (hx.faults m hm f m' hrun).2⟩⟩ confined_advance

theorem execute_div {i : Instruction} (h : i.opCode = OP_DIV) : i.execute = (do
    let rs ← register (general i.rs)
    let rt ← register (general i.rt)
    if rt = 0 then Instruction.setHiLo 0 0
    else if rs = SIGN_BIT ∧ rt = -1 then stops quotientFault
    else Instruction.setHiLo (rs.srem rt) (rs.sdiv rt)) := by
  unfold Instruction.execute
  rw [h]
  rfl

theorem execute_div_fault {i : Instruction} (h : i.opCode = OP_DIV) :
    (∃ f m', i.execute m = .error (.fault f) m') ↔
      m.registers (general i.rs) = SIGN_BIT ∧
      m.registers (general i.rt) = -1 := by
  have hreg : ∀ r, register r m = .ok (m.registers r) m := fun _ => rfl
  have hset : ∀ hi lo, ¬ ∃ f m', Instruction.setHiLo hi lo m =
      .error (.fault f) m' := by
    rintro hi lo ⟨f, m', hrun⟩
    obtain ⟨_, _, hok⟩ := (Instruction.setHiLo_sets hi lo).returns m
    cases hok.symm.trans hrun
  rw [execute_div h, Outcome.bind_of_ok (hreg _), Outcome.bind_of_ok (hreg _)]
  split
  · next hzero =>
      refine iff_of_false (hset _ _) fun hq => ?_
      cases hzero.symm.trans hq.2
  · split
    · next hq => exact iff_of_true ⟨_, _, rfl⟩ hq
    · next hq => exact iff_of_false (hset _ _) hq

/-- The simulator does not stop, but for one quotient. -/
theorem oneInstruction_faults_iff (hm : m.Ready) :
    (∃ f m', oneInstruction m = .error (.fault f) m') ↔ m.Traps := by
  by_cases hfetch : m.view.check (m.registers PCReg).toNat 4 false = NoException
  · have htouched : (m.touched (m.registers PCReg).toNat false).Ready :=
      hm.touched
    have hacts :=
      Instruction.execute_acts m.instruction (Instruction.decode_executable _)
    have hconfined := hacts.confined
    rw [oneInstruction_fetched hm hfetch]
    constructor
    · rintro ⟨f, m', hrun⟩
      cases hx : m.instruction.execute
          (m.touched (m.registers PCReg).toNat false) with
      | ok next m₁ =>
          have hstays := hconfined.stays _ htouched
          rw [hx] at hstays
          obtain ⟨m₂, hok⟩ := advance_returns hstays.ready next
          rw [Outcome.bind_of_ok hx] at hrun
          cases hok.symm.trans hrun
      | error e m₁ =>
          rw [Outcome.bind_of_error hx] at hrun
          cases hrun
          obtain ⟨hdiv, _⟩ := hconfined.faults _ htouched f m' hx
          obtain ⟨hrs, hrt⟩ := (execute_div_fault hdiv).mp ⟨f, m', hx⟩
          exact ⟨hfetch, hdiv, hrs, hrt⟩
    · intro h
      obtain ⟨f, m', hx⟩ := (@execute_div_fault
        (m.touched (m.registers PCReg).toNat false) _ h.opCode).mpr ⟨h.rs, h.rt⟩
      exact ⟨f, m', Outcome.bind_of_error hx⟩
  · rw [oneInstruction_raised hm hfetch]
    refine iff_of_false ?_ fun h => hfetch h.fetched
    rintro ⟨f, m', hrun⟩
    cases hrun

/-- An instruction changes what the program may write and no other memory, and
it does not stop the simulator, but for one quotient. -/
theorem oneInstruction_sandboxed (hm : m.Ready) :
    Stays m (Outcome.final (oneInstruction m)) ∧
    ((∃ f m', oneInstruction m = .error (.fault f) m') ↔ m.Traps) :=
  ⟨confined_oneInstruction.stays m hm, oneInstruction_faults_iff hm⟩

/-- An exception is raised before the instruction has done anything. -/
theorem oneInstruction_precise (hm : m.Ready)
    (hrun : oneInstruction m = .error (.exception which) m') :
    Raised m m' which := by
  have hprecise : Precise oneInstruction :=
    (Looks.register _).precise_bind fun _ =>
        (Looks.readMem _ (by decide)).precise_bind fun raw => by
      have h := Instruction.execute_acts _ (Instruction.decode_executable raw)
      refine h.precise.bind fun next m m' hrun hm => ?_
      have hstays := h.confined.stays m hm
      rw [hrun] at hstays
      obtain ⟨m'', hadvance⟩ := advance_returns hstays.ready next
      exact ⟨(), m'', hadvance⟩
  exact hprecise m hm which m' hrun

end

/-- One page, with a word of code, and with something in four registers. -/
def onePage (code : Word) : Machine where
  registers := fun r => if r = NextPCReg then 4
    else [0, 60, 0xfffffff9, SIGN_BIT, 0xffffffff][r.val]?.getD 0
  mainMemory := fun x => (wordBytes code)[x]?.getD 0
  pageTable := some [⟨0, 0, true, false, false, false⟩]
  pageTableSize := 1

theorem onePage_ready (code : Word) : (onePage code).Ready where
  placed := ⟨⟨⟨_, rfl, rfl⟩, show ∀ frame ∈ [0],
    frame < NumPhysPages by decide⟩, show [0].Nodup by decide⟩
  load := show (0 : Word).toNat < NumGPRegs by decide

/-- `SW $2, 0($1)` stores -7 at 60, and `DIV $3, $4` has no quotient. -/
theorem onePage_sandboxed :
    ((∃ m', oneInstruction (onePage 0xac220000) = .ok () m' ∧
      m'.mainMemory 60 = 0xf9) ∧
      Stays (onePage 0xac220000) (Outcome.final
        (oneInstruction (onePage 0xac220000))) ∧
      ((∃ f m', oneInstruction (onePage 0xac220000) = .error (.fault f) m') ↔
        (onePage 0xac220000).Traps)) ∧
    (∃ f m', oneInstruction (onePage 0x64001a) = .error (.fault f) m') ∧
      Stays (onePage 0x64001a) (Outcome.final
        (oneInstruction (onePage 0x64001a))) ∧
      ((∃ f m', oneInstruction (onePage 0x64001a) = .error (.fault f) m') ↔
        (onePage 0x64001a).Traps) :=
  ⟨⟨⟨_, rfl, rfl⟩, oneInstruction_sandboxed (onePage_ready _)⟩, ⟨_, _, rfl⟩,
    oneInstruction_sandboxed (onePage_ready _)⟩

/-- `SW $2, 1($1)`, whose address is not that of a word. -/
theorem onePage_precise : ∃ m', oneInstruction (onePage 0xac220001) =
    .error (.exception AddressErrorException) m' ∧
    Raised (onePage 0xac220001) m' AddressErrorException :=
  ⟨_, rfl, oneInstruction_precise (onePage_ready 0xac220001) rfl⟩

end EroikoBlue.MP2
