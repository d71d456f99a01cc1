/-
# MP3 — `switch.S`: one thread gives the processor to another

`SWITCH(t1, t2)` saves the registers of the running thread in the first words of
its `Thread` object, loads those of the other one and returns on the other one's
stack.  This is the x86 version, on 32-bit words: the instructions of `switch.S`
in their order, at the offsets of `switch.h`.  `steps_switch` says what the
whole routine does, as one function of the memory (`switched`); no proof after
it looks at an instruction of `SWITCH` again.

## The order of the instructions matters

`%eax` is the only register free to address memory with, so its value is put
aside in `_eax_save` first, and saved from there after all others; on the way
back it is the last to be loaded.

What a proof about many threads needs besides `switched` is what it leaves
alone: everything but the saved words of the first thread (`saving_of_notMem`),
`_eax_save`, and one argument slot on the stack of the second
(`switched_of_notMem`).
-/
import EroikoBlue.Lib.X86

namespace EroikoBlue.MP3.Switching

open Bytes X86

/-! ## `switch.h` and `switch.S` -/

def _ESP : Word := 0
def _EAX : Word := 4
def _EBX : Word := 8
def _ECX : Word := 12
def _EDX : Word := 16
def _EBP : Word := 20
def _ESI : Word := 24
def _EDI : Word := 28
def _PC : Word := 32

/-- The indices into `machineState`, which begins after the word `stackTop`. -/
def PCState : Word := _PC / 4 - 1
def InitialPCState : Word := _ESI / 4 - 1
def InitialArgState : Word := _EDX / 4 - 1
def WhenDonePCState : Word := _EDI / 4 - 1
def StartupPCState : Word := _ECX / 4 - 1

def InitialPC : Reg := .esi
def InitialArg : Reg := .edx
def WhenDonePC : Reg := .edi
def StartupPC : Reg := .ecx

/-- In words. -/
def StackSize : Nat := 8 * 1024

def STACK_FENCEPOST : Word := 0xdedbeef

/-- The first half of `SWITCH`, on `t1`; `_eax_save` is a word of the data
segment. -/
def switchSave (_eax_save : Word) : List Instr :=
  [.store .eax (.abs _eax_save),
   .load (.disp 4 .esp) .eax,
   .store .ebx (.disp _EBX .eax),
   .store .ecx (.disp _ECX .eax),
   .store .edx (.disp _EDX .eax),
   .store .esi (.disp _ESI .eax),
   .store .edi (.disp _EDI .eax),
   .store .ebp (.disp _EBP .eax),
   .store .esp (.disp _ESP .eax),
   .load (.abs _eax_save) .ebx,
   .store .ebx (.disp _EAX .eax),
   .load (.disp 0 .esp) .ebx,
   .store .ebx (.disp _PC .eax)]

/-- The second half, on `t2`, up to the `ret`. -/
def switchRestore (_eax_save : Word) : List Instr :=
  [.load (.disp 8 .esp) .eax,
   .load (.disp _EAX .eax) .ebx,
   .store .ebx (.abs _eax_save),
   .load (.disp _EBX .eax) .ebx,
   .load (.disp _ECX .eax) .ecx,
   .load (.disp _EDX .eax) .edx,
   .load (.disp _ESI .eax) .esi,
   .load (.disp _EDI .eax) .edi,
   .load (.disp _EBP .eax) .ebp,
   .load (.disp _ESP .eax) .esp,
   .load (.disp _PC .eax) .eax,
   .store .eax (.disp 4 .esp),
   .load (.abs _eax_save) .eax]

def switchBody (_eax_save : Word) : List Instr :=
  switchSave _eax_save ++ switchRestore _eax_save

/-- `ThreadRoot` up to its first call. -/
def rootBody : List Instr := [.push .ebp, .move .esp .ebp, .push InitialArg]

/-- What follows the last call; it is not reached. -/
def rootEnd : List Instr := [.move .ebp .esp, .pop .ebp]

/-- The program as it is linked: where the two routines lie, and the addresses
they name. -/
structure Text where
  code : Code
  SWITCH : Word
  ThreadRoot : Word
  ThreadBegin : Word
  ThreadFinish : Word
  _eax_save : Word
  switch : ∃ b next, code.Laid SWITCH (switchBody _eax_save) b ∧
    code b = some (.ret, next)
  root : ∃ a b c d e next, code.Laid ThreadRoot rootBody a ∧
    code a = some (.call StartupPC, b) ∧
    code b = some (.call InitialPC, c) ∧ code c = some (.call WhenDonePC, d) ∧
      code.Laid d rootEnd e ∧
    code e = some (.ret, next)

/-! ## What `SWITCH` saves -/

/-- The nine words at the start of a `Thread` object: `stackTop`, then the first
eight of `machineState`. -/
structure Context where
  esp : Word
  eax : Word
  ebx : Word
  ecx : Word
  edx : Word
  ebp : Word
  esi : Word
  edi : Word
  pc : Word

def Context.regs (k : Context) : Regs
  | .eax => k.eax
  | .ecx => k.ecx
  | .edx => k.edx
  | .ebx => k.ebx
  | .esp => k.esp
  | .ebp => k.ebp
  | .esi => k.esi
  | .edi => k.edi

/-- What a caller of `SWITCH` leaves behind: its registers, and its return
address on top of the stack. -/
def leaving (s : State) : Context :=
  ⟨s.regs .esp, s.regs .eax, s.regs .ebx, s.regs .ecx, s.regs .edx, s.regs .ebp,
    s.regs .esi, s.regs .edi,
    load s.mem (s.regs .esp)⟩

def context (m : Mem) (t : Word) : Context :=
  ⟨load m (t + _ESP), load m (t + _EAX), load m (t + _EBX), load m (t + _ECX),
    load m (t + _EDX), load m (t + _EBP),
    load m (t + _ESI), load m (t + _EDI), load m (t + _PC)⟩

/-- The stores of `switchSave`, in its order. -/
def save (m : Mem) (t : Word) (k : Context) : Mem :=
  store (store (store (store
    (store (store (store (store (store m (t + _EBX) k.ebx) (t + _ECX) k.ecx)
    (t + _EDX) k.edx) (t + _ESI) k.esi) (t + _EDI) k.edi) (t + _EBP) k.ebp)
      (t + _ESP) k.esp) (t + _EAX) k.eax)
    (t + _PC) k.pc

/-- The bytes of a `Thread` object that `SWITCH` uses. -/
def saved (t : Word) : Set Word := Span t 36

section Saved

variable {m m' : Mem} {t : Word} {k : Context}

theorem word_subset_saved {d : Word} (h : d.toNat + 4 ≤ 36) :
    Span (t + d) 4 ⊆ saved t :=
  span_subset (by bv_omega)

theorem save_of_notMem {y : Word} (h : y ∉ saved t) : save m t k y = m y := by
  have hout : ∀ d : Word, d.toNat + 4 ≤ 36 → y ∉ Span (t + d) 4 :=
    fun d hd hy => h (word_subset_saved hd hy)
  rw [save, store_of_notMem (hout _ (by decide)),
    store_of_notMem (hout _ (by decide)),
    store_of_notMem (hout _ (by decide)), store_of_notMem (hout _ (by decide)),
      store_of_notMem (hout _ (by decide)),
    store_of_notMem (hout _ (by decide)), store_of_notMem (hout _ (by decide)),
      store_of_notMem (hout _ (by decide)),
    store_of_notMem (hout _ (by decide))]

theorem context_congr (h : ∀ y ∈ saved t, m y = m' y) :
    context m t = context m' t := by
  have hword : ∀ d : Word, d.toNat + 4 ≤ 36 →
      load m (t + d) = load m' (t + d) :=
    fun d hd => load_congr fun y hy => h y (word_subset_saved hd hy)
  simp only [context, hword _ (show _ESP.toNat + 4 ≤ 36 by decide),
    hword _ (show _EAX.toNat + 4 ≤ 36 by decide),
    hword _ (show _EBX.toNat + 4 ≤ 36 by decide),
      hword _ (show _ECX.toNat + 4 ≤ 36 by decide),
    hword _ (show _EDX.toNat + 4 ≤ 36 by decide),
      hword _ (show _EBP.toNat + 4 ≤ 36 by decide),
    hword _ (show _ESI.toNat + 4 ≤ 36 by decide),
      hword _ (show _EDI.toNat + 4 ≤ 36 by decide),
    hword _ (show _PC.toNat + 4 ≤ 36 by decide)]

/-- The nine words do not overlap, so each is read back as it was saved. -/
theorem context_save : context (save m t k) t = k := by
  simp (disch := decide) only [context, save, load_store, load_store_offset]

end Saved

/-! ## `SWITCH` as one step -/

section Switch

variable {e : Word} {s : State} {t₁ t₂ : Word}

theorem word_subset_call {a d : Word} (h : d.toNat + 4 ≤ 12) :
    Span (a + d) 4 ⊆ Span a 12 :=
  span_subset (by bv_omega)

theorem execs_switchSave (h₁ : load s.mem (s.regs .esp + 4) = t₁)
    (he : Apart (Span e 4) (Span (s.regs .esp) 12))
    (het : Apart (Span e 4) (saved t₁))
    (hst : Apart (saved t₁) (Span (s.regs .esp) 12)) :
    execs (switchSave e) s =
      { regs := Function.update (Function.update s.regs .eax t₁) .ebx (load s.mem (s.regs .esp))
        mem := save (store s.mem e (s.regs .eax)) t₁ (leaving s) } := by
  have hstack : ∀ (m : Mem) (d w : Word), d.toNat + 4 ≤ 12 →
      load (store m e w) (s.regs .esp + d) = load m (s.regs .esp + d) :=
          fun m d w hd =>
    load_store_of_apart (he.mono_right (word_subset_call hd))
  have hword : ∀ (m : Mem) (d w : Word), d.toNat + 4 ≤ 36 →
      load (store m (t₁ + d) w) e = load m e := fun m d w hd =>
    load_store_of_apart (het.symm.mono_left (word_subset_saved hd))
  have hret : ∀ (m : Mem) (d w : Word), d.toNat + 4 ≤ 36 →
      load (store m (t₁ + d) w) (s.regs .esp + 0) = load m (s.regs .esp + 0) :=
          fun m d w hd =>
    load_store_of_apart
      (hst.mono (word_subset_saved hd) (word_subset_call (by decide)))
  simp (disch := decide) only [switchSave, execs_cons, execs_nil, Instr.exec,
    Operand.addr, Function.update_self,
    Function.update_of_ne, hstack, hword, hret, h₁, load_store, leaving, save]
  have hzero : s.regs .esp + 0 = s.regs .esp := BitVec.add_zero _
  simp only [hzero, Function.update_idem]

theorem execs_switchRestore (h₂ : load s.mem (s.regs .esp + 8) = t₂)
    (het : Apart (Span e 4) (saved t₂))
    (he : Apart (Span e 4) (Span (context s.mem t₂).esp 12)) :
    execs (switchRestore e) s =
      { regs := (context s.mem t₂).regs
        mem := store (store s.mem e (context s.mem t₂).eax)
            ((context s.mem t₂).esp + 4) (context s.mem t₂).pc } := by
  have hword : ∀ (m : Mem) (d w : Word), d.toNat + 4 ≤ 36 →
      load (store m e w) (t₂ + d) = load m (t₂ + d) :=
    fun m d w hd => load_store_of_apart (het.mono_right (word_subset_saved hd))
  have hslot : ∀ (m : Mem) (w : Word),
      load (store m (load s.mem (t₂ + _ESP) + 4) w) e = load m e := fun m w =>
    load_store_of_apart (he.symm.mono_left (word_subset_call (by decide)))
  simp (disch := decide) only [switchRestore, execs_cons, execs_nil, Instr.exec,
    Operand.addr, Function.update_self,
    Function.update_of_ne, hword, hslot, h₂, load_store, context]
  congr 1
  funext r
  cases r <;> rfl

end Switch

/-- The memory in which `t1` is saved. -/
def saving (e t₁ : Word) (s : State) : Mem :=
  save (store s.mem e (s.regs .eax)) t₁ (leaving s)

/-- Where `SWITCH(t1, t2)` leads. -/
def switched (e t₁ t₂ : Word) (s : State) : Cpu :=
  let m := saving e t₁ s
  let k := context m t₂
  let m' := store (store m e k.eax) (k.esp + 4) k.pc
  { regs := Function.update k.regs .esp (k.esp + 4), mem := m',
    eip := load m' k.esp }

theorem Text.steps_switch (x : Text) {c : Cpu} {t₁ t₂ : Word}
    (heip : c.eip = x.SWITCH) (h₁ : load c.mem (c.regs .esp + 4) = t₁)
    (h₂ : load c.mem (c.regs .esp + 8) = t₂)
    (he : Apart (Span x._eax_save 4) (Span (c.regs .esp) 12))
    (het₁ : Apart (Span x._eax_save 4) (saved t₁))
    (het₂ : Apart (Span x._eax_save 4) (saved t₂))
    (hst : Apart (saved t₁) (Span (c.regs .esp) 12))
    (he₂ : Apart (Span x._eax_save 4)
      (Span (context (saving x._eax_save t₁ c.toState) t₂).esp 12)) :
    x.code.steps ((switchBody x._eax_save).length + 1) c =
      some (switched x._eax_save t₁ t₂ c.toState) := by
  obtain ⟨b, next, hlaid, hret⟩ := x.switch
  obtain ⟨s, eip⟩ := c
  cases heip
  rw [steps_block_op hlaid hret, switchBody, execs_append, execs_switchSave h₁ he het₁ hst, ← saving]
  have harg : load (saving x._eax_save t₁ s) (s.regs .esp + 8) = t₂ := by
    rw [← h₂]
    refine load_congr fun y hy => ?_
    have hy' := word_subset_call (show (8 : Word).toNat + 4 ≤ 12 by decide) hy
    rw [saving, save_of_notMem fun hmem => hst hmem hy',
      store_of_notMem fun hmem => he hmem hy']
  have hrest := execs_switchRestore
    (s := ⟨Function.update (Function.update s.regs .eax t₁) .ebx
      (load s.mem (s.regs .esp)), saving x._eax_save t₁ s⟩)
    harg het₂ he₂
  rw [hrest]
  rfl

theorem saving_of_notMem {e t₁ : Word} {s : State} {y : Word}
    (he : y ∉ Span e 4) (ht : y ∉ saved t₁) :
    saving e t₁ s y = s.mem y := by
  rw [saving, save_of_notMem ht, store_of_notMem he]

/-- After the saving, only `_eax_save` and the argument slot of `t2` are
written. -/
theorem switched_of_notMem {e t₁ t₂ : Word}
    {s : State} {y : Word} (he : y ∉ Span e 4)
    (hslot : y ∉ Span ((context (saving e t₁ s) t₂).esp + 4) 4) :
    (switched e t₁ t₂ s).mem y = saving e t₁ s y := by
  simp only [switched]
  rw [store_of_notMem hslot, store_of_notMem he]

end EroikoBlue.MP3.Switching
