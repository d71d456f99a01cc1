/-
# `Lib.X86` — a few 32-bit instructions, the bytes they touch, and the calling convention

Memory gives every address a byte, a word lies in four of them with the least
significant first, and a stretch of memory (`Span`) wraps round at the end of
the address space, so no side condition speaks of overflow.  An instruction
either works on the registers and the memory and falls through to the next
(`Instr`), or is a `call` through a register or a `ret` (`Op`).  Where the
instructions lie is a map from addresses (`Code`): the text of a program gives
each one and the address after it, and the lengths of the encodings do not
matter to anything here.

`steps_block` is straight-line execution.  `Returns` is what the caller of a
function may count on when it comes back: four registers and the stack pointer
are as they were, the return address was followed, and the bytes above the
arguments are untouched.
-/
import EroikoBlue.Lib.Bytes
import Mathlib.Data.Set.Basic
import Mathlib.Logic.Function.Basic

namespace X86

open Bytes

/-! ## Memory -/

abbrev Mem := Word → Byte

/-- The `n` bytes from `a` on. -/
def Span (a : Word) (n : Nat) : Set Word := {y | (y - a).toNat < n}

/-- No byte lies in both. -/
def Apart (s t : Set Word) : Prop := ∀ ⦃y⦄, y ∈ s → y ∉ t

def load (m : Mem) (a : Word) : Word :=
  byteWord (m a) (m (a + 1)) (m (a + 2)) (m (a + 3))

def store (m : Mem) (a w : Word) : Mem := fun y =>
  if (y - a).toNat < 4 then w.extractLsb' (8 * (y - a).toNat) 8 else m y

namespace Apart

variable {s s' t t' : Set Word}

theorem symm (h : Apart s t) : Apart t s := fun _ ht hs => h hs ht

theorem mono (h : Apart s t) (hs : s' ⊆ s) (ht : t' ⊆ t) : Apart s' t' :=
  fun _ hys hyt => h (hs hys) (ht hyt)

theorem mono_left (h : Apart s t) (hs : s' ⊆ s) : Apart s' t :=
  h.mono hs fun _ => id

theorem mono_right (h : Apart s t) (ht : t' ⊆ t) : Apart s t' :=
  h.mono (fun _ => id) ht

theorem union_right (h : Apart s t) (h' : Apart s t') : Apart s (t ∪ t') :=
  fun _ hs => not_or.mpr ⟨h hs, h' hs⟩

theorem union_left (h : Apart s t) (h' : Apart s' t) : Apart (s ∪ s') t :=
  (h.symm.union_right h'.symm).symm

end Apart

section Memory

variable {m m' : Mem} {a b w : Word} {n k : Nat} {s : Set Word}

theorem mem_span {y : Word} : y ∈ Span a n ↔ (y - a).toNat < n := Iff.rfl

theorem span_subset (h : (b - a).toNat + k ≤ n) : Span b k ⊆ Span a n := by
  intro y hy
  rw [mem_span] at hy ⊢
  have hsplit : y - a = (y - b) + (b - a) := by bv_omega
  have hle : (y - a).toNat ≤ (y - b).toNat + (b - a).toNat := by
    rw [hsplit, BitVec.toNat_add]
    exact Nat.mod_le _ _
  omega

/-- Two stretches that start far enough from each other, both ways round. -/
theorem apart_span (hab : n ≤ (b - a).toNat) (hba : k ≤ (a - b).toNat) :
    Apart (Span a n) (Span b k) := by
  intro y hya hyb
  rw [mem_span] at hya hyb
  bv_omega

theorem store_of_notMem {y : Word} (h : y ∉ Span a 4) :
    store m a w y = m y := if_neg h

theorem load_congr (h : ∀ y ∈ Span a 4, m y = m' y) : load m a = load m' a := by
  have hbyte : ∀ i : Word, i.toNat < 4 → m (a + i) = m' (a + i) := by
    intro i hi
    refine h _ ?_
    rw [mem_span]
    bv_omega
  have h₀ : m a = m' a := by simpa using hbyte 0 (by decide)
  rw [load, load, h₀, hbyte 1 (by decide), hbyte 2 (by decide),
    hbyte 3 (by decide)]

@[simp] theorem load_store (m : Mem) (a w : Word) :
    load (store m a w) a = w := by
  have h₀ : (a - a).toNat = 0 := by bv_omega
  have h₁ : (a + 1 - a).toNat = 1 := by bv_omega
  have h₂ : (a + 2 - a).toNat = 2 := by bv_omega
  have h₃ : (a + 3 - a).toNat = 3 := by bv_omega
  simp only [load, store, h₀, h₁, h₂, h₃]
  exact byteWord_extract w

theorem load_store_of_apart (h : Apart (Span a 4) (Span b 4)) :
    load (store m a w) b = load m b :=
  load_congr fun _ hy => store_of_notMem fun hya => h hya hy

theorem load_store_offset {d e : Word} (hde : 4 ≤ (e - d).toNat)
    (hed : 4 ≤ (d - e).toNat) :
    load (store m (a + d) w) (a + e) = load m (a + e) := by
  refine load_store_of_apart (apart_span ?_ ?_) <;> bv_omega

end Memory

/-! ## Registers and instructions -/

inductive Reg where
  | eax | ecx | edx | ebx | esp | ebp | esi | edi
  deriving DecidableEq, Repr

abbrev Regs := Reg → Word

structure State where
  regs : Regs
  mem : Mem

/-- A word of memory, at an address or at a displacement from a register. -/
inductive Operand where
  | abs (a : Word)
  | disp (d : Word) (base : Reg)

def Operand.addr (o : Operand) (r : Regs) : Word :=
  match o with
  | .abs a => a
  | .disp d base => r base + d

/-- The instructions that fall through; at most one operand is in memory. -/
inductive Instr where
  | move (src dst : Reg)
  | load (src : Operand) (dst : Reg)
  | store (src : Reg) (dst : Operand)
  | push (src : Reg)
  | pop (dst : Reg)

def Instr.exec (i : Instr) (s : State) : State :=
  match i with
  | .move src dst => { s with regs := Function.update s.regs dst (s.regs src) }
  | .load src dst => { s with
        regs := Function.update s.regs dst (X86.load s.mem (src.addr s.regs)) }
  | .store src dst =>
      { s with mem := X86.store s.mem (dst.addr s.regs) (s.regs src) }
  | .push src =>
      { regs := Function.update s.regs .esp (s.regs .esp - 4)
        mem := X86.store s.mem (s.regs .esp - 4) (s.regs src) }
  | .pop dst =>
      { s with
        regs := Function.update (Function.update s.regs .esp (s.regs .esp + 4))
          dst (X86.load s.mem (s.regs .esp)) }

def execs (is : List Instr) (s : State) : State :=
  is.foldl (fun s i => i.exec s) s

@[simp] theorem execs_nil (s : State) : execs [] s = s := rfl

@[simp] theorem execs_cons (i : Instr) (is : List Instr) (s : State) :
    execs (i :: is) s = execs is (i.exec s) := rfl

theorem execs_append (is js : List Instr) (s : State) :
    execs (is ++ js) s = execs js (execs is s) :=
  List.foldl_append

/-! ## Running the text of a program -/

structure Cpu extends State where
  eip : Word

inductive Op where
  | plain (i : Instr)
  | call (target : Reg)
  | ret

/-- The instruction at an address and the address after it. -/
abbrev Code := Word → Option (Op × Word)

def Op.exec (o : Op) (next : Word) (c : Cpu) : Cpu :=
  match o with
  | .plain i => { toState := i.exec c.toState, eip := next }
  | .call target =>
      { regs := Function.update c.regs .esp (c.regs .esp - 4)
        mem := store c.mem (c.regs .esp - 4) next
        eip := c.regs target }
  | .ret =>
      { regs := Function.update c.regs .esp (c.regs .esp + 4)
        mem := c.mem
        eip := load c.mem (c.regs .esp) }

def Code.step (code : Code) (c : Cpu) : Option Cpu :=
  (code c.eip).map fun (o, next) => o.exec next c

def Code.steps (code : Code) : Nat → Cpu → Option Cpu
  | 0, c => some c
  | n + 1, c => (code.step c).bind (code.steps n)

/-- The instructions of a block lie one after another from `a` up to `b`. -/
def Code.Laid (code : Code) : Word → List Instr → Word → Prop
  | a, [], b => a = b
  | a, i :: is, b => ∃ next, code a = some (.plain i, next) ∧
        code.Laid next is b

/-- Instructions one after another from `a` on, each with its length, over what
else there is. -/
def Code.place : Word → List (Op × Word) → Code → Code
  | _, [], code => code
  | a, (o, n) :: os, code => fun y => if y = a then some (o, a + n)
        else Code.place (a + n) os code y

section Running

variable {code : Code}

theorem steps_one {c : Cpu} {o : Op} {next : Word}
    (h : code c.eip = some (o, next)) :
    code.steps 1 c = some (o.exec next c) := by
  simp [Code.steps, Code.step, h]

theorem steps_add (n k : Nat) :
    ∀ c : Cpu, code.steps (n + k) c = (code.steps n c).bind (code.steps k) := by
  induction n with
  | zero =>
      intro c
      rw [Nat.zero_add]
      rfl
  | succ n ih =>
      intro c
      rw [Nat.add_right_comm, Code.steps, Code.steps]
      cases code.step c with
      | none => rfl
      | some c₁ => exact ih c₁

/-- Straight-line code does what its instructions do, in order. -/
theorem steps_block {is : List Instr} {b : Word} :
    ∀ {a : Word} {s : State}, code.Laid a is b →
      code.steps is.length ⟨s, a⟩ = some ⟨execs is s, b⟩ := by
  induction is with
  | nil =>
      intro a s h
      cases h
      rfl
  | cons i is ih =>
      intro a s h
      obtain ⟨next, hcode, hrest⟩ := h
      rw [List.length_cons, Nat.add_comm, steps_add, steps_one hcode,
        Option.bind_some]
      exact ih hrest

theorem steps_block_op {is : List Instr} {a b next : Word}
    {s : State} {o : Op} (h : code.Laid a is b) (hb : code b = some (o, next)) :
    code.steps (is.length + 1) ⟨s, a⟩ = some (o.exec next ⟨execs is s, b⟩) := by
  rw [steps_add, steps_block h, Option.bind_some, steps_one hb]

end Running

/-! ## The calling convention -/

/-- The registers a function gives back as it found them. -/
def preserved : List Reg := [.ebx, .ebp, .esi, .edi]

/-- A function entered at `e`, with `args` bytes of arguments above its return
address, has returned at `r`. The stack of the caller ends at `top`. -/
structure Returns (args : Nat) (top : Word) (e r : Cpu) : Prop where
  eip : r.eip = load e.mem (e.regs .esp)
  esp : r.regs .esp = e.regs .esp + 4
  regs : ∀ q ∈ preserved, r.regs q = e.regs q
  mem : ∀ y ∈ Span (e.regs .esp + 4 + BitVec.ofNat 32 args)
    (top - (e.regs .esp + 4 + BitVec.ofNat 32 args)).toNat,
    r.mem y = e.mem y

end X86
