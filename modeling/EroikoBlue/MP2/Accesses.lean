/-
# `MP2.Accesses` — how an instruction is made up

Every case of the `switch` looks first and acts then: it reads registers and
memory, where an exception may end it, and after that it sets registers, or
stores once.

    Looks    reads, and may raise an exception
    Sets     reads and sets registers of the program
    Acts     looks, and then sets or stores

`execute_acts` is the only place where the cases are told apart; what holds of
every instruction is proved by induction on these.

## Why three

The order is what makes exceptions precise.  While an instruction only looks, an
exception leaves registers and memory as they were; after it has begun to set
registers none is raised any more; and a store raises one or is the last thing
the instruction does.

The overflow traps are in `Looks` with the other exceptions.  A quotient that is
no `int` is the only thing an instruction can do that C++ leaves undefined, and
`Acts` has it as a case of its own.
-/
import EroikoBlue.MP2.Machine

namespace EroikoBlue.MP2

open Bytes (Byte Word)
open ExceptionType OpCode Register Machine

/-- The quotient is no `int`. -/
def quotientFault : Fault := .undefined "a quotient that is no int"

/-- What an instruction raises itself: with no address, or with one that is not
aligned. -/
def Raises (which : ExceptionType) (badVAddr : Word) : Prop :=
  which ∈ [SyscallException, OverflowException, IllegalInstrException] ∧
    badVAddr = 0 ∨
    which = AddressErrorException ∧ badVAddr.toNat % 4 ≠ 0

instance (which : ExceptionType) (badVAddr : Word) :
    Decidable (Raises which badVAddr) :=
  inferInstanceAs (Decidable (_ ∨ _))

inductive Looks : {α : Type} → User α → Prop
  | pure {α : Type} (a : α) : Looks (pure a)
  | register (r : Register) : Looks (register r)
  | readMem (addr : Word) {size : Nat} (h : size = 1 ∨ size = 2 ∨ size = 4) :
      Looks (readMem addr size)
  | raise {α : Type} {which : ExceptionType} {badVAddr : Word}
      (h : Raises which badVAddr) :
      Looks (raiseException (α := α) which badVAddr)
  | bind {α β : Type} {x : User α} {f : α → User β} (h : Looks x)
      (hf : ∀ a, Looks (f a)) : Looks (x >>= f)

/-- The general registers, `HiReg` and `LoReg`. -/
def Register.Programs (r : Register) : Prop := r.val < 34

instance (r : Register) : Decidable r.Programs :=
  inferInstanceAs (Decidable (r.val < 34))

inductive Sets : {α : Type} → User α → Prop
  | pure {α : Type} (a : α) : Sets (pure a)
  | register (r : Register) : Sets (register r)
  | setRegister {r : Register} (h : r.Programs) (value : Word) :
      Sets (setRegister r value)
  | bind {α β : Type} {x : User α} {f : α → User β} (h : Sets x)
      (hf : ∀ a, Sets (f a)) : Sets (x >>= f)

/-- `traps`: the quotient may be no `int`. -/
inductive Acts (traps : Prop) : User Next → Prop
  | looks {α : Type} {x : User α} {f : α → User Next} (h : Looks x)
      (hf : ∀ a, Acts traps (f a)) : Acts traps (x >>= f)
  | ends {x : User Next} (h : Looks x) : Acts traps x
  | sets {x : User Next} (h : Sets x) : Acts traps x
  | stores (addr : Word) {size : Nat} (h : size = 1 ∨ size = 2 ∨ size = 4)
      (value : Word) (next : Next) :
      Acts traps (writeMem addr size value >>= fun _ => Pure.pure next)
  | quotient (h : traps) : Acts traps (stops quotientFault)

namespace Instruction

section
variable {traps : Prop} {i : Instruction}

theorem and_three_ne_zero (w : Word) : w &&& 3 ≠ 0 ↔ w.toNat % 4 ≠ 0 := by
  have hmod : (w &&& 3).toNat = w.toNat % 4 := by
    rw [BitVec.toNat_and]
    exact Nat.and_two_pow_sub_one_eq_mod w.toNat 2
  rw [← hmod]
  exact not_congr ⟨fun h => congrArg BitVec.toNat h,
    fun h => BitVec.eq_of_toNat_eq h⟩

theorem general_programs (r : BitVec 5) : (general r).Programs :=
  Nat.lt_trans r.isLt (by decide)

theorem pcAfter_sets : Sets pcAfter := .bind (.register _) fun _ => .pure _

theorem pcAfter_looks : Looks pcAfter := .bind (.register _) fun _ => .pure _

theorem address_looks : Looks i.address := .bind (.register _) fun _ => .pure _

theorem result_sets {r : Register} (h : r.Programs) (value : Word) :
    Sets (result r value) :=
  .bind pcAfter_sets fun _ => .bind (.setRegister h _) fun _ => .pure _

theorem setHiLo_sets (hi lo : Word) : Sets (setHiLo hi lo) :=
  .bind pcAfter_sets fun _ => .bind (.setRegister (by decide) _) fun _ =>
      .bind (.setRegister (by decide) _) fun _ =>
    .pure _

theorem link_sets {r : Register} (h : r.Programs) : Sets (link r) :=
  .bind (.register _) fun _ => .setRegister h _

theorem binary_acts {f : Word → Word → Word} : Acts traps (i.binary f) :=
  .sets (.bind (.register _) fun _ => .bind (.register _) fun _ => result_sets
    (general_programs _) _)

theorem immediate_acts {f : Word → Word} : Acts traps (i.immediate f) :=
  .sets (.bind (.register _) fun _ => result_sets (general_programs _) _)

theorem branch_sets {taken : Word → Word → Bool} : Sets (i.branch taken) :=
  .bind (.register _) fun _ => .bind (.register _) fun _ =>
    .bind (.register _) fun _ => .pure _

theorem jump_sets : Sets i.jump := .bind pcAfter_sets fun _ => .pure _

theorem jumpRegister_sets : Sets i.jumpRegister :=
  .bind (.register _) fun _ => .pure _

theorem loadPart_acts {size : Nat} {signed : Bool} {sign ones mask : Word}
    (h : size = 1 ∨ size = 2 ∨ size = 4) :
    Acts traps (i.loadPart size signed sign ones mask) := by
  refine .looks address_looks fun tmp => ?_
  split
  · next hodd =>
      have hmod := (and_one_ne_zero tmp).mp hodd.2
      exact .ends (.raise (.inr ⟨rfl, by omega⟩))
  · exact .looks (.readMem _ h) fun _ => .looks pcAfter_looks fun _ =>
      .ends (.pure _)

theorem loadWord_acts : Acts traps i.loadWord := by
  refine .looks address_looks fun tmp => ?_
  split
  · next hodd =>
      exact .ends (.raise (.inr ⟨rfl, (and_three_ne_zero tmp).mp hodd⟩))
  · exact .looks (.readMem _ (by decide)) fun _ => .looks pcAfter_looks fun _ =>
      .ends (.pure _)

theorem loadUnaligned_acts {merge : Word → Word → Word → Word} :
    Acts traps (i.loadUnaligned merge) :=
  .looks address_looks fun _ => .looks (.readMem _ (by decide)) fun _ =>
      .looks (.register _) fun _ =>
    .looks (.register _) fun _ => .looks (.register _) fun _ =>
      .looks pcAfter_looks fun _ => .ends (.pure _)

theorem storePart_acts {size : Nat} (h : size = 1 ∨ size = 2 ∨ size = 4) :
    Acts traps (i.storePart size) :=
  .looks address_looks fun _ => .looks (.register _) fun _ =>
    .looks pcAfter_looks fun _ => .stores _ h _ _

theorem storeUnaligned_acts {merge : Word → Word → Word → Word} :
    Acts traps (i.storeUnaligned merge) :=
  .looks address_looks fun _ => .looks (.readMem _ (by decide)) fun _ => .looks (.register _) fun _ =>
    .looks pcAfter_looks fun _ => .stores _ (by decide) _ _

theorem execute_acts (i : Instruction) (h : i.opCode.Executable) : Acts (i.opCode = OP_DIV) i.execute := by
  obtain ⟨opCode, rs, rt, rd, extra⟩ := i
  cases opCode
  case OP_ADD | OP_SUB =>
    refine .looks (.register _) fun rs => .looks (.register _) fun rt => ?_
    dsimp only
    split
    · exact .ends (.raise (by decide))
    · exact .sets (result_sets (general_programs _) _)
  case OP_ADDI =>
    refine .looks (.register _) fun rs => ?_
    dsimp only
    split
    · exact .ends (.raise (by decide))
    · exact .sets (result_sets (general_programs _) _)
  case OP_DIV =>
    refine .looks (.register _) fun rs => .looks (.register _) fun rt => ?_
    split
    · exact .sets (setHiLo_sets _ _)
    · split
      · exact .quotient rfl
      · exact .sets (setHiLo_sets _ _)
  case OP_DIVU =>
    refine .looks (.register _) fun rs => .looks (.register _) fun rt => ?_
    split
    · exact .sets (setHiLo_sets _ _)
    · exact .sets (setHiLo_sets _ _)
  case OP_MULT | OP_MULTU => exact .looks (.register _) fun _ => .looks (.register _) fun _ => .sets (setHiLo_sets _ _)
  case OP_BGEZAL | OP_BLTZAL =>
    exact .sets (.bind (link_sets (by decide)) fun _ => branch_sets)
  case OP_BEQ | OP_BGEZ | OP_BGTZ | OP_BLEZ | OP_BLTZ | OP_BNE =>
    exact .sets branch_sets
  case OP_JAL => exact .sets (.bind (link_sets (by decide)) fun _ => jump_sets)
  case OP_J => exact .sets jump_sets
  case OP_JALR => exact .sets (.bind (link_sets (general_programs _)) fun _ =>
    jumpRegister_sets)
  case OP_JR => exact .sets jumpRegister_sets
  case OP_LB | OP_LBU | OP_LH | OP_LHU => exact loadPart_acts (by decide)
  case OP_LW => exact loadWord_acts
  case OP_LWL | OP_LWR => exact loadUnaligned_acts
  case OP_LUI => exact .sets (result_sets (general_programs _) _)
  case OP_MFHI | OP_MFLO => exact .sets (.bind (.register _) fun _ => result_sets (general_programs _) _)
  case OP_MTHI | OP_MTLO =>
    exact .sets (.bind (.register _) fun _ => result_sets (by decide) _)
  case OP_SB | OP_SH | OP_SW => exact storePart_acts (by decide)
  case OP_SWL | OP_SWR => exact storeUnaligned_acts
  case OP_SYSCALL | OP_RES | OP_UNIMP => exact .ends (.raise (by decide))
  case OP_RFE => exact absurd rfl h.1
  case SPECIAL => exact absurd rfl h.2.1
  case BCOND => exact absurd rfl h.2.2
  case OP_ADDIU | OP_ANDI | OP_ORI | OP_SLTI | OP_SLTIU | OP_XORI =>
    exact immediate_acts
  all_goals exact binary_acts

end

end Instruction

end EroikoBlue.MP2
