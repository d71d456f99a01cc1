/-
# `MP2.Mips` — the instructions of `machine/mipssim.cc`

An instruction is a word.  `Decode` takes it apart: three register numbers of
five bits, an operation, and an operand that depends on the format.

    opTable        bits 31 … 26; `SPECIAL` and `BCOND` are decoded further
    specialTable   bits 5 … 0 of a `SPECIAL`

`decode_executable`: what comes out is an operation `OneInstruction` has a case
for, whatever the word is.
-/
import EroikoBlue.Lib.Bytes

namespace EroikoBlue.MP2

open Bytes (Word)

/-- The numbers in `mipssim.h`; `SPECIAL` and `BCOND` occur in `opTable`
only. -/
inductive OpCode where
  | OP_ADD | OP_ADDI | OP_ADDIU | OP_ADDU | OP_AND | OP_ANDI | OP_BEQ | OP_BGEZ
  | OP_BGEZAL | OP_BGTZ
  | OP_BLEZ | OP_BLTZ | OP_BLTZAL | OP_BNE | OP_DIV | OP_DIVU | OP_J | OP_JAL
  | OP_JALR | OP_JR
  | OP_LB | OP_LBU | OP_LH | OP_LHU | OP_LUI | OP_LW | OP_LWL | OP_LWR
  | OP_MFHI | OP_MFLO
  | OP_MTHI | OP_MTLO | OP_MULT | OP_MULTU | OP_NOR | OP_OR | OP_ORI | OP_RFE
  | OP_SB | OP_SH
  | OP_SLL | OP_SLLV | OP_SLT | OP_SLTI | OP_SLTIU | OP_SLTU | OP_SRA | OP_SRAV
  | OP_SRL | OP_SRLV
  | OP_SUB | OP_SUBU | OP_SW | OP_SWL | OP_SWR | OP_XOR | OP_XORI | OP_SYSCALL
  | OP_UNIMP | OP_RES
  | SPECIAL | BCOND
  deriving DecidableEq, Repr

inductive Format where
  | IFMT
  | JFMT
  | RFMT
  deriving DecidableEq, Repr

structure OpInfo where
  opCode : OpCode
  format : Format
  deriving DecidableEq, Repr

open OpCode Format

def opTable : List OpInfo := [
  ⟨SPECIAL, RFMT⟩, ⟨BCOND, IFMT⟩, ⟨OP_J, JFMT⟩, ⟨OP_JAL, JFMT⟩,
  ⟨OP_BEQ, IFMT⟩, ⟨OP_BNE, IFMT⟩, ⟨OP_BLEZ, IFMT⟩, ⟨OP_BGTZ, IFMT⟩,
  ⟨OP_ADDI, IFMT⟩, ⟨OP_ADDIU, IFMT⟩, ⟨OP_SLTI, IFMT⟩, ⟨OP_SLTIU, IFMT⟩,
  ⟨OP_ANDI, IFMT⟩, ⟨OP_ORI, IFMT⟩, ⟨OP_XORI, IFMT⟩, ⟨OP_LUI, IFMT⟩,
  ⟨OP_UNIMP, IFMT⟩, ⟨OP_UNIMP, IFMT⟩, ⟨OP_UNIMP, IFMT⟩, ⟨OP_UNIMP, IFMT⟩,
  ⟨OP_RES, IFMT⟩, ⟨OP_RES, IFMT⟩, ⟨OP_RES, IFMT⟩, ⟨OP_RES, IFMT⟩,
  ⟨OP_RES, IFMT⟩, ⟨OP_RES, IFMT⟩, ⟨OP_RES, IFMT⟩, ⟨OP_RES, IFMT⟩,
  ⟨OP_RES, IFMT⟩, ⟨OP_RES, IFMT⟩, ⟨OP_RES, IFMT⟩, ⟨OP_RES, IFMT⟩,
  ⟨OP_LB, IFMT⟩, ⟨OP_LH, IFMT⟩, ⟨OP_LWL, IFMT⟩, ⟨OP_LW, IFMT⟩,
  ⟨OP_LBU, IFMT⟩, ⟨OP_LHU, IFMT⟩, ⟨OP_LWR, IFMT⟩, ⟨OP_RES, IFMT⟩,
  ⟨OP_SB, IFMT⟩, ⟨OP_SH, IFMT⟩, ⟨OP_SWL, IFMT⟩, ⟨OP_SW, IFMT⟩,
  ⟨OP_RES, IFMT⟩, ⟨OP_RES, IFMT⟩, ⟨OP_SWR, IFMT⟩, ⟨OP_RES, IFMT⟩,
  ⟨OP_UNIMP, IFMT⟩, ⟨OP_UNIMP, IFMT⟩, ⟨OP_UNIMP, IFMT⟩, ⟨OP_UNIMP, IFMT⟩,
  ⟨OP_RES, IFMT⟩, ⟨OP_RES, IFMT⟩, ⟨OP_RES, IFMT⟩, ⟨OP_RES, IFMT⟩,
  ⟨OP_UNIMP, IFMT⟩, ⟨OP_UNIMP, IFMT⟩, ⟨OP_UNIMP, IFMT⟩, ⟨OP_UNIMP, IFMT⟩,
  ⟨OP_RES, IFMT⟩, ⟨OP_RES, IFMT⟩, ⟨OP_RES, IFMT⟩, ⟨OP_RES, IFMT⟩]

def specialTable : List OpCode := [
  OP_SLL, OP_RES, OP_SRL, OP_SRA, OP_SLLV, OP_RES, OP_SRLV, OP_SRAV,
  OP_JR, OP_JALR, OP_RES, OP_RES, OP_SYSCALL, OP_UNIMP, OP_RES, OP_RES,
  OP_MFHI, OP_MTHI, OP_MFLO, OP_MTLO, OP_RES, OP_RES, OP_RES, OP_RES,
  OP_MULT, OP_MULTU, OP_DIV, OP_DIVU, OP_RES, OP_RES, OP_RES, OP_RES,
  OP_ADD, OP_ADDU, OP_SUB, OP_SUBU, OP_AND, OP_OR, OP_XOR, OP_NOR,
  OP_RES, OP_RES, OP_SLT, OP_SLTU, OP_RES, OP_RES, OP_RES, OP_RES,
  OP_RES, OP_RES, OP_RES, OP_RES, OP_RES, OP_RES, OP_RES, OP_RES,
  OP_RES, OP_RES, OP_RES, OP_RES, OP_RES, OP_RES, OP_RES, OP_RES]

theorem bits_lt (w : Word) : (w &&& 0x3f).toNat < 64 := by
  rw [BitVec.toNat_and]
  exact Nat.lt_of_le_of_lt Nat.and_le_right (by decide)

/-- A decoded instruction. -/
structure Instruction where
  opCode : OpCode
  rs : BitVec 5
  rt : BitVec 5
  rd : BitVec 5
  /-- The immediate, sign extended; or the target, or the shift amount. -/
  extra : Word
  deriving DecidableEq, Repr

namespace Instruction

/-- The operand. -/
def extraOf (value : Word) : Format → Word
  | IFMT =>
    let extra := value &&& 0xffff
    if extra &&& 0x8000 ≠ 0 then extra ||| 0xffff0000 else extra
  | RFMT => value >>> 6 &&& 0x1f
  | JFMT => value &&& 0x3ffffff

/-- The operation, from what `opTable` says. -/
def opCodeOf (value : Word) : OpCode → OpCode
  | SPECIAL => specialTable.get ⟨(value &&& 0x3f).toNat, bits_lt value⟩
  | BCOND =>
    let i := value &&& 0x1f0000
    if i = 0 then OP_BLTZ
    else if i = 0x10000 then OP_BGEZ
    else if i = 0x100000 then OP_BLTZAL
    else if i = 0x110000 then OP_BGEZAL
    else OP_UNIMP
  | opCode => opCode

/-- `Decode`. -/
def decode (value : Word) : Instruction :=
  let opPtr := opTable.get ⟨(value >>> 26 &&& 0x3f).toNat, bits_lt _⟩
  { rs := (value >>> 21).setWidth 5
    rt := (value >>> 16).setWidth 5
    rd := (value >>> 11).setWidth 5
    extra := extraOf value opPtr.format
    opCode := opCodeOf value opPtr.opCode }

end Instruction

/-- An operation that `OneInstruction` has a case for. -/
def OpCode.Executable (opCode : OpCode) : Prop := opCode ≠ OP_RFE ∧
    opCode ≠ SPECIAL ∧ opCode ≠ BCOND

instance (opCode : OpCode) : Decidable opCode.Executable :=
  inferInstanceAs (Decidable (_ ∧ _ ∧ _))

theorem specialTable_executable :
    ∀ opCode ∈ specialTable, opCode.Executable := by decide

theorem opTable_executable : ∀ info ∈ opTable, info.opCode = SPECIAL ∨
    info.opCode = BCOND ∨ info.opCode.Executable := by
  decide

theorem Instruction.opCodeOf_executable (value : Word) {opCode : OpCode}
    (h : opCode = SPECIAL ∨ opCode = BCOND ∨ opCode.Executable) :
    (opCodeOf value opCode).Executable := by
  rcases h with rfl | rfl | h
  · exact specialTable_executable _ (List.get_mem _ _)
  · rw [opCodeOf]
    repeat' split
    all_goals decide
  · have hself : opCodeOf value opCode = opCode := by
      cases opCode with
      | SPECIAL => exact absurd rfl h.2.1
      | BCOND => exact absurd rfl h.2.2
      | _ => rfl
    rw [hself]
    exact h

theorem Instruction.decode_executable (value : Word) :
    (decode value).opCode.Executable :=
  opCodeOf_executable value (opTable_executable _ (List.get_mem _ _))

end EroikoBlue.MP2
