/-
# `MP2.Machine` — one instruction of a user program

`OneInstruction` fetches a word, decodes it and executes it; a load reaches its
register one instruction late.  There are two ways not to get to the end:

    exception which    `RaiseException` has called `ExceptionHandler(which)`
    fault f            the simulator itself stops

Each `RaiseException` in the source is followed by a `return`, so it ends the
run here.  Arithmetic on `int` wraps, as it does on the host; the quotient of
the least number and -1 does not fit, and there the host stops the simulator.
-/
import EroikoBlue.MP2.Mips
import EroikoBlue.MP2.Mult
import EroikoBlue.MP2.Syscall

namespace EroikoBlue.MP2

open Bytes (Byte Word wordBytes byteWord)
open ExceptionType OpCode

/-! ## Registers and memory -/

abbrev NumGPRegs : Nat := 32
abbrev NumTotalRegs : Nat := 40

abbrev Register := Fin NumTotalRegs

instance (priority := 2000) : @NeZero Nat Zero.ofOfNat0 NumTotalRegs :=
  ⟨Nat.succ_ne_zero _⟩

namespace Register

def HiReg : Register := 32
def LoReg : Register := 33
def PCReg : Register := 34
def NextPCReg : Register := 35
def PrevPCReg : Register := 36
def LoadReg : Register := 37
def LoadValueReg : Register := 38
def BadVAddrReg : Register := 39

/-- A register named by an instruction. -/
def general (r : BitVec 5) : Register :=
  ⟨r.toNat, Nat.lt_trans r.isLt (by decide)⟩

end Register

open Register

structure Machine where
  registers : Register → Word
  mainMemory : Memory
  pageTable : Option PageTable
  pageTableSize : Nat

inductive Stop where
  | exception (which : ExceptionType)
  | fault (f : Fault)
  deriving DecidableEq, Repr

/-- A part of the simulation of an instruction. -/
abbrev User := EStateM Stop Machine

namespace Machine

def register (r : Register) : User Word := fun m => .ok (m.registers r) m

/-- `registers[r] = value`. -/
def setRegister (r : Register) (value : Word) : User Unit := fun m =>
  .ok () { m with registers := fun r' => if r' = r then value
    else m.registers r' }

/-- The simulator stops. -/
def stops {α : Type} (f : Fault) : User α := fun m => .error (.fault f) m

/-- `DelayedLoad`. -/
def delayedLoad (nextReg : BitVec 5) (nextValue : Word) : User Unit := do
  let load ← register LoadReg
  if h : load.toNat < NumTotalRegs then
    let value ← register LoadValueReg
    setRegister ⟨load.toNat, h⟩ value
    setRegister LoadReg (nextReg.setWidth 32)
    setRegister LoadValueReg nextValue
    setRegister 0 0
  else stops (.undefined "an index outside registers")

/-- `RaiseException`, up to the call of `ExceptionHandler`. -/
def raiseException {α : Type} (which : ExceptionType) (badVAddr : Word) :
    User α := do
  setRegister BadVAddrReg badVAddr
  delayedLoad 0 0
  throw (.exception which)

/-- `Translate`. -/
def translate (virtAddr : Word) (size : Nat) (writing : Bool) :
    User (ExceptionType × Nat) := fun m =>
  match machineTranslate m.pageTable m.pageTableSize virtAddr.toNat size
      writing with
  | .ok (exception, physAddr, pageTable) =>
      .ok (exception, physAddr) { m with pageTable }
  | .error f => .error (.fault f) m

/-- `*(type *) &mainMemory[physicalAddress]` as an `int`. -/
def fetch (size physicalAddress : Nat) : User Word := fun m =>
  let mem := m.mainMemory
  match size with
  | 1 => .ok ((mem physicalAddress).signExtend 32) m
  | 2 => .ok ((mem (physicalAddress + 1) ++ mem physicalAddress).setWidth 32) m
  | 4 => .ok (byteWord (mem physicalAddress) (mem (physicalAddress + 1))
        (mem (physicalAddress + 2))
      (mem (physicalAddress + 3))) m
  | _ => .error (.fault (.assertFailed "")) m

/-- The low bytes of `value` go to `mainMemory[physicalAddress]`. -/
def store (size physicalAddress : Nat) (value : Word) : User Unit := fun m =>
  if size = 1 ∨ size = 2 ∨ size = 4 then
    match m.mainMemory.write physicalAddress ((wordBytes value).take size) with
    | .ok mainMemory => .ok () { m with mainMemory }
    | .error f => .error (.fault f) m
  else .error (.fault (.assertFailed "")) m

/-- `ReadMem`. -/
def readMem (addr : Word) (size : Nat) : User Word := do
  let r ← translate addr size false
  if r.1 ≠ NoException then raiseException r.1 addr
  else fetch size r.2

/-- `WriteMem`. -/
def writeMem (addr : Word) (size : Nat) (value : Word) : User Unit := do
  let r ← translate addr size true
  if r.1 ≠ NoException then raiseException r.1 addr
  else store size r.2 value

end Machine

/-! ## `OneInstruction` -/

def SIGN_BIT : Word := 0x80000000

def indexToAddr (x : Word) : Word := x <<< 2

/-- What an instruction leaves for the end of `OneInstruction`. -/
structure Next where
  pcAfter : Word
  nextLoadReg : BitVec 5 := 0
  nextLoadValue : Word := 0

namespace Instruction

open Machine

/-- `LWL`: the word that is loaded, `byte` bytes above the aligned address. -/
def mergeLeft (byte value old : Word) : Word :=
  if 3 - byte = 0 then value
  else if 3 - byte = 1 then old &&& 0xff ||| value <<< 8
  else if 3 - byte = 2 then old &&& 0xffff ||| value <<< 16
  else old &&& 0xffffff ||| value <<< 24

/-- `LWR`. -/
def mergeRight (byte value old : Word) : Word :=
  if 3 - byte = 0 then old &&& 0xffffff00 ||| value.sshiftRight 24 &&& 0xff
  else if 3 - byte = 1 then
    old &&& 0xffff0000 ||| value.sshiftRight 16 &&& 0xffff
  else if 3 - byte = 2 then
    old &&& 0xff000000 ||| value.sshiftRight 8 &&& 0xffffff
  else value

/-- `SWL`: the word that is stored over `value`. -/
def storeLeft (byte value reg : Word) : Word :=
  if 3 - byte = 0 then reg
  else if 3 - byte = 1 then
    value &&& 0xff000000 ||| reg.sshiftRight 8 &&& 0xffffff
  else if 3 - byte = 2 then
    value &&& 0xffff0000 ||| reg.sshiftRight 16 &&& 0xffff
  else value &&& 0xffffff00 ||| reg.sshiftRight 24 &&& 0xff

/-- `SWR`. -/
def storeRight (byte value reg : Word) : Word :=
  if 3 - byte = 0 then value &&& 0xffffff ||| reg <<< 24
  else if 3 - byte = 1 then value &&& 0xffff ||| reg <<< 16
  else if 3 - byte = 2 then value &&& 0xff ||| reg <<< 8
  else reg

/-- `pcAfter`, for an instruction that is no jump. -/
def pcAfter : User Word := do
  let nextPC ← register NextPCReg
  pure (nextPC + 4)

/-- A register gets a value, and nothing else happens. -/
def result (r : Register) (value : Word) : User Next := do
  let pcAfter ← pcAfter
  setRegister r value
  pure { pcAfter }

/-- The double register gets a value. -/
def setHiLo (hi lo : Word) : User Next := do
  let pcAfter ← pcAfter
  setRegister LoReg lo
  setRegister HiReg hi
  pure { pcAfter }

/-- `registers[r] = registers[NextPCReg] + 4`. -/
def link (r : Register) : User Unit := do
  let nextPC ← register NextPCReg
  setRegister r (nextPC + 4)

section
variable (i : Instruction)

/-- The address of a load or store. -/
def address : User Word := do
  let rs ← register (general i.rs)
  pure (rs + i.extra)

/-- A function of `rs` and `rt`, into `rd`. -/
def binary (f : Word → Word → Word) : User Next := do
  let rs ← register (general i.rs)
  let rt ← register (general i.rt)
  result (general i.rd) (f rs rt)

/-- A function of `rs`, into `rt`. -/
def immediate (f : Word → Word) : User Next := do
  let rs ← register (general i.rs)
  result (general i.rt) (f rs)

/-- A branch. -/
def branch (taken : Word → Word → Bool) : User Next := do
  let rs ← register (general i.rs)
  let rt ← register (general i.rt)
  let nextPC ← register NextPCReg
  pure { pcAfter := if taken rs rt then nextPC + indexToAddr i.extra
    else nextPC + 4 }

/-- `J`. -/
def jump : User Next := do
  let pcAfter ← pcAfter
  pure { pcAfter := pcAfter &&& 0xf0000000 ||| indexToAddr i.extra }

/-- `JR`. -/
def jumpRegister : User Next := do
  let rs ← register (general i.rs)
  pure { pcAfter := rs }

/-- A load that is no word: `sign` is the bit that `ones` extends, and `mask`
the bits that are loaded. -/
def loadPart (size : Nat) (signed : Bool) (sign ones mask : Word) :
    User Next := do
  let tmp ← i.address
  if size = 2 ∧ tmp &&& 1 ≠ 0 then raiseException AddressErrorException tmp
  else do
    let value ← readMem tmp size
    let pcAfter ← pcAfter
    pure { pcAfter, nextLoadReg := i.rt
           nextLoadValue := if value &&& sign ≠ 0 ∧ signed then value ||| ones
             else value &&& mask }

/-- `LW`. -/
def loadWord : User Next := do
  let tmp ← i.address
  if tmp &&& 3 ≠ 0 then raiseException AddressErrorException tmp
  else do
    let value ← readMem tmp 4
    let pcAfter ← pcAfter
    pure { pcAfter, nextLoadReg := i.rt, nextLoadValue := value }

/-- `LWL` and `LWR`. -/
def loadUnaligned (merge : Word → Word → Word → Word) : User Next := do
  let tmp ← i.address
  let byte := tmp &&& 3
  let value ← readMem (tmp - byte) 4
  let load ← register LoadReg
  let loadValue ← register LoadValueReg
  let rt ← register (general i.rt)
  let pcAfter ← pcAfter
  pure { pcAfter, nextLoadReg := i.rt
         nextLoadValue := merge byte value (if load = i.rt.setWidth 32 then
           loadValue else rt) }

/-- `SB`, `SH` and `SW`. -/
def storePart (size : Nat) : User Next := do
  let tmp ← i.address
  let rt ← register (general i.rt)
  let pcAfter ← pcAfter
  writeMem tmp size rt
  pure { pcAfter }

/-- `SWL` and `SWR`. -/
def storeUnaligned (merge : Word → Word → Word → Word) : User Next := do
  let tmp ← i.address
  let byte := tmp &&& 3
  let value ← readMem (tmp - byte) 4
  let rt ← register (general i.rt)
  let pcAfter ← pcAfter
  writeMem (tmp - byte) 4 (merge byte value rt)
  pure { pcAfter }

/-- The `switch` of `OneInstruction`. -/
def execute : User Next :=
  match i.opCode with
  | OP_ADD => do
    let rs ← register (general i.rs)
    let rt ← register (general i.rt)
    let sum := rs + rt
    if (rs ^^^ rt) &&& SIGN_BIT = 0 ∧ (rs ^^^ sum) &&& SIGN_BIT ≠ 0 then
      raiseException OverflowException 0
    else result (general i.rd) sum
  | OP_ADDI => do
    let rs ← register (general i.rs)
    let sum := rs + i.extra
    if (rs ^^^ i.extra) &&& SIGN_BIT = 0 ∧ (i.extra ^^^ sum) &&& SIGN_BIT ≠ 0
      then raiseException OverflowException 0
    else result (general i.rt) sum
  | OP_ADDIU => i.immediate fun rs => rs + i.extra
  | OP_ADDU => i.binary fun rs rt => rs + rt
  | OP_AND => i.binary fun rs rt => rs &&& rt
  | OP_ANDI => i.immediate fun rs => rs &&& (i.extra &&& 0xffff)
  | OP_BEQ => i.branch fun rs rt => rs = rt
  | OP_BGEZAL => do
    link 31
    i.branch fun rs _ => rs &&& SIGN_BIT = 0
  | OP_BGEZ => i.branch fun rs _ => rs &&& SIGN_BIT = 0
  | OP_BGTZ => i.branch fun rs _ => (0 : Word).slt rs
  | OP_BLEZ => i.branch fun rs _ => rs.sle 0
  | OP_BLTZAL => do
    link 31
    i.branch fun rs _ => rs &&& SIGN_BIT ≠ 0
  | OP_BLTZ => i.branch fun rs _ => rs &&& SIGN_BIT ≠ 0
  | OP_BNE => i.branch fun rs rt => rs ≠ rt
  | OP_DIV => do
    let rs ← register (general i.rs)
    let rt ← register (general i.rt)
    if rt = 0 then setHiLo 0 0
    else if rs = SIGN_BIT ∧
      rt = -1 then stops (.undefined "a quotient that is no int")
    else setHiLo (rs.srem rt) (rs.sdiv rt)
  | OP_DIVU => do
    let rs ← register (general i.rs)
    let rt ← register (general i.rt)
    if rt = 0 then setHiLo 0 0
    else setHiLo (rs % rt) (rs / rt)
  | OP_JAL => do
    link 31
    i.jump
  | OP_J => i.jump
  | OP_JALR => do
    link (general i.rd)
    i.jumpRegister
  | OP_JR => i.jumpRegister
  | OP_LB => i.loadPart 1 true 0x80 0xffffff00 0xff
  | OP_LBU => i.loadPart 1 false 0x80 0xffffff00 0xff
  | OP_LH => i.loadPart 2 true 0x8000 0xffff0000 0xffff
  | OP_LHU => i.loadPart 2 false 0x8000 0xffff0000 0xffff
  | OP_LUI => result (general i.rt) (i.extra <<< 16)
  | OP_LW => i.loadWord
  | OP_LWL => i.loadUnaligned mergeLeft
  | OP_LWR => i.loadUnaligned mergeRight
  | OP_MFHI => do
    let hi ← register HiReg
    result (general i.rd) hi
  | OP_MFLO => do
    let lo ← register LoReg
    result (general i.rd) lo
  | OP_MTHI => do
    let rs ← register (general i.rs)
    result HiReg rs
  | OP_MTLO => do
    let rs ← register (general i.rs)
    result LoReg rs
  | OP_MULT => do
    let rs ← register (general i.rs)
    let rt ← register (general i.rt)
    setHiLo (mult rs rt true).1 (mult rs rt true).2
  | OP_MULTU => do
    let rs ← register (general i.rs)
    let rt ← register (general i.rt)
    setHiLo (mult rs rt false).1 (mult rs rt false).2
  | OP_NOR => i.binary fun rs rt => ~~~(rs ||| rt)
  | OP_OR => i.binary fun rs rt => rs ||| rt
  | OP_ORI => i.immediate fun rs => rs ||| (i.extra &&& 0xffff)
  | OP_SB => i.storePart 1
  | OP_SH => i.storePart 2
  | OP_SLL => i.binary fun _ rt => rt <<< i.extra
  | OP_SLLV => i.binary fun rs rt => rt <<< (rs &&& 0x1f)
  | OP_SLT => i.binary fun rs rt => if rs.slt rt then 1 else 0
  | OP_SLTI => i.immediate fun rs => if rs.slt i.extra then 1 else 0
  | OP_SLTIU => i.immediate fun rs => if rs < i.extra then 1 else 0
  | OP_SLTU => i.binary fun rs rt => if rs < rt then 1 else 0
  | OP_SRA => i.binary fun _ rt => rt.sshiftRight i.extra.toNat
  | OP_SRAV => i.binary fun rs rt => rt.sshiftRight (rs &&& 0x1f).toNat
  -- `tmp` is signed, so these shift its sign in too
  | OP_SRL => i.binary fun _ rt => rt.sshiftRight i.extra.toNat
  | OP_SRLV => i.binary fun rs rt => rt.sshiftRight (rs &&& 0x1f).toNat
  | OP_SUB => do
    let rs ← register (general i.rs)
    let rt ← register (general i.rt)
    let diff := rs - rt
    if (rs ^^^ rt) &&& SIGN_BIT ≠ 0 ∧ (rs ^^^ diff) &&& SIGN_BIT ≠ 0 then
      raiseException OverflowException 0
    else result (general i.rd) diff
  | OP_SUBU => i.binary fun rs rt => rs - rt
  | OP_SW => i.storePart 4
  | OP_SWL => i.storeUnaligned storeLeft
  | OP_SWR => i.storeUnaligned storeRight
  | OP_SYSCALL => raiseException SyscallException 0
  | OP_XOR => i.binary fun rs rt => rs ^^^ rt
  | OP_XORI => i.immediate fun rs => rs ^^^ (i.extra &&& 0xffff)
  | OP_RES => raiseException IllegalInstrException 0
  | OP_UNIMP => raiseException IllegalInstrException 0
  | OP_RFE => stops (.assertFailed "")
  | SPECIAL => stops (.assertFailed "")
  | BCOND => stops (.assertFailed "")

end

end Instruction

namespace Machine

/-- The end of `OneInstruction`. -/
def advance (next : Next) : User Unit := do
  delayedLoad next.nextLoadReg next.nextLoadValue
  let pc ← register PCReg
  setRegister PrevPCReg pc
  let nextPC ← register NextPCReg
  setRegister PCReg nextPC
  setRegister NextPCReg next.pcAfter

/-- `OneInstruction`. -/
def oneInstruction : User Unit := do
  let pc ← register PCReg
  let raw ← readMem pc 4
  let next ← (Instruction.decode raw).execute
  advance next

end Machine

end EroikoBlue.MP2
