/-
# `Pthread.Transformer` — items, and the work that is done on them

Every opcode has a specification for the producers and one for the consumers;
another opcode fails an assertion.  `produced` and `consumed` are an item after
the one and the other, and `final` is what is written for a line of the input.

The work is a loop on a 64-bit word, with as many rounds as the specification
says.  The rest of the development does not look inside it; it needs that the
two transformations are functions of the item, so that an item can be followed
by what it will be.
-/
import EroikoBlue.Debug

namespace EroikoBlue.Pthread

structure Item where
  key : Int
  val : BitVec 64
  opcode : Char
  deriving DecidableEq, Repr

structure TransformSpec where
  a : BitVec 64
  b : BitVec 64
  m : BitVec 64
  iterations : Nat

namespace Transformer

/-- The loop of `transform`, with that many iterations to go. -/
def transformLoop (spec : TransformSpec) : Nat → BitVec 64 → BitVec 64
  | 0, val => val
  | n + 1, val => transformLoop spec n ((val * spec.a + spec.b) % spec.m)

def transform (spec : TransformSpec) (val : BitVec 64) : BitVec 64 :=
  transformLoop spec spec.iterations val

/-- The switch of `producer_transform`. -/
def producerSpec : Char → Option TransformSpec
  | 'A' => some ⟨2003, 183492, 1000000007, 9000000⟩
  | 'B' => some ⟨2143, 191324, 1000000009, 12000000⟩
  | 'C' => some ⟨2089, 923134, 1000000021, 5000000⟩
  | 'D' => some ⟨2677, 912834, 1000000033, 7000000⟩
  | 'E' => some ⟨2693, 718341, 1000000087, 12000000⟩
  | _ => none

/-- The switch of `consumer_transform`. -/
def consumerSpec : Char → Option TransformSpec
  | 'A' => some ⟨2729, 713423, 1000000093, 9000000⟩
  | 'B' => some ⟨2617, 193424, 1000000097, 5000000⟩
  | 'C' => some ⟨2053, 743142, 1000000103, 12000000⟩
  | 'D' => some ⟨2347, 617345, 1000000123, 12000000⟩
  | 'E' => some ⟨2521, 4719832, 1000000181, 7000000⟩
  | _ => none

def producerTransform (opcode : Char) (val : BitVec 64) :
    Except Fault (BitVec 64) :=
  match producerSpec opcode with
  | none => .error (.assertFailed "false")
  | some spec => .ok (transform spec val)

def consumerTransform (opcode : Char) (val : BitVec 64) :
    Except Fault (BitVec 64) :=
  match consumerSpec opcode with
  | none => .error (.assertFailed "false")
  | some spec => .ok (transform spec val)

end Transformer

namespace Item

open Transformer

/-- `new Item(it->key, val, it->opcode)` with the value of a producer, if there
is one. -/
def produced (it : Item) : Option Item :=
  match producerTransform it.opcode it.val with
  | .ok val => some ⟨it.key, val, it.opcode⟩
  | .error _ => none

def consumed (it : Item) : Option Item :=
  match consumerTransform it.opcode it.val with
  | .ok val => some ⟨it.key, val, it.opcode⟩
  | .error _ => none

def final (it : Item) : Option Item := it.produced.bind consumed

section
variable {it out : Item} {val : BitVec 64}

theorem produced_of_ok (h : producerTransform it.opcode it.val = .ok val) :
    it.produced = some ⟨it.key, val, it.opcode⟩ := by
  rw [produced, h]

theorem consumed_of_ok (h : consumerTransform it.opcode it.val = .ok val) :
    it.consumed = some ⟨it.key, val, it.opcode⟩ := by
  rw [consumed, h]

theorem final_ne_none {a b : TransformSpec}
    (ha : producerSpec it.opcode = some a)
    (hb : consumerSpec it.opcode = some b) : it.final ≠ none := by
  have hproduced : it.produced = some ⟨it.key, transform a it.val,
      it.opcode⟩ := by
    rw [produced, producerTransform, ha]
  rw [final, hproduced, Option.bind_some, consumed, consumerTransform, hb]
  exact nofun

theorem final_of_produced (h : it.produced = some out) :
    it.final = out.consumed := by
  rw [final, h]
  rfl

end

end Item

end EroikoBlue.Pthread
