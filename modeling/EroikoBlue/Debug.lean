/-
# `Debug` — how the program stops

`ASSERT` and `ASSERT_MSG` of `lib/debug.h` print a message and call `abort`.  A
run of the model therefore ends in one of four ways other than returning: an
assertion fails, the C++ standard says nothing about what happens next, an
exception leaves `main`, or a recursion never ends.  The message of an assertion
is its fixed text; the values interpolated into it are left out.
-/
import EroikoBlue.Lib.Outcome

namespace EroikoBlue

inductive Fault where
  /-- `ASSERT` or `ASSERT_MSG` failed; `abort` is called. -/
  | assertFailed (msg : String)
  /-- A library exception nobody catches. -/
  | exception (what : String)
  /-- The behaviour is undefined: a wild pointer, an index outside an array. -/
  | undefined (what : String)
  /-- The recursion of the source does not end. -/
  | diverges
  deriving DecidableEq, Repr

/-- The program ends: `abort`, or an exception nobody catches. -/
def Fault.ends : Fault → Bool
  | .assertFailed _ => true
  | .exception _ => true
  | _ => false

/-- `ASSERT_MSG(condition, msg)`; `ASSERT` is the same with no message. -/
def assertMsg (condition : Prop) [Decidable condition] (msg : String) :
    Except Fault Unit :=
  if condition then .ok () else .error (.assertFailed msg)

section
variable {condition : Prop} [Decidable condition] {msg : String}

theorem assertMsg_pos (h : condition) : assertMsg condition msg = .ok () :=
  if_pos h

theorem assertMsg_neg (h : ¬ condition) :
    assertMsg condition msg = .error (.assertFailed msg) := if_neg h

theorem assertMsg_eq_ok {u : Unit} : assertMsg condition msg = .ok u ↔
    condition := by
  unfold assertMsg
  split <;> simp [*]

end

end EroikoBlue
