/-
# `Pthread.Verify` — `scripts/verify.py`

The script that `make run_test0` and `make run_test1` end with.  It sorts the
lines of the output and those of the answer and compares them in pairs, and
`zip` makes no pair for what one file has more than the other.
`verify_exact_iff` says that its verdict is right unless one file has the lines
of the other and then some that come after all of these.

Files are given as the text that `open` decodes.  A line is what `readlines`
makes of it, with the newline it ends in; the last one may have none.

The order of the lines does not matter, which is what the script is for: the
threads may write them in any.  `verify_lost_line` is an output that lacks the
last line of the answer, and passes.
-/
import Mathlib.Data.Char
import Mathlib.Data.List.Lex
import EroikoBlue.Lib.Sorting

namespace EroikoBlue.Pthread

open Sorting (Agree Extends)

/-- What text mode makes of the three ways to end a line. -/
def universalNewlines : List Char → List Char
  | [] => []
  | '\r' :: '\n' :: text => '\n' :: universalNewlines text
  | '\r' :: text => '\n' :: universalNewlines text
  | c :: text => c :: universalNewlines text

/-- The pieces of a text up to each newline, and the rest. -/
def splitLines : List Char → List (List Char)
  | [] => []
  | c :: text =>
    if c = '\n' then ['\n'] :: splitLines text
    else match splitLines text with
      | [] => [[c]]
      | line :: lines => (c :: line) :: lines

/-- `readlines`. -/
def readlines (text : List Char) : List (List Char) :=
  splitLines (universalNewlines text)

def successMessage : String := "\n\x1b[1;32;48msuccess ouo.\x1b[1;37;0m\n"

def failMessage : String := "\n\x1b[1;31;48mfail QAQ.\x1b[1;37;0m\n"

/-- The loop of `verify`, and what is printed after it or in it. -/
def compareLines : List (List Char × List Char) → String
  | [] => successMessage
  | (outputLine, answerLine) :: pairs =>
      if outputLine ≠ answerLine then failMessage else compareLines pairs

/-- `verify`: what it prints.  The lines are compared as strings of code
points. -/
def verify (output answer : List Char) : String :=
  let outputLines := Sorting.sort (readlines output)
  let answerLines := Sorting.sort (readlines answer)
  compareLines (outputLines.zip answerLines)

theorem failMessage_ne : failMessage ≠ successMessage := by decide

theorem compareLines_iff : ∀ {pairs : List (List Char × List Char)},
    compareLines pairs = successMessage ↔ ∀ p ∈ pairs, p.1 = p.2
  | [] => by
      refine iff_of_true rfl ?_
      intro p hp
      cases hp
  | (outputLine, answerLine) :: pairs => by
      rw [compareLines, List.forall_mem_cons]
      by_cases h : outputLine = answerLine
      · rw [if_neg (not_not.mpr h), compareLines_iff]
        exact (and_iff_right h).symm
      · rw [if_pos h]
        exact iff_of_false failMessage_ne fun hall => h hall.1

theorem verify_success_iff {output answer : List Char} :
    verify output answer = successMessage ↔
    (readlines output).Perm (readlines answer) ∨
      Extends (readlines output) (readlines answer) ∨
      Extends (readlines answer) (readlines output) := by
  rw [verify, compareLines_iff]
  exact Sorting.agree_sort_iff

theorem verify_exact_iff (output answer : List Char) :
    (verify output answer = successMessage ↔
        (readlines output).Perm (readlines answer)) ↔
      ¬ Extends (readlines output) (readlines answer) ∧
      ¬ Extends (readlines answer) (readlines output) := by
  rw [verify_success_iff]
  constructor
  · intro h
    constructor
    · intro hmore
      exact hmore.length_lt.ne (h.mp (.inr (.inl hmore))).length_eq
    · intro hmore
      exact hmore.length_lt.ne (h.mp (.inr (.inr hmore))).length_eq.symm
  · rintro ⟨hout, hans⟩
    constructor
    · rintro (h | h | h)
      · exact h
      · exact absurd h hout
      · exact absurd h hans
    · intro h
      exact .inl h

/-- An output that lost its last line. -/
theorem verify_lost_line :
    verify ['1', '\n'] ['1', '\n', '2', '\n'] = successMessage ∧
      ¬ (readlines ['1', '\n']).Perm (readlines ['1', '\n', '2', '\n']) := by
  refine ⟨by decide, ?_⟩
  intro h
  exact absurd h.length_eq (by decide)

end EroikoBlue.Pthread
