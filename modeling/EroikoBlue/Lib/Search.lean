/-
# `Lib.Search` — the first element that satisfies a test

A C loop over an array that stops at the first hit is `findIdx?`, and what it
then does to `a[i]` is `modify i`.  Proofs about such loops go element by
element, so the pair is turned into a recursion, `updateFirst`, once and for
all; `find?` is the same search when only the element is wanted.
-/
import Mathlib.Data.List.Basic

namespace Search

variable {α : Type} (p : α → Bool)

/-- Change the first element that satisfies `p`. -/
def updateFirst (f : α → α) : List α → List α
  | [] => []
  | a :: l => if p a then f a :: l else a :: updateFirst f l

variable {p}

@[simp] theorem length_updateFirst (f : α → α) (l : List α) :
    (updateFirst p f l).length = l.length := by
  induction l with
  | nil => rfl
  | cons a l ih =>
      rw [updateFirst]
      split
      · rfl
      · rw [List.length_cons, ih, List.length_cons]

theorem modify_findIdx? {f : α → α} {l : List α} {i : Nat}
    (h : l.findIdx? p = some i) :
    l.modify i f = updateFirst p f l := by
  induction l generalizing i with
  | nil => simp at h
  | cons a l ih =>
      rw [List.findIdx?_cons] at h
      by_cases ha : p a = true
      · rw [if_pos ha, Option.some.injEq] at h
        subst h
        rw [updateFirst, if_pos ha]
        rfl
      · rw [if_neg ha] at h
        obtain ⟨j, hj, rfl⟩ := Option.map_eq_some_iff.mp h
        rw [updateFirst, if_neg ha, ← ih hj]
        rfl

theorem getD_findIdx? {l : List α} {i : Nat}
    (h : l.findIdx? p = some i) (x : α) :
    l.find? p = some (l.getD i x) := by
  induction l generalizing i with
  | nil => simp at h
  | cons a l ih =>
      rw [List.findIdx?_cons] at h
      rw [List.find?_cons]
      by_cases ha : p a = true
      · rw [if_pos ha, Option.some.injEq] at h
        subst h
        rw [ha]
        rfl
      · rw [if_neg ha] at h
        obtain ⟨j, hj, rfl⟩ := Option.map_eq_some_iff.mp h
        rw [Bool.eq_false_iff.mpr ha]
        exact ih hj

/-- Changing one that satisfies the test into one that does not leaves one
less. -/
theorem countP_updateFirst {f : α → α} (hf : ∀ a, p (f a) = false) {l : List α}
    {a : α} (h : l.find? p = some a) : (updateFirst p f l).countP p + 1 =
    l.countP p := by
  induction l with
  | nil => cases h
  | cons b l ih =>
      rw [updateFirst]
      by_cases hb : p b = true
      · rw [if_pos hb, List.countP_cons_of_neg (by simp [hf]),
          List.countP_cons_of_pos hb]
      · rw [List.find?_cons_of_neg hb] at h
        rw [if_neg hb, List.countP_cons_of_neg hb,
          List.countP_cons_of_neg hb, ih h]

theorem findIdx?_isNone (l : List α) : l.findIdx? p = none ↔
    l.find? p = none := by
  rw [List.findIdx?_eq_none_iff, List.find?_eq_none]
  simp

end Search
