/-
# `Lib.Focus` — one element of a list, and the others

What is done to element `i` of a list is done to `a` in `l₁ ++ a :: l₂`.
-/
import Mathlib.Data.List.Basic

namespace Focus

variable {α : Type}

theorem around : ∀ {l : List α} {i : Nat} {a : α}, l[i]? = some a →
    ∃ l₁ l₂, l = l₁ ++ a :: l₂ ∧ l.eraseIdx i = l₁ ++ l₂ ∧
      ∀ b, l.set i b = l₁ ++ b :: l₂
  | x :: l, 0, a, h =>
      ⟨[], l, congrArg (· :: l) (Option.some.inj h), rfl, fun _ => rfl⟩
  | x :: l, i + 1, a, h => by
      obtain ⟨l₁, l₂, hl, herase, hset⟩ := @around l i a h
      exact ⟨x :: l₁, l₂, congrArg (x :: ·) hl, congrArg (x :: ·) herase,
        fun b => congrArg (x :: ·) (hset b)⟩

theorem map_modify {β : Type} {f : α → β} {g : α → α} (h : ∀ a, f (g a) = f a)
    (l : List α) (i : Nat) :
    (l.modify i g).map f = l.map f := by
  refine List.ext_getElem? fun j => ?_
  rw [List.getElem?_map, List.getElem?_map, List.getElem?_modify]
  cases l[j]? with
  | none => rfl
  | some a =>
      refine congrArg some ?_
      dsimp only [Functor.map, Option.map]
      split
      · exact h a
      · rfl

end Focus
