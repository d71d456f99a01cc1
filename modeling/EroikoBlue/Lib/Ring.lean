/-
# `Lib.Ring` — a list in a ring of cells

`head` is the cell before the first element, so element `i` is in `slot cap head
i`, and an empty ring may have its head anywhere.

    push    write to `slot cap head length`
    pop     read `slot cap head 0`, which is the next head

`Holds` says which list is in the ring.  It speaks of the cells of the list and
of no others: what was popped may still be there, and so it is in the program.
-/
import Mathlib.Data.Nat.ModEq

namespace Ring

variable {α : Type} {cap head i j : Nat} {cells : Nat → Option α} {x : α}
  {xs : List α}

/-- The cell of element `i`. -/
def slot (cap head i : Nat) : Nat := (head + 1 + i) % cap

theorem slot_inj (hi : i < cap) (hj : j < cap)
    (h : slot cap head i = slot cap head j) : i = j := by
  have hmod : i ≡ j [MOD cap] := Nat.ModEq.add_left_cancel' (head + 1) h
  rwa [Nat.ModEq, Nat.mod_eq_of_lt hi, Nat.mod_eq_of_lt hj] at hmod

theorem slot_advance :
    slot cap ((head + 1) % cap) i = slot cap head (i + 1) := by
  rw [slot, slot, Nat.add_assoc, Nat.mod_add_mod, Nat.add_comm 1 i]

/-- The ring holds a list. -/
structure Holds (cap head : Nat) (cells : Nat → Option α)
    (xs : List α) : Prop where
  le : xs.length ≤ cap
  cell : ∀ i x, xs[i]? = some x → cells (slot cap head i) = some x

theorem holds_nil : Holds cap head cells ([] : List α) := ⟨Nat.zero_le _, nofun⟩

theorem slot_length_ne (hi : i < xs.length) (h : xs.length < cap) :
    slot cap head i ≠ slot cap head xs.length :=
  fun heq => hi.ne (slot_inj (hi.trans h) h heq)

theorem Holds.push (h : Holds cap head cells xs) (hlen : xs.length < cap) :
    Holds cap head (fun k => if k = slot cap head xs.length then some x
        else cells k) (xs ++ [x]) := by
  refine ⟨List.length_append.trans_le hlen, ?_⟩
  intro i y hy
  rcases Nat.lt_or_ge i xs.length with hi | hi
  · rw [List.getElem?_append_left hi] at hy
    exact (if_neg (slot_length_ne hi hlen)).trans (h.cell i y hy)
  · rw [List.getElem?_append_right hi] at hy
    obtain ⟨hlt, rfl⟩ := List.getElem?_eq_some_iff.mp hy
    have heq : i = xs.length :=
      Nat.le_antisymm (Nat.le_of_sub_eq_zero (Nat.lt_one_iff.mp hlt)) hi
    subst heq
    rw [if_pos rfl]
    simp only [Nat.sub_self, List.getElem_cons_zero]

theorem Holds.first (h : Holds cap head cells (x :: xs)) :
    cells ((head + 1) % cap) = some x := h.cell 0 x rfl

theorem Holds.pop (h : Holds cap head cells (x :: xs)) :
    Holds cap ((head + 1) % cap) cells xs := by
  refine ⟨(Nat.le_succ _).trans h.le, ?_⟩
  intro i y hy
  rw [slot_advance]
  exact h.cell (i + 1) y hy

end Ring
