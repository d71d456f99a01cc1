/-
# `Lib.Rewriting` — rules on a multiset

A rule puts some elements in the place of others and leaves the rest of the
multiset alone.  What a step does to a sum over the multiset is what its rule
does to the sum over the elements it names.
-/
import Mathlib.Algebra.BigOperators.Group.Multiset.Basic
import Mathlib.Algebra.Order.Group.Multiset

namespace Rewriting

variable {α : Type} {Rule : Multiset α → Multiset α → Prop} {s t : Multiset α}

inductive Step (Rule : Multiset α → Multiset α → Prop) : Multiset α →
    Multiset α → Prop
  | frame {before after : Multiset α} (rest : Multiset α)
      (h : Rule before after) :
      Step Rule (before + rest) (after + rest)

theorem Step.of_eq {before after : Multiset α} (rest : Multiset α)
    (h : Rule before after) (hs : s = before + rest) (ht : t = after + rest) :
    Step Rule s t := by
  rw [hs, ht]
  exact .frame rest h

theorem Step.sum_eq {M : Type}
    [AddCommMonoid M] (w : α → M) (hrule : ∀ {before after}, Rule before after →
      (before.map w).sum = (after.map w).sum) :
    Step Rule s t → (s.map w).sum = (t.map w).sum
  | .frame rest h => by
      rw [Multiset.map_add, Multiset.map_add, Multiset.sum_add,
        Multiset.sum_add, hrule h]

theorem Step.sum_lt (w : α → Nat) (hrule : ∀ {before after}, Rule before after →
      (after.map w).sum < (before.map w).sum) :
    Step Rule s t → (t.map w).sum < (s.map w).sum
  | .frame rest h => by
      rw [Multiset.map_add, Multiset.map_add, Multiset.sum_add,
        Multiset.sum_add]
      exact Nat.add_lt_add_right (hrule h) _

end Rewriting
