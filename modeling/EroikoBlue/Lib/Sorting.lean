/-
# `Lib.Sorting` — comparing two sorted lists from the front

Walking over two lists in parallel, as far as the shorter one goes, finds no
difference just when one of them is an initial piece of the other
(`agree_iff_isPrefix`).  Of two sorted lists that says: one has the elements of
the other, and what it has in addition comes after them in the order
(`Extends`).
-/
import Mathlib.Data.List.Sort

namespace Sorting

section
variable {α : Type}

/-- No difference is found in a walk over the two lists. -/
def Agree (a b : List α) : Prop := ∀ p ∈ a.zip b, p.1 = p.2

theorem agree_iff_isPrefix : ∀ {a b : List α}, Agree a b ↔ a <+: b ∨ b <+: a
  | [], b => by
      constructor
      · intro _
        exact .inl List.nil_prefix
      · intro _ p hp
        cases hp
  | x :: a, [] => by
      constructor
      · intro _
        exact .inr List.nil_prefix
      · intro _ p hp
        cases hp
  | x :: a, y :: b => by
      rw [List.cons_prefix_cons, List.cons_prefix_cons, Agree,
        List.zip_cons_cons, List.forall_mem_cons]
      constructor
      · rintro ⟨hxy, hrest⟩
        rcases agree_iff_isPrefix.mp hrest with h | h
        · exact .inl ⟨hxy, h⟩
        · exact .inr ⟨hxy.symm, h⟩
      · rintro (⟨hxy, h⟩ | ⟨hxy, h⟩)
        · exact ⟨hxy, agree_iff_isPrefix.mpr (.inl h)⟩
        · exact ⟨hxy.symm, agree_iff_isPrefix.mpr (.inr h)⟩

variable [LinearOrder α]

/-- `b` has the elements of `a`, and at least one more, and all that it has more
are not less than any element of `a`. -/
def Extends (a b : List α) : Prop :=
  ∃ extra, extra ≠ [] ∧ b.Perm (a ++ extra) ∧ ∀ x ∈ a, ∀ y ∈ extra, x ≤ y

def sort (l : List α) : List α := l.insertionSort (· ≤ ·)

theorem sort_perm (l : List α) : (sort l).Perm l := List.perm_insertionSort _ l

theorem sort_sorted (l : List α) : (sort l).SortedLE :=
  List.sortedLE_insertionSort

theorem sort_eq_iff {a b : List α} : sort a = sort b ↔ a.Perm b := by
  constructor
  · intro h
    exact (sort_perm a).symm.trans (h ▸ sort_perm b)
  · intro h
    exact List.Perm.eq_of_sortedLE (sort_sorted a) (sort_sorted b)
      ((sort_perm a).trans (h.trans (sort_perm b).symm))

theorem sort_prefix_iff {a b : List α} : sort a <+: sort b ↔
    a.Perm b ∨ Extends a b := by
  constructor
  · rintro ⟨extra, h⟩
    cases extra with
    | nil =>
        rw [List.append_nil] at h
        exact .inl (sort_eq_iff.mp h)
    | cons y rest =>
        refine .inr ⟨y :: rest, List.cons_ne_nil _ _, ?_, ?_⟩
        · exact (sort_perm b).symm.trans (h ▸ (sort_perm a).append_right _)
        · have hsorted := (sort_sorted b).pairwise
          rw [← h, List.pairwise_append] at hsorted
          intro x hx z hz
          exact hsorted.2.2 x ((sort_perm a).mem_iff.mpr hx) z hz
  · rintro (h | ⟨extra, -, hperm, hle⟩)
    · exact sort_eq_iff.mpr h ▸ List.prefix_rfl
    · refine ⟨sort extra, ?_⟩
      -- the two sorted pieces, one after the other, are sorted
      have hsorted : (sort a ++ sort extra).SortedLE := by
        refine List.Pairwise.sortedLE (List.pairwise_append.mpr ?_)
        refine ⟨(sort_sorted a).pairwise, (sort_sorted extra).pairwise, ?_⟩
        intro x hx y hy
        exact hle x ((sort_perm a).mem_iff.mp hx) y
          ((sort_perm extra).mem_iff.mp hy)
      exact List.Perm.eq_of_sortedLE hsorted (sort_sorted b)
        (((sort_perm a).append (sort_perm extra)).trans
          (hperm.symm.trans (sort_perm b).symm))

theorem Extends.length_lt {a b : List α} (h : Extends a b) :
    a.length < b.length := by
  obtain ⟨extra, hne, hperm, -⟩ := h
  rw [hperm.length_eq, List.length_append]
  exact Nat.lt_add_of_pos_right (List.length_pos_iff.mpr hne)

/-- No difference between the sorted lists: they have the same elements, or one
has more at its end. -/
theorem agree_sort_iff {a b : List α} :
    Agree (sort a) (sort b) ↔ a.Perm b ∨ Extends a b ∨ Extends b a := by
  rw [agree_iff_isPrefix, sort_prefix_iff, sort_prefix_iff]
  constructor
  · rintro ((h | h) | (h | h))
    · exact .inl h
    · exact .inr (.inl h)
    · exact .inl h.symm
    · exact .inr (.inr h)
  · rintro (h | h | h)
    · exact .inl (.inl h)
    · exact .inl (.inr h)
    · exact .inr (.inr h)

end

end Sorting
