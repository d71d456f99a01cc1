/-
# `Lib.SortedList` — insertion with a comparator that can fail

A list is kept in order by putting each new item before the first element it
compares less than.  The comparator is a program: it may stop, and its answers
need not be an order.  What an insertion does to the list is `Placed`:

    l = a ++ b,  the result is a ++ item :: b,
    item is not less than any element of a, and less than the first of b

`Placed.pairwise` carries a relation between earlier and later elements over an
insertion.  It asks for it between the item and its two sides only, so the
relation may be weaker than the order of the comparator.  For a comparator that
is an order (`TotalPreorder`) the list stays sorted.
-/
import Mathlib.Data.List.TakeWhile
import EroikoBlue.Lib.Outcome

namespace SortedList

section
variable {ε α : Type}

/-- Put `item` before the first element that compares greater. -/
def place (compare : α → α → Except ε Int) (item : α) : List α →
    Except ε (List α)
  | [] => .ok [item]
  | x :: l => do
    let c ← compare item x
    if c < 0 then pure (item :: x :: l)
    else do
      let l ← place compare item l
      pure (x :: l)

/-- The item stands between what it is not less than and what it is less
than. -/
def Placed (cmp : α → Int) (item : α) (l l' : List α) : Prop :=
  ∃ a b, l = a ++ b ∧ l' = a ++ item :: b ∧ (∀ x ∈ a, 0 ≤ cmp x) ∧
    ∀ x ∈ b.head?, cmp x < 0

theorem place_ok {compare : α → α → Except ε Int} {cmp : α → Int} {item : α} :
    ∀ {l : List α}, (∀ x ∈ l, compare item x = .ok (cmp x)) →
      ∃ l', place compare item l = .ok l' ∧ Placed cmp item l l'
  | [], _ => ⟨[item], rfl, [], [], rfl, rfl, nofun, nofun⟩
  | x :: l, h => by
      rw [place, h x (.head _), Outcome.ok_bind]
      by_cases hc : cmp x < 0
      · rw [if_pos hc]
        refine ⟨item :: x :: l, rfl, [], x :: l, rfl, rfl, nofun, ?_⟩
        intro y hy
        cases hy
        exact hc
      · obtain ⟨l', hl', a, b, rfl, rfl, ha, hb⟩ :=
          place_ok (l := l) fun y hy => h y (.tail _ hy)
        rw [if_neg hc, hl', Outcome.ok_bind]
        refine ⟨x :: (a ++ item :: b), rfl, x :: a, b, rfl, rfl, ?_, hb⟩
        intro y hy
        rcases List.mem_cons.mp hy with rfl | hy
        · exact Int.not_lt.mp hc
        · exact ha y hy

theorem placed_split (cmp : α → Int) (item : α) (l : List α) :
    Placed cmp item l (l.takeWhile (0 ≤ cmp ·) ++ item :: l.dropWhile
        (0 ≤ cmp ·)) := by
  refine ⟨_, _, List.takeWhile_append_dropWhile.symm, rfl, ?_, ?_⟩
  · intro x hx
    have hpos := List.mem_takeWhile_imp hx
    exact of_decide_eq_true hpos
  · intro x hx
    have hhead := List.head?_dropWhile_not (fun x => decide (0 ≤ cmp x)) l
    rw [hx] at hhead
    exact Int.not_le.mp (of_decide_eq_false hhead)

namespace Placed
variable {cmp : α → Int} {item : α} {l l' : List α}

theorem perm (h : Placed cmp item l l') : l'.Perm (item :: l) := by
  obtain ⟨a, b, rfl, rfl, _, _⟩ := h
  exact List.perm_middle

theorem mem (h : Placed cmp item l l') {x : α} : x ∈ l' ↔ x = item ∨ x ∈ l :=
  h.perm.mem_iff.trans List.mem_cons

/-- An insertion keeps a relation between earlier and later elements. -/
theorem pairwise {R : α → α → Prop} (h : Placed cmp item l l')
    (hl : l.Pairwise R) (hbefore : ∀ x ∈ l, 0 ≤ cmp x → R x item)
    (hafter : ∀ x ∈ l, cmp x < 0 → R item x ∧ ∀ y ∈ l, R x y → R item y) :
    l'.Pairwise R := by
  obtain ⟨a, b, rfl, rfl, ha, hb⟩ := h
  obtain ⟨hpa, hpb, hab⟩ := List.pairwise_append.mp hl
  have hitem : ∀ y ∈ b, R item y := by
    cases b with
    | nil => exact nofun
    | cons x b =>
        have hx := hafter x (List.mem_append_right _ (.head _)) (hb x rfl)
        intro y hy
        rcases List.mem_cons.mp hy with rfl | hy'
        · exact hx.1
        · exact hx.2 y (List.mem_append_right _ hy)
            (List.rel_of_pairwise_cons hpb hy')
  refine List.pairwise_append.mpr ⟨hpa, List.pairwise_cons.mpr ⟨hitem, hpb⟩, ?_⟩
  intro x hx y hy
  rcases List.mem_cons.mp hy with rfl | hy
  · exact hbefore x (List.mem_append_left _ hx) (ha x hx)
  · exact hab x hx y hy

theorem eq_split (h : Placed cmp item l l') :
    l' = l.takeWhile (0 ≤ cmp ·) ++ item :: l.dropWhile (0 ≤ cmp ·) := by
  obtain ⟨a, b, rfl, rfl, ha, hb⟩ := h
  have hpos : ∀ x ∈ a, decide (0 ≤ cmp x) = true :=
    fun x hx => decide_eq_true (ha x hx)
  rw [List.takeWhile_append_of_pos hpos, List.dropWhile_append_of_pos hpos]
  cases b with
  | nil => simp
  | cons x b =>
      have hx : ¬ 0 ≤ cmp x := Int.not_le.mpr (hb x rfl)
      simp [hx]

end Placed

end

/-! ## Comparators that are an order -/

/-- `compare x y` is negative when `x` comes before `y`, and 0 when neither
does. -/
structure TotalPreorder {α : Type} (compare : α → α → Int) : Prop where
  lt_iff : ∀ x y, compare x y < 0 ↔ 0 < compare y x
  trans : ∀ x y z, compare x y ≤ 0 → compare y z ≤ 0 → compare x z ≤ 0

namespace TotalPreorder
variable {α : Type} {compare : α → α → Int} {item : α} {l l' : List α}

theorem le_iff (h : TotalPreorder compare) (x y : α) : compare x y ≤ 0 ↔
    0 ≤ compare y x := by
  have hlt := h.lt_iff y x
  omega

theorem lt_of_lt_of_le (h : TotalPreorder compare) {x y z : α}
    (hxy : compare x y < 0) (hyz : compare y z ≤ 0) :
    compare x z < 0 := by
  refine Int.not_le.mp fun hxz => ?_
  have hyx := h.trans y z x hyz ((h.le_iff z x).mpr hxz)
  exact absurd ((h.lt_iff x y).mp hxy) (Int.not_lt.mpr hyx)

theorem pairwise (h : TotalPreorder compare)
    (hplaced : Placed (compare item) item l l')
    (hl : l.Pairwise (compare · · ≤ 0)) : l'.Pairwise (compare · · ≤ 0) := by
  refine hplaced.pairwise hl ?_ ?_
  · intro x _ hx
    exact (h.le_iff x item).mpr hx
  · intro x _ hx
    exact ⟨Int.le_of_lt hx,
      fun y _ hxy => Int.le_of_lt (h.lt_of_lt_of_le hx hxy)⟩

theorem split (h : TotalPreorder compare)
    (hplaced : Placed (compare item) item l l')
    (hl : l.Pairwise (compare · · ≤ 0)) :
    ∃ a b, l = a ++ b ∧ l' = a ++ item :: b ∧ (∀ x ∈ a, 0 ≤ compare item x) ∧
      ∀ x ∈ b, compare item x < 0 := by
  obtain ⟨a, b, rfl, rfl, ha, hb⟩ := hplaced
  refine ⟨a, b, rfl, rfl, ha, ?_⟩
  cases b with
  | nil => exact nofun
  | cons x b =>
      have hx := hb x rfl
      obtain ⟨_, hsorted, _⟩ := List.pairwise_append.mp hl
      refine List.forall_mem_cons.mpr ⟨hx, fun y hy => ?_⟩
      exact h.lt_of_lt_of_le hx (List.rel_of_pairwise_cons hsorted hy)

end TotalPreorder

end SortedList
