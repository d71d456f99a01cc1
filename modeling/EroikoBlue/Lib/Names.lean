/-
# `Lib.Names` — a tree of named things

Something in a tree is found by its path, the keys that lead to it from the
root.  The tree is then a function from paths to what is there, a directory or a
file with its content, and two operations change it:

    put p x     there is `x` at `p`
    cut p       there is nothing at `p`, nor anywhere below

Both leave alone what is not at `p` or below it, `Outside p`; a change that does
is seen from no other place.

That a change was a `put` or a `cut` is shown by looking at every place: at `p`,
below it, and elsewhere (`eq_put`, `eq_cut`).
-/
import Mathlib.Logic.Function.Basic

/-- What can be at a path. -/
inductive Node (C : Type) where
  | dir
  | file (content : C)

abbrev Names (K C : Type) := List K → Option (Node C)

namespace Names
variable {K C : Type} [DecidableEq K] {n n' : Names K C} {p q : List K}
  {x : Node C}

def put (n : Names K C) (p : List K) (x : Node C) : Names K C :=
  Function.update n p (some x)

def cut (n : Names K C) (p : List K) : Names K C :=
  fun q => if p <+: q then none else n q

@[simp] theorem put_self : n.put p x p = some x := Function.update_self ..

theorem put_of_ne (h : q ≠ p) : n.put p x q = n q := Function.update_of_ne h ..

theorem put_put (n : Names K C) (p : List K) (x y : Node C) :
    (n.put p x).put p y = n.put p y :=
  Function.update_idem ..

theorem cut_below (h : p <+: q) : n.cut p q = none := if_pos h

theorem cut_of_not (h : ¬ p <+: q) : n.cut p q = n q := if_neg h

omit [DecidableEq K] in
/-- What is not at `p` or below it is the same. -/
def Outside (p : List K) (n n' : Names K C) : Prop :=
  ∀ q, ¬ p <+: q → n' q = n q

theorem eq_put (h : ∀ q, q ≠ p → n' q = n q) (hp : n' p = some x) :
    n' = n.put p x := by
  funext q
  by_cases hq : q = p
  · rw [hq, hp, put_self]
  · rw [h q hq, put_of_ne hq]

theorem eq_cut (h : Outside p n n') (hp : ∀ r, n' (p ++ r) = none) :
    n' = n.cut p := by
  funext q
  by_cases hq : p <+: q
  · obtain ⟨r, rfl⟩ := hq
    rw [hp, cut_below (List.prefix_append p r)]
  · rw [h q hq, cut_of_not hq]

/-- Where nothing is, there is nothing to cut. -/
theorem cut_eq_self (h : ∀ r, n (p ++ r) = none) : n.cut p = n :=
  (eq_cut (fun _ _ => rfl) h).symm

end Names
