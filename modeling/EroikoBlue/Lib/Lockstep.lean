/-
# `Lib.Lockstep` — two runs side by side

Two computations run in lockstep when they end in the same way: both return,
with values related by `R`, or both stop for the same reason.  With states, the
states are related by `S` before and after, whichever way the runs end.

    pure, bind       a sequence is in lockstep if its parts are
    foldlM           and a loop, if its rounds are

A relation between states that holds of all a program can see makes the program
blind to the rest; that is what the rules are for.
-/
import EroikoBlue.Lib.Outcome

namespace Lockstep

/-! ## Without a state -/

section Pure
variable {ε α β α' β' ι : Type}

/-- Both return, related by `R`, or both stop alike. -/
def Alike (R : α → β → Prop) : Except ε α → Except ε β → Prop
  | .ok a, .ok b => R a b
  | .error e, .error e' => e = e'
  | _, _ => False

namespace Alike
variable {R : α → β → Prop} {R' : α' → β' → Prop} {x : Except ε α}
  {y : Except ε β}

theorem error (e : ε) : Alike R (.error e) (.error e) := rfl

theorem bind {f : α → Except ε α'} {g : β → Except ε β'}
    (h : Alike R x y) (hfg : ∀ a b, R a b → Alike R' (f a) (g b)) :
    Alike R' (x >>= f) (y >>= g) := by
  cases x with
  | error e =>
      cases y with
      | error e' =>
          cases h
          rw [Outcome.error_bind, Outcome.error_bind]
          exact .error e
      | ok b => exact h.elim
  | ok a =>
      cases y with
      | error e' => exact h.elim
      | ok b =>
          rw [Outcome.ok_bind, Outcome.ok_bind]
          exact hfg a b h

theorem foldlM {l : List ι} {f : α → ι → Except ε α} {g : β → ι → Except ε β}
    (hfg : ∀ i ∈ l, ∀ a b, R a b → Alike R (f a i) (g b i)) {a : α} {b : β}
    (h : R a b) :
    Alike R (l.foldlM f a) (l.foldlM g b) := by
  induction l generalizing a b with
  | nil => exact h
  | cons i l ih =>
      rw [List.foldlM_cons, List.foldlM_cons]
      exact (hfg i (.head _) a b h).bind fun a b h =>
        ih (fun i hi => hfg i (.tail _ hi)) h

end Alike

end Pure

/-! ## With a state -/

section Stateful
variable {ε σ τ α α' : Type}

/-- Both end alike, in states related by `S`. -/
def Results (S : σ → τ → Prop) : EStateM.Result ε σ α →
    EStateM.Result ε τ α → Prop
  | .ok a s, .ok b t => a = b ∧ S s t
  | .error e s, .error e' t => e = e' ∧ S s t
  | _, _ => False

/-- From related states the runs end alike. -/
def Steps (S : σ → τ → Prop) (x : EStateM ε σ α) (y : EStateM ε τ α) : Prop :=
  ∀ s t, S s t → Results S (x s) (y t)

namespace Steps
variable {S : σ → τ → Prop} {x : EStateM ε σ α} {y : EStateM ε τ α}

theorem pure (a : α) : Steps S (ε := ε) (pure a) (pure a) :=
  fun _ _ h => ⟨rfl, h⟩

theorem bind {f : α → EStateM ε σ α'} {g : α → EStateM ε τ α'} (h : Steps S x y)
    (hfg : ∀ a, Steps S (f a) (g a)) :
    Steps S (x >>= f) (y >>= g) := by
  intro s t hst
  have hxy := h s t hst
  cases hx : x s with
  | ok a s' =>
      rw [hx] at hxy
      cases hy : y t with
      | ok b t' =>
          rw [hy] at hxy
          obtain ⟨rfl, hst'⟩ := hxy
          rw [Outcome.bind_of_ok hx, Outcome.bind_of_ok hy]
          exact hfg a s' t' hst'
      | error e t' =>
          rw [hy] at hxy
          exact hxy.elim
  | error e s' =>
      rw [hx] at hxy
      cases hy : y t with
      | ok b t' =>
          rw [hy] at hxy
          exact hxy.elim
      | error e' t' =>
          rw [hy] at hxy
          rw [Outcome.bind_of_error hx, Outcome.bind_of_error hy]
          exact hxy

end Steps

end Stateful

end Lockstep
