/-
# `Lib.Trace` — laws along a run

A system that is given one request after another makes a run: the requests in
order, each in the state the one before left.  It ends with the requests, or at
the first that has no next state.  `Along step P s as` says that `P` holds at
every request of the run.

Two rules are enough for such statements.  If an invariant gives `P` and every
step keeps it, `P` holds along every run.  And if `P` and `Q` say the same
wherever the invariant holds, and a step at which `P` holds keeps it, then a run
that keeps `P` is a run that keeps `Q`: up to the first request that breaks
either, both were kept and so was the invariant.
-/

namespace Trace

section
variable {σ α : Type} {step : σ → α → σ → Prop} {P Q : σ → α → Prop}
  {I : σ → Prop}

/-- `P` holds of every request of the run, in the state it is made in. -/
def Along (step : σ → α → σ → Prop) (P : σ → α → Prop) : σ → List α → Prop
  | _, [] => True
  | s, a :: as => P s a ∧ ∀ s', step s a s' → Along step P s' as

theorem along_of_inv {as : List α} (hlaw : ∀ s, ∀ a ∈ as, I s → P s a)
    (hkeep : ∀ s s', ∀ a ∈ as, I s → step s a s' → I s') {s : σ} (h : I s) :
    Along step P s as := by
  induction as generalizing s with
  | nil => trivial
  | cons a as ih =>
      refine ⟨hlaw s a (.head _) h, fun s' hs' => ?_⟩
      exact ih (fun s a ha => hlaw s a (.tail _ ha))
        (fun s s' a ha => hkeep s s' a (.tail _ ha))
        (hkeep s s' a (.head _) h hs')

theorem along_iff {as : List α} (hiff : ∀ s, ∀ a ∈ as, I s → (P s a ↔ Q s a))
    (hkeep : ∀ s s', ∀ a ∈ as, I s → P s a → step s a s' → I s')
    {s : σ} (h : I s) :
    Along step P s as ↔ Along step Q s as := by
  induction as generalizing s with
  | nil => exact Iff.rfl
  | cons a as ih =>
      have hhead := hiff s a (.head _) h
      have hrest : P s a → ∀ s', step s a s' →
          (Along step P s' as ↔ Along step Q s' as) :=
        fun hP s' hs' => ih (fun s a ha => hiff s a (.tail _ ha))
          (fun s s' a ha => hkeep s s' a (.tail _ ha))
            (hkeep s s' a (.head _) h hP hs')
      constructor
      · rintro ⟨hP, hall⟩
        exact ⟨hhead.mp hP, fun s' hs' => (hrest hP s' hs').mp (hall s' hs')⟩
      · rintro ⟨hQ, hall⟩
        have hP := hhead.mpr hQ
        exact ⟨hP, fun s' hs' => (hrest hP s' hs').mpr (hall s' hs')⟩

end

end Trace
