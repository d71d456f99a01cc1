/-
# `Lib.Stores` — what a number of stores leaves behind

A memory is a function, and a set of stores is the relation `R` between cells
and the values put there.  `Stored R f f'` says of `f'` no more than is true in
whatever order the stores were made: a cell holds one of the values stored in
it, or, if there is none, what it held in `f`.  This is enough where no two
stores disagree.
-/
import EroikoBlue.Lib.Outcome

namespace Stores

variable {α β : Type} {R R' : α → β → Prop} {f f' f'' : α → β}

def Stored (R : α → β → Prop) (f f' : α → β) : Prop := ∀ x, R x (f' x) ∨
    (∀ b, ¬ R x b) ∧ f' x = f x

namespace Stored

theorem refl (h : ∀ x b, ¬ R x b) : Stored R f f := fun x => .inr ⟨h x, rfl⟩

theorem congr (h : Stored R f f') (hR : ∀ x b, R x b ↔ R' x b) :
    Stored R' f f' := by
  intro x
  rcases h x with hx | ⟨hx, heq⟩
  · exact .inl ((hR x _).mp hx)
  · exact .inr ⟨fun b hb => hx b ((hR x b).mpr hb), heq⟩

theorem trans (h : Stored R f f') (h' : Stored R' f' f'') :
    Stored (fun x b => R x b ∨ R' x b) f f'' := by
  intro x
  rcases h' x with hx | ⟨hx', heq'⟩
  · exact .inl (.inr hx)
  rcases h x with hx | ⟨hx, heq⟩
  · exact .inl (.inl (heq' ▸ hx))
  · exact .inr ⟨fun b hb => hb.elim (hx b) (hx' b), heq'.trans heq⟩

theorem read {x : α} {b : β} (h : Stored R f f') (hx : R x b)
    (huniq : ∀ b', R x b' → b' = b) : f' x = b := by
  rcases h x with hx' | ⟨hnone, _⟩
  · exact huniq _ hx'
  · exact absurd hx (hnone b)

theorem kept {x : α} (h : Stored R f f') (hx : ∀ b, ¬ R x b) : f' x = f x := by
  rcases h x with hx' | ⟨_, heq⟩
  · exact absurd hx' (hx _)
  · exact heq

theorem foldlM {ε σ ι : Type} {R : ι → α → β → Prop} {m : σ → α → β}
    {I : σ → Prop} {step : σ → ι → Except ε σ} : ∀ {l : List ι} {s s' : σ},
    (∀ i ∈ l, ∀ s s', I s → step s i = .ok s' → I s' ∧
      Stored (R i) (m s) (m s')) → I s →
    l.foldlM step s = .ok s' → I s' ∧
      Stored (fun x b => ∃ i ∈ l, R i x b) (m s) (m s')
  | [], s, s', _, hs, hrun => by
      rw [List.foldlM_nil, Outcome.pure_eq_ok] at hrun
      cases hrun
      exact ⟨hs, refl fun x b h => nomatch h⟩
  | i :: l, s, s', hstep, hs, hrun => by
      rw [List.foldlM_cons] at hrun
      obtain ⟨s₁, h₁, hrest⟩ := Outcome.bind_eq_ok.mp hrun
      obtain ⟨hs₁, hmem₁⟩ := hstep i (.head _) s s₁ hs h₁
      obtain ⟨hs', hmem'⟩ := foldlM (fun j hj => hstep j (.tail _ hj)) hs₁ hrest
      refine ⟨hs', (hmem₁.trans hmem').congr ?_⟩
      intro x b
      simp only [List.mem_cons, exists_eq_or_imp]

end Stored

theorem foldlM_ok {ε σ ι : Type} {I : σ → Prop} {step : σ → ι → Except ε σ} :
    ∀ {l : List ι} {s : σ},
    (∀ i ∈ l, ∀ s, I s → ∃ s', step s i = .ok s' ∧ I s') → I s →
      ∃ s', l.foldlM step s = .ok s'
  | [], s, _, _ => ⟨s, rfl⟩
  | i :: l, s, hstep, hs => by
      obtain ⟨s₁, h₁, hs₁⟩ := hstep i (.head _) s hs
      obtain ⟨s', hrun⟩ := foldlM_ok (fun j hj => hstep j (.tail _ hj)) hs₁
      exact ⟨s', by rw [List.foldlM_cons, h₁, Outcome.ok_bind, hrun]⟩

end Stores
