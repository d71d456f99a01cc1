/-
# `Lib.Outcome` — peeling a fallible program apart

Two shapes of fallible program occur in the development: `Except ε α`, which
computes a value or stops, and `EStateM ε σ α`, which also threads a state and
keeps it when it stops.  The lemmas below are the only facts about the two binds
that the proofs use:

    x = ok a           ⟹   (x >>= f) = f a            run forward
    (x >>= f) = ok b    ⟹   ∃ a, x = ok a ∧ f a = ok b   run backward

so that a program is executed one call at a time, each call replaced by its own
specification, and nothing is unfolded twice.  (The first lemmas are true by
`rfl` but not proved by it: `simp` would otherwise leave the step to the kernel,
which then evaluates the program to check it.)
-/

namespace Outcome

section Pure
variable {ε α β : Type}

@[simp] theorem ok_bind (a : α) (f : α → Except ε β) :
    ((Except.ok a : Except ε α) >>= f) = f a := by
  simp only [bind, Except.bind]

@[simp] theorem error_bind (e : ε) (f : α → Except ε β) :
    ((Except.error e : Except ε α) >>= f) = Except.error e := by
  simp only [bind, Except.bind]

@[simp] theorem pure_eq_ok (a : α) : (pure a : Except ε α) = Except.ok a := by
  simp only [pure, Except.pure]

/-- The one inversion rule: a sequence that ends well ran its first part
well. -/
theorem bind_eq_ok {x : Except ε α} {f : α → Except ε β} {b : β} :
    (x >>= f) = .ok b ↔ ∃ a, x = .ok a ∧ f a = .ok b := by
  cases x with
  | error e => simp
  | ok a => simp

theorem bind_eq_error {x : Except ε α} {f : α → Except ε β} {e : ε}
    (h : (x >>= f) = .error e) :
    x = .error e ∨ ∃ a, x = .ok a ∧ f a = .error e := by
  cases x with
  | error e' =>
      cases h
      exact .inl rfl
  | ok a => exact .inr ⟨a, rfl, h⟩

theorem ok_of_toOption {x : Except ε α} {a : α} (h : x.toOption = some a) :
    x = .ok a := by
  cases x with
  | error e => cases h
  | ok b => rw [Option.some.inj h]

theorem eq_error_of_ne_ok {x : Except ε α} (h : ∀ a, x ≠ .ok a) :
    ∃ e, x = .error e := by
  cases x with
  | error e => exact ⟨e, rfl⟩
  | ok a => exact absurd rfl (h a)

/-- What `x` ends in has the property `P`, and it ends well if `enough`
holds. -/
structure Yields (x : Except ε α) (P : α → Prop) (enough : Prop) : Prop where
  sound : ∀ {a}, x = .ok a → P a
  total : enough → ∃ a, x = .ok a

namespace Yields
variable {P : α → Prop} {Q : β → Prop} {enough : Prop}

theorem ok {a : α} (h : P a) : Yields (.ok a : Except ε α) P enough where
  sound := by
    rintro _ ⟨⟩
    exact h
  total := fun _ => ⟨a, rfl⟩

theorem bind {x : Except ε α} {f : α → Except ε β} (hx : Yields x P enough)
    (hf : ∀ a, P a → Yields (f a) Q enough) : Yields (x >>= f) Q enough where
  sound := by
    intro b hrun
    obtain ⟨a, ha, hb⟩ := bind_eq_ok.mp hrun
    exact (hf a (hx.sound ha)).sound hb
  total := by
    intro h
    obtain ⟨a, ha⟩ := hx.total h
    rw [ha, ok_bind]
    exact (hf a (hx.sound ha)).total h

end Yields

/-- What each round of a loop keeps, the loop keeps. -/
theorem foldlM_inv {P : β → Prop} {f : β → α → Except ε β}
    (hf : ∀ b a b', P b → f b a = .ok b' → P b') :
    ∀ {l : List α} {b b' : β}, P b → l.foldlM f b = .ok b' → P b'
  | [], b, b', hb, hrun => by
      rw [List.foldlM_nil, pure_eq_ok] at hrun
      cases hrun
      exact hb
  | a :: l, b, b', hb, hrun => by
      rw [List.foldlM_cons] at hrun
      obtain ⟨b₁, h₁, hrest⟩ := bind_eq_ok.mp hrun
      exact foldlM_inv hf (hf b a b₁ hb h₁) hrest

end Pure

section Stateful
variable {ε σ α β : Type}

theorem bind_of_ok {x : EStateM ε σ α} {f : α → EStateM ε σ β} {s s' : σ}
    {a : α} (h : x s = .ok a s') : (x >>= f) s = f a s' := by
  show EStateM.bind x f s = f a s'
  simp only [EStateM.bind, h]

theorem bind_of_error {x : EStateM ε σ α} {f : α → EStateM ε σ β} {s s' : σ}
    {e : ε} (h : x s = .error e s') : (x >>= f) s = .error e s' := by
  show EStateM.bind x f s = .error e s'
  simp only [EStateM.bind, h]

theorem bind_run_eq_ok {x : EStateM ε σ α} {f : α → EStateM ε σ β}
    {s s'' : σ} {b : β} :
    (x >>= f) s = .ok b s'' ↔ ∃ a s', x s = .ok a s' ∧ f a s' = .ok b s'' := by
  cases h : x s with
  | ok a s' =>
      rw [bind_of_ok h]
      constructor
      · exact fun hf => ⟨a, s', rfl, hf⟩
      · rintro ⟨_, _, heq, hf⟩
        cases heq
        exact hf
  | error e s' =>
      rw [bind_of_error h]
      constructor
      · exact nofun
      · rintro ⟨_, _, heq, _⟩
        cases heq

@[simp] theorem pure_run (a : α)
    (s : σ) : (pure a : EStateM ε σ α) s = .ok a s := by
  simp only [pure, EStateM.pure]

/-- A computation that only reads the state. -/
def reads (f : σ → Except ε α) : EStateM ε σ α := fun s =>
  match f s with
  | .ok a => .ok a s
  | .error e => .error e s

theorem reads_of_ok {f : σ → Except ε α} {s : σ} {a : α} (h : f s = .ok a) :
    reads f s = .ok a s := by
  simp only [reads, h]

theorem reads_of_error {f : σ → Except ε α} {s : σ} {e : ε}
    (h : f s = .error e) :
    reads f s = .error e s := by
  simp only [reads, h]

theorem reads_eq_ok {f : σ → Except ε α} {s s' : σ} {a : α} :
    reads f s = .ok a s' ↔ f s = .ok a ∧ s' = s := by
  unfold reads
  cases f s with
  | error e => simp
  | ok b => simp [eq_comm]

/-- A computation that neither reads nor writes the state. -/
def lift (x : Except ε α) : EStateM ε σ α := reads fun _ => x

theorem lift_of_ok {x : Except ε α} {s : σ} {a : α} (h : x = .ok a) :
    (lift x : EStateM ε σ α) s = .ok a s := reads_of_ok h

theorem lift_of_error {x : Except ε α} {s : σ} {e : ε} (h : x = .error e) :
    (lift x : EStateM ε σ α) s = .error e s := reads_of_error h

theorem lift_eq_ok {x : Except ε α} {s s' : σ} {a : α} :
    (lift x : EStateM ε σ α) s = .ok a s' ↔ x = .ok a ∧ s' = s := reads_eq_ok

/-- The state a computation ends in, however it ends. -/
def final : EStateM.Result ε σ α → σ
  | .ok _ s => s
  | .error _ s => s

@[simp] theorem final_ok (a : α)
    (s : σ) : final (.ok a s : EStateM.Result ε σ α) = s := rfl
@[simp] theorem final_error (e : ε)
    (s : σ) : final (.error e s : EStateM.Result ε σ α) = s := rfl

@[simp] theorem final_reads (f : σ → Except ε α)
    (s : σ) : final (reads f s) = s := by
  unfold reads
  cases f s <;> rfl

/-- What both parts of a sequence keep, the sequence keeps. -/
theorem final_bind {P : σ → Prop}
    {x : EStateM ε σ α} {f : α → EStateM ε σ β} {s : σ} (hx : P (final (x s)))
    (hf : ∀ a s', x s = .ok a s' → P s' → P (final (f a s'))) :
    P (final ((x >>= f) s)) := by
  cases hrun : x s with
  | ok a s' =>
      rw [bind_of_ok hrun]
      rw [hrun] at hx
      exact hf a s' hrun hx
  | error e s' =>
      rw [bind_of_error hrun]
      rw [hrun] at hx
      exact hx

end Stateful

end Outcome
