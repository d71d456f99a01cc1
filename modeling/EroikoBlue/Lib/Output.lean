/-
# `Lib.Output` — programs that write

A program that prints is a computation over the list of what it has written so
far; what was written before it stops stays written.  Only part of an output may
matter (the data in it, not the layout), which a function `view : ω → Option δ`
picks out.  `Shows view x l a` says that `x` completes with `a` and that what it
writes shows `l`, whatever was written before.  A sequence shows what its parts
show, one after the other; one that stops shows what it wrote until then
(`Stops`).
-/
import EroikoBlue.Lib.Outcome

namespace Outcome

section
variable {ε ω δ α β : Type} {view : ω → Option δ}

/-- Writes one more item. -/
def put (w : ω) : EStateM ε (List ω) Unit := modify fun out => out ++ [w]

/-- `x` completes with `a`, and what it writes shows `l`. -/
def Shows (view : ω → Option δ) (x : EStateM ε (List ω) α) (l : List δ)
    (a : α) : Prop :=
  ∀ out, ∃ new, x out = .ok a (out ++ new) ∧ new.filterMap view = l

namespace Shows

theorem pure (a : α) : Shows view (pure a : EStateM ε (List ω) α) [] a := by
  intro out
  exact ⟨[], by rw [pure_run, List.append_nil], rfl⟩

theorem put {w : ω} :
    Shows view (put w : EStateM ε (List ω) Unit) (view w).toList () := by
  intro out
  refine ⟨[w], rfl, ?_⟩
  cases hw : view w with
  | none => rw [List.filterMap_cons_none hw]; rfl
  | some b => rw [List.filterMap_cons_some hw]; rfl

theorem lift {x : Except ε α} {a : α} (h : x = .ok a) :
    Shows view (lift x : EStateM ε (List ω) α) [] a := by
  intro out
  exact ⟨[], by rw [lift_of_ok h, List.append_nil], rfl⟩

theorem bind {x : EStateM ε (List ω) α} {f : α → EStateM ε (List ω) β}
    {l l' : List δ} {a : α} {b : β} (hx : Shows view x l a)
    (hf : Shows view (f a) l' b) : Shows view (x >>= f) (l ++ l') b := by
  intro out
  obtain ⟨new, hrun, hnew⟩ := hx out
  obtain ⟨new', hrun', hnew'⟩ := hf (out ++ new)
  refine ⟨new ++ new', ?_, by rw [List.filterMap_append, hnew, hnew']⟩
  rw [bind_of_ok hrun, hrun', List.append_assoc]

theorem silent {x : EStateM ε (List ω) α} {f : α → EStateM ε (List ω) β}
    {l : List δ} {a : α} {b : β} (hx : Shows view x [] a)
    (hf : Shows view (f a) l b) : Shows view (x >>= f) l b :=
  hx.bind hf

theorem run {x : EStateM ε (List ω) α} {l : List δ} {a : α}
    (h : Shows view x l a) :
    (∃ out, x [] = .ok a out) ∧ (final (x [])).filterMap view = l := by
  obtain ⟨new, hrun, hnew⟩ := h []
  rw [hrun]
  exact ⟨⟨_, rfl⟩, hnew⟩

end Shows

/-- `x` stops, and what it has written shows `l`. -/
def Stops (view : ω → Option δ) (x : EStateM ε (List ω) α)
    (l : List δ) : Prop :=
  ∀ out, ∃ e new, x out = .error e (out ++ new) ∧ new.filterMap view = l

namespace Stops

theorem lift {x : Except ε α} {e : ε} (h : x = .error e) :
    Stops view (lift x : EStateM ε (List ω) α) [] := by
  intro out
  exact ⟨e, [], by rw [lift_of_error h, List.append_nil], rfl⟩

theorem bind {x : EStateM ε (List ω) α} {f : α → EStateM ε (List ω) β}
    {l : List δ} (hx : Stops view x l) : Stops view (x >>= f) l := by
  intro out
  obtain ⟨e, new, hrun, hnew⟩ := hx out
  exact ⟨e, new, bind_of_error hrun, hnew⟩

theorem after {x : EStateM ε (List ω) α} {f : α → EStateM ε (List ω) β}
    {l : List δ} {a : α} (hx : Shows view x [] a) (hf : Stops view (f a) l) :
    Stops view (x >>= f) l := by
  intro out
  obtain ⟨new, hrun, hnew⟩ := hx out
  obtain ⟨e, new', hrun', hnew'⟩ := hf (out ++ new)
  refine ⟨e, new ++ new',
    ?_, by rw [List.filterMap_append, hnew, hnew', List.nil_append]⟩
  rw [bind_of_ok hrun, hrun', List.append_assoc]

theorem run {x : EStateM ε (List ω) α} {l : List δ}
    (h : Stops view x l) (a : α) :
    (¬ ∃ out, x [] = .ok a out) ∧ (final (x [])).filterMap view = l := by
  obtain ⟨e, new, hrun, hnew⟩ := h []
  rw [hrun]
  exact ⟨nofun, hnew⟩

end Stops

end

end Outcome
