/-
# `Pthread.Record` — the numbers of consumers that an experiment logs

`main` prints `*rec_ptr` at the end of an experiment.  `start` puts 0 there, and
`handler` adds a number whenever it makes or cancels a consumer.  `counts` is
the list that belongs there: the number of consumers after each tick that
changed it.

The branch of `handler` that cancels a consumer adds the number that the other
branch adds.  `record_exact_iff` says that the log is right just when no tick of
the run has cancelled one.

`record_off_by_two` is a run in which two consumers are made and one of them is
cancelled: the log ends in 3, and there is one consumer.
-/
import EroikoBlue.Lib.Trace
import EroikoBlue.Pthread.Controller

namespace EroikoBlue.Pthread

namespace ConsumerController

/-- `*rec_ptr` is there when `start` is called, with whatever is in it. -/
def recording (ctr : ConsumerController) (old : List Nat) :
    ConsumerController :=
  { ctr with recorded := some old }

/-- The controller after some ticks. -/
def ticked (ctr : ConsumerController) (ticks : List (Int × ConsumerId)) :
    ConsumerController :=
  ticks.foldl (fun ctr tick => ctr.handler tick.1 tick.2) ctr

/-- The number of consumers after each tick that changes it. -/
def counts (ctr : ConsumerController) : List (Int × ConsumerId) → List Nat
  | [] => []
  | (wkSz, consumer) :: ticks =>
    let next := ctr.handler wkSz consumer
    (if next.consumers.length = ctr.consumers.length then []
      else [next.consumers.length]) ++ counts next ticks

/-- The size is not above the high threshold, but below the low one, and there
is a consumer to spare. -/
def Cancels (ctr : ConsumerController) (wkSz : Int) : Prop :=
  wkSz ≤ ctr.highThreshold ∧ wkSz < ctr.lowThreshold ∧ 1 < ctr.consumers.length

instance (ctr : ConsumerController) (wkSz : Int) :
    Decidable (ctr.Cancels wkSz) := by
  unfold Cancels
  infer_instance

/-- No tick of the run cancels a consumer. -/
def NeverCancels (ctr : ConsumerController)
    (ticks : List (Int × ConsumerId)) : Prop :=
  Trace.Along (fun ctr tick next => next = ctr.handler tick.1 tick.2)
    (fun ctr tick => ¬ ctr.Cancels tick.1) ctr ticks

/-- The log of a run that began in `ctr`: 0, then the counts; its last entry is
the number of consumers. -/
structure Logs (ctr : ConsumerController)
    (ticks : List (Int × ConsumerId)) : Prop where
  recorded : (ctr.ticked ticks).recorded = some (0 :: ctr.counts ticks)
  last : (ctr.ticked ticks).recorded.bind List.getLast? =
    some (ctr.ticked ticks).consumers.length

section
variable {ctr : ConsumerController} {wkSz : Int} {consumer : ConsumerId}
  {ticks : List (Int × ConsumerId)}
  {l : List Nat}

theorem scaling_cases (ctr : ConsumerController) (wkSz : Int) :
    ctr.scaling wkSz = .up ∧ ¬ ctr.Cancels wkSz ∨ ctr.scaling wkSz = .down ∧
      ctr.Cancels wkSz ∨
      ctr.scaling wkSz = .none ∧ ¬ ctr.Cancels wkSz := by
  rw [scaling, Cancels]
  by_cases hup : ctr.highThreshold < wkSz
  · rw [if_pos hup]
    exact .inl ⟨rfl, fun h => absurd hup (not_lt.mpr h.1)⟩
  · rw [if_neg hup]
    by_cases hdown : wkSz < ctr.lowThreshold ∧ 1 < ctr.consumers.length
    · rw [if_pos hdown]
      exact .inr (.inl ⟨rfl, not_lt.mp hup, hdown⟩)
    · rw [if_neg hdown]
      exact .inr (.inr ⟨rfl, fun h => hdown h.2⟩)

/-- What a tick adds to the log. -/
def entry (ctr : ConsumerController) (wkSz : Int) : List Nat :=
  if ctr.scaling wkSz = .none then [] else [ctr.consumers.length + 1]

/-- What `counts` has for a tick. -/
def count (ctr : ConsumerController) (wkSz : Int) : List Nat :=
  match ctr.scaling wkSz with
  | .up => [ctr.consumers.length + 1]
  | .down => [ctr.consumers.length - 1]
  | .none => []

theorem handler_recorded (h : ctr.recorded = some l) :
    (ctr.handler wkSz consumer).recorded = some (l ++ ctr.entry wkSz) := by
  rw [handler, entry]
  cases ctr.scaling wkSz with
  | up | down => exact congrArg (Option.map _) h
  | none => rw [if_pos rfl, List.append_nil, h]

theorem counts_cons : ctr.counts ((wkSz, consumer) :: ticks) =
    ctr.count wkSz ++ (ctr.handler wkSz consumer).counts ticks := by
  have hlength : (ctr.handler wkSz consumer).consumers.length = _ :=
    handler_length
  rw [counts, hlength, count]
  congr 1
  rcases ctr.scaling_cases wkSz with ⟨hs, _⟩ | ⟨hs, hc⟩ | ⟨hs, _⟩
  · rw [hs, ← hlength, handler, hs]
    simp
  · rw [hs, if_neg (not_lt.mpr hc.1), if_pos hc.2]
    have hmore := hc.2.2
    rw [if_neg (by omega)]
  · rw [hs, ← hlength, handler, hs]
    simp

/-- The entry of a tick is its count, unless it cancels a consumer. -/
theorem entry_eq_count (h : ¬ ctr.Cancels wkSz) :
    ctr.entry wkSz = ctr.count wkSz := by
  rw [entry, count]
  rcases ctr.scaling_cases wkSz with ⟨hs, _⟩ | ⟨_, hc⟩ | ⟨hs, _⟩
  · rw [hs]
    rfl
  · exact absurd hc h
  · rw [hs]
    rfl

theorem entry_append_ne {a b : List Nat} (h : ctr.Cancels wkSz) :
    ctr.entry wkSz ++ a ≠ ctr.count wkSz ++ b := by
  rw [entry, count]
  rcases ctr.scaling_cases wkSz with ⟨_, hc⟩ | ⟨hs, _⟩ | ⟨_, hc⟩
  · exact absurd h hc
  · rw [hs]
    intro heq
    have hhead : ctr.consumers.length + 1 = ctr.consumers.length - 1 :=
      (List.cons.inj heq).1
    omega
  · exact absurd h hc

/-- What the ticks add to the log. -/
def entries (ctr : ConsumerController) : List (Int × ConsumerId) → List Nat
  | [] => []
  | (wkSz, consumer) :: ticks =>
      ctr.entry wkSz ++ (ctr.handler wkSz consumer).entries ticks

theorem ticked_recorded : ∀ {ticks : List (Int × ConsumerId)}
    {ctr : ConsumerController} {l : List Nat},
    ctr.recorded = some l →
      (ctr.ticked ticks).recorded = some (l ++ ctr.entries ticks)
  | [], ctr, l, h => by
      rw [entries, List.append_nil]
      exact h
  | (wkSz, consumer) :: ticks, ctr, l, h => by
      rw [entries, ← List.append_assoc]
      exact ticked_recorded (handler_recorded h)

/-- The first tick that cancels a consumer adds two more than its count. -/
theorem entries_eq_counts_iff :
    ∀ {ticks : List (Int × ConsumerId)} {ctr : ConsumerController},
    ctr.entries ticks = ctr.counts ticks ↔ ctr.NeverCancels ticks
  | [], _ => iff_of_true rfl trivial
  | (wkSz, consumer) :: ticks, ctr => by
      rw [entries, counts_cons, NeverCancels, Trace.Along]
      by_cases hc : ctr.Cancels wkSz
      · exact iff_of_false (entry_append_ne hc) fun h => h.1 hc
      · rw [entry_eq_count hc, List.append_cancel_left_eq,
          entries_eq_counts_iff]
        constructor
        · rintro h
          exact ⟨hc, fun next hnext => hnext ▸ h⟩
        · rintro ⟨_, h⟩
          exact h _ rfl

/-- The last count, or the number at the start, is the number of consumers. -/
theorem counts_last :
    ∀ {ticks : List (Int × ConsumerId)} {ctr : ConsumerController},
    (ctr.consumers.length :: ctr.counts ticks).getLast? =
      some (ctr.ticked ticks).consumers.length
  | [], _ => rfl
  | (wkSz, consumer) :: ticks, ctr => by
      have ih := @counts_last ticks (ctr.handler wkSz consumer)
      rw [counts]
      by_cases hsame : (ctr.handler wkSz consumer).consumers.length =
        ctr.consumers.length
      · rw [if_pos hsame, List.nil_append, ← hsame]
        exact ih
      · rw [if_neg hsame, List.singleton_append, List.getLast?_cons_cons]
        exact ih

end
end ConsumerController

open ConsumerController in
/-- The log of an experiment is right, up to any tick, just when no tick before
it has cancelled a consumer. -/
theorem record_exact_iff (checkPeriod lowThreshold highThreshold : Int)
    (old : List Nat) (ticks : List (Int × ConsumerId)) :
    ((new checkPeriod lowThreshold highThreshold).recording
        old).start.Logs ticks ↔
      ((new checkPeriod lowThreshold highThreshold).recording
        old).start.NeverCancels ticks := by
  have hrecorded := @ticked_recorded ticks _ _
    (show ((new checkPeriod lowThreshold highThreshold).recording
      old).start.recorded = some [0] from rfl)
  rw [← entries_eq_counts_iff]
  constructor
  · intro h
    exact (List.cons.inj (Option.some.inj (hrecorded.symm.trans h.recorded))).2
  · intro h
    rw [h] at hrecorded
    refine ⟨hrecorded, ?_⟩
    rw [hrecorded]
    exact @counts_last ticks
      ((new checkPeriod lowThreshold highThreshold).recording old).start

open ConsumerController in
/-- Two consumers are made and one is cancelled: the log says 0, 1, 2, 3, and
one is left. -/
theorem record_off_by_two :
    let ctr := ((new 1000000 40 160).recording []).start
    let ticks := [(170, 0), (180, 1), (10, 2)]
    (ctr.ticked ticks).recorded = some [0, 1, 2, 3] ∧
        (ctr.ticked ticks).consumers = [0] ∧ ¬ ctr.Logs ticks := by
  refine ⟨by decide, by decide, ?_⟩
  intro h
  exact absurd h.last (by decide)

end EroikoBlue.Pthread
