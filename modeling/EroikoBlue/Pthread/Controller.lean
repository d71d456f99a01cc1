/-
# `Pthread.Controller` — how many consumers there are

`handler` compares the size of the worker queue with the two thresholds on every
tick.  `one_run` computes them as percentages of the capacity of that queue and
gives them to the constructor by position, the high one where the low one is
expected: a tick adds a consumer above the low threshold and cancels one below
the high threshold, and there is no size between them at which nothing happens.

The percentages are computed in `int`.  The product with the capacity is wider
than an `int` from a capacity of 26843546 on (at 80%), and then the thresholds
that the controller gets are neither of the two that are meant: `percent` keeps
the wrap of the compiled program, and the law of the thresholds below is stated
with the exact quotients.

`scaling_follows_iff` says at which ticks neither is seen.  It is about whole
runs: the number of consumers at a tick is what the earlier ticks have left.
-/
import Mathlib.Algebra.Order.Group.Unbundled.Int
import Mathlib.Order.MinMax
import EroikoBlue.Lib.Bytes

namespace EroikoBlue.Pthread

open Bytes (int32)

/-- The consumers, in the order they were made. -/
abbrev ConsumerId := Nat

structure ConsumerController where
  checkPeriod : Int
  lowThreshold : Int
  highThreshold : Int
  consumers : List ConsumerId
  /-- `*rec_ptr`, if there is one. -/
  recorded : Option (List Nat)

/-- What a tick does to the consumers. -/
inductive Scaling where
  | up
  | down
  | none
  deriving DecidableEq, Repr

namespace ConsumerController

/-- `ConsumerController(..., check_period, low_threshold, high_threshold)`. -/
def new (checkPeriod lowThreshold highThreshold : Int) :
    ConsumerController where
  checkPeriod := checkPeriod
  lowThreshold := lowThreshold
  highThreshold := highThreshold
  consumers := []
  recorded := .none

/-- `start`, before it creates the thread. -/
def start (ctr : ConsumerController) : ConsumerController :=
  { ctr with recorded := ctr.recorded.map fun _ => [0] }

/-- The two tests of `handler`. -/
def scaling (ctr : ConsumerController) (wkSz : Int) : Scaling :=
  if ctr.highThreshold < wkSz then .up
  else if wkSz < ctr.lowThreshold ∧ 1 < ctr.consumers.length then .down
  else .none

/-- `handler(SIGALRM)`; `consumer` is the one it makes if it makes one. -/
def handler (ctr : ConsumerController) (wkSz : Int) (consumer : ConsumerId) :
    ConsumerController :=
  let cmSz := ctr.consumers.length
  match ctr.scaling wkSz with
  | .up => { ctr with consumers := ctr.consumers ++ [consumer], recorded := ctr.recorded.map (· ++ [cmSz + 1]) }
  | .down => { ctr with consumers := ctr.consumers.dropLast, recorded := ctr.recorded.map (· ++ [cmSz + 1]) }
  | .none => ctr

end ConsumerController

/-- `wk_qs * pct / 100`: the product is an `int`. -/
def percent (wkQs pct : Int) : Int := (int32 (wkQs * pct)).tdiv 100

/-- The controller that `one_run` makes. -/
def oneRunController (wkQs csHTh csLTh csPer : Int) : ConsumerController :=
  ConsumerController.new csPer (percent wkQs csHTh) (percent wkQs csLTh)

/-! ## The law of the thresholds -/

/-- What a tick that sees `wkSz` is to do to the number of consumers. -/
structure Scales (low high wkSz : Int) (before after : Nat) : Prop where
  up : high < wkSz → after = before + 1
  down : wkSz < low → 1 < before → after + 1 = before
  same : ¬ high < wkSz → ¬ (wkSz < low ∧ 1 < before) → after = before

/-- Every tick of a run does that, and consumers never run out once there is
one. -/
def Follows (low high : Int) : ConsumerController →
    List (Int × ConsumerId) → Prop
  | _, [] => True
  | ctr, (wkSz, consumer) :: ticks =>
    Scales low high wkSz ctr.consumers.length (ctr.handler wkSz
      consumer).consumers.length ∧
      (ctr.consumers ≠ [] → (ctr.handler wkSz consumer).consumers ≠ []) ∧
      Follows low high (ctr.handler wkSz consumer) ticks

/-- No tick of the run sees a size between the high threshold and `up`, above
which the controller adds, nor, while there are two consumers to choose from,
one between the low threshold and `down`, below which it cancels. -/
def OutsideBand (low high down up : Int) : ConsumerController →
    List (Int × ConsumerId) → Prop
  | _, [] => True
  | ctr, (wkSz, consumer) :: ticks =>
    ¬ (min high up < wkSz ∧ wkSz ≤ max high up) ∧
      ¬ (min low down ≤ wkSz ∧ wkSz < max low down ∧ wkSz ≤ high ∧
        1 < ctr.consumers.length) ∧
      OutsideBand low high down up (ctr.handler wkSz consumer) ticks

section
variable {low high wkSz : Int} {ctr : ConsumerController}
  {consumer : ConsumerId}

theorem ConsumerController.handler_length : (ctr.handler wkSz consumer).consumers.length =
    if ctr.highThreshold < wkSz then ctr.consumers.length + 1
    else if wkSz < ctr.lowThreshold ∧ 1 < ctr.consumers.length then ctr.consumers.length - 1
    else ctr.consumers.length := by
  rw [handler, scaling]
  by_cases hup : ctr.highThreshold < wkSz
  · rw [if_pos hup, if_pos hup]
    exact List.length_append
  · rw [if_neg hup, if_neg hup]
    by_cases hdown : wkSz < ctr.lowThreshold ∧ 1 < ctr.consumers.length
    · rw [if_pos hdown, if_pos hdown]
      exact List.length_dropLast
    · rw [if_neg hdown, if_neg hdown]

theorem ConsumerController.handler_thresholds : (ctr.handler wkSz consumer).lowThreshold = ctr.lowThreshold ∧
    (ctr.handler wkSz consumer).highThreshold = ctr.highThreshold := by
  rw [handler]
  cases ctr.scaling wkSz with
  | up => exact ⟨rfl, rfl⟩
  | down => exact ⟨rfl, rfl⟩
  | none => exact ⟨rfl, rfl⟩

theorem ConsumerController.more_of_down (h : ctr.scaling wkSz = .down) :
    1 < ctr.consumers.length := by
  rw [scaling] at h
  split at h
  · cases h
  · split at h
    next hdown => exact hdown.2
    · cases h

/-- The last consumer is never cancelled. -/
theorem ConsumerController.handler_ne_nil (h : ctr.consumers ≠ []) :
    (ctr.handler wkSz consumer).consumers ≠ [] := by
  have hpos := List.length_pos_iff.mpr h
  refine List.ne_nil_of_length_pos ?_
  rw [handler_length]
  split
  · exact Nat.succ_pos _
  · split
    · next hdown => exact Nat.sub_pos_of_lt hdown.2
    · exact hpos

/-- A tick that adds is to add, and one that is to add does. -/
theorem up_iff (wkSz up high : Int) :
    ¬ (min high up < wkSz ∧ wkSz ≤ max high up) ↔
      (up < wkSz ↔ high < wkSz) := by
  rw [min_lt_iff, le_max_iff]
  omega

theorem down_iff (wkSz down low : Int) :
    ¬ (min low down ≤ wkSz ∧ wkSz < max low down) ↔
      (wkSz < down ↔ wkSz < low) := by
  rw [min_le_iff, lt_max_iff]
  omega

/-- One tick: the two tests of `handler` come out as the law has them. -/
theorem scales_iff (hle : low ≤ high) :
    Scales low high wkSz ctr.consumers.length (ctr.handler wkSz
        consumer).consumers.length ↔
      (ctr.highThreshold < wkSz ↔ high < wkSz) ∧
        (wkSz ≤ high → 1 < ctr.consumers.length →
          (wkSz < ctr.lowThreshold ↔ wkSz < low)) := by
  rw [ConsumerController.handler_length]
  generalize ctr.consumers.length = before
  constructor
  · intro h
    have hadds : ctr.highThreshold < wkSz ↔ high < wkSz := by
      constructor
      · intro hup
        by_contra hnot
        by_cases hdown : wkSz < low ∧ 1 < before
        · have hless := h.down hdown.1 hdown.2
          rw [if_pos hup] at hless
          omega
        · have hsame := h.same hnot hdown
          rw [if_pos hup] at hsame
          exact Nat.succ_ne_self _ hsame
      · intro hhigh
        by_contra hnot
        have hmore := h.up hhigh
        rw [if_neg hnot] at hmore
        split at hmore <;> omega
    refine ⟨hadds, fun hhigh hmore => ?_⟩
    have hnot : ¬ ctr.highThreshold < wkSz :=
      fun hup => hhigh.not_gt (hadds.mp hup)
    constructor
    · intro hdown
      by_contra hlow
      have hsame := h.same hhigh.not_gt fun hless => hlow hless.1
      rw [if_neg hnot, if_pos ⟨hdown, hmore⟩] at hsame
      omega
    · intro hlow
      by_contra hdown
      have hless := h.down hlow hmore
      rw [if_neg hnot, if_neg fun hcancels => hdown hcancels.1] at hless
      exact Nat.succ_ne_self _ hless
  · rintro ⟨hadds, hcancels⟩
    constructor
    case up =>
      intro hhigh
      rw [if_pos (hadds.mpr hhigh)]
    case down =>
      intro hlow hmore
      have hhigh : wkSz ≤ high := hlow.le.trans hle
      rw [if_neg fun hup => hhigh.not_gt (hadds.mp hup),
        if_pos ⟨(hcancels hhigh hmore).mpr hlow, hmore⟩]
      exact Nat.sub_add_cancel hmore.le
    case same =>
      intro hhigh hlow
      rw [if_neg fun hup => hhigh (hadds.mp hup), if_neg]
      rintro ⟨hdown, hmore⟩
      exact hlow ⟨(hcancels (not_lt.mp hhigh) hmore).mp hdown, hmore⟩

theorem follows_iff {down up : Int} (hle : low ≤ high) :
    ∀ {ctr : ConsumerController} {ticks : List (Int × ConsumerId)},
      ctr.highThreshold = up →
      ctr.lowThreshold = down →
      (Follows low high ctr ticks ↔ OutsideBand low high down up ctr ticks)
  | _, [], _, _ => Iff.rfl
  | ctr, (wkSz, consumer) :: ticks, hup, hdown => by
      obtain ⟨hl, hh⟩ :=
        @ConsumerController.handler_thresholds wkSz ctr consumer
      have hone : ctr.consumers ≠ [] →
          (ctr.handler wkSz consumer).consumers ≠ [] :=
        ConsumerController.handler_ne_nil
      have hcancels : ¬ (min low down ≤ wkSz ∧ wkSz < max low down ∧
          wkSz ≤ high ∧
          1 < ctr.consumers.length) ↔
          (wkSz ≤ high → 1 < ctr.consumers.length →
              (wkSz < down ↔ wkSz < low)) := by
        rw [← down_iff]
        tauto
      rw [Follows, OutsideBand, scales_iff hle, hup, hdown, up_iff, hcancels,
        follows_iff hle (hh.trans hup) (hl.trans hdown), and_assoc]
      exact and_congr_right fun _ => and_congr_right fun _ => and_iff_right hone

end

theorem scaling_follows_iff (wkQs : Nat) {csHTh csLTh : Int} (csPer : Int)
    (h : csLTh < csHTh) (ticks : List (Int × ConsumerId)) :
    Follows ((wkQs * csLTh).tdiv 100) ((wkQs * csHTh).tdiv 100)
        (oneRunController wkQs csHTh csLTh csPer).start ticks ↔
      OutsideBand ((wkQs * csLTh).tdiv 100) ((wkQs * csHTh).tdiv 100)
        (percent wkQs csHTh)
        (percent wkQs csLTh)
          (oneRunController wkQs csHTh csLTh csPer).start ticks := by
  have hle : (wkQs : Int) * csLTh ≤ wkQs * csHTh :=
    Int.mul_le_mul_of_nonneg_left h.le (Int.natCast_nonneg _)
  exact follows_iff (Int.tdiv_le_tdiv (by decide) hle) rfl rfl

/-- The parameters of `main`: 100 items are between the thresholds 40 and 160,
and a consumer is added. -/
theorem scales_up_in_band : ((200 : Nat) * (20 : Int)).tdiv 100 = 40 ∧
    ((200 : Nat) * (80 : Int)).tdiv 100 = 160 ∧
    ((oneRunController 200 80 20 1000000).start.handler 100 0).consumers = [0] ∧
    ¬ Follows (((200 : Nat) * (20 : Int)).tdiv 100)
      (((200 : Nat) * (80 : Int)).tdiv 100)
      (oneRunController 200 80 20 1000000).start [(100, 0)] := by
  refine ⟨by decide, by decide, by decide, ?_⟩
  intro hfollows
  cases hfollows.1.same (by decide) (by decide)

/-- Sizes below the low threshold and above the high one. -/
theorem scaling_follows_outside :
    Follows (((200 : Nat) * (20 : Int)).tdiv 100)
      (((200 : Nat) * (80 : Int)).tdiv 100)
        (oneRunController 200 80 20 1000000).start [(170, 0), (180, 1),
          (10, 2), (10, 3)] ↔
      OutsideBand (((200 : Nat) * (20 : Int)).tdiv 100)
        (((200 : Nat) * (80 : Int)).tdiv 100)
        (percent (200 : Nat) 80) (percent (200 : Nat) 20)
        (oneRunController 200 80 20 1000000).start [(170, 0), (180, 1),
          (10, 2), (10, 3)] :=
  scaling_follows_iff 200 1000000 (by decide) _

end EroikoBlue.Pthread
