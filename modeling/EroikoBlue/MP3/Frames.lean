/-
# `MP3.Frames` — what the scheduler leaves alone

A thread that goes to sleep, yields or finishes brings in another one, and none
of that is on a semaphore: the values and the queues stay, and every thread
stays in the `P` it was in (`Same`).  Only a thread that is deleted is in no `P`
any more, which is the one that finished before, or the current one of a last
`Sleep`.

There is one lemma for each function of the scheduler, from the bottom up.

`Same` is used from the side of the semaphores: a lemma about `P` or `V` has to
know that the switch to another thread in the middle of it did not touch the
semaphore.  With `Same` that is one rewrite.  `save_same` and `waitsFor_saved`
are about the thread itself, which leaves a note of the `P` it sleeps in before
it gives up the processor.
-/
import EroikoBlue.MP3.Order

namespace EroikoBlue.MP3

/-! ## What the scheduler leaves alone -/

/-- `k'` has the semaphores of `k`, and every thread but `gone` is in the `P` it
was in. -/
structure Same (gone : Option ThreadId) (k k' : Kernel) : Prop where
  semaphores : k'.semaphores = k.semaphores
  waitsFor : ∀ t, gone ≠ some t → k'.threads.waitsFor t = k.threads.waitsFor t

namespace Kernel
variable {k k' : Kernel} {t : ThreadId}

theorem waitsFor_update {T : Threads} {th th' : Thread}
    (hth : T t = some th) (h : th'.waitsFor = th.waitsFor) (x : ThreadId) :
    Threads.waitsFor (Function.update T t (some th')) x = T.waitsFor x := by
  by_cases hx : x = t
  · subst hx
    rw [Threads.waitsFor, Threads.waitsFor, Function.update_self, hth]
    exact h
  · exact Threads.waitsFor_update_of_ne hx

theorem setStatus_same {st : ThreadStatus} (hrun : k.setStatus t st = .ok k') :
    ∃ th, k' = { k with threads := Function.update k.threads t (some th) } ∧
      th.status = st ∧
      ∀ x, k'.threads.waitsFor x = k.threads.waitsFor x := by
  obtain ⟨th, hderef, hrun⟩ := Outcome.bind_eq_ok.mp hrun
  obtain ⟨th', hset, hrun⟩ := Outcome.bind_eq_ok.mp hrun
  obtain ⟨stub, -, hth'⟩ := Outcome.bind_eq_ok.mp hset
  cases hth'
  cases hrun
  have hth : k.threads t = some th := by
    rw [Threads.deref] at hderef
    split at hderef
    · cases hderef
      assumption
    · cases hderef
  exact ⟨_, rfl, rfl, waitsFor_update hth rfl⟩

theorem readyToRun_same (hrun : k.readyToRun t = .ok k') :
    ∃ th q, k' = { k with threads := Function.update k.threads t (some th), readyList := q } ∧
      th.status = .READY ∧
          ∀ x, k'.threads.waitsFor x = k.threads.waitsFor x := by
  obtain ⟨_, -, hrun⟩ := Outcome.bind_eq_ok.mp hrun
  obtain ⟨k₁, hset, hrun⟩ := Outcome.bind_eq_ok.mp hrun
  obtain ⟨q, -, hrun⟩ := Outcome.bind_eq_ok.mp hrun
  obtain ⟨th, rfl, hst, hT⟩ := setStatus_same hset
  cases hrun
  exact ⟨th, q, rfl, hst, hT⟩

theorem findNextToRun_same {o : Option ThreadId}
    (hrun : k.findNextToRun = .ok (o, k')) :
    ∃ q, k' = { k with readyList := q } := by
  obtain ⟨_, -, hrun⟩ := Outcome.bind_eq_ok.mp hrun
  split at hrun
  · cases hrun
    exact ⟨_, rfl⟩
  · obtain ⟨⟨t, q⟩, -, hrun⟩ := Outcome.bind_eq_ok.mp hrun
    cases hrun
    exact ⟨q, rfl⟩

theorem checkToBeDestroyed_same (hrun : k.checkToBeDestroyed = .ok k') :
    Same k.toBeDestroyed k k' := by
  rw [checkToBeDestroyed] at hrun
  cases hd : k.toBeDestroyed with
  | none =>
      rw [hd] at hrun
      cases hrun
      exact ⟨rfl, fun _ _ => rfl⟩
  | some dead =>
      rw [hd] at hrun
      obtain ⟨_, -, hrun⟩ := Outcome.bind_eq_ok.mp hrun
      obtain ⟨_, -, hrun⟩ := Outcome.bind_eq_ok.mp hrun
      cases hrun
      exact ⟨rfl, fun t ht => Threads.waitsFor_update_of_ne fun heq =>
        ht (heq ▸ rfl)⟩

theorem resumed_same (hrun : k.resumed = .ok k') :
    Same k.toBeDestroyed k k' := by
  obtain ⟨_, -, hrun⟩ := Outcome.bind_eq_ok.mp hrun
  obtain ⟨k₁, hcheck, hrun⟩ := Outcome.bind_eq_ok.mp hrun
  obtain ⟨th, -, hrun⟩ := Outcome.bind_eq_ok.mp hrun
  have hsame := checkToBeDestroyed_same hcheck
  cases hrun
  split
  · exact ⟨hsame.semaphores, hsame.waitsFor⟩
  · exact hsame

theorem run_same {next : ThreadId} {finishing : Bool}
    (hrun : k.run next finishing = .ok k') :
    Same (if finishing then some k.currentThread
        else k.toBeDestroyed) k k' := by
  obtain ⟨_, -, hrun⟩ := Outcome.bind_eq_ok.mp hrun
  obtain ⟨_, -, hrun⟩ := Outcome.bind_eq_ok.mp hrun
  obtain ⟨k₁, hset, hrun⟩ := Outcome.bind_eq_ok.mp hrun
  obtain ⟨th, rfl, -, hT⟩ := setStatus_same hset
  have hsame := resumed_same hrun
  exact ⟨hsame.semaphores, fun t ht => (hsame.waitsFor t ht).trans (hT t)⟩

theorem sleepLoop_same {finishing : Bool}
    (hrun : k.sleepLoop finishing = .ok k') :
    Same (if finishing then some k.currentThread
        else k.toBeDestroyed) k k' := by
  obtain ⟨⟨o, k₁⟩, hfind, hrun⟩ := Outcome.bind_eq_ok.mp hrun
  obtain ⟨q, rfl⟩ := findNextToRun_same hfind
  cases o with
  | none =>
      cases hrun
      exact ⟨rfl, fun _ _ => rfl⟩
  | some next =>
      have hsame := run_same hrun
      exact ⟨hsame.semaphores, hsame.waitsFor⟩

theorem sleep_same {finishing : Bool} (hrun : k.sleep finishing = .ok k') :
    Same (if finishing then some k.currentThread
        else k.toBeDestroyed) k k' := by
  obtain ⟨_, -, hrun⟩ := Outcome.bind_eq_ok.mp hrun
  obtain ⟨k₁, hset, hrun⟩ := Outcome.bind_eq_ok.mp hrun
  obtain ⟨th, rfl, -, hT⟩ := setStatus_same hset
  have hsame := sleepLoop_same hrun
  exact ⟨hsame.semaphores, fun t ht => (hsame.waitsFor t ht).trans (hT t)⟩

theorem save_same {oldLevel : IntStatus} {waits : Option SemId}
    (hrun : k.save oldLevel waits = .ok k') :
    ∃ th, k' = { k with threads := Function.update k.threads k.currentThread (some th) } ∧ th.waitsFor = waits := by
  obtain ⟨th, hderef, hrun⟩ := Outcome.bind_eq_ok.mp hrun
  cases hrun
  exact ⟨_, rfl, rfl⟩

theorem waitsFor_saved {th : Thread} (hwaits : k.waitsFor = none)
    (hth : th.waitsFor = none) (x : ThreadId) :
    Threads.waitsFor (Function.update k.threads k.currentThread (some th)) x =
      k.threads.waitsFor x := by
  by_cases hx : x = k.currentThread
  · subst hx
    rw [Threads.waitsFor, Function.update_self]
    exact hth.trans hwaits.symm
  · exact Threads.waitsFor_update_of_ne hx

theorem yield_same (hwaits : k.waitsFor = none) (hdying : k.toBeDestroyed = none) (hrun : k.yield = .ok k') :
    Same none k k' := by
  obtain ⟨⟨o, k₁⟩, hfind, hrun⟩ := Outcome.bind_eq_ok.mp hrun
  obtain ⟨q, rfl⟩ := findNextToRun_same hfind
  cases o with
  | none =>
      cases hrun
      exact ⟨rfl, fun _ _ => rfl⟩
  | some next =>
      obtain ⟨k₂, hsave, hrun⟩ := Outcome.bind_eq_ok.mp hrun
      obtain ⟨k₃, hready, hrun⟩ := Outcome.bind_eq_ok.mp hrun
      obtain ⟨th₂, rfl, h₂⟩ := save_same hsave
      obtain ⟨th₃, q₃, rfl, -, h₃⟩ := readyToRun_same hready
      have hsame := run_same hrun
      refine ⟨hsame.semaphores, fun t _ => ?_⟩
      have ht : k.toBeDestroyed ≠ some t := hdying ▸ nofun
      exact (hsame.waitsFor t ht).trans
        ((h₃ t).trans (waitsFor_saved hwaits h₂ t))

theorem fork_same (hrun : k.fork t = .ok k') : Same none k k' := by
  obtain ⟨k₁, hready, hrun⟩ := Outcome.bind_eq_ok.mp hrun
  obtain ⟨th, q, rfl, -, hT⟩ := readyToRun_same hready
  cases hrun
  exact ⟨rfl, fun t _ => hT t⟩

theorem callBack_same (hrun : k.callBack = .ok k') :
    k'.semaphores = k.semaphores := by
  obtain ⟨k₁, haging, hrun⟩ := Outcome.bind_eq_ok.mp hrun
  obtain ⟨⟨T, q⟩, -, hk₁⟩ := Outcome.bind_eq_ok.mp haging
  cases hk₁
  split at hrun
  · obtain ⟨preempt, -, hrun⟩ := Outcome.bind_eq_ok.mp hrun
    cases hrun
    cases preempt with
    | true => rfl
    | false => rfl
  · cases hrun
    rfl

end Kernel

theorem Threads.waitsFor_aged (T : Threads) (now : Int) (t : ThreadId) :
    (T.aged now).waitsFor t = T.waitsFor t := by
  rw [waitsFor, waitsFor, aged]
  cases T t with
  | none => rfl
  | some th =>
      rw [Option.map_some]
      split
      · rfl
      · rfl

end EroikoBlue.MP3
