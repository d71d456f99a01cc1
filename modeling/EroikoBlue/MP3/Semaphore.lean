/-
# `MP3.Semaphore` — what `P` and `V` make of a semaphore

`V` makes the first sleeper ready and raises the value at once, so whoever runs
before that sleeper may take the unit, and the sleeper tests the semaphore again
and sleeps again.  An observer counts, for each semaphore, the calls of `P` and
`V` that were completed, and lists the threads that a `V` woke and that have not
come to their test since.

    value = initial + raised - passed
    queue ≠ []  →  value ≤ woken.length

`Sound` is the two, with what makes them inductive: a sleeper is in the `P` of
its semaphore, a woken thread is in it too and is READY or RUNNING, and no
thread is listed twice.  There is one lemma for the operations that are on no
semaphore (`Inv.quiet`), one for a test (`Sound.pLoop`) and one for `V`
(`Sound.v`).  The last needs the value to be below the largest `int`: `value++`
has nothing to stop it there.
-/
import EroikoBlue.MP3.Frames

namespace EroikoBlue.MP3

open Bytes (int32 int32_of_range)

/-! ## The observer -/

/-- Calls of `P` and `V` that were completed, and the threads a `V` woke that
have not come to test the semaphore since. -/
structure Counts where
  passed : SemId → Nat
  raised : SemId → Nat
  woken : SemId → List ThreadId

namespace Counts

def zero : Counts := ⟨fun _ => 0, fun _ => 0, fun _ => []⟩

/-- The current thread tests `s`. -/
def test (c : Counts) (k : Kernel) (s : SemId) : Counts :=
  { c with
    passed := if (k.semaphores s).value = 0 then c.passed
      else Function.update c.passed s (c.passed s + 1)
    woken := Function.update c.woken s ((c.woken s).erase k.currentThread) }

def next (c : Counts) (k : Kernel) : Op → Counts
  | .p s => c.test k s
  | .pLoop s => c.test k s
  | .v s =>
    { c with
      raised := Function.update c.raised s (c.raised s + 1)
      woken := Function.update c.woken s
        (c.woken s ++ (k.semaphores s).queue.head?.toList) }
  | _ => c

end Counts

/-- `t` is in `P` of `s`, and is not asleep. -/
def Awake (T : Threads) (s : SemId) (t : ThreadId) : Prop :=
  T.waitsFor t = some s ∧
    (T.status t = some .READY ∨ T.status t = some .RUNNING)

theorem Awake.congr {T T' : Threads} {s : SemId} {t : ThreadId}
    (h : Awake T s t) (heq : T' t = T t) :
    Awake T' s t := by
  rw [Awake, Threads.waitsFor, Threads.status, heq]
  exact h

theorem Awake.moved {k k' : Kernel}
    {s : SemId} {t : ThreadId} (h : Awake k.threads s t) (hmoved : Moved k k')
    (hwaits : k'.threads.waitsFor t = k.threads.waitsFor t)
    (hnot : k.threads.status t ≠ some .RUNNING) :
    Awake k'.threads s t := by
  refine ⟨hwaits.trans h.1, ?_⟩
  obtain ⟨th, hth, hst⟩ := Threads.exists_of_status (h.2.resolve_right hnot)
  have hmoves := hmoved.moves t
  rw [Threads.view_eq hth, hst] at hmoves
  generalize hview : k'.threads.view t = o' at hmoves
  cases hmoves with
  | shift hshift =>
      rw [Threads.status_view hview]
      cases hshift with
      | stay | age => exact .inl rfl
      | dispatch => exact .inr rfl
      | ready hst => rcases hst with hst | hst <;> cases hst
  | gone =>
      have hnone : k'.threads t = none := Option.map_eq_none_iff.mp hview
      rw [Threads.waitsFor, hnone, h.1] at hwaits
      cases hwaits

/-- What the observer sees of a semaphore. -/
structure Sound (initial : Int) (k : Kernel) (c : Counts)
    (s : SemId) : Prop where
  nonneg : 0 ≤ (k.semaphores s).value
  int : (k.semaphores s).value ≤ 2147483647
  balance : (k.semaphores s).value = initial + c.raised s - c.passed s
  waits : ∀ t ∈ (k.semaphores s).queue, k.threads.waitsFor t = some s
  nodup : (c.woken s).Nodup
  awake : ∀ t ∈ c.woken s, Awake k.threads s t
  enough : (k.semaphores s).queue ≠ [] →
    (k.semaphores s).value ≤ (c.woken s).length

/-! ## Steps that are on no semaphore -/

/-- The semaphores stay, and whoever is in a `P` is where it was. -/
structure Quiet (k k' : Kernel) : Prop where
  semaphores : k'.semaphores = k.semaphores
  asleep : ∀ s, ∀ t ∈ (k.semaphores s).queue, k'.threads.waitsFor t =
    k.threads.waitsFor t
  awake : ∀ s t, Awake k.threads s t → Awake k'.threads s t

theorem Sound.frame {initial : Int} {k k' : Kernel} {c c' : Counts} {s : SemId}
    (h : Sound initial k c s) (hsem : k'.semaphores s = k.semaphores s)
    (hpassed : c'.passed s = c.passed s) (hraised : c'.raised s = c.raised s)
    (hwoken : c'.woken s = c.woken s) (hwaits : ∀ t ∈ (k.semaphores s).queue,
      k'.threads.waitsFor t = k.threads.waitsFor t)
    (hawake : ∀ t, Awake k.threads s t → Awake k'.threads s t) :
    Sound initial k' c' s where
  nonneg := by
    rw [hsem]
    exact h.nonneg
  int := by
    rw [hsem]
    exact h.int
  balance := by
    rw [hsem, hraised, hpassed]
    exact h.balance
  waits := by
    intro t ht
    rw [hsem] at ht
    exact (hwaits t ht).trans (h.waits t ht)
  nodup := hwoken ▸ h.nodup
  awake := fun t ht => hawake t (h.awake t (hwoken ▸ ht))
  enough := by
    rw [hsem, hwoken]
    exact h.enough

theorem Sound.quiet {initial : Int} {k k' : Kernel} {c : Counts} {s : SemId}
    (h : Sound initial k c s) (hq : Quiet k k') : Sound initial k' c s :=
  h.frame (congrFun hq.semaphores s) rfl rfl rfl (hq.asleep s) (hq.awake s)

section
variable {k k' : Kernel}

theorem Quiet.of_same {gone : Option ThreadId} (h : Inv False k)
    (hsame : Same gone k k') (hgone : ∀ t, gone = some t → k.threads.status t ≠
      some .BLOCKED ∧ ∀ s, ¬ Awake k.threads s t) (hprogress : Progress k k')
    (hnot : ∀ s t, Awake k.threads s t → k.threads.status t ≠ some .RUNNING) :
    Quiet k k' := by
  refine ⟨hsame.semaphores, fun s t ht => hsame.waitsFor t fun heq => ?_,
    fun s t ht => ?_⟩
  · exact (hgone t heq).1 (h.queues.waiting.blocked s t ht)
  · have hwaits := hsame.waitsFor t fun heq => (hgone t heq).2 s ht
    cases hprogress with
    | time hthreads => exact ht.congr (congrFun hthreads t)
    | moved hmoved => exact ht.moved hmoved hwaits (hnot s t ht)

/-- While the current thread is in no `P`, whoever is in one does not run. -/
theorem Inv.awake_not_running (h : Inv False k)
    (hwaits : k.sleeping = none → k.waitsFor = none) (s : SemId) (t : ThreadId)
    (ht : Awake k.threads s t) : k.threads.status t ≠ some .RUNNING := by
  intro hst
  obtain ⟨rfl, hsleep⟩ := (h.running t).mp hst
  have hnone : k.threads.waitsFor k.currentThread = none := hwaits hsleep
  rw [ht.1] at hnone
  cases hnone

theorem Kernel.handlersDone_same (hwaits : k.waitsFor = none)
    (hdying : k.toBeDestroyed = none) (hrun : k.handlersDone = .ok k') :
    Same none k k' := by
  rw [handlersDone] at hrun
  split at hrun
  · have hsame := yield_same (k := { k with yieldOnReturn := false, status := .SystemMode }) hwaits hdying hrun
    exact ⟨hsame.semaphores, hsame.waitsFor⟩
  · cases hrun
    exact ⟨rfl, fun _ _ => rfl⟩

theorem not_awake_of_terminated {T : Threads} {t : ThreadId}
    (ht : T.status t = some .TERMINATED) (s : SemId) :
    ¬ Awake T s t := by
  intro hawake
  rcases hawake.2 with hst | hst
  · cases hst.symm.trans ht
  · cases hst.symm.trans ht

theorem Inv.quiet (h : Inv False k) {op : Op} (hallowed : op.Allowed k)
    (hswitch : op = .handlersDone → k.waitsFor = none)
    (hop : ∀ s, op ≠ .p s ∧ op ≠ .pLoop s ∧ op ≠ .v s)
        (hrun : op.run k = .ok k') : Quiet k k' := by
  obtain ⟨k₁, hrun₁, hinv, hprogress⟩ := h.step op hallowed nofun
  cases hrun.symm.trans hrun₁
  have hdying := h.noneDying
  have hnone : ∀ t, (none : Option ThreadId) = some t →
      k.threads.status t ≠ some .BLOCKED ∧ ∀ s, ¬ Awake k.threads s t := nofun
  cases op with
  | create t priority =>
      cases hrun
      refine .of_same h ⟨rfl, fun x _ => ?_⟩ hnone hprogress
        (h.awake_not_running fun _ => hallowed.1.2)
      by_cases hx : x = t
      · subst hx
        show Threads.waitsFor (Function.update k.threads x _) x = _
        rw [Threads.waitsFor, Threads.waitsFor, Function.update_self,
          hallowed.2.1]
        rfl
      · exact Threads.waitsFor_update_of_ne hx
  | fork t => exact .of_same h (Kernel.fork_same hrun) hnone hprogress (h.awake_not_running fun _ => hallowed.1.2)
  | yield =>
      exact .of_same h (Kernel.yield_same hallowed.2 hdying hrun)
        hnone hprogress
        (h.awake_not_running fun _ => hallowed.2)
  | p s => exact absurd rfl (hop s).1
  | pLoop s => exact absurd rfl (hop s).2.1
  | v s => exact absurd rfl (hop s).2.2
  | finish =>
      have hsame := Kernel.sleep_same (k := { k with level := .IntOff }) hrun
      have hcur := (h.running k.currentThread).mpr ⟨rfl, hallowed.1⟩
      refine .of_same h ⟨hsame.semaphores, hsame.waitsFor⟩ ?_ hprogress
        (h.awake_not_running fun _ => hallowed.2)
      rintro t ⟨⟩
      refine ⟨by rw [hcur]; decide, fun s hawake => ?_⟩
      exact h.awake_not_running (fun _ => hallowed.2) s _ hawake hcur
  | setLevel level =>
      cases hrun
      exact ⟨rfl, fun _ _ _ => rfl, fun _ _ ht => ht⟩
  | setStatus status =>
      cases hrun
      exact ⟨rfl, fun _ _ _ => rfl, fun _ _ ht => ht⟩
  | advance ticks =>
      cases hrun
      exact ⟨rfl, fun _ _ _ => rfl, fun _ _ ht => ht⟩
  | callBack =>
      have hthreads := (callBack_aged h hrun).1
      refine ⟨Kernel.callBack_same hrun, fun s t _ => ?_, fun s t ht => ?_⟩
      · rw [hthreads]
        exact Threads.waitsFor_aged _ _ t
      · rw [Awake, hthreads, Threads.waitsFor_aged, Threads.status_aged]
        exact ht
  | handlersDone =>
      have hwaits := hswitch rfl
      exact .of_same h (Kernel.handlersDone_same hwaits hdying hrun)
        hnone hprogress
        (h.awake_not_running fun _ => hwaits)
  | idleReturn =>
      obtain ⟨finishing, hf⟩ := Option.ne_none_iff_exists'.mp hallowed
      rw [Op.run, Kernel.idleReturn, hf] at hrun
      have hsame := Kernel.sleepLoop_same hrun
      refine .of_same h ⟨hsame.semaphores, hsame.waitsFor⟩ ?_ hprogress
        (h.awake_not_running fun hsleep => absurd hsleep hallowed)
      intro t ht
      cases finishing with
      | false => cases hdying.symm.trans ht
      | true =>
          cases Option.some.inj ht
          have hdead := (h.idle true hf).2.2 rfl
          exact ⟨by rw [show k.threads.status _ = _ from hdead]; decide,
            not_awake_of_terminated hdead⟩

/-! ## `P` and `V` -/

/-- The current thread queues up, or takes a unit; nobody else is touched. -/
theorem Kernel.pLoop_same {s : SemId} (hdying : k.toBeDestroyed = none)
    (hrun : k.pLoop s = .ok k') :
    (∀ t, t ≠ k.currentThread → k'.threads.waitsFor t = k.threads.waitsFor t) ∧
      ((k.semaphores s).value = 0 ∧
          k'.threads.waitsFor k.currentThread = k.waitsFor ∧
          k'.semaphores = Function.update k.semaphores s
            { k.semaphores s with
              queue := (k.semaphores s).queue ++ [k.currentThread] } ∨
        (k.semaphores s).value ≠ 0 ∧
          k'.semaphores = Function.update k.semaphores s
            { k.semaphores s with
                value := int32 ((k.semaphores s).value - 1) }) := by
  rw [pLoop] at hrun
  dsimp only at hrun
  split at hrun
  · next hvalue =>
      obtain ⟨queue, happend, hrun⟩ := Outcome.bind_eq_ok.mp hrun
      obtain ⟨-, rfl⟩ := LinkedList.append_eq_ok happend
      have hsame := sleep_same hrun
      have hwaits : ∀ t, k'.threads.waitsFor t = k.threads.waitsFor t :=
          fun t =>
        hsame.waitsFor t (show k.toBeDestroyed ≠ some t
          from hdying ▸ (by rintro ⟨⟩))
      exact ⟨fun t _ => hwaits t, .inl ⟨hvalue, hwaits _, hsame.semaphores⟩⟩
  · next hvalue =>
      obtain ⟨th, -, hrun⟩ := Outcome.bind_eq_ok.mp hrun
      obtain ⟨k₁, hsave, hrun⟩ := Outcome.bind_eq_ok.mp hrun
      obtain ⟨th', rfl, -⟩ := save_same hsave
      cases hrun
      exact ⟨fun t ht => Threads.waitsFor_update_of_ne ht, .inr ⟨hvalue, rfl⟩⟩

theorem Kernel.v_same {s : SemId} (hrun : k.v s = .ok k') :
    k'.semaphores = Function.update k.semaphores s ⟨int32
        ((k.semaphores s).value + 1), (k.semaphores s).queue.tail⟩ ∧
      (∀ t, k'.threads.waitsFor t = k.threads.waitsFor t) ∧
      (∀ t, t ∉ (k.semaphores s).queue → k'.threads t = k.threads t) ∧
      ∀ t ∈ (k.semaphores s).queue.head?, k'.threads.status t =
        some .READY := by
  obtain ⟨⟨queue, k₁⟩, hwake, hrun⟩ := Outcome.bind_eq_ok.mp hrun
  cases hqueue : (k.semaphores s).queue with
  | nil =>
      rw [hqueue] at hwake
      cases hwake
      cases hrun
      exact ⟨rfl, fun _ => rfl, fun _ _ => rfl, nofun⟩
  | cons u rest =>
      rw [hqueue] at hwake
      obtain ⟨k₂, hready, hk₁⟩ := Outcome.bind_eq_ok.mp hwake
      obtain ⟨th, q, rfl, hst, hwaits⟩ := readyToRun_same hready
      cases hk₁
      cases hrun
      refine ⟨rfl, hwaits, fun t ht => ?_, ?_⟩
      · have hne : t ≠ u := by
          rintro rfl
          exact ht (.head _)
        exact Function.update_of_ne hne _ _
      · rintro t ⟨⟩
        exact Threads.status_update_self.trans (congrArg some hst)

section
variable {initial : Int} {c : Counts} {s x : SemId}

theorem Counts.woken_test : (c.test k s).woken s =
    (c.woken s).erase k.currentThread := Function.update_self _ _ _

theorem Counts.woken_test_of_ne (h : x ≠ s) :
    (c.test k s).woken x = c.woken x := Function.update_of_ne h _ _

theorem Counts.passed_test (h : (k.semaphores s).value ≠ 0) :
    (c.test k s).passed s = c.passed s + 1 := by
  rw [test]
  dsimp only
  rw [if_neg h]
  exact Function.update_self _ _ _

theorem Counts.passed_test_zero (h : (k.semaphores s).value = 0) :
    (c.test k s).passed = c.passed := if_pos h

theorem Counts.passed_test_of_ne (h : x ≠ s) :
    (c.test k s).passed x = c.passed x := by
  by_cases hvalue : (k.semaphores s).value = 0
  · rw [passed_test_zero hvalue]
  · rw [test]
    dsimp only
    rw [if_neg hvalue]
    exact Function.update_of_ne h _ _

theorem Sound.value_test (h : Sound initial k c s)
    (h' : Sound initial k' (c.test k s) s) :
    (k'.semaphores s).value =
      if (k.semaphores s).value = 0 then (k.semaphores s).value
        else (k.semaphores s).value - 1 := by
  have hbalance := h.balance
  have hbalance' := h'.balance
  split
  · next hvalue =>
      rw [Counts.passed_test_zero hvalue] at hbalance'
      exact hbalance'.trans hbalance.symm
  · next hvalue =>
      rw [Counts.passed_test hvalue] at hbalance'
      have hraised : (c.test k s).raised s = c.raised s := rfl
      omega

theorem Sound.value_raised (h : Sound initial k c s)
    (h' : Sound initial k' (c.next k (.v s)) s) :
    (k'.semaphores s).value = (k.semaphores s).value + 1 := by
  have hraised : (c.next k (.v s)).raised s = c.raised s + 1 :=
    Function.update_self _ _ _
  have hpassed : (c.next k (.v s)).passed s = c.passed s := rfl
  have hbalance := h.balance
  have hbalance' := h'.balance
  omega

theorem Sound.queued (h : Sound initial k c s)
    (hvalue : (k.semaphores s).value = 0)
    (hsem : k'.semaphores s = { k.semaphores s with
      queue := (k.semaphores s).queue ++ [k.currentThread] })
    (hwaits : ∀ t ∈ (k.semaphores s).queue ++ [k.currentThread],
      k'.threads.waitsFor t = some s)
    (hawake : ∀ t ∈ (c.woken s).erase k.currentThread, Awake k'.threads s t) :
    Sound initial k' (c.test k s) s where
  nonneg := by
    rw [hsem]
    exact h.nonneg
  int := by
    rw [hsem]
    exact h.int
  balance := by
    rw [hsem, Counts.passed_test_zero hvalue]
    exact h.balance
  waits := by
    rw [hsem]
    exact hwaits
  nodup := Counts.woken_test ▸ h.nodup.erase _
  awake := Counts.woken_test ▸ hawake
  enough := by
    intro _
    rw [hsem]
    show (k.semaphores s).value ≤ _
    rw [hvalue]
    exact Int.natCast_nonneg _

theorem Sound.took (h : Sound initial k c s)
    (hvalue : (k.semaphores s).value ≠ 0) (hsem : k'.semaphores s =
      { k.semaphores s with value := int32 ((k.semaphores s).value - 1) })
    (hwaits : ∀ t ∈ (k.semaphores s).queue, k'.threads.waitsFor t = some s)
    (hawake : ∀ t ∈ (c.woken s).erase k.currentThread, Awake k'.threads s t) :
    Sound initial k' (c.test k s) s := by
  have hnonneg := h.nonneg
  have hint := h.int
  rw [int32_of_range ⟨by omega, by omega⟩] at hsem
  constructor
  case nonneg =>
    rw [hsem]
    show 0 ≤ (k.semaphores s).value - 1
    omega
  case int =>
    rw [hsem]
    show (k.semaphores s).value - 1 ≤ _
    omega
  case balance =>
    have hbalance := h.balance
    rw [hsem, Counts.passed_test hvalue]
    show (k.semaphores s).value - 1 =
      initial + c.raised s - ((c.passed s + 1 : Nat) : Int)
    omega
  case waits =>
    rw [hsem]
    exact hwaits
  case nodup => exact Counts.woken_test ▸ h.nodup.erase _
  case awake => exact Counts.woken_test ▸ hawake
  case enough =>
    intro hne
    rw [hsem] at hne
    have henough := h.enough hne
    have hlength : (c.woken s).length ≤
        ((c.woken s).erase k.currentThread).length + 1 := by
      rw [List.length_erase]
      split <;> omega
    rw [hsem, Counts.woken_test]
    show (k.semaphores s).value - 1 ≤ _
    omega

theorem Sound.raised (h : Sound initial k c s)
    (hfits : (k.semaphores s).value < 2147483647) (hsem : k'.semaphores s =
      ⟨int32 ((k.semaphores s).value + 1), (k.semaphores s).queue.tail⟩)
    (hwaits : ∀ t ∈ (k.semaphores s).queue, k'.threads.waitsFor t = some s)
    (hnot : ∀ t ∈ (k.semaphores s).queue, ¬ Awake k.threads s t)
    (hawake : ∀ t ∈ c.woken s ++ (k.semaphores s).queue.head?.toList,
      Awake k'.threads s t) :
    Sound initial k' (c.next k (.v s)) s := by
  have hraised : (c.next k (.v s)).raised s = c.raised s + 1 :=
    Function.update_self _ _ _
  have hwoken : (c.next k (.v s)).woken s =
      c.woken s ++ (k.semaphores s).queue.head?.toList :=
    Function.update_self _ _ _
  have hnonneg := h.nonneg
  rw [int32_of_range ⟨by omega, by omega⟩] at hsem
  constructor
  case nonneg =>
    rw [hsem]
    exact Int.le_add_one hnonneg
  case int =>
    rw [hsem]
    exact hfits
  case balance =>
    have hbalance := h.balance
    rw [hsem, hraised]
    show (k.semaphores s).value + 1 =
      initial + ((c.raised s + 1 : Nat) : Int) - c.passed s
    omega
  case waits =>
    rw [hsem]
    exact fun t ht => hwaits t (List.mem_of_mem_tail ht)
  case nodup =>
    rw [hwoken]
    cases hq : (k.semaphores s).queue with
    | nil =>
        rw [List.head?_nil, Option.toList_none, List.append_nil]
        exact h.nodup
    | cons u rest =>
        refine List.nodup_append.mpr ⟨h.nodup, List.nodup_singleton u, ?_⟩
        rintro t ht y hy rfl
        cases List.mem_singleton.mp hy
        exact hnot u (hq ▸ .head _) (h.awake u ht)
  case awake => exact hwoken ▸ hawake
  case enough =>
    intro hne
    rw [hsem] at hne
    rw [hsem, hwoken]
    cases hq : (k.semaphores s).queue with
    | nil => exact absurd (congrArg List.tail hq) hne
    | cons u rest =>
        have henough := h.enough (hq ▸ List.cons_ne_nil u rest)
        rw [List.length_append]
        show (k.semaphores s).value + 1 ≤ (((c.woken s).length + 1 : Nat) : Int)
        omega

theorem Sound.pLoop (h : Inv False k) (hsleep : k.sleeping = none)
    (hwaits : k.waitsFor = some s) (hrun : k.pLoop s = .ok k')
    (hx : Sound initial k c x) : Sound initial k' (c.test k s) x := by
  obtain ⟨k₁, hrun₁, -, hmoved⟩ :=
    h.pLoop_ok hsleep ((h.busy hsleep).2 (hwaits ▸ nofun)) s
  cases hrun.symm.trans hrun₁
  obtain ⟨hother, hcase⟩ := Kernel.pLoop_same h.noneDying hrun
  have hqueue : ∀ t ∈ (k.semaphores x).queue, k'.threads.waitsFor t =
      k.threads.waitsFor t := by
    refine fun t ht => hother t ?_
    rintro rfl
    have hst := (h.running k.currentThread).mpr ⟨rfl, hsleep⟩
    cases hst.symm.trans (h.queues.waiting.blocked x _ ht)
  have hawake : ∀ t, t ≠ k.currentThread → Awake k.threads x t →
      Awake k'.threads x t :=
    fun t ht hawake => hawake.moved hmoved (hother t ht) fun hst =>
      ht ((h.running t).mp hst).1
  by_cases hxs : x = s
  · subst hxs
    have hwoken : ∀ t ∈ (c.woken x).erase k.currentThread,
        Awake k'.threads x t := by
      intro t ht
      obtain ⟨hne, hmem⟩ := hx.nodup.mem_erase_iff.mp ht
      exact hawake t hne (hx.awake t hmem)
    rcases hcase with ⟨hvalue, hself, hsem⟩ | ⟨hvalue, hsem⟩
    · refine hx.queued hvalue ((congrFun hsem x).trans
        (Function.update_self _ _ _)) (fun t ht => ?_) hwoken
      rcases List.mem_append.mp ht with ht | ht
      · exact (hqueue t ht).trans (hx.waits t ht)
      · cases List.mem_singleton.mp ht
        exact hself.trans hwaits
    · exact hx.took hvalue
        ((congrFun hsem x).trans (Function.update_self _ _ _))
        (fun t ht => (hqueue t ht).trans (hx.waits t ht)) hwoken
  · have hsem : k'.semaphores x = k.semaphores x := by
      rcases hcase with ⟨-, -, hsem⟩ | ⟨-, hsem⟩
      · exact (congrFun hsem x).trans (Function.update_of_ne hxs _ _)
      · exact (congrFun hsem x).trans (Function.update_of_ne hxs _ _)
    refine hx.frame hsem (Counts.passed_test_of_ne hxs) rfl
      (Counts.woken_test_of_ne hxs) hqueue fun t ht => ?_
    refine hawake t ?_ ht
    -- the current thread is in `P` of another semaphore
    rintro rfl
    exact hxs (Option.some.inj (ht.1.symm.trans hwaits))

theorem Sound.v (h : Inv False k) (hfits : (k.semaphores s).value < 2147483647)
    (hrun : k.v s = .ok k') (hx : Sound initial k c x) :
    Sound initial k' (c.next k (.v s)) x := by
  obtain ⟨hsem, hwaits, hother, hhead⟩ := Kernel.v_same hrun
  have hnot : ∀ t ∈ (k.semaphores s).queue, ∀ y, ¬ Awake k.threads y t := by
    intro t ht y hawake
    have hst := h.queues.waiting.blocked s t ht
    rcases hawake.2 with hst' | hst'
    · cases hst.symm.trans hst'
    · cases hst.symm.trans hst'
  have hawake : ∀ y t, Awake k.threads y t → Awake k'.threads y t :=
    fun y t ht => ht.congr (hother t fun hmem => hnot t hmem y ht)
  by_cases hxs : x = s
  · subst hxs
    refine hx.raised hfits
      ((congrFun hsem x).trans (Function.update_self _ _ _))
      (fun t ht => (hwaits t).trans (hx.waits t ht)) (fun t ht => hnot t ht x)
        fun t ht => ?_
    rcases List.mem_append.mp ht with ht | ht
    · exact hawake x t (hx.awake t ht)
    · have hmem := Option.mem_toList.mp ht
      have hq : t ∈ (k.semaphores x).queue := List.mem_of_mem_head? hmem
      exact ⟨(hwaits t).trans (hx.waits t hq), .inl (hhead t hmem)⟩
  · exact hx.frame ((congrFun hsem x).trans (Function.update_of_ne hxs _ _)) rfl
      (Function.update_of_ne hxs _ _)
      (Function.update_of_ne hxs _ _) (fun t _ => hwaits t) (hawake x)

end

end

end EroikoBlue.MP3
