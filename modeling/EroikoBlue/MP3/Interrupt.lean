/-
# `MP3.Interrupt` — the simulated interrupts of `machine/interrupt.cc`

`Schedule` puts an interrupt into a list sorted by time, and `CheckIfDue` takes
the interrupts that are due from its front, one by one, and calls their
handlers.  A handler does anything to the rest of the machine and calls
`Schedule` any number of times, which does not look at the rest, so a handler is
a function of the machine and of the clock that gives the calls of `Schedule` it
makes.

Times are `int`s and wrap.  While no sum of the clock and a delay overflows,
what a handler schedules is later than the clock, which stands still during the
loop, so the loop delivers what was due before it, in order, and ends.  A sum
that overflows is before everything: it is delivered in the same loop.
`delivers_in_time_iff` says that this is the only thing that can go wrong.
-/
import Mathlib.Data.List.Pairwise
import Mathlib.Data.List.Perm.Basic
import EroikoBlue.LinkedList
import EroikoBlue.MP3.Thread

namespace EroikoBlue.MP3

open SortedList (Placed)

/-! ## The list and its loop -/

inductive IntType where
  | TimerInt
  | DiskInt
  | ConsoleWriteInt
  | ConsoleReadInt
  | NetworkSendInt
  | NetworkRecvInt
  deriving DecidableEq

/-- `PendingInterrupt`; `Obj` are the addresses of the `CallBackObj`s. -/
structure PendingInterrupt (Obj : Type) where
  /-- How many were made before it; it stands for the address. -/
  serial : Nat
  callOnInterrupt : Obj
  when : BitVec 32
  type : IntType
  deriving DecidableEq

/-- The arguments of a call of `Schedule`. -/
structure Request (Obj : Type) where
  toCall : Obj
  fromNow : BitVec 32
  type : IntType

/-- What the handlers do to the rest `σ` of the machine, and the calls of
`Schedule` they make, with the delays that `Schedule` asks for. -/
structure Devices (Obj σ : Type) where
  /-- `kernel->machine->DelayedLoad(0, 0)`, if there is a machine. -/
  delayedLoad : σ → σ
  callBack : Obj → BitVec 32 → σ → σ × List (Request Obj)
  positive : ∀ obj ticks state, ∀ r ∈ (callBack obj ticks state).2, 0 <
    r.fromNow.toInt

/-- `Interrupt`, with the ticks of `kernel->stats` and what has been invoked so
far. -/
structure Interrupt (Obj σ : Type) where
  level : IntStatus
  pending : List (PendingInterrupt Obj)
  inHandler : Bool
  totalTicks : BitVec 32
  idleTicks : BitVec 32
  state : σ
  made : Nat
  invoked : List (PendingInterrupt Obj)

section
variable {Obj σ : Type}

/-- `PendingCompare`. -/
def pendingCompare (x y : PendingInterrupt Obj) : Int :=
  if x.when.toInt < y.when.toInt then -1 else if y.when.toInt < x.when.toInt
    then 1 else 0

namespace Interrupt

/-- `Interrupt::Interrupt`. -/
def new (totalTicks : BitVec 32) (state : σ) : Interrupt Obj σ where
  level := .IntOff
  pending := []
  inHandler := false
  totalTicks := totalTicks
  idleTicks := 0
  state := state
  made := 0
  invoked := []

/-- `new PendingInterrupt(toCall, when, type)`. -/
def toOccur (k : Interrupt Obj σ) (r : Request Obj) : PendingInterrupt Obj where
  serial := k.made
  callOnInterrupt := r.toCall
  when := k.totalTicks + r.fromNow
  type := r.type

variable [DecidableEq Obj]

/-- `Interrupt::Schedule`. -/
def schedule (k : Interrupt Obj σ) (r : Request Obj) :
    Except Fault (Interrupt Obj σ) := do
  assertMsg (0 < r.fromNow.toInt) ""
  let pending ← LinkedList.insert (fun x y => .ok (pendingCompare x y))
    k.pending (k.toOccur r)
  pure { k with pending := pending, made := k.made + 1 }

/-- `next->callOnInterrupt->CallBack()`. -/
def callBack (dev : Devices Obj σ) (k : Interrupt Obj σ)
    (next : PendingInterrupt Obj) :
    Except Fault (Interrupt Obj σ) :=
  let (state, requests) :=
    dev.callBack next.callOnInterrupt k.totalTicks k.state
  requests.foldlM schedule { k with state := state, invoked := k.invoked ++ [next] }

/-- The `do ... while` of `CheckIfDue`, in at most so many rounds. -/
def deliver (dev : Devices Obj σ) : Nat → Interrupt Obj σ →
    Except Fault (Interrupt Obj σ)
  | 0, _ => .error .diverges
  | fuel + 1, k => do
    let (next, pending) ← LinkedList.removeFront k.pending
    let k ← callBack dev { k with pending := pending } next
    match k.pending with
    | [] => pure k
    | front :: _ => if front.when.toInt ≤ k.totalTicks.toInt then
          deliver dev fuel k else pure k

/-- `CheckIfDue` from the loop on. -/
def fire (dev : Devices Obj σ) (fuel : Nat) (k : Interrupt Obj σ) :
    Except Fault (Bool × Interrupt Obj σ) := do
  let k ← deliver dev fuel { k with state := dev.delayedLoad k.state, inHandler := true }
  pure (true, { k with inHandler := false })

/-- `Interrupt::CheckIfDue`. -/
def checkIfDue (dev : Devices Obj σ) (fuel : Nat) (advanceClock : Bool)
    (k : Interrupt Obj σ) :
    Except Fault (Bool × Interrupt Obj σ) := do
  assertMsg (k.level = .IntOff) ""
  match k.pending with
  | [] => pure (false, k)
  | next :: _ =>
    if k.totalTicks.toInt < next.when.toInt then
      if advanceClock = false then pure (false, k)
      else do
        let k := { k with idleTicks := k.idleTicks + (next.when - k.totalTicks), totalTicks := next.when }
        fire dev fuel k
    else fire dev fuel k

/-- The states of all runs; `proceed` is everything else the machine does. -/
inductive Reachable (dev : Devices Obj σ) : Interrupt Obj σ → Prop
  | new (totalTicks : BitVec 32) (state : σ) :
      Reachable dev (.new totalTicks state)
  | schedule {k k' : Interrupt Obj σ} (h : Reachable dev k) (r : Request Obj)
      (hrun : k.schedule r = .ok k') :
      Reachable dev k'
  | proceed {k : Interrupt Obj σ} (h : Reachable dev k) (level : IntStatus)
      (totalTicks : BitVec 32) (state : σ) :
      Reachable dev { k with level := level, totalTicks := totalTicks, state := state }
  | check {k k' : Interrupt Obj σ} {fired : Bool} (h : Reachable dev k)
      (fuel : Nat) (advanceClock : Bool)
      (hrun : k.checkIfDue dev fuel advanceClock = .ok (fired, k')) :
        Reachable dev k'

end Interrupt

/-! ## The order of the list -/

/-- Earlier, or at the same time and made before. -/
def Before (x y : PendingInterrupt Obj) : Prop :=
  x.when.toInt < y.when.toInt ∨ x.when.toInt = y.when.toInt ∧
    x.serial < y.serial

theorem Before.asymm {x y : PendingInterrupt Obj} (h : Before x y) :
    ¬ Before y x := by
  rintro (h' | ⟨h₁, h₂⟩)
  · rcases h with h | ⟨h₁, _⟩
    · exact Int.lt_asymm h h'
    · exact Int.lt_irrefl _ (h₁ ▸ h')
  · rcases h with h | ⟨_, h⟩
    · exact Int.lt_irrefl _ (h₁ ▸ h)
    · exact Nat.lt_asymm h h₂

theorem Before.le {x y : PendingInterrupt Obj} (h : Before x y) :
    x.when.toInt ≤ y.when.toInt := by
  rcases h with h | ⟨h, _⟩
  · exact Int.le_of_lt h
  · exact Int.le_of_eq h

theorem pendingCompare_neg {x y : PendingInterrupt Obj} :
    pendingCompare x y < 0 ↔ x.when.toInt < y.when.toInt := by
  rw [pendingCompare]
  split
  · simp [*]
  · split <;> simp [*]

/-- The part of the list that is due at `ticks`. -/
def due (ticks : BitVec 32) (pending : List (PendingInterrupt Obj)) :
    List (PendingInterrupt Obj) :=
  pending.filter (·.when.toInt ≤ ticks.toInt)

section
variable {ticks : BitVec 32} {x : PendingInterrupt Obj}
  {l l' : List (PendingInterrupt Obj)}

theorem mem_due : x ∈ due ticks l ↔ x ∈ l ∧ x.when.toInt ≤ ticks.toInt := by
  rw [due, List.mem_filter, decide_eq_true_iff]

theorem due_cons (hx : x.when.toInt ≤ ticks.toInt) :
    due ticks (x :: l) = x :: due ticks l :=
  List.filter_cons_of_pos (decide_eq_true hx)

theorem due_eq_nil (h : ∀ x ∈ l, ticks.toInt < x.when.toInt) :
    due ticks l = [] :=
  List.filter_eq_nil_iff.mpr fun x hx => by simpa using h x hx

theorem not_due_of_head (hl : l.Pairwise Before)
    (h : ∀ x ∈ l.head?, ticks.toInt < x.when.toInt) :
    ∀ x ∈ l, ticks.toInt < x.when.toInt := by
  cases l with
  | nil => exact nofun
  | cons x l =>
      have hx := h x rfl
      refine List.forall_mem_cons.mpr ⟨hx, fun y hy => ?_⟩
      exact Int.lt_of_lt_of_le hx (List.rel_of_pairwise_cons hl hy).le

/-- What is due comes first. -/
theorem eq_cons_of_due (hl : l.Pairwise Before) (h : due ticks l = x :: l') :
    ∃ rest, l = x :: rest ∧ due ticks rest = l' := by
  cases l with
  | nil => cases h
  | cons y l =>
      by_cases hy : y.when.toInt ≤ ticks.toInt
      · rw [due_cons hy] at h
        cases h
        exact ⟨l, rfl, rfl⟩
      · have hnone := not_due_of_head hl fun z hz => by
          cases hz
          exact Int.not_le.mp hy
        rw [due_eq_nil hnone] at h
        cases h

/-- Two lists in order with the same members due have the same due. -/
theorem due_eq_of_perm (hl : l.Pairwise Before) (hl' : l'.Pairwise Before)
    (hperm : (due ticks l).Perm (due ticks l')) : due ticks l = due ticks l' :=
  hperm.eq_of_pairwise (fun _ _ _ _ h h' => absurd h' h.asymm) (hl.filter _)
    (hl'.filter _)

end

namespace Interrupt

/-- The list is in order, and what will be made is new. -/
structure Ordered (k : Interrupt Obj σ) : Prop where
  pending : k.pending.Pairwise Before
  serial : ∀ x ∈ k.pending, x.serial < k.made

/-- What calls of `Schedule` put into the list. -/
def scheduled (ticks : BitVec 32) : Nat → List (Request Obj) →
    List (PendingInterrupt Obj)
  | _, [] => []
  | made, r :: requests =>
    ⟨made, r.toCall, ticks + r.fromNow, r.type⟩ :: scheduled ticks
      (made + 1) requests

theorem serial_le_of_mem_scheduled {ticks : BitVec 32}
    {x : PendingInterrupt Obj} :
    ∀ {requests : List (Request Obj)} {made : Nat},
      x ∈ scheduled ticks made requests → made ≤ x.serial
  | _ :: _, made, hx => by
      rcases List.mem_cons.mp hx with rfl | hx
      · exact Nat.le_refl made
      · exact Nat.le_of_succ_le (serial_le_of_mem_scheduled hx)

theorem exists_request {ticks : BitVec 32} {x : PendingInterrupt Obj} :
    ∀ {requests : List (Request Obj)} {made : Nat},
      x ∈ scheduled ticks made requests →
      ∃ r ∈ requests, x.when = ticks + r.fromNow
  | r :: _, _, hx => by
      rcases List.mem_cons.mp hx with rfl | hx
      · exact ⟨r, .head _, rfl⟩
      · obtain ⟨r', hr', heq⟩ := exists_request hx
        exact ⟨r', .tail _ hr', heq⟩

theorem exists_scheduled {ticks : BitVec 32} {r : Request Obj} :
    ∀ {requests : List (Request Obj)} {made : Nat}, r ∈ requests →
      ∃ x ∈ scheduled ticks made requests, x.when = ticks + r.fromNow
  | _ :: _, _, hr => by
      rcases List.mem_cons.mp hr with rfl | hr
      · exact ⟨_, .head _, rfl⟩
      · obtain ⟨x, hx, heq⟩ := exists_scheduled hr
        exact ⟨x, .tail _ hx, heq⟩

theorem scheduled_append {ticks : BitVec 32} {more : List (Request Obj)} :
    ∀ {requests : List (Request Obj)} {made : Nat},
      scheduled ticks made (requests ++ more) =
        scheduled ticks made requests ++ scheduled ticks
          (made + requests.length) more
  | [], _ => rfl
  | r :: requests, made => by
      rw [List.cons_append, scheduled, scheduled, scheduled_append,
        List.length_cons, Nat.add_right_comm made 1]
      rfl

section
variable [DecidableEq Obj] {k : Interrupt Obj σ}

/-- `Schedule` keeps the list in order: the new interrupt goes after all of its
time. -/
theorem schedule_ok (h : Ordered k) {r : Request Obj}
    (hr : 0 < r.fromNow.toInt) :
    ∃ p, k.schedule r = .ok { k with pending := p, made := k.made + 1 } ∧
      Ordered { k with pending := p, made := k.made + 1 } ∧
          p.Perm (k.toOccur r :: k.pending) := by
  have hnew : k.toOccur r ∉ k.pending :=
    fun hmem => Nat.lt_irrefl _ (h.serial _ hmem)
  have hinsert : ∃ p, LinkedList.insert (fun x y => .ok (pendingCompare x y))
      k.pending (k.toOccur r) = .ok p ∧
      Placed (pendingCompare (k.toOccur r)) (k.toOccur r) k.pending p :=
    LinkedList.insert_ok hnew fun _ _ => rfl
  obtain ⟨p, hp, hplaced⟩ := hinsert
  refine ⟨p, ?_, ⟨?_, ?_⟩, hplaced.perm⟩
  · rw [schedule, assertMsg_pos hr, Outcome.ok_bind, hp]
    rfl
  · refine hplaced.pairwise h.pending ?_ ?_
    · intro x hx hcmp
      have hle : x.when.toInt ≤ (k.toOccur r).when.toInt :=
        Int.not_lt.mp fun hlt =>
          absurd (pendingCompare_neg.mpr hlt) (Int.not_lt.mpr hcmp)
      rcases Int.lt_or_eq_of_le hle with hlt | heq
      · exact .inl hlt
      · exact .inr ⟨heq, h.serial x hx⟩
    · intro x _ hcmp
      have hlt := pendingCompare_neg.mp hcmp
      exact ⟨.inl hlt, fun y _ hxy => .inl (Int.lt_of_lt_of_le hlt hxy.le)⟩
  · intro x hx
    rcases hplaced.mem.mp hx with rfl | hx
    · exact Nat.lt_succ_self _
    · exact Nat.lt_succ_of_lt (h.serial x hx)

theorem schedule_empty (hk : k.pending = []) {r : Request Obj}
    (hr : 0 < r.fromNow.toInt) :
    k.schedule r = .ok { k with pending := [k.toOccur r], made := k.made + 1 } := by
  rw [schedule, assertMsg_pos hr, Outcome.ok_bind, hk, LinkedList.insert,
    assertMsg_pos List.not_mem_nil,
    Outcome.ok_bind, SortedList.place, Outcome.ok_bind, assertMsg_pos
      (List.mem_singleton.mpr rfl)]
  rfl

theorem schedules_ok :
    ∀ {requests : List (Request Obj)} {k : Interrupt Obj σ}, Ordered k →
    (∀ r ∈ requests, 0 < r.fromNow.toInt) →
      ∃ p, requests.foldlM schedule k = .ok { k with pending := p, made := k.made + requests.length } ∧
        Ordered { k with pending := p, made := k.made + requests.length } ∧
        p.Perm (k.pending ++ scheduled k.totalTicks k.made requests)
  | [], k, h, _ => ⟨k.pending, rfl, h, by rw [scheduled, List.append_nil]⟩
  | r :: requests, k, h, hr => by
      obtain ⟨p, hrun, hp, hperm⟩ := schedule_ok h (hr r (.head _))
      obtain ⟨p', hrun', hp', hperm'⟩ := schedules_ok hp fun r' hr' =>
        hr r' (.tail _ hr')
      have hmade : k.made + 1 + requests.length =
          k.made + (r :: requests).length := by
        rw [List.length_cons, Nat.add_assoc, Nat.add_comm 1]
      rw [hmade] at hrun' hp'
      refine ⟨p', ?_, hp', ?_⟩
      · rw [List.foldlM_cons, hrun]
        exact hrun'
      · refine hperm'.trans ((hperm.append_right _).trans ?_)
        exact List.perm_middle.symm

/-! ## The handlers -/

variable {dev : Devices Obj σ} {x : PendingInterrupt Obj}

omit [DecidableEq Obj] in
/-- What the handlers of `l` do, one after the other, at the time `ticks`. -/
def handled (dev : Devices Obj σ) (ticks : BitVec 32) :
    List (PendingInterrupt Obj) → σ → σ × List (Request Obj)
  | [], state => (state, [])
  | x :: l, state =>
    let (state, requests) := dev.callBack x.callOnInterrupt ticks state
    let (state, more) := handled dev ticks l state
    (state, requests ++ more)

omit [DecidableEq Obj] in
/-- No time that the handlers of `l` ask for overflows an `int`. -/
def InRange (dev : Devices Obj σ) (ticks : BitVec 32)
    (l : List (PendingInterrupt Obj)) (state : σ) : Prop :=
  ∀ r ∈ (handled dev ticks l state).2,
    ticks.toInt + r.fromNow.toInt < 2147483648

/-- The machine after the handler of `x`, with the list `p`. -/
def afterHandler (dev : Devices Obj σ) (k : Interrupt Obj σ)
    (x : PendingInterrupt Obj) (p : List (PendingInterrupt Obj)) :
    Interrupt Obj σ :=
  let (state, requests) := dev.callBack x.callOnInterrupt k.totalTicks k.state
  { k with
    state := state
    invoked := k.invoked ++ [x]
    pending := p
    made := k.made + requests.length }

theorem callBack_ok (dev : Devices Obj σ) (h : Ordered k)
    (x : PendingInterrupt Obj) :
    ∃ p, callBack dev k x = .ok (afterHandler dev k x p) ∧
      Ordered (afterHandler dev k x p) ∧
      p.Perm (k.pending ++
        scheduled k.totalTicks k.made
          (dev.callBack x.callOnInterrupt k.totalTicks k.state).2) :=
  schedules_ok (k := { k with
      state := (dev.callBack x.callOnInterrupt k.totalTicks k.state).1
      invoked := k.invoked ++ [x] }) ⟨h.pending, h.serial⟩ (dev.positive _ _ _)

theorem deliver_succ (dev : Devices Obj σ) {rest : List (PendingInterrupt Obj)}
    (h : Ordered k) (hk : k.pending = x :: rest) :
    ∃ p, Ordered (afterHandler dev k x p) ∧
      p.Perm (rest ++ scheduled k.totalTicks k.made
        (dev.callBack x.callOnInterrupt k.totalTicks k.state).2) ∧
      ∀ n, deliver dev (n + 1) k =
        match p with
        | [] => .ok (afterHandler dev k x p)
        | front :: _ =>
          if front.when.toInt ≤ k.totalTicks.toInt then
            deliver dev n (afterHandler dev k x p)
          else .ok (afterHandler dev k x p) := by
  have hrest : Ordered { k with pending := rest } := by
    refine ⟨?_, ?_⟩
    · exact (List.pairwise_cons.mp (hk ▸ h.pending)).2
    · intro y hy
      exact h.serial y (hk ▸ .tail _ hy)
  obtain ⟨p, hrun, hp, hperm⟩ := callBack_ok dev hrest x
  refine ⟨p, hp, hperm, fun n => ?_⟩
  rw [deliver, hk, LinkedList.removeFront, Outcome.pure_eq_ok, Outcome.ok_bind]
  dsimp only
  rw [hrun, Outcome.ok_bind]
  cases p with
  | nil => rfl
  | cons front p => rfl

/-- However the loop ends, nothing is lost: what it took off and what is left is
what was there and what the handlers scheduled. -/
theorem deliver_sound : ∀ {n : Nat} {k k' : Interrupt Obj σ}, Ordered k →
    deliver dev n k = .ok k' →
    ∃ l, k'.invoked = k.invoked ++ l ∧ k'.totalTicks = k.totalTicks ∧
      Ordered k' ∧
      (∀ x ∈ k'.pending.head?, k.totalTicks.toInt < x.when.toInt) ∧
      (l ++ k'.pending).Perm (k.pending ++ scheduled k.totalTicks k.made
        (handled dev k.totalTicks l k.state).2)
  | 0, _, _, _, hrun => by
      rw [deliver] at hrun
      cases hrun
  | n + 1, k, k', h, hrun => by
      cases hk : k.pending with
      | nil =>
          rw [deliver, hk, LinkedList.removeFront] at hrun
          cases hrun
      | cons x rest =>
          obtain ⟨p, hp, hperm, hstep⟩ := deliver_succ dev h hk
          have hround : ∀ {q l}, q.Perm (p ++ scheduled k.totalTicks
                (afterHandler dev k x p).made
                (handled dev k.totalTicks l (afterHandler dev k x p).state).2) →
              (x :: q).Perm (x :: rest ++
                scheduled k.totalTicks k.made
                    (handled dev k.totalTicks (x :: l) k.state).2) := by
            intro q l hq
            rw [handled, scheduled_append, List.cons_append,
              ← List.append_assoc]
            exact (hq.trans (hperm.append_right _)).cons x
          have hstop : k' = afterHandler dev k x p →
              (∀ y ∈ p.head?, k.totalTicks.toInt < y.when.toInt) →
              ∃ l, k'.invoked = k.invoked ++ l ∧ k'.totalTicks = k.totalTicks ∧
                Ordered k' ∧
                (∀ x ∈ k'.pending.head?, k.totalTicks.toInt < x.when.toInt) ∧
                (l ++ k'.pending).Perm (x :: rest ++
                  scheduled k.totalTicks k.made
                      (handled dev k.totalTicks l k.state).2) := by
            rintro rfl hhead
            exact ⟨[x], rfl, rfl, hp, hhead, hround
              (by rw [handled, scheduled, List.append_nil]; exact .refl _)⟩
          rw [hstep n] at hrun
          cases p with
          | nil =>
              cases hrun
              exact hstop rfl nofun
          | cons front p =>
              dsimp only at hrun
              by_cases hfront : front.when.toInt ≤ k.totalTicks.toInt
              · rw [if_pos hfront] at hrun
                obtain ⟨l, hinvoked, hticks, hordered, hhead, hl⟩ :=
                  deliver_sound hp hrun
                refine ⟨x :: l, ?_, hticks, hordered, hhead, hround hl⟩
                rw [hinvoked]
                exact List.append_assoc _ _ _
              · rw [if_neg hfront] at hrun
                cases hrun
                refine hstop rfl ?_
                rintro _ ⟨⟩
                exact Int.not_le.mp hfront

/-- A time that is in the range of an `int` is later than the clock, and no
other. -/
theorem later_iff {ticks fromNow : BitVec 32} (h : 0 < fromNow.toInt) :
    ticks.toInt < (ticks + fromNow).toInt ↔
      ticks.toInt + fromNow.toInt < 2147483648 := by
  have hlo := BitVec.le_toInt ticks
  have hhi := BitVec.toInt_lt (x := ticks)
  have hhi' := BitVec.toInt_lt (x := fromNow)
  rw [BitVec.toInt_add, Int.bmod_def]
  omega

theorem deliver_due (h : Ordered k) {l : List (PendingInterrupt Obj)}
    (hdue : due k.totalTicks k.pending = x :: l)
    (hrange : ∀ r ∈ (dev.callBack x.callOnInterrupt k.totalTicks k.state).2,
      k.totalTicks.toInt + r.fromNow.toInt < 2147483648) :
    ∃ p, Ordered (afterHandler dev k x p) ∧ due k.totalTicks p = l ∧
      ∀ n, deliver dev (n + 1) k =
        match l with
        | [] => .ok (afterHandler dev k x p)
        | _ :: _ => deliver dev n (afterHandler dev k x p) := by
  obtain ⟨rest, hk, hrest⟩ := eq_cons_of_due h.pending hdue
  obtain ⟨p, hp, hperm, hstep⟩ := deliver_succ dev h hk
  have hlater : due k.totalTicks
      (scheduled k.totalTicks k.made
          (dev.callBack x.callOnInterrupt k.totalTicks k.state).2) = [] := by
    refine due_eq_nil fun y hy => ?_
    obtain ⟨r, hr, hwhen⟩ := exists_request hy
    rw [hwhen]
    exact (later_iff (dev.positive _ _ _ r hr)).mpr (hrange r hr)
  have hp' : due k.totalTicks p = l := by
    rw [← hrest]
    refine due_eq_of_perm hp.pending
      (List.pairwise_cons.mp (hk ▸ h.pending)).2 ?_
    have hfilter :=
      hperm.filter fun y => decide (y.when.toInt ≤ k.totalTicks.toInt)
    rw [List.filter_append] at hfilter
    exact hfilter.trans (by rw [← due, ← due, hlater, List.append_nil])
  refine ⟨p, hp, hp', fun n => ?_⟩
  rw [hstep]
  cases l with
  | nil =>
      cases p with
      | nil => rfl
      | cons front p =>
          have hfront : ¬ front.when.toInt ≤ k.totalTicks.toInt := fun hle => by
            rw [due_cons hle] at hp'
            cases hp'
          exact if_neg hfront
  | cons y l =>
      obtain ⟨p, rfl, _⟩ := eq_cons_of_due hp.pending hp'
      have hy : y ∈ due k.totalTicks (y :: p) := by
        rw [hp']
        exact .head _
      exact if_pos (mem_due.mp hy).2

theorem deliver_ok {l : List (PendingInterrupt Obj)}
    (h : Ordered k) (hdue : due k.totalTicks k.pending = x :: l)
    (hrange : InRange dev k.totalTicks (x :: l) k.state) :
    ∃ k', k'.invoked = k.invoked ++ x :: l ∧ ∀ n, l.length < n →
      deliver dev n k = .ok k' := by
  induction l generalizing k x with
  | nil =>
      obtain ⟨p, _, _, hstep⟩ := deliver_due h hdue fun r hr =>
        hrange r (List.mem_append_left _ hr)
      refine ⟨afterHandler dev k x p, rfl, ?_⟩
      rintro (_ | n) hn
      · exact absurd hn (Nat.not_lt_zero _)
      · exact hstep n
  | cons y l ih =>
      obtain ⟨p, hp, hp', hstep⟩ := deliver_due h hdue fun r hr =>
        hrange r (List.mem_append_left _ hr)
      have hrange' : InRange dev k.totalTicks (y :: l)
          (afterHandler dev k x p).state :=
        fun r hr => hrange r (List.mem_append_right _ hr)
      obtain ⟨k', hinvoked, hloop⟩ := ih hp hp' hrange'
      refine ⟨k', ?_, ?_⟩
      · rw [hinvoked]
        exact List.append_assoc _ _ _
      · rintro (_ | n) hn
        · exact absurd hn (Nat.not_lt_zero _)
        · exact (hstep n).trans (hloop n (Nat.lt_of_succ_lt_succ hn))

omit [DecidableEq Obj] in
theorem handled_positive {ticks : BitVec 32} {r : Request Obj} :
    ∀ {l : List (PendingInterrupt Obj)} {state : σ},
    r ∈ (handled dev ticks l state).2 → 0 < r.fromNow.toInt
  | _ :: _, _, hr => by
      rcases List.mem_append.mp hr with hr | hr
      · exact dev.positive _ _ _ r hr
      · exact handled_positive hr

/-! ## `CheckIfDue` -/

/-- What the clock is set to: the time of the first interrupt, if the machine
idles and it is not due yet. -/
def ticksAfter (k : Interrupt Obj σ) (advanceClock : Bool) : BitVec 32 :=
  match k.pending with
  | [] => k.totalTicks
  | next :: _ => if k.totalTicks.toInt < next.when.toInt ∧
        advanceClock = true then next.when else k.totalTicks

/-- Nothing is due, or the loop begins with something that is. -/
theorem checkIfDue_cases (dev : Devices Obj σ) (h : Ordered k)
    (hlevel : k.level = .IntOff) (advanceClock : Bool) :
    due (k.ticksAfter advanceClock) k.pending = [] ∧
        k.ticksAfter advanceClock = k.totalTicks ∧
        (∀ fuel, checkIfDue dev fuel advanceClock k = .ok (false, k)) ∨
      ∃ x l idleTicks, due (k.ticksAfter advanceClock) k.pending = x :: l ∧ ∀ fuel, checkIfDue dev fuel advanceClock k =
        fire dev fuel { k with idleTicks := idleTicks, totalTicks := k.ticksAfter advanceClock } := by
  cases hk : k.pending with
  | nil =>
      refine .inl ⟨rfl, ?_, fun fuel => ?_⟩
      · rw [ticksAfter, hk]
      · rw [checkIfDue, assertMsg_pos hlevel, Outcome.ok_bind, hk]
        rfl
  | cons next rest =>
      have hrun : ∀ fuel, checkIfDue dev fuel advanceClock k =
          if k.totalTicks.toInt < next.when.toInt then
            if advanceClock = false then .ok (false, k)
            else fire dev fuel
              { k with idleTicks := k.idleTicks + (next.when - k.totalTicks), totalTicks := next.when }
          else fire dev fuel k := by
        intro fuel
        rw [checkIfDue, assertMsg_pos hlevel, Outcome.ok_bind, hk]
        rfl
      by_cases hnext : k.totalTicks.toInt < next.when.toInt
      · cases advanceClock with
        | false =>
            have hticks : k.ticksAfter false = k.totalTicks := by
              rw [ticksAfter, hk]
              exact if_neg nofun
            refine .inl ⟨?_, hticks, fun fuel => ?_⟩
            · rw [hticks]
              refine due_eq_nil (not_due_of_head (hk ▸ h.pending) ?_)
              rintro _ ⟨⟩
              exact hnext
            · rw [hrun, if_pos hnext, if_pos rfl]
        | true =>
            have hticks : k.ticksAfter true = next.when := by
              rw [ticksAfter, hk]
              exact if_pos ⟨hnext, rfl⟩
            refine .inr ⟨next, due next.when rest,
              k.idleTicks + (next.when - k.totalTicks), ?_, fun fuel => ?_⟩
            · rw [hticks, due_cons (Int.le_refl _)]
            · rw [hrun, if_pos hnext, if_neg nofun, hticks, hk]
      · have hticks : k.ticksAfter advanceClock = k.totalTicks := by
          rw [ticksAfter, hk]
          exact if_neg fun hboth => hnext hboth.1
        refine .inr ⟨next, due k.totalTicks rest, k.idleTicks, ?_,
          fun fuel => ?_⟩
        · rw [hticks, due_cons (Int.not_lt.mp hnext)]
        · rw [hrun, if_neg hnext, hticks, ← hk]

omit [DecidableEq Obj] in
theorem ticksAfter_le (k : Interrupt Obj σ) (advanceClock : Bool) :
    k.totalTicks.toInt ≤ (k.ticksAfter advanceClock).toInt := by
  rw [ticksAfter]
  cases k.pending with
  | nil => exact Int.le_refl _
  | cons next rest =>
      dsimp only
      split
      · rename_i hnext
        exact Int.le_of_lt hnext.1
      · exact Int.le_refl _

omit [DecidableEq Obj] in
theorem ticksAfter_idle (h : Ordered k) (hk : k.pending ≠ [])
    (hlater : ∀ x ∈ k.pending, k.totalTicks.toInt < x.when.toInt) :
    ∃ x ∈ k.pending, k.ticksAfter true = x.when ∧
      ∀ y ∈ k.pending, x.when.toInt ≤ y.when.toInt := by
  obtain ⟨next, rest, hcons⟩ := List.exists_cons_of_ne_nil hk
  have hpending := h.pending
  rw [ticksAfter]
  rw [hcons] at hlater hpending ⊢
  refine ⟨next, .head _, if_pos ⟨hlater next (.head _), rfl⟩, ?_⟩
  refine List.forall_mem_cons.mpr ⟨Int.le_refl _, fun y hy => ?_⟩
  exact (List.rel_of_pairwise_cons hpending hy).le

/-- What a call of `CheckIfDue` does: it invokes what is due when it ends, each
once and in order of time and of creation, and leaves nothing that is due; the
clock does not go back, and an idle machine with nothing due sets it to the
earliest time. -/
structure Delivered (k : Interrupt Obj σ) (advanceClock : Bool)
    (k' : Interrupt Obj σ) : Prop where
  invoked : k'.invoked = k.invoked ++ due k'.totalTicks k.pending
  order : (due k'.totalTicks k.pending).Pairwise Before
  later : ∀ x ∈ k'.pending, k'.totalTicks.toInt < x.when.toInt
  clock : k.totalTicks.toInt ≤ k'.totalTicks.toInt
  stays : advanceClock = false → k'.totalTicks = k.totalTicks
  idle : advanceClock = true → k.pending ≠ [] →
    (∀ x ∈ k.pending, k.totalTicks.toInt < x.when.toInt) →
    ∃ x ∈ k.pending, k'.totalTicks = x.when ∧
      ∀ y ∈ k.pending, x.when.toInt ≤ y.when.toInt

/-- The call does that, in as many rounds of its loop as interrupts were due. -/
def DeliversInTime (dev : Devices Obj σ) (k : Interrupt Obj σ)
    (advanceClock : Bool) : Prop :=
  ∃ k', Delivered k advanceClock k' ∧
    ∀ fuel, (due k'.totalTicks k.pending).length ≤ fuel →
    checkIfDue dev fuel advanceClock k =
      .ok (!(due k'.totalTicks k.pending).isEmpty, k')

omit [DecidableEq Obj] in
theorem Delivered.of_invoked {k' : Interrupt Obj σ} {advanceClock : Bool}
    (h : Ordered k) (hticks : k'.totalTicks = k.ticksAfter advanceClock)
    (hinvoked : k'.invoked =
      k.invoked ++ due (k.ticksAfter advanceClock) k.pending)
    (hlater : ∀ x ∈ k'.pending, k'.totalTicks.toInt < x.when.toInt) :
    Delivered k advanceClock k' where
  invoked := by
    rw [hticks]
    exact hinvoked
  order := h.pending.filter _
  later := hlater
  clock := by
    rw [hticks]
    exact ticksAfter_le k advanceClock
  stays := by
    rintro rfl
    rw [hticks, ticksAfter]
    cases k.pending with
    | nil => rfl
    | cons next rest => exact if_neg nofun
  idle := by
    rintro rfl hk hnone
    rw [hticks]
    exact ticksAfter_idle h hk hnone

theorem fire_ok {l : List (PendingInterrupt Obj)}
    (h : Ordered k) (hdue : due k.totalTicks k.pending = x :: l)
    (hrange : InRange dev k.totalTicks (x :: l) (dev.delayedLoad k.state)) :
    ∃ k', k'.invoked = k.invoked ++ x :: l ∧ k'.totalTicks = k.totalTicks ∧
      (∀ y ∈ k'.pending, k'.totalTicks.toInt < y.when.toInt) ∧
      ∀ n, l.length < n → fire dev n k = .ok (true, k') := by
  have hbusy : Ordered { k with state := dev.delayedLoad k.state, inHandler := true } := ⟨h.pending, h.serial⟩
  obtain ⟨k', hinvoked, hloop⟩ := deliver_ok hbusy hdue hrange
  obtain ⟨_, _, hticks, hordered, hhead, _⟩ :=
    deliver_sound hbusy (hloop _ (Nat.lt_succ_self _))
  refine ⟨{ k' with inHandler := false }, hinvoked, hticks, ?_, fun n hn => ?_⟩
  · have hlater := not_due_of_head hordered.pending hhead
    intro y hy
    show k'.totalTicks.toInt < _
    rw [hticks]
    exact hlater y hy
  · exact Outcome.bind_eq_ok.mpr ⟨k', hloop n hn, rfl⟩

/-- The loop of a call that has returned, whatever overflowed. -/
theorem fire_sound {n : Nat} {fired : Bool} {k' : Interrupt Obj σ}
    (h : Ordered k) (hrun : fire dev n k = .ok (fired, k')) :
    ∃ l, k'.invoked = k.invoked ++ l ∧ k'.totalTicks = k.totalTicks ∧
      Ordered k' ∧
      (∀ y ∈ k'.pending, k.totalTicks.toInt < y.when.toInt) ∧
      (l ++ k'.pending).Perm (k.pending ++
        scheduled k.totalTicks k.made
          (handled dev k.totalTicks l (dev.delayedLoad k.state)).2) := by
  obtain ⟨k₁, hloop, hk'⟩ := Outcome.bind_eq_ok.mp hrun
  cases hk'
  obtain ⟨l, hinvoked, hticks, hordered, hhead, hperm⟩ :=
    deliver_sound (k := { k with state := dev.delayedLoad k.state, inHandler := true }) ⟨h.pending, h.serial⟩ hloop
  exact ⟨l, hinvoked, hticks, ⟨hordered.pending, hordered.serial⟩,
    not_due_of_head hordered.pending hhead, hperm⟩

theorem Reachable.ordered (h : Reachable dev k) : Ordered k := by
  induction h with
  | new => exact ⟨.nil, nofun⟩
  | schedule _ r hrun ih =>
      obtain ⟨_, hpositive, _⟩ := Outcome.bind_eq_ok.mp hrun
      obtain ⟨p, hp, hordered, _⟩ :=
        schedule_ok ih (assertMsg_eq_ok.mp hpositive)
      rw [hp] at hrun
      cases hrun
      exact hordered
  | proceed _ _ _ _ ih => exact ⟨ih.pending, ih.serial⟩
  | @check k₁ _ _ _ fuel advanceClock hrun ih =>
      obtain ⟨_, hlevel, _⟩ := Outcome.bind_eq_ok.mp hrun
      rcases checkIfDue_cases dev ih (assertMsg_eq_ok.mp hlevel) advanceClock with
        ⟨_, _, hidle⟩ | ⟨x, l, idleTicks, _, hfire⟩
      · rw [hidle] at hrun
        cases hrun
        exact ih
      · have h₁ : Ordered { k₁ with idleTicks := idleTicks, totalTicks := k₁.ticksAfter advanceClock } :=
          ⟨ih.pending, ih.serial⟩
        rw [hfire] at hrun
        obtain ⟨_, _, _, hordered, _⟩ := fire_sound h₁ hrun
        exact hordered

/-- Every call delivers in time if and only if no handler it invokes asks for a
time that overflows. -/
theorem delivers_in_time_iff (h : Reachable dev k) (hlevel : k.level = .IntOff)
    (advanceClock : Bool) :
    DeliversInTime dev k advanceClock ↔
      InRange dev (k.ticksAfter advanceClock)
        (due (k.ticksAfter advanceClock) k.pending)
        (dev.delayedLoad k.state) := by
  have hordered := h.ordered
  rcases checkIfDue_cases dev hordered hlevel advanceClock with
    ⟨hdue, hticks, hrun⟩ | ⟨x, l, idleTicks, hdue, hrun⟩
  · rw [hdue]
    refine ⟨fun _ => nofun, fun _ => ⟨k, .of_invoked hordered hticks.symm ?_ ?_,
      fun fuel _ => ?_⟩⟩
    · rw [hdue, List.append_nil]
    · intro y hy
      refine Int.not_le.mp fun hle => ?_
      have hmem : y ∈ due (k.ticksAfter advanceClock) k.pending := mem_due.mpr ⟨hy, hticks ▸ hle⟩
      rw [hdue] at hmem
      cases hmem
    · rw [hrun, ← hticks, hdue]
      rfl
  · rw [hdue]
    have hk₁ : Ordered { k with idleTicks := idleTicks, totalTicks := k.ticksAfter advanceClock } :=
      ⟨hordered.pending, hordered.serial⟩
    constructor
    · rintro ⟨k', hdelivered, hreturns⟩ r hr
      have hfire := hreturns _ (Nat.le_refl _)
      rw [hrun] at hfire
      obtain ⟨l', hinvoked, hticks, _, hlater, hperm⟩ := fire_sound hk₁ hfire
      obtain rfl : l' = x :: l := by
        have heq := hinvoked.symm.trans hdelivered.invoked
        rw [hticks] at heq
        exact (List.append_cancel_left heq).trans hdue
      -- what the handler scheduled has not been invoked, so it is left, and
      -- later
      obtain ⟨y, hy, hwhen⟩ := exists_scheduled hr
      rcases List.mem_append.mp (hperm.mem_iff.mpr (List.mem_append_right _ hy)) with
        hmem | hmem
      · rw [← hdue] at hmem
        have hserial := hordered.serial y (mem_due.mp hmem).1
        exact absurd (serial_le_of_mem_scheduled hy) (Nat.not_le.mpr hserial)
      · have hy' := hlater y hmem
        rw [hwhen] at hy'
        exact (later_iff (handled_positive hr)).mp hy'
    · intro hrange
      obtain ⟨k', hinvoked, hticks, hlater, hfire⟩ := fire_ok hk₁ hdue hrange
      refine ⟨k', .of_invoked hordered hticks (hdue ▸ hinvoked) hlater,
        fun fuel hfuel => ?_⟩
      rw [hticks, hdue] at hfuel ⊢
      rw [hrun]
      exact hfire fuel hfuel

end

/-! ## The timer at the end of time -/

/-- `Timer::CallBack` schedules the timer again, `TimerTicks` from now. -/
def timer : Devices Unit Unit where
  delayedLoad := id
  callBack := fun _ _ _ => ((), [⟨(), 100, .TimerInt⟩])
  positive := by
    rintro _ _ _ _ (_ | ⟨_, ⟨⟩⟩)
    decide

/-- The timer was set at `start`, and is due now. -/
def timerDue (start : BitVec 32) : Interrupt Unit Unit where
  level := .IntOff
  pending := [⟨0, (), start + 100, .TimerInt⟩]
  inHandler := false
  totalTicks := start + 100
  idleTicks := 0
  state := ()
  made := 1
  invoked := []

theorem timerDue_reachable (start : BitVec 32) :
    Reachable timer (timerDue start) := by
  have h : (new start () : Interrupt Unit Unit).schedule ⟨(), 100, .TimerInt⟩ =
      .ok { timerDue start with totalTicks := start } :=
        schedule_empty rfl (by decide)
  exact ((Reachable.new start ()).schedule _ h).proceed .IntOff (start + 100) ()

/-- A timer that is due calls its handler and is set again. -/
theorem delivers_in_time_iff_timer : DeliversInTime timer (timerDue 0) false :=
  (delivers_in_time_iff (timerDue_reachable 0) rfl false).mpr (by
    rintro _ (_ | ⟨_, ⟨⟩⟩)
    decide)

theorem deliver_timer : ∀ (n serial made : Nat) (when : BitVec 32)
    (invoked : List (PendingInterrupt Unit)),
    deliver timer n {
      level := .IntOff
      pending := [⟨serial, (), when, .TimerInt⟩]
      inHandler := true
      totalTicks := 2147483600
      idleTicks := 0
      state := ()
      made := made
      invoked := invoked } = .error .diverges
  | 0, _, _, _, _ => rfl
  | n + 1, serial, made, when, invoked => by
      have hwrap : (2147483600 + 100 : BitVec 32).toInt ≤
        (2147483600 : BitVec 32).toInt := by decide
      rw [deliver, LinkedList.removeFront, Outcome.pure_eq_ok, Outcome.ok_bind]
      dsimp only
      rw [callBack]
      dsimp only [timer]
      rw [List.foldlM_cons, schedule_empty rfl (by decide), Outcome.ok_bind,
        List.foldlM_nil,
        Outcome.pure_eq_ok, Outcome.ok_bind]
      exact (if_pos hwrap).trans (deliver_timer n made (made + 1) 2147483700 _)

/-- Near the end of the `int`s the time of the timer wraps, and it is due again
at once: the loop never ends. -/
theorem delivers_in_time_fails : Reachable timer (timerDue 2147483500) ∧
    (∀ fuel, checkIfDue timer fuel false (timerDue 2147483500) =
      .error .diverges) ∧
    ¬ DeliversInTime timer (timerDue 2147483500) false := by
  have hrun : ∀ fuel, checkIfDue timer fuel false (timerDue 2147483500) =
      .error .diverges := by
    intro fuel
    have hlevel : (timerDue 2147483500).level = .IntOff := rfl
    have hnow : ¬ (timerDue 2147483500).totalTicks.toInt <
      (2147483500 + 100 : BitVec 32).toInt := by decide
    have hloop := deliver_timer fuel 0 1 2147483600 []
    rw [checkIfDue, assertMsg_pos hlevel, Outcome.ok_bind]
    refine (if_neg hnow).trans ?_
    exact congrArg (· >>= _) hloop
  refine ⟨timerDue_reachable _, hrun, ?_⟩
  rintro ⟨k', _, hreturns⟩
  have hreturn := hreturns _ (Nat.le_refl _)
  rw [hrun] at hreturn
  cases hreturn

end Interrupt

end

end EroikoBlue.MP3
