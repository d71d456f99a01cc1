/-
# `Lib.Threads` — threads, semaphores and interrupts

Any number of threads make calls, one after the other.  A call is a list of
statements, and a statement is atomic; between any two of them other threads may
run and an interrupt may be delivered.  A semaphore has a value and a queue:

    P    at value 0, join the queue and sleep; otherwise take one off the value
    V    wake the first of the queue, if there is one, and add one to the value

A thread that is woken is still at its `P` and tries again; until it comes to
that, another may have taken what it was woken for.  All other statements work
on shared data: one may fail, as an assertion does, and one may put statements
in front of the rest.  A handler of interrupts works on the data and ends with a
`V`.

A semaphore that is 1 when nobody is between a `P` and the `V` after it is a
lock.  `Monitor` states what its users have to show: what is shared satisfies
`Free` when the lock is free, and `Held` of the statements the holder has left
when it is not; the other threads satisfy `Out`, and take their next step
through a `P`.  A holder may let go of the lock in mid-call and come back to it.
Then this is so in every reachable state (`Monitor.monitored`), and only the
holder can fail.

`Lock` is the case where every call begins with the `P` and ends with the `V`,
so that nothing need be shown of the other threads (`Lock.guarded`).
-/
import Mathlib.Logic.Function.Basic
import EroikoBlue.Lib.Outcome

namespace Threads

open Function (update)

/-- An atomic statement. -/
inductive Stmt (Sem Act : Type) where
  | P (s : Sem)
  | V (s : Sem)
  | act (a : Act)

/-- `woken` is a thread that a `V` made ready and that has not run since. -/
inductive Status where
  | ready
  | blocked
  | woken
  deriving DecidableEq

/-- The values of the semaphores and the data; `passed s` records the calls that
got past a `P` of `s`, in order. -/
structure Shared (Sem Call Data : Type) where
  value : Sem → Nat
  data : Data
  passed : Sem → List Call

/-- What the threads share, and for each of them the call it makes and the
statements left. -/
structure World (Id Sem Act Call Data : Type) where
  shared : Shared Sem Call Data
  queue : Sem → List Id
  status : Id → Status
  call : Id → Option Call
  rest : Id → List (Stmt Sem Act)

/-- The statements of a call, what a thread does to the data, and the
interrupts. -/
structure System (Id Sem Act Call Data ε : Type) where
  program : Call → List (Stmt Sem Act)
  act : Id → Act → Data → Except ε (Data × List (Stmt Sem Act))
  handler : Data → Option (Data × Sem)

variable {Id Sem Act Call Data ε : Type}

namespace Shared
variable [DecidableEq Sem] (sh : Shared Sem Call Data) (s : Sem)

def pass (c : Option Call) : Shared Sem Call Data :=
  { sh with
    value := update sh.value s (sh.value s - 1)
    passed := update sh.passed s (sh.passed s ++ c.toList) }

def raise : Shared Sem Call Data :=
  { sh with value := update sh.value s (sh.value s + 1) }

section
variable {sh : Shared Sem Call Data} {s s' : Sem} {c : Option Call}

@[simp] theorem value_pass : (sh.pass s c).value s = sh.value s - 1 :=
  Function.update_self _ _ _
@[simp] theorem passed_pass : (sh.pass s c).passed s =
    sh.passed s ++ c.toList := Function.update_self _ _ _
@[simp] theorem value_raise : (sh.raise s).value s = sh.value s + 1 :=
  Function.update_self _ _ _

theorem value_pass_of_ne (h : s' ≠ s) : (sh.pass s c).value s' = sh.value s' :=
  Function.update_of_ne h _ _

theorem passed_pass_of_ne (h : s' ≠ s) :
    (sh.pass s c).passed s' = sh.passed s' := Function.update_of_ne h _ _

theorem value_raise_of_ne (h : s' ≠ s) : (sh.raise s).value s' = sh.value s' :=
  Function.update_of_ne h _ _

end

end Shared

namespace World

/-- No thread in a call. -/
def init (value : Sem → Nat) (data : Data) : World Id Sem Act Call Data where
  shared := ⟨value, data, fun _ => []⟩
  queue := fun _ => []
  status := fun _ => .ready
  call := fun _ => none
  rest := fun _ => []

def setData (w : World Id Sem Act Call Data) (data : Data) :
    World Id Sem Act Call Data :=
  { w with shared := { w.shared with data := data } }

section
variable [DecidableEq Id] (w : World Id Sem Act Call Data) (t : Id)

/-- `t` is ready and has the statements `l` left. -/
def goOn (l : List (Stmt Sem Act)) : World Id Sem Act Call Data :=
  { w with
    status := update w.status t .ready
    rest := update w.rest t l }

/-- `t` begins a call. -/
def start (c : Call) (l : List (Stmt Sem Act)) : World Id Sem Act Call Data :=
  { w.goOn t l with call := update w.call t (some c) }

variable [DecidableEq Sem] (s : Sem)

def sleep : World Id Sem Act Call Data :=
  { w with
    queue := update w.queue s (w.queue s ++ [t])
    status := update w.status t .blocked }

def pass (l : List (Stmt Sem Act)) : World Id Sem Act Call Data :=
  { w.goOn t l with shared := w.shared.pass s (w.call t) }

/-- A `V`, by a thread or by a handler. -/
def raise : World Id Sem Act Call Data :=
  { w with
    shared := w.shared.raise s
    queue := update w.queue s (w.queue s).tail
    status := match (w.queue s).head? with
      | none => w.status
      | some u => update w.status u .woken }

end

end World

variable [DecidableEq Id]

namespace System
variable (sys : System Id Sem Act Call Data ε)

/-- `t` is in no call, or at the first statement of one. -/
def Outside (w : World Id Sem Act Call Data) (t : Id) : Prop :=
  w.rest t = [] ∨ ∃ c, w.call t = some c ∧ w.rest t = sys.program c

variable [DecidableEq Sem]

/-- The next statement of `t`. -/
def exec (w : World Id Sem Act Call Data)
    (t : Id) : Except ε (World Id Sem Act Call Data) :=
  match w.rest t with
  | [] => .ok w
  | .P s :: l =>
      .ok (if w.shared.value s = 0 then w.sleep t s else w.pass t s l)
  | .V s :: l => .ok ((w.raise s).goOn t l)
  | .act a :: l => do
    let (data, more) ← sys.act t a w.shared.data
    pure ((w.setData data).goOn t (more ++ l))

/-- What any order of statements, new calls and interrupts leads to. -/
inductive Reachable (w₀ : World Id Sem Act Call Data) :
    World Id Sem Act Call Data → Prop
  | init : Reachable w₀ w₀
  | start {w : World Id Sem Act Call Data} {t : Id} (c : Call)
      (h : Reachable w₀ w) (hidle : w.rest t = []) :
      Reachable w₀ (w.start t c (sys.program c))
  | exec {w w' : World Id Sem Act Call Data} {t : Id} (h : Reachable w₀ w)
      (hready : w.status t ≠ .blocked)
      (hexec : sys.exec w t = .ok w') : Reachable w₀ w'
  | interrupt {w : World Id Sem Act Call Data} {data : Data} {s : Sem}
      (h : Reachable w₀ w)
      (hdue : sys.handler w.shared.data = some (data, s)) :
        Reachable w₀ ((w.setData data).raise s)

/-- A step of `t` leaves every other thread where it may be. -/
def Keeps (Out : Id → Option Call → List (Stmt Sem Act) → Shared Sem Call Data →
      Prop) (t : Id) (sh sh' : Shared Sem Call Data) : Prop :=
  ∀ u, u ≠ t → ∀ c l, Out u c l sh → Out u c l sh'

/-- What the users of `m` have to show when they may let go of it on the way. -/
structure Monitor (m : Sem) (Free : Shared Sem Call Data → Prop)
    (Out : Id → Option Call → List (Stmt Sem Act) → Shared Sem Call Data → Prop)
    (Held : Id → Call → List (Stmt Sem Act) → Shared Sem Call Data → Prop) :
    Prop where
  starts : ∀ {t c sh}, Out t c [] sh → ∀ c', Out t (some c') (sys.program c') sh
  waits : ∀ {t c a l sh}, Out t c (a :: l) sh → ∃ s, a = .P s
  enters : ∀ {t c l sh}, Out t c (.P m :: l) sh → Free sh →
    ∃ c', c = some c' ∧ Held t c' l (sh.pass m c) ∧ Keeps Out t sh (sh.pass m c)
  passes : ∀ {t c s l sh}, Out t c (.P s :: l) sh → s ≠ m → sh.value s ≠ 0 →
    (Free sh ∨ ∃ o c' l', Held o c' l' sh) →
    Out t c l (sh.pass s c) ∧ Keeps Out t sh (sh.pass s c) ∧
      (Free sh → Free (sh.pass s c)) ∧
      ∀ o c' l', o ≠ t → Held o c' l' sh → Held o c' l' (sh.pass s c)
  one : ∀ {sh}, Free sh → sh.value m = 1
  zero : ∀ {t c l sh}, Held t c l sh → sh.value m = 0
  notDone : ∀ {t c sh}, ¬ Held t c [] sh
  P : ∀ {t c s l sh}, Held t c (.P s :: l) sh →
    s ≠ m ∧ (sh.value s ≠ 0 → Held t c l (sh.pass s (some c)) ∧
      Keeps Out t sh (sh.pass s (some c)))
  V : ∀ {t c s l sh}, Held t c (.V s :: l) sh → s ≠ m →
    Held t c l (sh.raise s) ∧ Keeps Out t sh (sh.raise s)
  leaves : ∀ {t c l sh}, Held t c (.V m :: l) sh →
    Free (sh.raise m) ∧ Out t (some c) l (sh.raise m) ∧
      Keeps Out t sh (sh.raise m)
  act : ∀ {t c a l sh data more}, Held t c (.act a :: l) sh →
    sys.act t a sh.data = .ok (data, more) →
    Held t c (more ++ l) { sh with data := data } ∧
      Keeps Out t sh { sh with data := data }
  freeInterrupt : ∀ {sh data s}, Free sh →
    sys.handler sh.data = some (data, s) →
    Free (Shared.raise { sh with data := data } s) ∧
      ∀ t c l, Out t c l sh →
        Out t c l (Shared.raise { sh with data := data } s)
  heldInterrupt : ∀ {t c l sh data s}, Held t c l sh →
    sys.handler sh.data = some (data, s) →
    Held t c l (Shared.raise { sh with data := data } s) ∧
      Keeps Out t sh (Shared.raise { sh with data := data } s)

omit [DecidableEq Id] [DecidableEq Sem] in
/-- Nobody has the lock, or one thread has; all others are where they may be. -/
inductive Monitored (Free : Shared Sem Call Data → Prop)
    (Out : Id → Option Call → List (Stmt Sem Act) → Shared Sem Call Data → Prop)
    (Held : Id → Call → List (Stmt Sem Act) → Shared Sem Call Data → Prop)
    (w : World Id Sem Act Call Data) : Prop
  | free (h : Free w.shared) (hout : ∀ t, Out t (w.call t) (w.rest t) w.shared)
  | held {o : Id} {c : Call} (hcall : w.call o = some c)
      (h : Held o c (w.rest o) w.shared)
      (hout : ∀ t, t ≠ o → Out t (w.call t) (w.rest t) w.shared)

/-- What the users of the semaphore `m` as a lock have to show. -/
structure Lock (m : Sem) (Free : Shared Sem Call Data → Prop)
    (Held : Id → Call → List (Stmt Sem Act) → Shared Sem Call Data → Prop) :
    Prop where
  enters : ∀ c, ∃ body, sys.program c = .P m :: body ∧ ∀ t sh, Free sh →
    Held t c body (sh.pass m (some c))
  one : ∀ {sh}, Free sh → sh.value m = 1
  zero : ∀ {t c l sh}, Held t c l sh → sh.value m = 0
  notDone : ∀ {t c sh}, ¬ Held t c [] sh
  P : ∀ {t c s l sh}, Held t c (.P s :: l) sh → s ≠ m ∧
    (sh.value s ≠ 0 → Held t c l (sh.pass s (some c)))
  V : ∀ {t c s l sh}, Held t c (.V s :: l) sh → s ≠ m → Held t c l (sh.raise s)
  leaves : ∀ {t c l sh}, Held t c (.V m :: l) sh → l = [] ∧ Free (sh.raise m)
  act : ∀ {t c a l sh}, Held t c (.act a :: l) sh → ∃ data more,
    sys.act t a sh.data = .ok (data, more) ∧
      Held t c (more ++ l) { sh with data := data }
  freeInterrupt : ∀ {sh data s}, Free sh →
    sys.handler sh.data = some (data, s) →
    Free (Shared.raise { sh with data := data } s)
  heldInterrupt : ∀ {t c l sh data s}, Held t c l sh →
    sys.handler sh.data = some (data, s) →
    Held t c l (Shared.raise { sh with data := data } s)

/-- Nobody is past the first `P`, or one thread is. -/
inductive Guarded (Free : Shared Sem Call Data → Prop)
    (Held : Id → Call → List (Stmt Sem Act) → Shared Sem Call Data → Prop)
    (w : World Id Sem Act Call Data) : Prop
  | free (h : Free w.shared) (hout : ∀ t, sys.Outside w t)
  | held {o : Id} {c : Call} (hcall : w.call o = some c)
      (h : Held o c (w.rest o) w.shared)
      (hout : ∀ t, t ≠ o → sys.Outside w t)

variable {sys}

/-! ## What a step leaves alone -/

section Frame
variable {w : World Id Sem Act Call Data} {t u : Id} {l : List (Stmt Sem Act)}
omit [DecidableEq Sem]

theorem rest_goOn (w : World Id Sem Act Call Data) (t : Id)
    (l : List (Stmt Sem Act)) :
    (w.goOn t l).rest t = l := Function.update_self _ _ _

theorem rest_goOn_of_ne (h : u ≠ t) : (w.goOn t l).rest u = w.rest u :=
  Function.update_of_ne h _ _

theorem call_start (w : World Id Sem Act Call Data) (t : Id) (c : Call)
    (l : List (Stmt Sem Act)) :
    (w.start t c l).call t = some c := Function.update_self _ _ _

theorem call_start_of_ne {c : Call} (h : u ≠ t) :
    (w.start t c l).call u = w.call u := Function.update_of_ne h _ _

end Frame

/-! ## The rule of a monitor -/

namespace Monitor
variable {m : Sem} {Free : Shared Sem Call Data → Prop}
  {Out : Id → Option Call → List (Stmt Sem Act) → Shared Sem Call Data → Prop}
  {Held : Id → Call → List (Stmt Sem Act) → Shared Sem Call Data → Prop}
    {w w' : World Id Sem Act Call Data}

omit [DecidableEq Sem] in
/-- The others are where they were, as far as the calls and the statements
go. -/
theorem keep {t : Id} {l : List (Stmt Sem Act)} {sh : Shared Sem Call Data}
    (h : Keeps Out t w.shared sh) {u : Id} (hu : u ≠ t)
    (hout : Out u (w.call u) (w.rest u) w.shared) :
    Out u (w.call u) (Function.update w.rest t l u) sh := by
  rw [Function.update_of_ne hu]
  exact h u hu _ _ hout

theorem outside_cases (hmon : sys.Monitor m Free Out Held)
    {t : Id} (hout : Out t (w.call t) (w.rest t) w.shared)
    (hexec : sys.exec w t = .ok w') :
    w' = w ∨ (∃ s, w' = w.sleep t s) ∨
      ∃ s l, Out t (w.call t) (.P s :: l) w.shared ∧ w.shared.value s ≠ 0 ∧
      w' = w.pass t s l := by
  cases hrest : w.rest t with
  | nil =>
      rw [exec, hrest] at hexec
      cases hexec
      exact .inl rfl
  | cons a l =>
      rw [hrest] at hout
      obtain ⟨s, rfl⟩ := hmon.waits hout
      rw [exec, hrest] at hexec
      cases hexec
      by_cases hs : w.shared.value s = 0
      · exact .inr (.inl ⟨s, if_pos hs⟩)
      · exact .inr (.inr ⟨s, l, hout, hs, if_neg hs⟩)

omit [DecidableEq Sem] in
theorem keep_all {t : Id} {l : List (Stmt Sem Act)} {sh : Shared Sem Call Data}
    (h : Keeps Out t w.shared sh) (hself : Out t (w.call t) l sh) {u : Id}
    (hout : u ≠ t → Out u (w.call u) (w.rest u) w.shared) :
    Out u (w.call u) (Function.update w.rest t l u) sh := by
  by_cases hu : u = t
  · subst hu
    rw [Function.update_self]
    exact hself
  · exact keep h hu (hout hu)

/-- With nobody inside, a thread takes the lock, or passes another semaphore, or
waits. -/
theorem exec_free (hmon : sys.Monitor m Free Out Held) (hfree : Free w.shared)
    (hall : ∀ u, Out u (w.call u) (w.rest u) w.shared) {t : Id}
    (hexec : sys.exec w t = .ok w') :
    Monitored Free Out Held w' := by
  rcases hmon.outside_cases (hall t) hexec with
    rfl | ⟨s, rfl⟩ | ⟨s, l, hout, hs, rfl⟩
  · exact .free hfree hall
  · exact .free hfree hall
  · by_cases hsm : s = m
    · subst hsm
      obtain ⟨c, hcall, hheld, hkeeps⟩ := hmon.enters hout hfree
      refine .held (o := t) hcall ?_ fun u hu => keep hkeeps hu (hall u)
      have hl : (w.pass t s l).rest t = l := rest_goOn w t l
      rw [hl]
      exact hheld
    · obtain ⟨hself, hkeeps, hfree', -⟩ := hmon.passes hout hsm hs (.inl hfree)
      exact .free (hfree' hfree) fun u => keep_all hkeeps hself fun _ => hall u

/-- With `o` inside, the others wait for the lock, and may pass other
semaphores. -/
theorem exec_outside (hmon : sys.Monitor m Free Out Held) {o : Id}
    {c : Call} (hcall : w.call o = some c) (h : Held o c (w.rest o) w.shared)
    (hall : ∀ u, u ≠ o → Out u (w.call u) (w.rest u) w.shared) {t : Id}
    (ht : t ≠ o) (hexec : sys.exec w t = .ok w') :
    Monitored Free Out Held w' := by
  rcases hmon.outside_cases (hall t ht) hexec with
    rfl | ⟨s, rfl⟩ | ⟨s, l, hout, hs, rfl⟩
  · exact .held hcall h hall
  · exact .held hcall h hall
  · have hsm : s ≠ m := by
      rintro rfl
      exact hs (hmon.zero h)
    obtain ⟨hself, hkeeps, -, hheld⟩ :=
      hmon.passes hout hsm hs (.inr ⟨o, c, _, h⟩)
    refine .held (o := o) hcall ?_ fun u hu =>
      keep_all hkeeps hself fun _ => hall u hu
    have hrest : (w.pass t s l).rest o = w.rest o :=
      rest_goOn_of_ne (Ne.symm ht)
    rw [hrest]
    exact hheld o c _ (Ne.symm ht) h

theorem exec_holder (hmon : sys.Monitor m Free Out Held) {o : Id}
    {c : Call} (hcall : w.call o = some c) (h : Held o c (w.rest o) w.shared)
    (hout : ∀ t, t ≠ o → Out t (w.call t) (w.rest t) w.shared)
    (hexec : sys.exec w o = .ok w') : Monitored Free Out Held w' := by
  cases hrest : w.rest o with
  | nil => exact absurd (hrest ▸ h) hmon.notDone
  | cons a l =>
      rw [hrest] at h
      rw [exec, hrest] at hexec
      cases a with
      | P s =>
          cases hexec
          by_cases hs : w.shared.value s = 0
          · rw [if_pos hs]
            exact .held hcall (hrest.symm ▸ h) hout
          · rw [if_neg hs]
            obtain ⟨hheld, hkeeps⟩ := (hmon.P h).2 hs
            rw [← hcall] at hheld hkeeps
            refine .held (o := o) hcall ?_ fun t ht =>
              keep hkeeps ht (hout t ht)
            have hl : (w.pass o s l).rest o = l := rest_goOn w o l
            rw [hl]
            exact hheld
      | V s =>
          cases hexec
          have hl : ((w.raise s).goOn o l).rest o = l := rest_goOn _ o l
          by_cases hs : s = m
          · subst hs
            obtain ⟨hfree, hself, hkeeps⟩ := hmon.leaves h
            refine .free hfree fun t => ?_
            by_cases ht : t = o
            · subst ht
              rw [hl, ← hcall] at *
              exact hself
            · exact keep hkeeps ht (hout t ht)
          · obtain ⟨hheld, hkeeps⟩ := hmon.V h hs
            refine .held (o := o) hcall ?_ fun t ht =>
              keep hkeeps ht (hout t ht)
            rw [hl]
            exact hheld
      | act a =>
          obtain ⟨⟨data, more⟩, hact, hw'⟩ := Outcome.bind_eq_ok.mp hexec
          cases hw'
          obtain ⟨hheld, hkeeps⟩ := hmon.act h hact
          refine .held (o := o) hcall ?_ fun t ht => keep hkeeps ht (hout t ht)
          rw [rest_goOn]
          exact hheld

/-- Only the holder can fail. -/
theorem error (hmon : sys.Monitor m Free Out Held)
    (h : Monitored Free Out Held w) {t : Id}
    {e : ε} (hexec : sys.exec w t = .error e) : ∃ c a l, w.call t = some c ∧
    w.rest t = .act a :: l ∧
      Held t c (.act a :: l) w.shared ∧
      sys.act t a w.shared.data = .error e := by
  cases hrest : w.rest t with
  | nil =>
      rw [exec, hrest] at hexec
      cases hexec
  | cons a l =>
      have hout : ¬ Out t (w.call t) (w.rest t) w.shared := by
        intro hout
        rw [hrest] at hout
        obtain ⟨s, rfl⟩ := hmon.waits hout
        rw [exec, hrest] at hexec
        cases hexec
      cases h with
      | free _ hall => exact absurd (hall t) hout
      | @held o c hcall hheld hall =>
          obtain rfl : t = o := by
            by_contra ht
            exact hout (hall t ht)
          rw [hrest] at hheld
          rw [exec, hrest] at hexec
          cases a with
          | P s => cases hexec
          | V s => cases hexec
          | act a =>
              refine ⟨c, a, l, hcall, rfl, hheld, ?_⟩
              dsimp only at hexec
              cases hact : sys.act t a w.shared.data with
              | ok r =>
                  rw [hact] at hexec
                  cases hexec
              | error e' =>
                  rw [hact] at hexec
                  cases hexec
                  rfl

theorem exec (hmon : sys.Monitor m Free Out Held)
    (h : Monitored Free Out Held w) {t : Id} (hexec : sys.exec w t = .ok w') :
    Monitored Free Out Held w' := by
  cases h with
  | free hfree hall => exact hmon.exec_free hfree hall hexec
  | @held o c hcall hheld hall =>
      by_cases ht : t = o
      · subst ht
        exact hmon.exec_holder hcall hheld hall hexec
      · exact hmon.exec_outside hcall hheld hall ht hexec

theorem start (hmon : sys.Monitor m Free Out Held)
    (h : Monitored Free Out Held w) {t : Id} (hidle : w.rest t = [])
    (c : Call) : Monitored Free Out Held (w.start t c (sys.program c)) := by
  have hstart : ∀ {u}, Out u (w.call u) (w.rest u) w.shared →
      Out u ((w.start t c (sys.program c)).call u)
          ((w.start t c (sys.program c)).rest u) w.shared := by
    intro u hout
    by_cases hu : u = t
    · subst hu
      have hrest : (w.start u c (sys.program c)).rest u = sys.program c :=
        rest_goOn w u _
      rw [hrest, call_start]
      exact hmon.starts (hidle ▸ hout) c
    · have hrest : (w.start t c (sys.program c)).rest u = w.rest u :=
        rest_goOn_of_ne hu
      rw [hrest, call_start_of_ne hu]
      exact hout
  cases h with
  | free hfree hall => exact .free hfree fun u => hstart (hall u)
  | @held o c' hcall hheld hall =>
      -- the holder has statements left
      have ho : o ≠ t := by
        rintro rfl
        exact hmon.notDone (hidle ▸ hheld)
      have hrest : (w.start t c (sys.program c)).rest o = w.rest o :=
        rest_goOn_of_ne ho
      exact .held ((call_start_of_ne ho).trans hcall) (hrest.symm ▸ hheld)
        fun u hu => hstart (hall u hu)

theorem interrupt (hmon : sys.Monitor m Free Out Held)
    (h : Monitored Free Out Held w) {data : Data} {s : Sem}
    (hdue : sys.handler w.shared.data = some (data, s)) :
    Monitored Free Out Held ((w.setData data).raise s) := by
  cases h with
  | free hfree hall =>
      obtain ⟨hfree', hkeeps⟩ := hmon.freeInterrupt hfree hdue
      exact .free hfree' fun u => hkeeps u _ _ (hall u)
  | @held o c hcall hheld hall =>
      obtain ⟨hheld', hkeeps⟩ := hmon.heldInterrupt hheld hdue
      exact .held hcall hheld' fun u hu => hkeeps u hu _ _ (hall u hu)

theorem monitored (hmon : sys.Monitor m Free Out Held)
    {w₀ : World Id Sem Act Call Data} (h₀ : Monitored Free Out Held w₀)
    (h : sys.Reachable w₀ w) : Monitored Free Out Held w := by
  induction h with
  | init => exact h₀
  | start c _ hidle ih => exact hmon.start ih hidle c
  | exec _ _ hexec ih => exact hmon.exec ih hexec
  | interrupt _ hdue ih => exact hmon.interrupt ih hdue

end Monitor

/-! ## The rule of a lock -/

namespace Lock
variable {m : Sem} {Free : Shared Sem Call Data → Prop}
  {Held : Id → Call → List (Stmt Sem Act) → Shared Sem Call Data → Prop}
    {w : World Id Sem Act Call Data}

omit [DecidableEq Id] in
/-- A lock is a monitor that nobody lets go of on the way. -/
theorem monitor (hlock : sys.Lock m Free Held) :
    sys.Monitor m Free (fun _ c l _ => l = [] ∨ ∃ c', c = some c' ∧
        l = sys.program c') Held where
  starts := fun _ c => .inr ⟨c, rfl, rfl⟩
  waits := by
    rintro t c a l sh (hnil | ⟨c', -, hl⟩)
    · cases hnil
    · obtain ⟨body, hprogram, -⟩ := hlock.enters c'
      rw [hprogram] at hl
      exact ⟨m, (List.cons.inj hl).1⟩
  enters := by
    rintro t c l sh (hnil | ⟨c', rfl, hl⟩) hfree
    · cases hnil
    · obtain ⟨body, hprogram, henter⟩ := hlock.enters c'
      rw [hprogram] at hl
      cases hl
      exact ⟨c', rfl, henter t sh hfree, fun _ _ _ _ hout => hout⟩
  passes := by
    rintro t c s l sh (hnil | ⟨c', -, hl⟩) hs
    · cases hnil
    · obtain ⟨body, hprogram, -⟩ := hlock.enters c'
      rw [hprogram] at hl
      cases hl
      exact absurd rfl hs
  one := hlock.one
  zero := hlock.zero
  notDone := hlock.notDone
  P := fun h =>
    ⟨(hlock.P h).1, fun hv => ⟨(hlock.P h).2 hv, fun _ _ _ _ hout => hout⟩⟩
  V := fun h hs => ⟨hlock.V h hs, fun _ _ _ _ hout => hout⟩
  leaves := fun h => ⟨(hlock.leaves h).2, .inl (hlock.leaves h).1,
    fun _ _ _ _ hout => hout⟩
  act := by
    intro t c a l sh data more h hact
    obtain ⟨data', more', hact', hnext⟩ := hlock.act h
    rw [hact] at hact'
    cases hact'
    exact ⟨hnext, fun _ _ _ _ hout => hout⟩
  freeInterrupt :=
    fun hfree hdue => ⟨hlock.freeInterrupt hfree hdue, fun _ _ _ hout => hout⟩
  heldInterrupt :=
    fun h hdue => ⟨hlock.heldInterrupt h hdue, fun _ _ _ _ hout => hout⟩

omit [DecidableEq Id] [DecidableEq Sem] in
theorem guarded_iff : sys.Guarded Free Held w ↔
    Monitored Free (fun _ c l _ => l = [] ∨ ∃ c', c = some c' ∧
        l = sys.program c') Held w := by
  constructor
  · rintro (⟨hfree, hall⟩ | ⟨hcall, hheld, hall⟩)
    · exact .free hfree hall
    · exact .held hcall hheld hall
  · rintro (⟨hfree, hall⟩ | ⟨hcall, hheld, hall⟩)
    · exact .free hfree hall
    · exact .held hcall hheld hall

theorem exec (hlock : sys.Lock m Free Held)
    (h : sys.Guarded Free Held w) (t : Id) :
    ∃ w', sys.exec w t = .ok w' ∧ sys.Guarded Free Held w' := by
  have hmonitored := guarded_iff.mp h
  cases hexec : sys.exec w t with
  | error e =>
      obtain ⟨c, a, l, -, -, hheld, herror⟩ :=
        hlock.monitor.error hmonitored hexec
      obtain ⟨data, more, hact, -⟩ := hlock.act hheld
      rw [hact] at herror
      cases herror
  | ok w' =>
      exact ⟨w', rfl, guarded_iff.mpr (hlock.monitor.exec hmonitored hexec)⟩

theorem guarded (hlock : sys.Lock m Free Held) {w₀ : World Id Sem Act Call Data}
    (h₀ : sys.Guarded Free Held w₀) (h : sys.Reachable w₀ w) :
    sys.Guarded Free Held w :=
  guarded_iff.mpr (hlock.monitor.monitored (guarded_iff.mp h₀) h)

end Lock

end System

end Threads
