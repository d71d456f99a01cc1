/-
# `MP1.Console` — `userprog/synchconsole.cc` over `machine/console.cc`

`PutChar` and `PutInt` hold a lock from the first character to the last, and
after each character they wait on the semaphore `waitFor` for the interrupt that
says it is written.  The statements of a call are those of the source one by
one, with `Semaphore::P` and `Semaphore::V` as the atomic `P` and `V` of
`Lib.Threads`; the scheduler and the clock are any order of statements and
interrupts.

The holder of the lock is alone at the device, so the device and `waitFor` are
in one of four states, and the position of the holder says in which:

                     putBusy   interrupts due   waitFor
    before a write    false          0             0
    `putBusy` set      true          0             0
    after `Schedule`   true          1             0
    interrupt came    false          0             1

Only the last lets the holder go on, so no character is put while the device is
busy and the output of a call is in one piece (`output_in_pieces`).
-/
import EroikoBlue.Debug
import EroikoBlue.Lib.Threads

namespace EroikoBlue.MP1

open Threads

/-! ## The statements -/

/-- `lock->semaphore` and `waitFor` of a `SynchConsoleOutput`. -/
inductive ConsoleSem where
  | lock
  | waitFor
  deriving DecidableEq

/-- `lock->lockHolder`, the device, and what it has written. -/
structure ConsoleOutput (Id : Type) where
  lockHolder : Option Id
  putBusy : Bool
  /-- The interrupts scheduled and not yet delivered. -/
  pending : Nat
  written : List Char

inductive ConsoleAct where
  /-- `lockHolder = kernel->currentThread`. -/
  | setHolder
  /-- `ASSERT(IsHeldByCurrentThread())`. -/
  | assertHeld
  /-- `lockHolder = NULL`. -/
  | clearHolder
  /-- `ASSERT(putBusy == FALSE)`. -/
  | assertIdle
  | writeFile (ch : Char)
  /-- `putBusy = TRUE`. -/
  | setBusy
  | schedule

abbrev ConsoleStmt := Stmt ConsoleSem ConsoleAct

/-- What each does, run by thread `t`. -/
def ConsoleOutput.act {Id : Type} [DecidableEq Id] (t : Id)
    (d : ConsoleOutput Id) :
    ConsoleAct → Except Fault (ConsoleOutput Id)
  | .setHolder => pure { d with lockHolder := some t }
  | .assertHeld => do
    assertMsg (d.lockHolder = some t) ""
    pure d
  | .clearHolder => pure { d with lockHolder := none }
  | .assertIdle => do
    assertMsg (d.putBusy = false) ""
    pure d
  | .writeFile ch => pure { d with written := d.written ++ [ch] }
  | .setBusy => pure { d with putBusy := true }
  | .schedule => pure { d with pending := d.pending + 1 }

/-- `ConsoleOutput::CallBack`, for an interrupt that is due, up to the `V` of
`SynchConsoleOutput::CallBack`. -/
def ConsoleOutput.callBack {Id : Type} (d : ConsoleOutput Id) :
    Option (ConsoleOutput Id × ConsoleSem) :=
  if d.pending = 0 then none
  else some ({ d with pending := d.pending - 1, putBusy := false }, .waitFor)

/-- `Lock::Acquire`. -/
def acquire : List ConsoleStmt := [.P .lock, .act .setHolder]

/-- `Lock::Release`. -/
def release : List ConsoleStmt :=
  [.act .assertHeld, .act .clearHolder, .V .lock]

/-- `ConsoleOutput::PutChar`. -/
def consolePutChar (ch : Char) : List ConsoleStmt :=
  [.act .assertIdle, .act (.writeFile ch), .act .setBusy, .act .schedule]

/-- `SynchConsoleOutput::PutChar`. -/
def putChar (ch : Char) : List ConsoleStmt :=
  acquire ++ (consolePutChar ch ++ .P .waitFor :: release)

/-- `%d`. -/
def decimal (value : Int) : List Char :=
  if value < 0 then '-' :: Nat.toDigits 10 value.natAbs
    else Nat.toDigits 10 value.natAbs

/-- `str` after `sprintf(str, "%d\n\0", value)`, its end marker included. -/
def sprintf (value : BitVec 32) : List Char :=
  decimal value.toInt ++ ['\n', '\x00']

/-- The `do ... while (str[idx] != '\0')` of `PutInt`, with `str` from `idx`
on. -/
def putLoop : List Char → List ConsoleStmt
  | ch :: next :: str =>
    consolePutChar ch ++ .P .waitFor :: (if next ≠ '\x00' then
      putLoop (next :: str) else [])
  | _ => []

/-- `SynchConsoleOutput::PutInt`. -/
def putInt (value : BitVec 32) : List ConsoleStmt :=
  acquire ++ (putLoop (sprintf value) ++ release)

inductive ConsoleCall where
  | putChar (ch : Char)
  | putInt (value : BitVec 32)

namespace ConsoleCall

def program : ConsoleCall → List ConsoleStmt
  | .putChar ch => MP1.putChar ch
  | .putInt value => MP1.putInt value

/-- What a call is to write. -/
def output : ConsoleCall → List Char
  | .putChar ch => [ch]
  | .putInt value => decimal value.toInt ++ ['\n']

end ConsoleCall

abbrev ConsoleShared (Id : Type) :=
  Shared ConsoleSem ConsoleCall (ConsoleOutput Id)
abbrev ConsoleWorld (Id : Type) :=
  World Id ConsoleSem ConsoleAct ConsoleCall (ConsoleOutput Id)

section
variable (Id : Type) [DecidableEq Id]

def console :
    System Id ConsoleSem ConsoleAct ConsoleCall (ConsoleOutput Id) Fault where
  program := ConsoleCall.program
  act := fun t a d => do
    let d ← d.act t a
    pure (d, [])
  handler := ConsoleOutput.callBack

/-- `SynchConsoleOutput::SynchConsoleOutput`. -/
def newConsole : ConsoleWorld Id :=
  .init (fun | .lock => 1 | .waitFor => 0)
    { lockHolder := none, putBusy := false, pending := 0, written := [] }

end

/-! ## The loop of `PutInt` -/

/-- Each character, and the wait for it. -/
def puts (chars : List Char) : List ConsoleStmt :=
  chars.flatMap fun ch => consolePutChar ch ++ [.P .waitFor]

theorem putLoop_eq : ∀ {chars : List Char}, chars ≠ [] → '\x00' ∉ chars →
    putLoop (chars ++ ['\x00']) = puts chars
  | [], hne, _ => absurd rfl hne
  | [ch], _, _ => rfl
  | ch :: next :: chars, _, hnul => by
      have hnext : next ≠ '\x00' := fun heq => hnul (heq ▸ .tail _ (.head _))
      have ih := putLoop_eq (List.cons_ne_nil next chars) fun hmem =>
        hnul (.tail _ hmem)
      rw [List.cons_append, List.cons_append, putLoop, if_pos hnext]
      rw [List.cons_append] at ih
      rw [ih]
      rfl

theorem nul_notMem_decimal (value : Int) : '\x00' ∉ decimal value := by
  have hdigits : ∀ n, '\x00' ∉ Nat.toDigits 10 n := by
    intro n hmem
    have hdigit := Nat.isDigit_of_mem_toDigits (by decide) (by decide) hmem
    exact absurd hdigit (by decide)
  rw [decimal]
  split
  · intro hmem
    rcases List.mem_cons.mp hmem with heq | hmem
    · exact absurd heq (by decide)
    · exact hdigits _ hmem
  · exact hdigits _

theorem program_eq (c : ConsoleCall) :
    c.program = acquire ++ (puts c.output ++ release) := by
  cases c with
  | putChar ch => rfl
  | putInt value =>
      have hnul : '\x00' ∉ decimal value.toInt ++ ['\n'] := by
        intro hmem
        rcases List.mem_append.mp hmem with hmem | hmem
        · exact nul_notMem_decimal _ hmem
        · exact absurd (List.mem_singleton.mp hmem) (by decide)
      have hloop := putLoop_eq
        (List.append_ne_nil_of_right_ne_nil _ (List.cons_ne_nil _ _)) hnul
      rw [List.append_assoc] at hloop
      exact congrArg (fun l => acquire ++ (l ++ release)) hloop

/-! ## The device and the holder of the lock -/

section
variable {Id : Type} {t : Id} {c : ConsoleCall} {done todo : List Char}
  {sh : ConsoleShared Id}

/-- The state of the device and of `waitFor`. -/
structure Device (putBusy : Bool) (pending waitFor : Nat)
    (sh : ConsoleShared Id) : Prop where
  putBusy : sh.data.putBusy = putBusy
  pending : sh.data.pending = pending
  waitFor : sh.value .waitFor = waitFor

/-- Nobody has the lock: the output is that of the calls that had it. -/
structure Free (sh : ConsoleShared Id) : Prop where
  lock : sh.value .lock = 1
  device : Device false 0 0 sh
  written : sh.data.written = (sh.passed .lock).flatMap ConsoleCall.output

/-- The call `c` has the lock and has put `done`; `todo` is left. -/
structure Writing (c : ConsoleCall) (done todo : List Char)
    (sh : ConsoleShared Id) : Prop where
  output : c.output = done ++ todo
  lock : sh.value .lock = 0
  written : ∃ before, sh.passed .lock = before ++ [c] ∧
    sh.data.written = before.flatMap ConsoleCall.output ++ done

/-- Where the holder of the lock is, and what is so there. -/
inductive Held (t : Id) (c : ConsoleCall) : List ConsoleStmt →
    ConsoleShared Id → Prop
  | entered {sh : ConsoleShared Id} (hw : Writing c [] c.output sh)
      (hd : Device false 0 0 sh) :
      Held t c (.act .setHolder :: (puts c.output ++ release)) sh
  | asserting {done todo : List Char} {ch : Char} {sh : ConsoleShared Id}
      (hw : Writing c done (ch :: todo) sh)
      (hd : Device false 0 0 sh) (hh : sh.data.lockHolder = some t) :
      Held t c (.act .assertIdle :: .act (.writeFile ch) :: .act .setBusy ::
        .act .schedule :: .P .waitFor ::
        (puts todo ++ release)) sh
  | writing {done todo : List Char} {ch : Char} {sh : ConsoleShared Id}
      (hw : Writing c done (ch :: todo) sh)
      (hd : Device false 0 0 sh) (hh : sh.data.lockHolder = some t) :
      Held t c (.act (.writeFile ch) :: .act .setBusy :: .act .schedule ::
        .P .waitFor ::
        (puts todo ++ release)) sh
  | written {done todo : List Char} {sh : ConsoleShared Id}
      (hw : Writing c done todo sh)
      (hd : Device false 0 0 sh) (hh : sh.data.lockHolder = some t) :
      Held t c (.act .setBusy :: .act .schedule :: .P .waitFor ::
        (puts todo ++ release)) sh
  | busy {done todo : List Char} {sh : ConsoleShared Id}
      (hw : Writing c done todo sh)
      (hd : Device true 0 0 sh) (hh : sh.data.lockHolder = some t) :
      Held t c (.act .schedule :: .P .waitFor :: (puts todo ++ release)) sh
  | waiting {done todo : List Char} {sh : ConsoleShared Id}
      (hw : Writing c done todo sh)
      (hd : Device true 1 0 sh ∨ Device false 0 1 sh)
        (hh : sh.data.lockHolder = some t) :
      Held t c (.P .waitFor :: (puts todo ++ release)) sh
  | releasing {sh : ConsoleShared Id} (hw : Writing c c.output [] sh)
      (hd : Device false 0 0 sh)
      (hh : sh.data.lockHolder = some t) : Held t c [.act .assertHeld,
        .act .clearHolder, .V .lock] sh
  | clearing {sh : ConsoleShared Id} (hw : Writing c c.output [] sh)
      (hd : Device false 0 0 sh) :
      Held t c [.act .clearHolder, .V .lock] sh
  | leaving {sh : ConsoleShared Id} (hw : Writing c c.output [] sh)
      (hd : Device false 0 0 sh) :
      Held t c [.V .lock] sh

theorem Held.next (hw : Writing c done todo sh) (hd : Device false 0 0 sh)
    (hh : sh.data.lockHolder = some t) :
    Held t c (puts todo ++ release) sh := by
  cases todo with
  | nil =>
      have hdone : c.output = done := by rw [hw.output, List.append_nil]
      exact .releasing (hdone ▸ hw) hd hh
  | cons ch todo => exact .asserting hw hd hh

theorem Held.exists_writing {l : List ConsoleStmt} (h : Held t c l sh) :
    ∃ done todo, Writing c done todo sh := by
  cases h with
  | entered hw | asserting hw | writing hw | written hw | busy hw | waiting hw
  | releasing hw | clearing hw
  | leaving hw => exact ⟨_, _, hw⟩

/-- Only a write and the lock itself change what has been written for whom. -/
theorem Writing.frame {sh' : ConsoleShared Id}
    (h : Writing c done todo sh) (hlock : sh'.value .lock = sh.value .lock)
    (hpassed : sh'.passed .lock = sh.passed .lock)
    (hwritten : sh'.data.written = sh.data.written) :
    Writing c done todo sh' where
  output := h.output
  lock := hlock.trans h.lock
  written := by
    rw [hpassed, hwritten]
    exact h.written

/-- So is the device only changed by its own statements, and by `waitFor`. -/
theorem Device.frame {putBusy : Bool} {pending waitFor : Nat}
    {sh' : ConsoleShared Id} (h : Device putBusy pending waitFor sh)
    (hbusy : sh'.data.putBusy = sh.data.putBusy)
    (hpending : sh'.data.pending = sh.data.pending)
    (hwait : sh'.value .waitFor = sh.value .waitFor) :
    Device putBusy pending waitFor sh' where
  putBusy := hbusy.trans h.putBusy
  pending := hpending.trans h.pending
  waitFor := hwait.trans h.waitFor

theorem Free.enter (h : Free sh) :
    Held t c (.act .setHolder :: (puts c.output ++ release))
      (sh.pass .lock (some c)) := by
  refine .entered ⟨rfl, ?_, sh.passed .lock, Shared.passed_pass,
    ?_⟩ (h.device.frame rfl rfl ?_)
  · rw [Shared.value_pass, h.lock]
  · rw [List.append_nil]
    exact h.written
  · exact Shared.value_pass_of_ne (by decide)

theorem Held.go {s : ConsoleSem} {l : List ConsoleStmt}
    (h : Held t c (.P s :: l) sh) :
    s ≠ .lock ∧ (sh.value s ≠ 0 → Held t c l (sh.pass s (some c))) := by
  cases h with
  | waiting hw hd hh =>
      refine ⟨by decide, fun hv => ?_⟩
      rcases hd with hd | hd
      · exact absurd hd.waitFor hv
      · refine .next (hw.frame ?_ ?_ rfl) ⟨hd.putBusy, hd.pending, ?_⟩ hh
        · exact Shared.value_pass_of_ne (by decide)
        · exact Shared.passed_pass_of_ne (by decide)
        · rw [Shared.value_pass, hd.waitFor]

theorem Held.leave {l : List ConsoleStmt} (h : Held t c (.V .lock :: l) sh) :
    l = [] ∧ Free (sh.raise .lock) := by
  cases h with
  | leaving hw hd =>
      obtain ⟨before, hpassed, hwritten⟩ := hw.written
      refine ⟨rfl, ?_, hd.frame rfl rfl (Shared.value_raise_of_ne (by decide)),
        ?_⟩
      · rw [Shared.value_raise, hw.lock]
      · show sh.data.written = (sh.passed .lock).flatMap _
        rw [hpassed, hwritten, List.flatMap_append, List.flatMap_cons,
          List.flatMap_nil, List.append_nil]

variable [DecidableEq Id]

/-- No assertion fails, and each statement moves the holder to its next
place. -/
theorem Held.act {a : ConsoleAct} {l : List ConsoleStmt}
    (h : Held t c (.act a :: l) sh) :
    ∃ d, sh.data.act t a = .ok d ∧ Held t c l { sh with data := d } := by
  cases h with
  | entered hw hd =>
      exact ⟨_, rfl, .next (hw.frame rfl rfl rfl) (hd.frame rfl rfl rfl) rfl⟩
  | asserting hw hd hh =>
      refine ⟨sh.data, ?_, .writing hw hd hh⟩
      rw [ConsoleOutput.act, assertMsg_pos hd.putBusy]
      rfl
  | @writing done todo ch _ hw hd hh =>
      obtain ⟨before, hpassed, hwritten⟩ := hw.written
      have hput : Writing c (done ++ [ch]) todo
          { sh with data := { sh.data with
              written := sh.data.written ++ [ch] } } := by
        refine ⟨?_, hw.lock, before, hpassed, ?_⟩
        · rw [List.append_assoc]
          exact hw.output
        · show sh.data.written ++ [ch] = _
          rw [hwritten, List.append_assoc]
      exact ⟨_, rfl, .written hput (hd.frame rfl rfl rfl) hh⟩
  | written hw hd hh => exact ⟨_, rfl,
        .busy (hw.frame rfl rfl rfl) ⟨rfl, hd.pending, hd.waitFor⟩ hh⟩
  | busy hw hd hh =>
      have hone : sh.data.pending + 1 = 1 := by rw [hd.pending]
      exact ⟨_, rfl, .waiting (hw.frame rfl rfl rfl)
        (.inl ⟨hd.putBusy, hone, hd.waitFor⟩) hh⟩
  | releasing hw hd hh =>
      refine ⟨sh.data, ?_, .clearing hw hd⟩
      rw [ConsoleOutput.act, assertMsg_pos hh]
      rfl
  | clearing hw hd =>
      exact ⟨_, rfl, .leaving (hw.frame rfl rfl rfl) (hd.frame rfl rfl rfl)⟩

omit [DecidableEq Id]

theorem ConsoleOutput.callBack_idle {d : ConsoleOutput Id} (h : d.pending = 0) :
    d.callBack = none := if_pos h

theorem Held.interrupt {l : List ConsoleStmt}
    {d : ConsoleOutput Id} {s : ConsoleSem}
    (h : Held t c l sh) (hdue : sh.data.callBack = some (d, s)) :
    Held t c l (Shared.raise { sh with data := d } s) := by
  have hnone : ∀ {putBusy waitFor}, ¬ Device putBusy 0 waitFor sh := by
    intro putBusy waitFor hd
    rw [ConsoleOutput.callBack_idle hd.pending] at hdue
    cases hdue
  cases h with
  | entered _ hd | asserting _ hd | writing _ hd | written _ hd | busy _ hd
  | releasing _ hd | clearing _ hd
  | leaving _ hd => exact absurd hd hnone
  | waiting hw hd hh =>
      rcases hd with hd | hd
      · rw [ConsoleOutput.callBack,
          if_neg (by rw [hd.pending]; exact Nat.one_ne_zero)] at hdue
        cases hdue
        refine .waiting (hw.frame ?_ rfl rfl) (.inr ⟨rfl, ?_, ?_⟩) hh
        · exact Shared.value_raise_of_ne (by decide)
        · show sh.data.pending - 1 = 0
          rw [hd.pending]
        · rw [Shared.value_raise]
          exact congrArg (· + 1) hd.waitFor
      · exact absurd hd hnone

end

variable {Id : Type} [DecidableEq Id]

theorem console_lock : (console Id).Lock .lock Free Held where
  enters := fun c => ⟨_, program_eq c, fun _ _ => Free.enter⟩
  one := Free.lock
  zero := fun h => by
    obtain ⟨_, _, hw⟩ := h.exists_writing
    exact hw.lock
  notDone := nofun
  P := Held.go
  V := fun h hs => by
    cases h
    exact absurd rfl hs
  leaves := Held.leave
  act := fun h => by
    obtain ⟨d, hact, hnext⟩ := h.act
    exact ⟨d, [], by simp [console, hact], hnext⟩
  freeInterrupt := fun h hdue => by
    have hnone := ConsoleOutput.callBack_idle h.device.pending
    cases hnone.symm.trans hdue
  heldInterrupt := Held.interrupt

theorem newConsole_free : (console Id).Guarded Free Held (newConsole Id) :=
  .free ⟨rfl, ⟨rfl, rfl, rfl⟩, rfl⟩ fun _ => .inl rfl

/-! ## Every order of statements and interrupts -/

/-- `written` is the outputs of the calls, one after the other, of the last of
them perhaps only the beginning. -/
def InPieces (calls : List ConsoleCall) (written : List Char) : Prop :=
  written = calls.flatMap ConsoleCall.output ∨
    ∃ before last part, calls = before ++ [last] ∧ part <+: last.output ∧
      written = before.flatMap ConsoleCall.output ++ part

/-- No assertion fails, and the device has written the outputs of the calls that
took the lock, in that order and each in one piece; when nobody has the lock,
all of them. -/
theorem output_in_pieces {w : ConsoleWorld Id}
    (h : (console Id).Reachable (newConsole Id) w) :
    (∀ t e, (console Id).exec w t ≠ .error e) ∧
      InPieces (w.shared.passed .lock) w.shared.data.written ∧
      (w.shared.value .lock ≠ 0 →
        w.shared.data.written =
          (w.shared.passed .lock).flatMap ConsoleCall.output) := by
  have hguarded := console_lock.guarded newConsole_free h
  refine ⟨fun t e herror => ?_, ?_⟩
  · obtain ⟨w', hexec, -⟩ := console_lock.exec hguarded t
    rw [herror] at hexec
    cases hexec
  · cases hguarded with
    | free hfree => exact ⟨.inl hfree.written, fun _ => hfree.written⟩
    | @held o c _ hheld =>
        obtain ⟨done, todo, hw⟩ := hheld.exists_writing
        obtain ⟨before, hpassed, hwritten⟩ := hw.written
        have hpart : done <+: c.output :=
          hw.output ▸ List.prefix_append done todo
        exact ⟨.inr ⟨before, c, done, hpassed, hpart, hwritten⟩,
          fun hv => absurd hw.lock hv⟩

/-- One thread has put a character of its number, and another waits for the
lock. -/
theorem output_in_pieces_two : ∃ w : ConsoleWorld Nat,
    w.shared.data.written = ['4'] ∧ w.status 1 = .blocked ∧
      InPieces (w.shared.passed .lock) w.shared.data.written := by
  have h₀ : (console Nat).Reachable (newConsole Nat) (newConsole Nat) := .init
  have h₁ := h₀.start (t := 0) (.putInt 42) rfl
  have h₂ := h₁.start (t := 1) (.putChar 'a') rfl
  have h₃ := h₂.exec (t := 0) (by decide) rfl
  have h₄ := h₃.exec (t := 0) (by decide) rfl
  have h₅ := h₄.exec (t := 0) (by decide) rfl
  have h₆ := h₅.exec (t := 0) (by decide) rfl
  have h₇ := h₆.exec (t := 1) (by decide) rfl
  exact ⟨_, rfl, rfl, (output_in_pieces h₇).2.1⟩

end EroikoBlue.MP1
