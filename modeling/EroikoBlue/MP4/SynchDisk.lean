/-
# `MP4.SynchDisk` — `filesys/synchdisk.cc` over `machine/disk.cc`, called by many threads

`ReadSector` and `WriteSector` take a lock, make a request of the disk, wait on
the semaphore for the interrupt that says it is done, and let go of the lock.
The statements of a call are those of the source one by one; the transfer of a
request is what `MP4.Disk` says of a single caller, and when the interrupt comes
is left open, so the latency the disk computes is not in the model.

The holder of the lock is alone at the disk:

                           active   interrupts due   semaphore
    before the transfer    false         0               0
    `active` set           true          0               0
    after `Schedule`       true          1               0
    interrupt came         false         0               1

Requests are numbered in the order of their transfers, the interrupts with them,
and every thread remembers the number of its own.  A call gets past its `P` only
after the interrupt of that number, and all of them together have the results of
the same calls one after another on an array of sectors
(`requests_in_lock_order`).
-/
import EroikoBlue.Lib.Threads
import EroikoBlue.MP4.Disk

namespace EroikoBlue.MP4.SynchDisk

open Threads
open Function (update)

/-! ## The statements -/

/-- `lock->semaphore` and `semaphore` of a `SynchDisk`. -/
inductive DiskSem where
  | lock
  | semaphore
  deriving DecidableEq

inductive DiskCall where
  | readSector (sectorNumber : Int)
  | writeSector (sectorNumber : Int) (data : Sector)

namespace DiskCall

def sectorNumber : DiskCall → Int
  | .readSector sectorNumber => sectorNumber
  | .writeSector sectorNumber _ => sectorNumber

def InRange (c : DiskCall) : Prop := 0 ≤ c.sectorNumber ∧
    c.sectorNumber < NumSectors

end DiskCall

/-- A call on a sector that the disk has. -/
abbrev Request := { c : DiskCall // c.InRange }

/-- `lock->lockHolder`, the disk, and what there is to say about its
requests. -/
structure Device (Id : Type) where
  lockHolder : Option Id
  active : Bool
  sectors : Disk
  /-- The requests whose interrupts are scheduled and not yet delivered. -/
  pending : List Nat
  /-- The requests so far and what they read. -/
  served : List (DiskCall × Option Sector)
  /-- Those whose interrupts were delivered. -/
  completed : List Nat
  /-- The request of the call a thread is in, or has come back from. -/
  request : Id → Option Nat

inductive DiskAct where
  /-- `lockHolder = kernel->currentThread`. -/
  | setHolder
  /-- `ASSERT(IsHeldByCurrentThread())`. -/
  | assertHeld
  /-- `lockHolder = NULL`. -/
  | clearHolder
  /-- `ASSERT(!active)`. -/
  | assertIdle
  /-- `ASSERT((sectorNumber >= 0) && (sectorNumber < NumSectors))`, and `Read`
  or `WriteFile`. -/
  | transfer (c : DiskCall)
  /-- `active = TRUE`. -/
  | setActive
  | schedule

abbrev DiskStmt := Stmt DiskSem DiskAct

/-- What a request does to the sectors, and what it reads. -/
def transfer (sectors : Disk) : DiskCall → Except Fault (Disk × Option Sector)
  | .readSector sectorNumber => do
    let data ← MP4.readSector sectors sectorNumber
    pure (sectors, some data)
  | .writeSector sectorNumber data =>
    match MP4.writeSector sectorNumber data sectors with
    | .ok _ sectors => .ok (sectors, none)
    | .error e _ => .error e

namespace Device
variable {Id : Type} [DecidableEq Id]

/-- What each does, run by thread `t`. -/
def act (t : Id) (d : Device Id) : DiskAct → Except Fault (Device Id)
  | .setHolder =>
      pure { d with lockHolder := some t, request := update d.request t none }
  | .assertHeld => do
    assertMsg (d.lockHolder = some t) ""
    pure d
  | .clearHolder => pure { d with lockHolder := none }
  | .assertIdle => do
    assertMsg (d.active = false) ""
    pure d
  | .transfer c => do
    let (sectors, result) ← SynchDisk.transfer d.sectors c
    pure { d with
      sectors := sectors
      served := d.served ++ [(c, result)]
      request := update d.request t (some d.served.length) }
  | .setActive => pure { d with active := true }
  | .schedule => pure { d with pending := d.pending ++ [d.served.length - 1] }

omit [DecidableEq Id] in
/-- `Disk::CallBack`, for an interrupt that is due, up to the `V` of
`SynchDisk::CallBack`. -/
def callBack (d : Device Id) : Option (Device Id × DiskSem) :=
  match d.pending with
  | [] => none
  | n :: pending =>
    some ({ d with active := false, pending := pending, completed := d.completed ++ [n] }, .semaphore)

end Device

/-- `Lock::Acquire`. -/
def acquire : List DiskStmt := [.P .lock, .act .setHolder]

/-- `Lock::Release`. -/
def release : List DiskStmt := [.act .assertHeld, .act .clearHolder, .V .lock]

/-- `Disk::ReadRequest`. -/
def readRequest (sectorNumber : Int) : List DiskStmt :=
  [.act .assertIdle, .act (.transfer (.readSector sectorNumber)),
    .act .setActive, .act .schedule]

/-- `Disk::WriteRequest`. -/
def writeRequest (sectorNumber : Int) (data : Sector) : List DiskStmt :=
  [.act .assertIdle, .act (.transfer (.writeSector sectorNumber data)),
    .act .setActive, .act .schedule]

/-- `SynchDisk::ReadSector`. -/
def readSector (sectorNumber : Int) : List DiskStmt :=
  acquire ++ (readRequest sectorNumber ++ .P .semaphore :: release)

/-- `SynchDisk::WriteSector`. -/
def writeSector (sectorNumber : Int) (data : Sector) : List DiskStmt :=
  acquire ++ (writeRequest sectorNumber data ++ .P .semaphore :: release)

def DiskCall.program : DiskCall → List DiskStmt
  | .readSector sectorNumber => SynchDisk.readSector sectorNumber
  | .writeSector sectorNumber data => SynchDisk.writeSector sectorNumber data

abbrev DiskShared (Id : Type) := Shared DiskSem Request (Device Id)
abbrev DiskWorld (Id : Type) := World Id DiskSem DiskAct Request (Device Id)

section
variable (Id : Type) [DecidableEq Id]

def synchDisk : System Id DiskSem DiskAct Request (Device Id) Fault where
  program := fun c => c.val.program
  act := fun t a d => do
    let d ← d.act t a
    pure (d, [])
  handler := Device.callBack

omit [DecidableEq Id] in
/-- `SynchDisk::SynchDisk`, over a disk that may hold anything. -/
def newSynchDisk (sectors : Disk) : DiskWorld Id :=
  .init (fun | .lock => 1 | .semaphore => 0)
    { lockHolder := none, active := false, sectors := sectors, pending := [],
      served := [], completed := [],
      request := fun _ => none }

end

theorem program_eq (c : DiskCall) :
    c.program = .P .lock :: .act .setHolder :: .act .assertIdle ::
    .act (.transfer c) :: .act .setActive :: .act .schedule :: .P .semaphore ::
      release := by
  cases c with
  | readSector sectorNumber => rfl
  | writeSector sectorNumber data => rfl

/-! ## One call after another -/

/-- `served` is what its calls have for results one after another, starting on
the sectors `d`, and `sectors` is what they leave. -/
inductive Executes (d : Disk) : List (DiskCall × Option Sector) → Disk → Prop
  | nil : Executes d [] d
  | snoc {served : List (DiskCall × Option Sector)} {sectors sectors' : Disk}
      {c : DiskCall}
      {result : Option Sector} (h : Executes d served sectors)
        (hc : transfer sectors c = .ok (sectors', result)) :
      Executes d (served ++ [(c, result)]) sectors'

/-- What a call writes to sector `s`. -/
def DiskCall.writes (s : Int) : DiskCall → Option Sector
  | .readSector _ => none
  | .writeSector sectorNumber data =>
      if sectorNumber = s then some data else none

/-- The data of the last write to `s`, or what was there to begin with. -/
def latest (d : Disk) (calls : List DiskCall) (s : Int) : Sector :=
  (calls.filterMap (·.writes s)).getLast?.getD (d s.toNat)

theorem latest_append (d : Disk) (calls : List DiskCall)
    (c : DiskCall) (s : Int) :
    latest d (calls ++ [c]) s = (c.writes s).getD (latest d calls s) := by
  rw [latest, List.filterMap_append]
  cases hw : c.writes s with
  | none => simp [hw, latest]
  | some data => simp [hw]

theorem transfer_readSector {sectors : Disk} {s : Nat} (h : s < NumSectors) :
    transfer sectors (.readSector s) = .ok (sectors, some (sectors s)) := by
  rw [transfer, readSector_eq h]
  rfl

theorem transfer_writeSector {sectors : Disk} {s : Nat} (h : s < NumSectors)
    (data : Sector) :
    transfer sectors (.writeSector s data) =
      .ok (update sectors s data, none) := by
  rw [transfer, writeSector_eq h]

theorem DiskCall.InRange.exists_nat {c : DiskCall} (h : c.InRange) :
    ∃ s : Nat, c.sectorNumber = s ∧ s < NumSectors := by
  obtain ⟨s, hs⟩ := Int.eq_ofNat_of_zero_le h.1
  refine ⟨s, hs, Int.ofNat_lt.mp ?_⟩
  rw [← hs]
  exact h.2

theorem transfer_of_inRange (sectors : Disk) {c : DiskCall} (h : c.InRange) :
    ∃ sectors' result, transfer sectors c = .ok (sectors', result) := by
  obtain ⟨s, hs, hlt⟩ := h.exists_nat
  cases c with
  | readSector sectorNumber =>
      obtain rfl : sectorNumber = s := hs
      exact ⟨_, _, transfer_readSector hlt⟩
  | writeSector sectorNumber data =>
      obtain rfl : sectorNumber = s := hs
      exact ⟨_, _, transfer_writeSector hlt data⟩

theorem inRange_of_transfer {sectors : Disk} {r : Disk × Option Sector} :
    ∀ {c : DiskCall}, transfer sectors c = .ok r → c.InRange
  | .readSector sectorNumber, h => by
      obtain ⟨data, hread, -⟩ := Outcome.bind_eq_ok.mp h
      obtain ⟨_, hassert, -⟩ := Outcome.bind_eq_ok.mp hread
      have hrange : 0 ≤ sectorNumber ∧ sectorNumber < NumSectors :=
        assertMsg_eq_ok.mp hassert
      exact hrange
  | .writeSector sectorNumber data, h => by
      by_contra hrange
      have herror : assertMsg (0 ≤ sectorNumber ∧
          sectorNumber < NumSectors) "" = .error (.assertFailed "") :=
        assertMsg_neg hrange
      rw [transfer, MP4.writeSector,
        Outcome.bind_of_error (Outcome.lift_of_error herror)] at h
      cases h

/-- The sectors hold what was last written to them. -/
theorem Executes.sectors_eq {d sectors : Disk}
    {served : List (DiskCall × Option Sector)} (h : Executes d served sectors) :
    ∀ s : Nat, sectors s = latest d (served.map Prod.fst) s := by
  induction h with
  | nil => exact fun s => rfl
  | @snoc served sectors sectors' c result _ hc ih =>
      intro s
      obtain ⟨n, hn, hlt⟩ := (inRange_of_transfer hc).exists_nat
      rw [List.map_append, List.map_cons, List.map_nil, latest_append, ← ih]
      cases c with
      | readSector sectorNumber =>
          obtain rfl : sectorNumber = n := hn
          rw [transfer_readSector hlt] at hc
          cases hc
          rfl
      | writeSector sectorNumber data =>
          obtain rfl : sectorNumber = n := hn
          rw [transfer_writeSector hlt] at hc
          cases hc
          by_cases hns : n = s
          · subst hns
            have hw : (DiskCall.writeSector n data).writes n = some data :=
              if_pos rfl
            rw [hw, Function.update_self]
            rfl
          · have hw : (DiskCall.writeSector n data).writes s = none :=
              if_neg fun heq => hns (Int.ofNat_inj.mp heq)
            rw [hw, Function.update_of_ne (Ne.symm hns)]
            rfl

/-- A read has the data of the latest write before it. -/
theorem Executes.read_eq {d sectors : Disk}
    {served : List (DiskCall × Option Sector)}
    (h : Executes d served sectors) {n : Nat} {s : Int} {result : Option Sector}
    (hn : served[n]? = some (.readSector s, result)) :
    result = some (latest d ((served.take n).map Prod.fst) s) := by
  induction h with
  | nil => cases hn
  | @snoc served sectors sectors' c result' hs hc ih =>
      rcases Nat.lt_trichotomy n served.length with hlt | rfl | hgt
      · rw [List.getElem?_append_left hlt] at hn
        rw [List.take_append_of_le_length (Nat.le_of_lt hlt)]
        exact ih hn
      · rw [List.getElem?_concat_length] at hn
        cases hn
        obtain ⟨m, hm, hlt⟩ := (inRange_of_transfer hc).exists_nat
        obtain rfl : s = m := hm
        rw [transfer_readSector hlt] at hc
        cases hc
        rw [List.take_left, ← hs.sectors_eq]
      · have hlength : (served ++ [(c, result')]).length ≤ n := by
          rw [List.length_append]
          exact hgt
        rw [List.getElem?_eq_none hlength] at hn
        cases hn

/-! ## The disk and the holder of the lock -/

section
variable {Id : Type} {t : Id} {c : Request} {d₀ : Disk} {sh : DiskShared Id}

/-- The state of the disk and of `semaphore`. -/
structure State (active : Bool) (pending : List Nat) (semaphore : Nat)
    (sh : DiskShared Id) : Prop where
  active : sh.data.active = active
  pending : sh.data.pending = pending
  semaphore : sh.value .semaphore = semaphore

/-- Nobody has the lock: the calls that had it are served. -/
structure Free (d₀ : Disk) (sh : DiskShared Id) : Prop where
  lock : sh.value .lock = 1
  state : State false [] 0 sh
  passed : (sh.passed .lock).map Subtype.val = sh.data.served.map Prod.fst
  executes : Executes d₀ sh.data.served sh.data.sectors

/-- The call `c` has the lock and is yet to be served. -/
structure Next (d₀ : Disk) (c : Request) (sh : DiskShared Id) : Prop where
  lock : sh.value .lock = 0
  state : State false [] 0 sh
  passed : (sh.passed .lock).map Subtype.val =
    sh.data.served.map Prod.fst ++ [c.val]
  executes : Executes d₀ sh.data.served sh.data.sectors

/-- The call `c` of `t` has the lock and was the last to be served, as number
`n`. -/
structure Served (d₀ : Disk) (t : Id) (c : Request) (n : Nat)
    (sh : DiskShared Id) : Prop where
  lock : sh.value .lock = 0
  passed : (sh.passed .lock).map Subtype.val = sh.data.served.map Prod.fst
  executes : Executes d₀ sh.data.served sh.data.sectors
  request : sh.data.request t = some n
  last : sh.data.served.length = n + 1
  served : ∃ result, sh.data.served[n]? = some (c.val, result)

/-- The call `c` of `t` is served, and its interrupt has been. -/
def Done (t : Id) (c : Request) (d : Device Id) : Prop :=
  ∃ n result, d.request t = some n ∧ n ∈ d.completed ∧
    d.served[n]? = some (c.val, result)

/-- Where the holder of the lock is, and what is so there. -/
inductive Held (d₀ : Disk) (t : Id) (c : Request) : List DiskStmt →
    DiskShared Id → Prop
  | entered {sh : DiskShared Id} (hnext : Next d₀ c sh) :
      Held d₀ t c (.act .setHolder :: .act .assertIdle :: .act
        (.transfer c.val) :: .act .setActive ::
        .act .schedule :: .P .semaphore :: release) sh
  | asserting {sh : DiskShared Id} (hnext : Next d₀ c sh)
      (hh : sh.data.lockHolder = some t) :
      Held d₀ t c (.act .assertIdle :: .act (.transfer c.val) :: .act
        .setActive :: .act .schedule ::
        .P .semaphore :: release) sh
  | transferring {sh : DiskShared Id} (hnext : Next d₀ c sh)
      (hh : sh.data.lockHolder = some t) :
      Held d₀ t c (.act (.transfer c.val) :: .act .setActive :: .act
        .schedule :: .P .semaphore :: release) sh
  | transferred {n : Nat} {sh : DiskShared Id} (hserved : Served d₀ t c n sh)
      (hs : State false [] 0 sh)
      (hh : sh.data.lockHolder = some t) :
      Held d₀ t c
        (.act .setActive :: .act .schedule :: .P .semaphore :: release) sh
  | active {n : Nat} {sh : DiskShared Id} (hserved : Served d₀ t c n sh)
      (hs : State true [] 0 sh)
      (hh : sh.data.lockHolder = some t) :
      Held d₀ t c (.act .schedule :: .P .semaphore :: release) sh
  | waiting {n : Nat} {sh : DiskShared Id} (hserved : Served d₀ t c n sh)
      (hs : State true [n] 0 sh ∨ State false [] 1 sh ∧ n ∈ sh.data.completed)
        (hh : sh.data.lockHolder = some t) :
      Held d₀ t c (.P .semaphore :: release) sh
  | releasing {n : Nat} {sh : DiskShared Id} (hserved : Served d₀ t c n sh)
      (hs : State false [] 0 sh)
      (hdone : n ∈ sh.data.completed) (hh : sh.data.lockHolder = some t) :
      Held d₀ t c [.act .assertHeld, .act .clearHolder, .V .lock] sh
  | clearing {n : Nat} {sh : DiskShared Id} (hserved : Served d₀ t c n sh)
      (hs : State false [] 0 sh)
      (hdone : n ∈ sh.data.completed) : Held d₀ t c [.act .clearHolder,
        .V .lock] sh
  | leaving {n : Nat} {sh : DiskShared Id} (hserved : Served d₀ t c n sh)
      (hs : State false [] 0 sh)
      (hdone : n ∈ sh.data.completed) : Held d₀ t c [.V .lock] sh

/-- Where the other threads are. -/
inductive Out (t : Id) : Option Request → List DiskStmt → DiskShared Id → Prop
  | idle {sh : DiskShared Id} : Out t none [] sh
  | starting {sh : DiskShared Id} (c : Request) :
      Out t (some c) c.val.program sh
  | returned {c : Request} {sh : DiskShared Id} (hdone : Done t c sh.data) :
      Out t (some c) [] sh

/-- What a thread other than `t` sees of a step of `t`. -/
structure Grows (t : Id) (d d' : Device Id) : Prop where
  request : ∀ u, u ≠ t → d'.request u = d.request u
  completed : d.completed ⊆ d'.completed
  served : d.served <+: d'.served

theorem Done.mono {d d' : Device Id}
    (h : Done t c d) (hrequest : d'.request t = d.request t)
    (hcompleted : d.completed ⊆ d'.completed)
    (hserved : d.served <+: d'.served) : Done t c d' := by
  obtain ⟨n, result, hn, hmem, hget⟩ := h
  obtain ⟨more, hmore⟩ := hserved
  refine ⟨n, result, hrequest.trans hn, hcompleted hmem, ?_⟩
  obtain ⟨hlt, -⟩ := List.getElem?_eq_some_iff.mp hget
  rw [← hmore, List.getElem?_append_left hlt]
  exact hget

theorem Out.mono {o : Option Request} {l : List DiskStmt} {sh' : DiskShared Id}
    (h : Out t o l sh) (hrequest : sh'.data.request t = sh.data.request t)
    (hcompleted : sh.data.completed ⊆ sh'.data.completed)
    (hserved : sh.data.served <+: sh'.data.served) : Out t o l sh' := by
  cases h with
  | idle => exact .idle
  | starting c => exact .starting c
  | returned hdone => exact .returned (hdone.mono hrequest hcompleted hserved)

theorem Grows.keeps {sh' : DiskShared Id} (h : Grows t sh.data sh'.data) :
    System.Keeps Out t sh sh' :=
  fun u hu _ _ hout => hout.mono (h.request u hu) h.completed h.served

theorem Grows.refl (t : Id) (d : Device Id) : Grows t d d :=
  ⟨fun _ _ => rfl, fun _ hn => hn, List.prefix_rfl⟩

theorem Served.frame {n : Nat} {sh' : DiskShared Id}
    (h : Served d₀ t c n sh) (hlock : sh'.value .lock = sh.value .lock)
    (hpassed : sh'.passed .lock = sh.passed .lock)
    (hserved : sh'.data.served = sh.data.served)
    (hsectors : sh'.data.sectors = sh.data.sectors)
    (hrequest : sh'.data.request t = sh.data.request t) :
    Served d₀ t c n sh' where
  lock := hlock.trans h.lock
  passed := by
    rw [hpassed, hserved]
    exact h.passed
  executes := by
    rw [hserved, hsectors]
    exact h.executes
  request := hrequest.trans h.request
  last := by
    rw [hserved]
    exact h.last
  served := by
    rw [hserved]
    exact h.served

theorem Served.done {n : Nat} (h : Served d₀ t c n sh)
    (hdone : n ∈ sh.data.completed) : Done t c sh.data := by
  obtain ⟨result, hget⟩ := h.served
  exact ⟨n, result, h.request, hdone, hget⟩

theorem Held.waits_or_done {l : List DiskStmt} (h : Held d₀ t c l sh) :
    .P .semaphore ∈ l ∨ Done t c sh.data := by
  cases h with
  | entered | asserting | transferring | transferred | active | waiting =>
      exact .inl (by simp)
  | releasing hserved _ hdone | clearing hserved _ hdone
  | leaving hserved _ hdone =>
      exact .inr (hserved.done hdone)

theorem Out.waits_or_done {l : List DiskStmt} (h : Out t (some c) l sh) :
    .P .semaphore ∈ l ∨ Done t c sh.data := by
  cases h with
  | starting =>
      rw [program_eq]
      exact .inl (by simp)
  | returned hdone => exact .inr hdone

theorem Held.lock {l : List DiskStmt} (h : Held d₀ t c l sh) :
    sh.value .lock = 0 := by
  cases h with
  | entered hnext | asserting hnext | transferring hnext => exact hnext.lock
  | transferred hserved | active hserved | waiting hserved | releasing hserved
  | clearing hserved
  | leaving hserved => exact hserved.lock

theorem Held.executes {l : List DiskStmt} (h : Held d₀ t c l sh) :
    Executes d₀ sh.data.served sh.data.sectors := by
  cases h with
  | entered hnext | asserting hnext | transferring hnext => exact hnext.executes
  | transferred hserved | active hserved | waiting hserved | releasing hserved
  | clearing hserved
  | leaving hserved => exact hserved.executes

/-- The calls that had the lock are served, except the holder's perhaps. -/
theorem Held.passed {l : List DiskStmt} (h : Held d₀ t c l sh) :
    ∃ rest, rest.length ≤ 1 ∧
    (sh.passed .lock).map Subtype.val =
      sh.data.served.map Prod.fst ++ rest := by
  cases h with
  | entered hnext | asserting hnext | transferring hnext =>
      exact ⟨[c.val], Nat.le_refl 1, hnext.passed⟩
  | transferred hserved | active hserved | waiting hserved | releasing hserved
  | clearing hserved
  | leaving hserved =>
      exact ⟨[], Nat.zero_le 1, by rw [hserved.passed, List.append_nil]⟩

theorem Free.enter (h : Free d₀ sh) :
    Held d₀ t c (.act .setHolder :: .act .assertIdle :: .act
      (.transfer c.val) :: .act .setActive ::
      .act .schedule :: .P .semaphore :: release) (sh.pass .lock (some c)) := by
  refine .entered ⟨?_, ⟨h.state.active, h.state.pending, ?_⟩, ?_, h.executes⟩
  · rw [Shared.value_pass, h.lock]
  · rw [Shared.value_pass_of_ne (by decide)]
    exact h.state.semaphore
  · rw [Shared.passed_pass, List.map_append, h.passed]
    rfl

theorem Held.go {s : DiskSem} {l : List DiskStmt}
    (h : Held d₀ t c (.P s :: l) sh) :
    s ≠ .lock ∧ (sh.value s ≠ 0 → Held d₀ t c l (sh.pass s (some c))) := by
  cases h with
  | waiting hserved hs hh =>
      refine ⟨by decide, fun hv => ?_⟩
      rcases hs with hs | ⟨hs, hdone⟩
      · exact absurd hs.semaphore hv
      · refine .releasing (hserved.frame ?_ ?_ rfl rfl rfl) ⟨hs.active,
          hs.pending, ?_⟩ hdone hh
        · exact Shared.value_pass_of_ne (by decide)
        · exact Shared.passed_pass_of_ne (by decide)
        · rw [Shared.value_pass, hs.semaphore]

theorem Held.leave {l : List DiskStmt} (h : Held d₀ t c (.V .lock :: l) sh) :
    Free d₀ (sh.raise .lock) ∧ Out t (some c) l (sh.raise .lock) := by
  cases h with
  | leaving hserved hs hdone =>
      refine ⟨⟨?_, ⟨hs.active, hs.pending, ?_⟩, hserved.passed,
        hserved.executes⟩, .returned (hserved.done hdone)⟩
      · rw [Shared.value_raise, hserved.lock]
      · rw [Shared.value_raise_of_ne (by decide)]
        exact hs.semaphore

theorem Device.callBack_idle {d : Device Id} (h : d.pending = []) :
    d.callBack = none := by
  rw [callBack, h]

/-- An interrupt is due only while the holder waits for it, and it is that of
its request. -/
theorem Held.interrupt {l : List DiskStmt} {d : Device Id} {s : DiskSem}
    (h : Held d₀ t c l sh) (hdue : sh.data.callBack = some (d, s)) :
    Held d₀ t c l (Shared.raise { sh with data := d } s) ∧
      Grows t sh.data d := by
  have hnone : ∀ {active semaphore}, ¬ State active [] semaphore sh := by
    intro active semaphore hs
    rw [Device.callBack_idle hs.pending] at hdue
    cases hdue
  cases h with
  | entered hnext | asserting hnext | transferring hnext =>
      exact absurd hnext.state hnone
  | transferred _ hs | active _ hs | releasing _ hs | clearing _ hs
  | leaving _ hs => exact absurd hs hnone
  | waiting hserved hs hh =>
      rcases hs with hs | ⟨hs, -⟩
      · rw [Device.callBack, hs.pending] at hdue
        cases hdue
        refine ⟨.waiting (hserved.frame ?_ rfl rfl rfl rfl)
          (.inr ⟨⟨rfl, rfl, ?_⟩, ?_⟩) hh, fun _ _ => rfl, ?_,
          List.prefix_rfl⟩
        · exact Shared.value_raise_of_ne (by decide)
        · rw [Shared.value_raise]
          exact congrArg (· + 1) hs.semaphore
        · exact List.mem_append_right _ (.head _)
        · exact fun _ hn => List.mem_append_left _ hn
      · exact absurd hs hnone

variable [DecidableEq Id]

/-- No assertion fails, and each statement moves the holder to its next
place. -/
theorem Held.act {a : DiskAct} {l : List DiskStmt}
    (h : Held d₀ t c (.act a :: l) sh) :
    ∃ d, sh.data.act t a = .ok d ∧ Held d₀ t c l { sh with data := d } ∧
      Grows t sh.data d := by
  cases h with
  | entered hnext =>
      refine ⟨_, rfl, .asserting ⟨hnext.lock,
        ⟨hnext.state.active, hnext.state.pending, hnext.state.semaphore⟩,
        hnext.passed, hnext.executes⟩ rfl, fun u hu => ?_, fun _ hn =>
          hn, List.prefix_rfl⟩
      exact Function.update_of_ne hu _ _
  | asserting hnext hh =>
      refine ⟨sh.data, ?_, .transferring hnext hh, .refl t _⟩
      rw [Device.act, assertMsg_pos hnext.state.active]
      rfl
  | transferring hnext hh =>
      obtain ⟨sectors, result, htransfer⟩ :=
        transfer_of_inRange sh.data.sectors c.property
      refine ⟨_, Outcome.bind_eq_ok.mpr ⟨_, htransfer, rfl⟩,
        .transferred (n := sh.data.served.length)
        ⟨hnext.lock, ?_, hnext.executes.snoc htransfer,
          Function.update_self _ _ _, List.length_append,
          result, List.getElem?_concat_length⟩
        ⟨hnext.state.active, hnext.state.pending, hnext.state.semaphore⟩ hh,
        fun u hu => ?_, fun _ hn => hn, List.prefix_append _ _⟩
      · show (sh.passed .lock).map Subtype.val =
          (sh.data.served ++ [(c.val, result)]).map Prod.fst
        rw [hnext.passed, List.map_append]
        rfl
      · exact Function.update_of_ne hu _ _
  | transferred hserved hs hh =>
      exact ⟨_, rfl, .active (hserved.frame rfl rfl rfl rfl rfl) ⟨rfl,
        hs.pending, hs.semaphore⟩ hh,
        fun _ _ => rfl, fun _ hn => hn, List.prefix_rfl⟩
  | @active n _ hserved hs hh =>
      have hpending : sh.data.pending ++ [sh.data.served.length - 1] = [n] := by
        rw [hs.pending, hserved.last]
        rfl
      exact ⟨_, rfl, .waiting (hserved.frame rfl rfl rfl rfl rfl)
        (.inl ⟨hs.active, hpending, hs.semaphore⟩) hh,
        fun _ _ => rfl, fun _ hn => hn, List.prefix_rfl⟩
  | releasing hserved hs hdone hh =>
      refine ⟨sh.data, ?_, .clearing hserved hs hdone, .refl t _⟩
      rw [Device.act, assertMsg_pos hh]
      rfl
  | clearing hserved hs hdone =>
      exact ⟨_, rfl, .leaving (hserved.frame rfl rfl rfl rfl rfl) ⟨hs.active,
        hs.pending, hs.semaphore⟩ hdone,
        fun _ _ => rfl, fun _ hn => hn, List.prefix_rfl⟩

end

variable {Id : Type} [DecidableEq Id]

theorem synchDisk_act {t : Id} {a : DiskAct} {d d' : Device Id}
    (h : d.act t a = .ok d') :
    (synchDisk Id).act t a d = .ok (d', []) :=
  Outcome.bind_eq_ok.mpr ⟨d', h, rfl⟩

theorem synchDisk_monitor (d₀ : Disk) :
    (synchDisk Id).Monitor .lock (Free d₀) Out (Held d₀) where
  starts := fun _ c => .starting c
  waits := by
    intro t c a l sh hout
    generalize hl : a :: l = l' at hout
    cases hout with
    | idle | returned => cases hl
    | starting c =>
        rw [program_eq] at hl
        exact ⟨_, (List.cons.inj hl).1⟩
  enters := by
    intro t c l sh hout hfree
    generalize hl : Stmt.P DiskSem.lock :: l = l' at hout
    cases hout with
    | idle | returned => cases hl
    | starting c =>
        rw [program_eq] at hl
        cases hl
        exact ⟨c, rfl, hfree.enter, Grows.keeps (.refl t _)⟩
  passes := by
    intro t c s l sh hout hs
    generalize hl : Stmt.P s :: l = l' at hout
    cases hout with
    | idle | returned => cases hl
    | starting c =>
        rw [program_eq] at hl
        cases hl
        exact absurd rfl hs
  one := Free.lock
  zero := Held.lock
  notDone := nofun
  P := fun h => ⟨h.go.1, fun hv => ⟨h.go.2 hv, Grows.keeps (.refl _ _)⟩⟩
  V := fun h hs => by
    cases h
    exact absurd rfl hs
  leaves := fun h => ⟨h.leave.1, h.leave.2, Grows.keeps (.refl _ _)⟩
  act := by
    intro t c a l sh data more h hact
    obtain ⟨d, hd, hnext, hgrows⟩ := h.act
    rw [synchDisk_act hd] at hact
    cases hact
    exact ⟨hnext, hgrows.keeps⟩
  freeInterrupt := fun h hdue => by
    have hnone := Device.callBack_idle h.state.pending
    cases hnone.symm.trans hdue
  heldInterrupt :=
    fun h hdue => ⟨(h.interrupt hdue).1, (h.interrupt hdue).2.keeps⟩

omit [DecidableEq Id] in
theorem newSynchDisk_free {d₀ : Disk} :
    System.Monitored (Free d₀) Out (Held d₀) (newSynchDisk Id d₀) :=
  .free ⟨rfl, ⟨rfl, rfl, rfl⟩, rfl, .nil⟩ fun _ => .idle

/-! ## Every order of statements and interrupts -/

/-- No assertion fails; a call that is past its wait has had the interrupt of
its own request; the calls that took the lock are served in that order, all of
them or all but the last, and as one after another; and a read has the data of
the latest write before it to that sector. -/
theorem requests_in_lock_order {d₀ : Disk} {w : DiskWorld Id}
    (h : (synchDisk Id).Reachable (newSynchDisk Id d₀) w) :
    (∀ t e, (synchDisk Id).exec w t ≠ .error e) ∧
      (∀ t c, w.call t = some c → .P .semaphore ∈ w.rest t ∨
        Done t c w.shared.data) ∧
      (∃ rest, rest.length ≤ 1 ∧ (w.shared.value .lock ≠ 0 → rest = []) ∧
        (w.shared.passed .lock).map Subtype.val =
          w.shared.data.served.map Prod.fst ++ rest) ∧
      Executes d₀ w.shared.data.served w.shared.data.sectors ∧
      ∀ n s result, w.shared.data.served[n]? = some (.readSector s, result) →
        result =
          some (latest d₀ ((w.shared.data.served.take n).map Prod.fst) s) := by
  have hmonitored := (synchDisk_monitor d₀).monitored newSynchDisk_free h
  refine ⟨fun t e hexec => ?_, fun t c hcall => ?_, ?_⟩
  · obtain ⟨c, a, l, -, -, hheld, herror⟩ :=
      (synchDisk_monitor d₀).error hmonitored hexec
    obtain ⟨d, hd, -⟩ := hheld.act
    rw [synchDisk_act hd] at herror
    cases herror
  · have hout : Out t (w.call t) (w.rest t) w.shared →
        .P .semaphore ∈ w.rest t ∨ Done t c w.shared.data := by
      rw [hcall]
      exact Out.waits_or_done
    cases hmonitored with
    | free _ hall => exact hout (hall t)
    | @held o c' hcall' hheld hall =>
        by_cases ht : t = o
        · subst ht
          rw [hcall] at hcall'
          cases hcall'
          exact hheld.waits_or_done
        · exact hout (hall t ht)
  · cases hmonitored with
    | free hfree _ =>
        refine ⟨⟨[], Nat.zero_le 1, fun _ => rfl, ?_⟩, hfree.executes,
          fun _ _ _ => hfree.executes.read_eq⟩
        rw [hfree.passed, List.append_nil]
    | held _ hheld _ =>
        obtain ⟨rest, hlength, hpassed⟩ := hheld.passed
        exact ⟨⟨rest, hlength, fun hv => absurd hheld.lock hv, hpassed⟩,
          hheld.executes,
          fun _ _ _ => hheld.executes.read_eq⟩

/-- A thread has had the interrupt of its write, while another waits for the
lock to read. -/
theorem requests_in_lock_order_two : ∃ w : DiskWorld Nat,
    w.status 1 = .blocked ∧ w.rest 0 = release ∧ w.shared.data.completed = [0] ∧
      ∃ c, w.call 0 = some c ∧
      (.P .semaphore ∈ w.rest 0 ∨ Done 0 c w.shared.data) := by
  have hlt : 3 < NumSectors := by
    rw [numSectors_eq]
    decide
  have hrange : 0 ≤ (3 : Int) ∧ (3 : Int) < NumSectors :=
    ⟨by decide, Int.ofNat_lt.mpr hlt⟩
  have hready : Status.ready ≠ .blocked := by decide
  have hwoken : Status.woken ≠ .blocked := by decide
  have h₀ : (synchDisk Nat).Reachable
    (newSynchDisk Nat fun _ => .ofBytes []) _ := .init
  have h₁ := h₀.start (t := 0) ⟨.writeSector 3 (.ofBytes [1]), hrange⟩ rfl
  have h₂ := h₁.start (t := 1) ⟨.readSector 3, hrange⟩ rfl
  have h₃ := h₂.exec (t := 0) hready rfl
  have h₄ := h₃.exec (t := 0) hready rfl
  have h₅ := h₄.exec (t := 1) hready rfl
  have h₆ := h₅.exec (t := 0) hready rfl
  have h₇ := h₆.exec (t := 0) hready (Outcome.bind_eq_ok.mpr ⟨_, synchDisk_act
    (Outcome.bind_eq_ok.mpr ⟨_, transfer_writeSector hlt _, rfl⟩), rfl⟩)
  have h₈ := h₇.exec (t := 0) hready rfl
  have h₉ := h₈.exec (t := 0) hready rfl
  have h₁₀ := h₉.exec (t := 0) hready rfl
  have h₁₁ := h₁₀.interrupt rfl
  have h₁₂ := h₁₁.exec (t := 0) hwoken rfl
  exact ⟨_, rfl, rfl, rfl, _, rfl, (requests_in_lock_order h₁₂).2.1 0 _ rfl⟩

end EroikoBlue.MP4.SynchDisk
