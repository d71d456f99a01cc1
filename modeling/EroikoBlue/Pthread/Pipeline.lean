/-
# `Pthread.Pipeline` — the threads of `one_run`

A step is what one thread does up to the end of its next critical section; of
the steps that touch no queue each is one of its own, so that every test of
`get_size` may be out of date when the call after it is made.  Consumers come
and go by the ticks of the controller, or at any moment.

The places of a state are where its items and its threads are.  A step of a
thread moves them by one of a few rules, and keeps what the items will be in the
end.

## Where an item can be

| place | what it will be |
| :-- | :-- |
| a line of the input, the input queue | what producer and consumer make of it |
| the worker queue | what a consumer makes of it |
| the writer queue, the output | itself |

and the same for an item in the hands of a thread.  The multiset of what the
items will be (`finals`) is the invariant: no step changes it, so at the end it
is the output.  It is a multiset because the order is lost between the queues.

`delivers_exactly_once` is about every order of steps, any thresholds, and
consumers that are made and cancelled at any moment.
-/
import Mathlib.Tactic.Abel
import EroikoBlue.Lib.Focus
import EroikoBlue.Lib.Rewriting
import EroikoBlue.Pthread.Controller
import EroikoBlue.Pthread.TSQueue
import EroikoBlue.Pthread.Transformer

namespace EroikoBlue.Pthread

open Transformer
open Rewriting (Step)

/-- Where a producer is in `process`, and the item it has. -/
inductive ProducerPc where
  /-- At the test of `get_size`. -/
  | poll
  | dequeue
  | transform (it : Item)
  | enqueue (it : Item)
  deriving DecidableEq

inductive ConsumerPc where
  /-- At the test of `is_cancel`. -/
  | test
  | disable
  | poll
  | dequeue
  | transform (it : Item)
  | enqueue (it : Item)
  | enable
  | ended
  deriving DecidableEq

structure Consumer where
  pc : ConsumerPc
  isCancel : Bool

structure Pipeline where
  /-- The lines that the reader has still to read. -/
  unread : List Item
  /-- What it has read and not yet enqueued. -/
  reader : Option Item
  inputQueue : TSQueue Item
  workerQueue : TSQueue Item
  writerQueue : TSQueue Item
  producers : List ProducerPc
  /-- All that were ever made, also those that have ended. -/
  consumers : List Consumer
  controller : ConsumerController
  /-- What the writer has still to dequeue. -/
  expectedLines : Nat
  writer : Option Item
  written : List Item

/-- Who goes on. -/
inductive Act where
  | reader
  | producer (i : Nat)
  | consumer (c : ConsumerId)
  /-- A consumer is cancelled where that is enabled. -/
  | canceled (c : ConsumerId)
  | writer
  /-- A tick of the controller. -/
  | handler
  /-- A consumer is made, or `cancel` is called, whatever the thresholds say. -/
  | create
  | cancel (c : ConsumerId)
  deriving DecidableEq

namespace Pipeline

/-- `one_run`, when its threads are made. -/
def oneRun (rQs wkQs wtQs : Nat) (csHTh csLTh csPer : Int) (lines : List Item) :
    Pipeline where
  unread := lines
  reader := none
  inputQueue := .new rQs
  workerQueue := .new wkQs
  writerQueue := .new wtQs
  producers := List.replicate 4 .poll
  consumers := []
  controller := (oneRunController wkQs csHTh csLTh csPer).start
  expectedLines := lines.length
  writer := none
  written := []

/-- `Reader::process`. -/
def readerProcess (p : Pipeline) : Except Stop Pipeline :=
  match p.reader, p.unread with
  | none, [] => .error .blocked
  | none, it :: unread => .ok { p with unread := unread, reader := some it }
  | some it, _ => do
    let q ← p.inputQueue.enqueue it
    .ok { p with inputQueue := q, reader := none }

/-- `Producer::process`, of one of the four. -/
def producerProcess (p : Pipeline) (i : Nat) : Except Stop Pipeline :=
  match p.producers[i]? with
  | none => .error .blocked
  | some .poll =>
    .ok (if p.inputQueue.getSize = 0 then p
      else { p with producers := p.producers.set i .dequeue })
  | some .dequeue => do
    let (it, q) ← p.inputQueue.dequeue
    .ok { p with inputQueue := q, producers := p.producers.set i (.transform it) }
  | some (.transform it) =>
    match producerTransform it.opcode it.val with
    | .ok val => .ok { p with
          producers := p.producers.set i (.enqueue ⟨it.key, val, it.opcode⟩) }
    | .error f => .error (.fault f)
  | some (.enqueue it) => do
    let q ← p.workerQueue.enqueue it
    .ok { p with workerQueue := q, producers := p.producers.set i .poll }

/-- The consumer goes on to another place. -/
def moveConsumer (p : Pipeline) (c : ConsumerId) (k : Consumer)
    (pc : ConsumerPc) : Pipeline :=
  { p with consumers := p.consumers.set c { k with pc := pc } }

/-- `Consumer::process`. -/
def consumerProcess (p : Pipeline) (c : ConsumerId) : Except Stop Pipeline :=
  match p.consumers[c]? with
  | none => .error .blocked
  | some k =>
    match k.pc with
    | .test =>
        .ok (p.moveConsumer c k (if k.isCancel then .ended else .disable))
    | .disable => .ok (p.moveConsumer c k .poll)
    | .poll => .ok (p.moveConsumer c k (if p.workerQueue.getSize = 0 then
          .enable else .dequeue))
    | .dequeue => do
      let (it, q) ← p.workerQueue.dequeue
      .ok { p.moveConsumer c k (.transform it) with workerQueue := q }
    | .transform it =>
      match consumerTransform it.opcode it.val with
      | .ok val => .ok (p.moveConsumer c k (.enqueue ⟨it.key, val, it.opcode⟩))
      | .error f => .error (.fault f)
    | .enqueue it => do
      let q ← p.writerQueue.enqueue it
      .ok { p.moveConsumer c k .enable with writerQueue := q }
    | .enable => .ok (p.moveConsumer c k .test)
    | .ended => .error .blocked

/-- A deferred cancellation, outside of what `PTHREAD_CANCEL_DISABLE`
protects. -/
def canceled (p : Pipeline) (c : ConsumerId) : Except Stop Pipeline :=
  match p.consumers[c]? with
  | none => .error .blocked
  | some k => if k.isCancel ∧ (k.pc = .test ∨ k.pc = .disable) then
        .ok (p.moveConsumer c k .ended) else .error .blocked

/-- `Writer::process`. -/
def writerProcess (p : Pipeline) : Except Stop Pipeline :=
  match p.writer, p.expectedLines with
  | none, 0 => .error .blocked
  | none, expectedLines + 1 => do
    let (it, q) ← p.writerQueue.dequeue
    .ok { p with writerQueue := q, expectedLines := expectedLines, writer := some it }
  | some it, _ => .ok { p with writer := none, written := p.written ++ [it] }

/-- `new Consumer` and `start`. -/
def create (p : Pipeline) : Pipeline :=
  { p with consumers := p.consumers ++ [⟨.test, false⟩] }

/-- `Consumer::cancel`. -/
def cancel (p : Pipeline) (c : ConsumerId) : Pipeline :=
  { p with consumers := p.consumers.modify c fun k =>
    { k with isCancel := true } }

/-- `ConsumerController::handler`. -/
def handler (p : Pipeline) : Pipeline :=
  let wkSz : Int := p.workerQueue.getSize
  let scaled :=
    match p.controller.scaling wkSz, p.controller.consumers.getLast? with
    | .up, _ => p.create
    | .down, some c => p.cancel c
    | _, _ => p
  { scaled with controller := p.controller.handler wkSz p.consumers.length }

def step (p : Pipeline) : Act → Except Stop Pipeline
  | .reader => p.readerProcess
  | .producer i => p.producerProcess i
  | .consumer c => p.consumerProcess c
  | .canceled c => p.canceled c
  | .writer => p.writerProcess
  | .handler => .ok p.handler
  | .create => .ok p.create
  | .cancel c => .ok (p.cancel c)

/-- The states of the runs that make such steps only. -/
inductive Reachable (allowed : Act → Prop) (start : Pipeline) : Pipeline → Prop
  | start : Reachable allowed start start
  | step {p p' : Pipeline} {a : Act} (h : Reachable allowed start p)
      (ha : allowed a) (hstep : p.step a = .ok p') :
      Reachable allowed start p'

end Pipeline

/-! ## Places -/

/-- Where an item is, or a thread. -/
inductive Place where
  | unread (it : Item)
  | reader (it : Item)
  | input (it : Item)
  | producer (pc : ProducerPc)
  | worker (it : Item)
  | consumer (pc : ConsumerPc)
  | output (it : Item)
  /-- The writer expects a line. -/
  | expected
  | writer (it : Item)
  | written (it : Item)

def ProducerPc.finals : ProducerPc → Multiset (Option Item)
  | .transform it => {it.final}
  | .enqueue it => {it.consumed}
  | _ => 0

def ConsumerPc.finals : ConsumerPc → Multiset (Option Item)
  | .transform it => {it.consumed}
  | .enqueue it => {some it}
  | _ => 0

/-- The item that is there, in its final form. -/
def Place.finals : Place → Multiset (Option Item)
  | .unread it => {it.final}
  | .reader it => {it.final}
  | .input it => {it.final}
  | .producer pc => pc.finals
  | .worker it => {it.consumed}
  | .consumer pc => pc.finals
  | .output it => {some it}
  | .expected => 0
  | .writer it => {some it}
  | .written it => {some it}

/-- The lines that the writer has written or has still to write. -/
def Place.lines : Place → Nat
  | .expected => 1
  | .writer _ => 1
  | .written _ => 1
  | _ => 0

inductive Reads : Multiset Place → Multiset Place → Prop
  | read (it : Item) : Reads {.unread it} {.reader it}
  | enqueue (it : Item) : Reads {.reader it} {.input it}

inductive Produces : Multiset Place → Multiset Place → Prop
  | finds : Produces {.producer .poll} {.producer .dequeue}
  | dequeue (it : Item) :
      Produces ({.producer .dequeue} + {.input it}) {.producer (.transform it)}
  | transform {it out : Item} (h : it.produced = some out) :
      Produces {.producer (.transform it)} {.producer (.enqueue out)}
  | enqueue (it : Item) :
      Produces {.producer (.enqueue it)} ({.producer .poll} + {.worker it})

inductive Consumes : Multiset Place → Multiset Place → Prop
  /-- From a place without an item to another. -/
  | turns {pc pc' : ConsumerPc} (h : pc.finals = 0) (h' : pc'.finals = 0) :
      Consumes {.consumer pc} {.consumer pc'}
  | dequeue (it : Item) :
      Consumes ({.consumer .dequeue} + {.worker it}) {.consumer (.transform it)}
  | transform {it out : Item} (h : it.consumed = some out) :
      Consumes {.consumer (.transform it)} {.consumer (.enqueue out)}
  | enqueue (it : Item) :
      Consumes {.consumer (.enqueue it)} ({.consumer .enable} + {.output it})

inductive Writes : Multiset Place → Multiset Place → Prop
  | dequeue (it : Item) : Writes ({.expected} + {.output it}) {.writer it}
  | write (it : Item) : Writes {.writer it} {.written it}

namespace Place

/-- The elements of a list, each in its place. -/
def of {α : Type} (f : α → Place) (l : List α) : Multiset Place :=
  (l.map f : List Place)

section
variable {α : Type} {f : α → Place} {a : α} {l l' : List α}

@[simp] theorem of_nil : of f [] = 0 := rfl

@[simp] theorem of_cons : of f (a :: l) = {f a} + of f l := rfl

@[simp] theorem of_append : of f (l ++ l') = of f l + of f l' :=
  congrArg Multiset.ofList List.map_append

theorem sum_of {M : Type} [AddCommMonoid M] (w : Place → M) :
    ((of f l).map w).sum = (l.map fun a => w (f a)).sum := by
  rw [of, Multiset.map_coe, Multiset.sum_coe, List.map_map]
  rfl

theorem of_set {i : Nat} (h : l[i]? = some a) :
    ∃ others, of f l = {f a} + of f others ∧
      ∀ b, of f (l.set i b) = {f b} + of f others := by
  obtain ⟨l₁, l₂, hl, _, hset⟩ := Focus.around h
  have hfocus : ∀ b, of f (l₁ ++ b :: l₂) = {f b} + of f (l₁ ++ l₂) := by
    intro b
    rw [of_append, of_append, of_cons, add_left_comm]
  refine ⟨l₁ ++ l₂, hl ▸ hfocus a, fun b => ?_⟩
  rw [hset, hfocus]

end

end Place

namespace Pipeline

open Place (of of_nil of_cons of_append of_set)

def places (p : Pipeline) : Multiset Place :=
  of .unread p.unread + of .reader p.reader.toList + of .input
    p.inputQueue.contents + of .producer p.producers +
    of .worker p.workerQueue.contents + of (fun k => .consumer k.pc)
      p.consumers + of .output p.writerQueue.contents +
    of (fun _ => .expected) (List.range p.expectedLines) + of .writer
      p.writer.toList + of .written p.written

/-- All that is not yet read, in a queue, in the hands of a thread, or
written. -/
def finals (p : Pipeline) : Multiset (Option Item) :=
  (p.places.map Place.finals).sum

structure Valid (rQs wkQs wtQs : Nat) (p : Pipeline) : Prop where
  input : p.inputQueue.Valid rQs
  worker : p.workerQueue.Valid wkQs
  writer : p.writerQueue.Valid wtQs

/-- The step is none of a consumer or of the controller. -/
structure SameConsumers (p p' : Pipeline) : Prop where
  consumers : p'.consumers = p.consumers
  controller : p'.controller = p.controller

/-- The step is one of a consumer; it ends only if it has been cancelled. -/
structure MovesConsumer (p : Pipeline) (c : ConsumerId)
    (p' : Pipeline) : Prop where
  consumers : ∃ k pc, p.consumers[c]? = some k ∧
    p'.consumers = p.consumers.set c { k with pc := pc } ∧
    (pc = .ended → k.isCancel = true)
  controller : p'.controller = p.controller

section
variable {rQs wkQs wtQs : Nat} {p p' : Pipeline} {i : Nat} {c : ConsumerId}

theorem readerProcess_spec (h : p.Valid rQs wkQs wtQs)
    (hstep : p.readerProcess = .ok p') :
    p'.Valid rQs wkQs wtQs ∧ Step Reads p.places p'.places ∧
      p.SameConsumers p' := by
  rw [readerProcess] at hstep
  split at hstep
  · cases hstep
  next it unread hreader hunread =>
    cases hstep
    refine ⟨⟨h.input, h.worker, h.writer⟩, ?_, rfl, rfl⟩
    refine .of_eq { p with unread := unread }.places (.read it) ?_ ?_
    · rw [places, places, hunread, of_cons]
      abel
    · rw [places, places, hreader, Option.toList_some, of_cons]
      abel
  next it hreader =>
    obtain ⟨q, hcall, hok⟩ := Outcome.bind_eq_ok.mp hstep
    cases hok
    obtain ⟨hq, hcontents⟩ := h.input.enqueue hcall
    refine ⟨⟨hq, h.worker, h.writer⟩, ?_, rfl, rfl⟩
    refine .of_eq { p with reader := none }.places (.enqueue it) ?_ ?_
    · rw [places, places, hreader, Option.toList_some, of_cons]
      abel
    · rw [places, places, hcontents, of_append, of_cons]
      abel

theorem moveProducer_step {pc pc' : ProducerPc}
    (hpc : p.producers[i]? = some pc)
    (hrule : Produces {.producer pc} {.producer pc'}) :
    Step Produces p.places { p with
        producers := p.producers.set i pc' }.places := by
  obtain ⟨others, hbefore, hafter⟩ := @of_set _ .producer _ _ _ hpc
  refine .of_eq { p with producers := others }.places hrule ?_ ?_
  · rw [places, places, hbefore]
    abel
  · rw [places, places, hafter]
    abel

theorem producerProcess_spec (h : p.Valid rQs wkQs wtQs)
    (hstep : p.producerProcess i = .ok p') :
    p'.Valid rQs wkQs wtQs ∧ p.SameConsumers p' ∧
      (Step Produces p.places p'.places ∨ p' = p ∧
        p.producers[i]? = some .poll ∧ p.inputQueue.getSize = 0) := by
  rw [producerProcess] at hstep
  split at hstep
  · cases hstep
  next hpc =>
    cases hstep
    split
    next hempty => exact ⟨h, ⟨rfl, rfl⟩, .inr ⟨rfl, hpc, hempty⟩⟩
    · exact ⟨⟨h.input, h.worker, h.writer⟩, ⟨rfl, rfl⟩,
        .inl (moveProducer_step hpc .finds)⟩
  next hpc =>
    obtain ⟨⟨it, q⟩, hcall, hok⟩ := Outcome.bind_eq_ok.mp hstep
    cases hok
    obtain ⟨hq, hcontents⟩ := h.input.dequeue hcall
    obtain ⟨others, hbefore, hafter⟩ := @of_set _ .producer _ _ _ hpc
    refine ⟨⟨hq, h.worker, h.writer⟩, ⟨rfl, rfl⟩, .inl ?_⟩
    refine .of_eq { p with producers := others, inputQueue := q }.places (.dequeue it) ?_ ?_
    · rw [places, places, hbefore, hcontents, of_cons]
      abel
    · rw [places, places, hafter]
      abel
  next it hpc =>
    split at hstep
    next val hval =>
      cases hstep
      have hproduced := Item.produced_of_ok hval
      exact ⟨⟨h.input, h.worker, h.writer⟩, ⟨rfl, rfl⟩,
        .inl (moveProducer_step hpc (.transform hproduced))⟩
    · cases hstep
  next it hpc =>
    obtain ⟨q, hcall, hok⟩ := Outcome.bind_eq_ok.mp hstep
    cases hok
    obtain ⟨hq, hcontents⟩ := h.worker.enqueue hcall
    obtain ⟨others, hbefore, hafter⟩ := @of_set _ .producer _ _ _ hpc
    refine ⟨⟨h.input, hq, h.writer⟩, ⟨rfl, rfl⟩, .inl ?_⟩
    refine .of_eq { p with producers := others }.places (.enqueue it) ?_ ?_
    · rw [places, places, hbefore]
      abel
    · rw [places, places, hafter, hcontents, of_append, of_cons]
      abel

theorem moveConsumer_spec {k : Consumer} {pc : ConsumerPc}
    (h : p.Valid rQs wkQs wtQs) (hk : p.consumers[c]? = some k)
    (hrule : Consumes {.consumer k.pc} {.consumer pc})
    (hends : pc = .ended → k.isCancel = true) :
    (p.moveConsumer c k pc).Valid rQs wkQs wtQs ∧
      Step Consumes p.places (p.moveConsumer c k pc).places ∧
      p.MovesConsumer c (p.moveConsumer c k pc) := by
  obtain ⟨others, hthis, hset⟩ := @of_set _ (fun k => .consumer k.pc) _ _ _ hk
  refine ⟨⟨h.input, h.worker, h.writer⟩, ?_, ⟨k, pc, hk, rfl, hends⟩, rfl⟩
  refine .of_eq { p with consumers := others }.places hrule ?_ ?_
  · rw [places, places, hthis]
    abel
  · rw [places, places, moveConsumer, hset]
    abel

theorem consumerProcess_spec (h : p.Valid rQs wkQs wtQs)
    (hstep : p.consumerProcess c = .ok p') :
    p'.Valid rQs wkQs wtQs ∧ Step Consumes p.places p'.places ∧
      p.MovesConsumer c p' := by
  rw [consumerProcess] at hstep
  split at hstep
  · cases hstep
  next k hk =>
    obtain ⟨others, hthis, hset⟩ := @of_set _ (fun k => .consumer k.pc) _ _ _ hk
    split at hstep
    next hpc =>
      cases hstep
      refine moveConsumer_spec h hk (.turns (hpc ▸ rfl) ?_) ?_
      · split
        · rfl
        · rfl
      · intro hended
        by_contra hnot
        rw [if_neg hnot] at hended
        cases hended
    next hpc =>
      cases hstep
      exact moveConsumer_spec h hk (.turns (hpc ▸ rfl) rfl) nofun
    next hpc =>
      cases hstep
      refine moveConsumer_spec h hk (.turns (hpc ▸ rfl) ?_) ?_
      · split
        · rfl
        · rfl
      · intro hended
        split at hended
        · cases hended
        · cases hended
    next hpc =>
      obtain ⟨⟨it, q⟩, hcall, hok⟩ := Outcome.bind_eq_ok.mp hstep
      cases hok
      obtain ⟨hq, hcontents⟩ := h.worker.dequeue hcall
      refine ⟨⟨h.input, hq, h.writer⟩, ?_, ⟨k, _, hk, rfl, nofun⟩, rfl⟩
      refine .of_eq { p with consumers := others, workerQueue := q }.places
        (.dequeue it) ?_ ?_
      · rw [places, places, hthis, hcontents, of_cons, hpc]
        abel
      · rw [places, places, moveConsumer, hset]
        abel
    next it hpc =>
      split at hstep
      next val hval =>
        cases hstep
        exact moveConsumer_spec h hk
          (hpc ▸ .transform (Item.consumed_of_ok hval)) nofun
      · cases hstep
    next it hpc =>
      obtain ⟨q, hcall, hok⟩ := Outcome.bind_eq_ok.mp hstep
      cases hok
      obtain ⟨hq, hcontents⟩ := h.writer.enqueue hcall
      refine ⟨⟨h.input, h.worker, hq⟩, ?_, ⟨k, _, hk, rfl, nofun⟩, rfl⟩
      refine .of_eq { p with consumers := others }.places (.enqueue it) ?_ ?_
      · rw [places, places, hthis, hpc]
        abel
      · rw [places, places, moveConsumer, hset, hcontents, of_append, of_cons]
        abel
    next hpc =>
      cases hstep
      exact moveConsumer_spec h hk (.turns (hpc ▸ rfl) rfl) nofun
    · cases hstep

theorem canceled_spec (h : p.Valid rQs wkQs wtQs)
    (hstep : p.canceled c = .ok p') :
    p'.Valid rQs wkQs wtQs ∧ Step Consumes p.places p'.places ∧
      p.MovesConsumer c p' := by
  rw [canceled] at hstep
  split at hstep
  · cases hstep
  next k hk =>
    split at hstep
    next hcancel =>
      cases hstep
      refine moveConsumer_spec h hk (.turns ?_ rfl) fun _ => hcancel.1
      rcases hcancel.2 with hpc | hpc
      · rw [hpc]
        rfl
      · rw [hpc]
        rfl
    · cases hstep

theorem writerProcess_spec (h : p.Valid rQs wkQs wtQs)
    (hstep : p.writerProcess = .ok p') :
    p'.Valid rQs wkQs wtQs ∧ Step Writes p.places p'.places ∧ p.SameConsumers p' := by
  rw [writerProcess] at hstep
  split at hstep
  · cases hstep
  next expectedLines hwriter hexpected =>
    obtain ⟨⟨it, q⟩, hcall, hok⟩ := Outcome.bind_eq_ok.mp hstep
    cases hok
    obtain ⟨hq, hcontents⟩ := h.writer.dequeue hcall
    refine ⟨⟨h.input, h.worker, hq⟩, ?_, rfl, rfl⟩
    refine .of_eq { p with writerQueue := q, expectedLines := expectedLines, writer := none }.places
      (.dequeue it) ?_ ?_
    · rw [places, places, hwriter, hexpected, hcontents, of_cons,
        List.range_succ, of_append, of_cons]
      abel
    · rw [places, places, Option.toList_some, of_cons]
      abel
  next it hwriter =>
    cases hstep
    refine ⟨⟨h.input, h.worker, h.writer⟩, ?_, rfl, rfl⟩
    refine .of_eq { p with writer := none }.places (.write it) ?_ ?_
    · rw [places, places, hwriter, Option.toList_some, of_cons]
      abel
    · rw [places, places, of_append, of_cons]
      abel

theorem create_places : p.create.places = {.consumer .test} + p.places := by
  rw [places, places, create, of_append, of_cons]
  abel

theorem cancel_places : (p.cancel c).places = p.places := by
  have hpcs := @Focus.map_modify Consumer Place (fun k => .consumer k.pc)
    (fun k => { k with isCancel := true })
    (fun _ => rfl) p.consumers c
  have hof : of (fun k => .consumer k.pc) (p.cancel c).consumers =
      of (fun k => .consumer k.pc) p.consumers :=
    congrArg Multiset.ofList hpcs
  rw [places, places, hof]
  rfl

theorem handler_places : p.handler.places = p.places ∨
    p.handler.places = {.consumer .test} + p.places := by
  rw [handler]
  split
  · exact .inr create_places
  · exact .inl cancel_places
  · exact .inl rfl

theorem handler_valid (h : p.Valid rQs wkQs wtQs) :
    p.handler.Valid rQs wkQs wtQs := by
  rw [handler]
  split
  · exact ⟨h.input, h.worker, h.writer⟩
  · exact ⟨h.input, h.worker, h.writer⟩
  · exact ⟨h.input, h.worker, h.writer⟩

end

/-! ## What the steps keep -/

/-- A sum over the places. -/
def total {M : Type} [AddCommMonoid M] (w : Place → M) (p : Pipeline) : M :=
  (p.places.map w).sum

/-- No rule changes the sum, and a consumer that is made adds nothing to it. -/
structure Keeps {M : Type} [AddCommMonoid M] (w : Place → M) : Prop where
  read : ∀ it, w (.unread it) = w (.reader it)
  input : ∀ it, w (.reader it) = w (.input it)
  finds : w (.producer .poll) = w (.producer .dequeue)
  produces : ∀ it, w (.producer .dequeue) + w (.input it) =
    w (.producer (.transform it))
  produced : ∀ {it out : Item}, it.produced = some out →
    w (.producer (.transform it)) = w (.producer (.enqueue out))
  worker : ∀ it, w (.producer (.enqueue it)) =
    w (.producer .poll) + w (.worker it)
  created : w (.consumer .test) = 0
  turns : ∀ {pc pc' : ConsumerPc}, pc.finals = 0 → pc'.finals = 0 →
    w (.consumer pc) = w (.consumer pc')
  consumes : ∀ it, w (.consumer .dequeue) + w (.worker it) =
    w (.consumer (.transform it))
  consumed : ∀ {it out : Item}, it.consumed = some out →
    w (.consumer (.transform it)) = w (.consumer (.enqueue out))
  output : ∀ it, w (.consumer (.enqueue it)) =
    w (.consumer .enable) + w (.output it)
  expects : ∀ it, w .expected + w (.output it) = w (.writer it)
  writes : ∀ it, w (.writer it) = w (.written it)

section
variable {M : Type} [AddCommMonoid M] {w : Place → M} {rQs wkQs wtQs : Nat}
  {p p' : Pipeline} {a : Act}

theorem Keeps.of_reads (hw : Keeps w) {before after : Multiset Place}
    (h : Reads before after) :
    (before.map w).sum = (after.map w).sum := by
  cases h with
  | read it => simpa using hw.read it
  | enqueue it => simpa using hw.input it

theorem Keeps.of_produces (hw : Keeps w) {before after : Multiset Place}
    (h : Produces before after) :
    (before.map w).sum = (after.map w).sum := by
  cases h with
  | finds => simpa using hw.finds
  | dequeue it => simpa using hw.produces it
  | transform h => simpa using hw.produced h
  | enqueue it => simpa using hw.worker it

theorem Keeps.of_consumes (hw : Keeps w) {before after : Multiset Place}
    (h : Consumes before after) :
    (before.map w).sum = (after.map w).sum := by
  cases h with
  | turns h h' => simpa using hw.turns h h'
  | dequeue it => simpa using hw.consumes it
  | transform h => simpa using hw.consumed h
  | enqueue it => simpa using hw.output it

theorem Keeps.of_writes (hw : Keeps w) {before after : Multiset Place}
    (h : Writes before after) :
    (before.map w).sum = (after.map w).sum := by
  cases h with
  | dequeue it => simpa using hw.expects it
  | write it => simpa using hw.writes it

/-- What makes a consumer adds nothing to a sum in which a new one counts for
nothing. -/
theorem create_total (hw : w (.consumer .test) = 0) :
    p.create.total w = p.total w := by
  rw [total, create_places, Multiset.map_add, Multiset.sum_add,
    Multiset.map_singleton, Multiset.sum_singleton, hw,
    zero_add]
  rfl

theorem handler_total (hw : w (.consumer .test) = 0) :
    p.handler.total w = p.total w := by
  rcases handler_places with hplaces | hplaces
  · rw [total, hplaces]
    rfl
  · rw [total, hplaces, ← create_places]
    exact create_total hw

theorem Keeps.step (hw : Keeps w) (h : p.Valid rQs wkQs wtQs)
    (hstep : p.step a = .ok p') :
    p'.Valid rQs wkQs wtQs ∧ p'.total w = p.total w := by
  cases a with
  | reader =>
      obtain ⟨hvalid, hreads, _⟩ := readerProcess_spec h hstep
      exact ⟨hvalid, (hreads.sum_eq w hw.of_reads).symm⟩
  | producer i =>
      obtain ⟨hvalid, _, hproduces | ⟨rfl, _⟩⟩ := producerProcess_spec h hstep
      · exact ⟨hvalid, (hproduces.sum_eq w hw.of_produces).symm⟩
      · exact ⟨hvalid, rfl⟩
  | consumer c =>
      obtain ⟨hvalid, hconsumes, _⟩ := consumerProcess_spec h hstep
      exact ⟨hvalid, (hconsumes.sum_eq w hw.of_consumes).symm⟩
  | canceled c =>
      obtain ⟨hvalid, hconsumes, _⟩ := canceled_spec h hstep
      exact ⟨hvalid, (hconsumes.sum_eq w hw.of_consumes).symm⟩
  | writer =>
      obtain ⟨hvalid, hwrites, _⟩ := writerProcess_spec h hstep
      exact ⟨hvalid, (hwrites.sum_eq w hw.of_writes).symm⟩
  | handler =>
      cases hstep
      exact ⟨handler_valid h, handler_total hw.created⟩
  | create =>
      cases hstep
      exact ⟨⟨h.input, h.worker, h.writer⟩, create_total hw.created⟩
  | cancel c =>
      cases hstep
      refine ⟨⟨h.input, h.worker, h.writer⟩, ?_⟩
      rw [total, cancel_places]
      rfl

end

theorem keeps_finals : Keeps Place.finals where
  read _ := rfl
  input _ := rfl
  finds := rfl
  produces _ := rfl
  produced h := Multiset.singleton_inj.mpr (Item.final_of_produced h)
  worker _ := rfl
  created := rfl
  turns h h' := h.trans h'.symm
  consumes _ := rfl
  consumed h := Multiset.singleton_inj.mpr h
  output _ := rfl
  expects _ := rfl
  writes _ := rfl

theorem keeps_lines : Keeps Place.lines where
  read _ := rfl
  input _ := rfl
  finds := rfl
  produces _ := rfl
  produced _ := rfl
  worker _ := rfl
  created := rfl
  turns _ _ := rfl
  consumes _ := rfl
  consumed _ := rfl
  output _ := rfl
  expects _ := rfl
  writes _ := rfl

/-! ## The items of a run -/

section
variable {rQs wkQs wtQs : Nat} {p : Pipeline} {allowed : Act → Prop}
  {start : Pipeline}

theorem Reachable.keeps {M : Type} [AddCommMonoid M]
    {w : Place → M} (hw : Keeps w) (hstart : start.Valid rQs wkQs wtQs)
    (h : Reachable allowed start p) :
    p.Valid rQs wkQs wtQs ∧ p.total w = start.total w := by
  induction h with
  | start => exact ⟨hstart, rfl⟩
  | step _ _ hstep ih =>
      obtain ⟨hvalid, htotal⟩ := hw.step ih.1 hstep
      exact ⟨hvalid, htotal.trans ih.2⟩

theorem sum_singletons {α β : Type} (g : α → β) :
    ∀ l : List α, (l.map fun a => ({g a} : Multiset β)).sum = (l.map g : List β)
  | [] => rfl
  | a :: l => by
      rw [List.map_cons, List.sum_cons, sum_singletons g l]
      rfl

theorem finals_eq : p.finals = { p with
      written := [] }.finals + (p.written.map some : List (Option Item)) := by
  have hplaces : p.places =
      { p with written := [] }.places + of .written p.written := by
    rw [places, places, of_nil, add_zero]
  have hwritten := sum_singletons (some : Item → Option Item) p.written
  rw [finals, hplaces, Multiset.map_add, Multiset.sum_add, Place.sum_of]
  exact congrArg _ hwritten

theorem lines_eq : p.total Place.lines =
    p.expectedLines + p.writer.toList.length + p.written.length := by
  simp [total, places, Place.sum_of, Place.lines]

theorem oneRun_valid (hr : 1 ≤ rQs) (hwk : 1 ≤ wkQs) (hwt : 1 ≤ wtQs)
    (csHTh csLTh csPer : Int) (lines : List Item) :
    (oneRun rQs wkQs wtQs csHTh csLTh csPer lines).Valid rQs wkQs wtQs :=
  ⟨TSQueue.valid_new hr, TSQueue.valid_new hwk, TSQueue.valid_new hwt⟩

theorem oneRun_lines {csHTh csLTh csPer : Int} {lines : List Item} :
    (oneRun rQs wkQs wtQs csHTh csLTh csPer lines).total Place.lines =
      lines.length := lines_eq

theorem oneRun_finals {csHTh csLTh csPer : Int} {lines : List Item} :
    (oneRun rQs wkQs wtQs csHTh csLTh csPer lines).finals =
      (lines.map Item.final : List (Option Item)) := by
  rw [← sum_singletons]
  simp [finals, places, Place.sum_of, oneRun, Place.finals, ProducerPc.finals,
    TSQueue.contents, TSQueue.new]

/-- Once the writer has ended nothing is left elsewhere. -/
theorem written_of_ended {lines : List Item}
    (hfinals : p.finals = (lines.map Item.final : List (Option Item)))
    (hlines : p.total Place.lines = lines.length)
    (hexpected : p.expectedLines = 0) (hwriter : p.writer = none) :
    (p.written.map some).Perm (lines.map Item.final) := by
  rw [lines_eq, hexpected, hwriter] at hlines
  rw [finals_eq] at hfinals
  have hcard := congrArg Multiset.card hfinals
  rw [Multiset.card_add, Multiset.coe_card, Multiset.coe_card, List.length_map,
    List.length_map, ← hlines] at hcard
  have hnone : { p with written := [] }.finals = 0 :=
    Multiset.card_eq_zero.mp (by simpa using hcard)
  rw [hnone, zero_add] at hfinals
  exact Multiset.coe_eq_coe.mp hfinals

theorem delivers_exactly_once (hr : 1 ≤ rQs) (hwk : 1 ≤ wkQs) (hwt : 1 ≤ wtQs)
    (csHTh csLTh csPer : Int) (lines : List Item) (h : Reachable (fun _ => True)
      (oneRun rQs wkQs wtQs csHTh csLTh csPer lines) p) :
    p.finals = (lines.map Item.final : List (Option Item)) ∧
      (p.expectedLines = 0 → p.writer = none →
          (p.written.map some).Perm (lines.map Item.final)) := by
  have hstart := oneRun_valid hr hwk hwt csHTh csLTh csPer lines
  have hfinals : p.finals = (lines.map Item.final : List (Option Item)) :=
    (h.keeps keeps_finals hstart).2.trans oneRun_finals
  have hlines := (h.keeps keeps_lines hstart).2.trans oneRun_lines
  exact ⟨hfinals, written_of_ended hfinals hlines⟩

/-- One line of the input has reached the input queue, and a consumer was made
and cancelled. -/
def oneLineRead : Pipeline :=
  { oneRun 1 1 1 80 20 1000000 [⟨1, 5, 'A'⟩] with
    unread := []
    inputQueue := (TSQueue.new 1).put ⟨1, 5, 'A'⟩
    consumers := [⟨.disable, true⟩] }

theorem reachable_oneLineRead :
    Reachable (fun _ => True) (oneRun 1 1 1 80 20 1000000 [⟨1, 5, 'A'⟩])
      oneLineRead := by
  have hstart :=
    @Reachable.start (fun _ => True) (oneRun 1 1 1 80 20 1000000 [⟨1, 5, 'A'⟩])
  have hread :=
    ((hstart.step (a := .reader) trivial rfl).step (a := .create) trivial rfl)
  have hmade := (hread.step (a := .consumer 0) trivial rfl).step
    (a := .cancel 0) trivial rfl
  exact hmade.step (a := .reader) trivial rfl

theorem delivers_exactly_once_oneLineRead :
    oneLineRead.finals = ([⟨1, 5, 'A'⟩].map Item.final : List (Option Item)) ∧
      (oneLineRead.expectedLines = 0 → oneLineRead.writer = none →
        (oneLineRead.written.map some).Perm ([⟨1, 5, 'A'⟩].map Item.final)) :=
  delivers_exactly_once (Nat.le_refl 1) (Nat.le_refl 1) (Nat.le_refl 1) 80 20
    1000000 _ reachable_oneLineRead

end

end Pipeline

end EroikoBlue.Pthread
