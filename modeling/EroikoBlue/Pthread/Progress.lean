/-
# `Pthread.Progress` — whether a run of `one_run` goes on

No consumer is made at the start, so the first one is made by a tick that sees
more items in the worker queue than the threshold.  `never_stuck_iff`: the runs
on inputs of one length never get stuck if and only if that length and the
capacity of the worker queue are both above the threshold.

If they are, a state from which nothing moves is emptied from the end: the
writer has nothing, so the consumers have nothing, and so on up to the reader,
and the worker queue holds what is missing.  If they are not, the run without a
tick ends in such a state, since the work left for the reader and the producers
decreases.

## Stuck, not blocked

A consumer that finds nothing goes round its loop for ever, so that some thread
can take a step is true of every state and says little.  A state goes on
(`Progress`) when some thread can take a step that is not such an empty round
(`EmptyPoll`), or when the next tick changes the consumers.

The threshold is the percentage as `one_run` computes it (`percent`).  When the
product overflows it may be negative, and then the first tick makes a consumer
whatever the queue holds.
-/
import Mathlib.Data.Multiset.Bind
import EroikoBlue.Pthread.Pipeline

namespace EroikoBlue.Pthread

open Transformer
open Rewriting (Step)

/-- A step that the program itself makes, or the signal. -/
def Act.OfProgram : Act → Prop
  | .create => False
  | .cancel _ => False
  | _ => True

/-- A step of a thread. -/
def Act.OfThread : Act → Prop
  | .handler => False
  | .create => False
  | .cancel _ => False
  | _ => True

theorem Act.OfThread.ofProgram {a : Act} (h : a.OfThread) : a.OfProgram := by
  cases a with
  | create => exact h
  | cancel c => exact h
  | _ => trivial

/-- The consumer is somewhere in its loop without an item, and not yet in
`dequeue`. -/
def ConsumerPc.Polls : ConsumerPc → Prop
  | .test => True
  | .disable => True
  | .poll => True
  | .enable => True
  | _ => False

theorem ConsumerPc.Polls.finals {pc : ConsumerPc} (h : pc.Polls) :
    pc.finals = 0 := by
  cases pc with
  | transform it => exact h.elim
  | enqueue it => exact h.elim
  | _ => rfl

/-- What is written, or on its way to the writer. -/
def Place.past : Place → Nat
  | .output _ => 1
  | .writer _ => 1
  | .written _ => 1
  | _ => 0

def Place.producers : Place → Nat
  | .producer _ => 1
  | _ => 0

/-- What the reader and the producers have still to do. -/
def Place.work : Place → Nat
  | .unread _ => 6
  | .reader _ => 5
  | .input _ => 4
  | .producer .poll => 1
  | .producer .dequeue => 0
  | .producer (.transform _) => 3
  | .producer (.enqueue _) => 2
  | _ => 0

namespace Pipeline

/-- A round of a loop that comes to nothing: its queue is empty, or its thread
is about to end. -/
def EmptyPoll (p : Pipeline) : Act → Prop
  | .producer i => p.producers[i]? = some .poll ∧ p.inputQueue.getSize = 0
  | .consumer c => ∃ k, p.consumers[c]? = some k ∧ k.pc.Polls ∧
        (k.isCancel = true ∨ p.workerQueue.getSize = 0)
  | .canceled _ => True
  | _ => False

/-- A thread can go on, or the next tick changes the consumers. -/
def Progress (p : Pipeline) : Prop :=
  (∃ a : Act, a.OfThread ∧ ¬ p.EmptyPoll a ∧ p.step a ≠ .error .blocked) ∨
    p.controller.scaling p.workerQueue.getSize ≠ .none

/-! ## The consumers of the controller -/

/-- The controller has the consumers that it has not cancelled; there is none
until it makes one. -/
structure Staffed (high : Int) (p : Pipeline) : Prop where
  threshold : p.controller.highThreshold = high
  nodup : p.controller.consumers.Nodup
  live : ∀ c ∈ p.controller.consumers, ∃ k, p.consumers[c]? = some k ∧
    k.isCancel = false
  ended : ∀ k ∈ p.consumers, k.pc = .ended → k.isCancel = true
  attended : p.controller.consumers = [] → p.consumers = []
  past : p.consumers = [] → p.total Place.past = 0

section
variable {rQs wkQs wtQs : Nat} {high : Int} {p p' : Pipeline} {a : Act}
  {c : ConsumerId}

theorem past_of_reads {before after : Multiset Place} (h : Reads before after) :
    (before.map Place.past).sum = (after.map Place.past).sum := by
  cases h with
  | read it => rfl
  | enqueue it => rfl

theorem past_of_produces {before after : Multiset Place}
    (h : Produces before after) :
    (before.map Place.past).sum = (after.map Place.past).sum := by
  cases h with
  | finds => rfl
  | dequeue it => rfl
  | transform h => rfl
  | enqueue it => rfl

theorem past_of_writes {before after : Multiset Place}
    (h : Writes before after) :
    (before.map Place.past).sum = (after.map Place.past).sum := by
  cases h with
  | dequeue it => rfl
  | write it => rfl

theorem Staffed.same (h : Staffed high p) (hsame : p.SameConsumers p')
    (hpast : p'.total Place.past = p.total Place.past) : Staffed high p' := by
  obtain ⟨hconsumers, hcontroller⟩ := hsame
  constructor
  case threshold => exact hcontroller ▸ h.threshold
  case nodup => exact hcontroller ▸ h.nodup
  case live => rw [hcontroller, hconsumers]; exact h.live
  case ended => rw [hconsumers]; exact h.ended
  case attended => rw [hcontroller, hconsumers]; exact h.attended
  case past => rw [hconsumers, hpast]; exact h.past

theorem Staffed.moved (h : Staffed high p) (hmoves : p.MovesConsumer c p') :
    Staffed high p' := by
  obtain ⟨⟨k, pc, hk, hset, hends⟩, hcontroller⟩ := hmoves
  have hsome : p.consumers ≠ [] := by
    rintro hnil
    rw [hnil] at hk
    cases hk
  constructor
  case threshold => exact hcontroller ▸ h.threshold
  case nodup => exact hcontroller ▸ h.nodup
  case live =>
    rw [hcontroller, hset]
    intro c' hc'
    obtain ⟨k', hk', hlive⟩ := h.live c' hc'
    rw [List.getElem?_set]
    split
    next heq =>
      subst heq
      obtain ⟨hlt, -⟩ := List.getElem?_eq_some_iff.mp hk
      rw [if_pos hlt]
      cases hk.symm.trans hk'
      exact ⟨_, rfl, hlive⟩
    · exact ⟨k', hk', hlive⟩
  case ended =>
    rw [hset]
    intro k' hk'
    rcases List.mem_or_eq_of_mem_set hk' with hold | rfl
    · exact h.ended k' hold
    · exact hends
  case attended =>
    rw [hcontroller]
    exact fun hnil => absurd (h.attended hnil) hsome
  case past =>
    rw [hset]
    exact fun hnil => absurd ((List.set_eq_nil_iff ..).mp hnil) hsome

theorem handler_cases (p : Pipeline) :
    (p.handler.consumers = p.consumers ++ [⟨.test, false⟩] ∧
      p.handler.controller.consumers = p.controller.consumers ++
        [p.consumers.length]) ∨
    (∃ l c, p.controller.consumers = l ++ [c] ∧ l ≠ [] ∧
      p.handler.controller.consumers = l ∧
      p.handler.consumers = p.consumers.modify c fun k =>
        { k with isCancel := true }) ∨
    (p.handler.consumers = p.consumers ∧
        p.handler.controller.consumers = p.controller.consumers) := by
  cases hscaling : p.controller.scaling p.workerQueue.getSize with
  | up =>
      left
      rw [handler, ConsumerController.handler, hscaling]
      exact ⟨rfl, rfl⟩
  | down =>
      right
      left
      have hmore : 1 < p.controller.consumers.length :=
        ConsumerController.more_of_down hscaling
      obtain ⟨l, c, hl⟩ :=
        (List.eq_nil_or_concat' p.controller.consumers).resolve_left
        (List.ne_nil_of_length_pos (Nat.zero_lt_of_lt hmore))
      refine ⟨l, c, hl, ?_, ?_⟩
      · rintro rfl
        rw [hl] at hmore
        exact absurd hmore (Nat.lt_irrefl _)
      · rw [handler, ConsumerController.handler, hscaling, hl,
          List.getLast?_concat]
        exact ⟨List.dropLast_concat, rfl⟩
  | none =>
      right
      right
      rw [handler, ConsumerController.handler, hscaling]
      exact ⟨rfl, rfl⟩

theorem Staffed.lt_length (h : Staffed high p)
    (hc : c ∈ p.controller.consumers) : c < p.consumers.length := by
  obtain ⟨k, hk, _⟩ := h.live c hc
  exact (List.getElem?_eq_some_iff.mp hk).1

theorem Staffed.made (h : Staffed high p)
    (hthreshold : p'.controller.highThreshold = high) (hids :
      p'.controller.consumers = p.controller.consumers ++ [p.consumers.length])
    (hmade : p'.consumers = p.consumers ++ [⟨.test, false⟩]) :
    Staffed high p' := by
  constructor
  case threshold => exact hthreshold
  case nodup =>
    rw [hids, ← List.concat_eq_append]
    exact h.nodup.concat fun hmem => Nat.lt_irrefl _ (h.lt_length hmem)
  case live =>
    rw [hids, hmade]
    intro c hc
    rcases List.mem_append.mp hc with hold | hnew
    · obtain ⟨k, hk, hlive⟩ := h.live c hold
      exact ⟨k, (List.getElem?_append_left (h.lt_length hold)).trans hk, hlive⟩
    · cases List.mem_singleton.mp hnew
      exact ⟨_, List.getElem?_concat_length, rfl⟩
  case ended =>
    rw [hmade]
    intro k hk hended
    rcases List.mem_append.mp hk with hold | hnew
    · exact h.ended k hold hended
    · cases List.mem_singleton.mp hnew
      cases hended
  case attended =>
    rw [hids]
    exact fun hnil =>
      absurd hnil (List.append_ne_nil_of_right_ne_nil _ (List.cons_ne_nil _ _))
  case past =>
    rw [hmade]
    exact fun hnil =>
      absurd hnil (List.append_ne_nil_of_right_ne_nil _ (List.cons_ne_nil _ _))

theorem Staffed.cancels {ids : List ConsumerId} (h : Staffed high p)
    (hthreshold : p'.controller.highThreshold = high)
    (hbefore : p.controller.consumers = ids ++ [c]) (hne : ids ≠ [])
    (hids : p'.controller.consumers = ids) (hcancels : p'.consumers =
      p.consumers.modify c fun k => { k with isCancel := true })
    (hpast : p'.total Place.past = p.total Place.past) : Staffed high p' := by
  have hnodup := h.nodup
  rw [hbefore, List.nodup_append] at hnodup
  constructor
  case threshold => exact hthreshold
  case nodup => exact hids ▸ hnodup.1
  case live =>
    rw [hids, hcancels]
    intro c' hc'
    obtain ⟨k, hk, hlive⟩ := h.live c' (hbefore ▸ List.mem_append_left _ hc')
    have hother : c ≠ c' :=
      fun heq => hnodup.2.2 c' hc' c (List.mem_singleton_self c) heq.symm
    exact ⟨k, (List.getElem?_modify_ne _ _ hother).trans hk, hlive⟩
  case ended =>
    rw [hcancels]
    intro k hk hended
    obtain ⟨i, hi⟩ := List.mem_iff_getElem?.mp hk
    rw [List.getElem?_modify] at hi
    obtain ⟨k', hk', hmap⟩ := Option.map_eq_some_iff.mp hi
    split at hmap
    · cases hmap
      rfl
    · cases hmap
      exact h.ended _ (List.mem_of_getElem? hk') hended
  case attended =>
    rw [hids]
    exact fun hnil => absurd hnil hne
  case past =>
    rw [hcancels, hpast, List.modify_eq_nil_iff]
    exact h.past

theorem Staffed.handler (h : Staffed high p) : Staffed high p.handler := by
  have hthreshold : p.handler.controller.highThreshold = high :=
    ConsumerController.handler_thresholds.2.trans h.threshold
  have hpast := @handler_total Nat _ Place.past p rfl
  rcases handler_cases p with
    ⟨hmade, hids⟩ | ⟨l, c, hl, hne, hids, hcancels⟩ | ⟨hsame, hids⟩
  · exact h.made hthreshold hids hmade
  · exact h.cancels hthreshold hl hne hids hcancels hpast
  · constructor
    case threshold => exact hthreshold
    case nodup => exact hids ▸ h.nodup
    case live => rw [hids, hsame]; exact h.live
    case ended => rw [hsame]; exact h.ended
    case attended => rw [hids, hsame]; exact h.attended
    case past => rw [hsame, hpast]; exact h.past

theorem Staffed.step (hvalid : p.Valid rQs wkQs wtQs) (h : Staffed high p)
    (ha : a.OfProgram) (hstep : p.step a = .ok p') : Staffed high p' := by
  cases a with
  | reader =>
      obtain ⟨_, hreads, hsame⟩ := readerProcess_spec hvalid hstep
      exact h.same hsame (hreads.sum_eq _ past_of_reads).symm
  | producer i =>
      obtain ⟨_, hsame, hproduces | ⟨rfl, _⟩⟩ :=
        producerProcess_spec hvalid hstep
      · exact h.same hsame (hproduces.sum_eq _ past_of_produces).symm
      · exact h
  | consumer c =>
      obtain ⟨_, _, hmoves⟩ := consumerProcess_spec hvalid hstep
      exact h.moved hmoves
  | canceled c =>
      obtain ⟨_, _, hmoves⟩ := canceled_spec hvalid hstep
      exact h.moved hmoves
  | writer =>
      obtain ⟨_, hwrites, hsame⟩ := writerProcess_spec hvalid hstep
      exact h.same hsame (hwrites.sum_eq _ past_of_writes).symm
  | handler =>
      cases hstep
      exact h.handler
  | create => exact ha.elim
  | cancel c => exact ha.elim

end

theorem keeps_producers : Keeps Place.producers where
  read _ := rfl
  input _ := rfl
  finds := rfl
  produces _ := rfl
  produced _ := rfl
  worker _ := rfl
  created := rfl
  turns _ _ := rfl
  consumes _ := rfl
  consumed _ := rfl
  output _ := rfl
  expects _ := rfl
  writes _ := rfl

structure Inv (rQs wkQs wtQs : Nat) (high : Int) (lines : List Item)
    (p : Pipeline) : Prop where
  valid : p.Valid rQs wkQs wtQs
  staffed : Staffed high p
  finals : p.finals = (lines.map Item.final : List (Option Item))
  lines : p.total Place.lines = lines.length
  producers : p.producers.length = 4

section
variable {rQs wkQs wtQs : Nat} {high : Int} {lines : List Item}
  {p p' : Pipeline} {a : Act} {e : Stop} {i : Nat}
  {c : ConsumerId}

theorem producers_eq : p.total Place.producers = p.producers.length := by
  simp [total, places, Place.sum_of, Place.producers]

theorem past_eq : p.total Place.past = p.writerQueue.contents.length +
    p.writer.toList.length + p.written.length := by
  simp [total, places, Place.sum_of, Place.past]

theorem Reachable.inv (hr : 1 ≤ rQs) (hwk : 1 ≤ wkQs)
    (hwt : 1 ≤ wtQs) {csHTh csLTh csPer : Int} (h : Reachable Act.OfProgram
      (oneRun rQs wkQs wtQs csHTh csLTh csPer lines) p) :
    p.Inv rQs wkQs wtQs (percent wkQs csLTh) lines := by
  have hstart := oneRun_valid hr hwk hwt csHTh csLTh csPer lines
  obtain ⟨hvalid, hfinals⟩ := h.keeps keeps_finals hstart
  have hlines := (h.keeps keeps_lines hstart).2.trans oneRun_lines
  have hproducers := (h.keeps keeps_producers hstart).2
  rw [producers_eq, producers_eq] at hproducers
  refine ⟨hvalid, ?_, hfinals.trans oneRun_finals, hlines, hproducers⟩
  clear hvalid hfinals hlines hproducers
  induction h with
  | start =>
      constructor
      case threshold => rfl
      case nodup => exact List.nodup_nil
      case live => exact nofun
      case ended => exact nofun
      case attended => exact fun _ => rfl
      case past => exact fun _ => past_eq
  | step hreach ha hstep ih =>
      exact ih.step (hreach.keeps keeps_lines hstart).1 ha hstep

/-! ## What stops a thread -/

theorem readerProcess_error (h : p.Valid rQs wkQs wtQs)
    (hstop : p.readerProcess = .error e) :
    e = .blocked ∧ (p.reader = none ∧ p.unread = [] ∨
        p.inputQueue.contents.length = rQs) := by
  rw [readerProcess] at hstop
  split at hstop
  next hreader hunread =>
    cases hstop
    exact ⟨rfl, .inl ⟨hreader, hunread⟩⟩
  · cases hstop
  · rcases Outcome.bind_eq_error hstop with hcall | ⟨q, _, hok⟩
    · exact (h.input.enqueue_error hcall).imp_right .inr
    · cases hok

/-- Why a producer does not go on. -/
inductive ProducerStops (p : Pipeline) (wkQs : Nat) : ProducerPc → Stop → Prop
  | dequeue (h : p.inputQueue.contents = []) :
      ProducerStops p wkQs .dequeue .blocked
  | transform {it : Item} {f : Fault} (h : it.produced = none) :
      ProducerStops p wkQs (.transform it) (.fault f)
  | enqueue (it : Item) (h : p.workerQueue.contents.length = wkQs) :
      ProducerStops p wkQs (.enqueue it) .blocked

theorem producerProcess_error (h : p.Valid rQs wkQs wtQs) {pc : ProducerPc}
    (hpc : p.producers[i]? = some pc) (hstop : p.producerProcess i = .error e) :
    p.ProducerStops wkQs pc e := by
  simp only [producerProcess, hpc] at hstop
  split at hstop
  next hnone => cases hnone
  next heq => cases hstop
  next heq =>
    cases heq
    rcases Outcome.bind_eq_error hstop with hcall | ⟨r, _, hok⟩
    · obtain ⟨rfl, hempty⟩ := h.input.dequeue_error hcall
      exact .dequeue hempty
    · cases hok
  next it heq =>
    cases heq
    split at hstop
    · cases hstop
    next f hfault =>
      cases hstop
      refine .transform ?_
      rw [Item.produced, hfault]
  next it heq =>
    cases heq
    rcases Outcome.bind_eq_error hstop with hcall | ⟨q, _, hok⟩
    · obtain ⟨rfl, hfull⟩ := h.worker.enqueue_error hcall
      exact .enqueue it hfull
    · cases hok

/-- Why a consumer does not go on. -/
inductive ConsumerStops (p : Pipeline) (wtQs : Nat) : ConsumerPc → Stop → Prop
  | dequeue (h : p.workerQueue.contents = []) :
      ConsumerStops p wtQs .dequeue .blocked
  | transform {it : Item} {f : Fault} (h : it.consumed = none) :
      ConsumerStops p wtQs (.transform it) (.fault f)
  | enqueue (it : Item) (h : p.writerQueue.contents.length = wtQs) :
      ConsumerStops p wtQs (.enqueue it) .blocked
  | ended : ConsumerStops p wtQs .ended .blocked

theorem consumerProcess_error (h : p.Valid rQs wkQs wtQs) {k : Consumer}
    (hk : p.consumers[c]? = some k) (hstop : p.consumerProcess c = .error e) :
    p.ConsumerStops wtQs k.pc e := by
  simp only [consumerProcess, hk] at hstop
  split at hstop
  next hpc => cases hstop
  next hpc => cases hstop
  next hpc => cases hstop
  next hpc =>
    rw [hpc]
    rcases Outcome.bind_eq_error hstop with hcall | ⟨r, _, hok⟩
    · obtain ⟨rfl, hempty⟩ := h.worker.dequeue_error hcall
      exact .dequeue hempty
    · cases hok
  next it hpc =>
    rw [hpc]
    split at hstop
    · cases hstop
    next f hfault =>
      cases hstop
      refine .transform ?_
      rw [Item.consumed, hfault]
  next it hpc =>
    rw [hpc]
    rcases Outcome.bind_eq_error hstop with hcall | ⟨q, _, hok⟩
    · obtain ⟨rfl, hfull⟩ := h.writer.enqueue_error hcall
      exact .enqueue it hfull
    · cases hok
  next hpc => cases hstop
  next hpc =>
    cases hstop
    rw [hpc]
    exact .ended

theorem writerProcess_error (h : p.Valid rQs wkQs wtQs)
    (hstop : p.writerProcess = .error e) :
    e = .blocked ∧ p.writer = none ∧
      (p.expectedLines = 0 ∨ p.writerQueue.contents = []) := by
  rw [writerProcess] at hstop
  split at hstop
  next hwriter hexpected =>
    cases hstop
    exact ⟨rfl, hwriter, .inl hexpected⟩
  next hwriter hexpected =>
    rcases Outcome.bind_eq_error hstop with hcall | ⟨r, _, hok⟩
    · obtain ⟨rfl, hempty⟩ := h.writer.dequeue_error hcall
      exact ⟨rfl, hwriter, .inr hempty⟩
    · cases hok
  · cases hstop

/-! ## A state from which nothing moves -/

theorem stuck_step (hstuck : ¬ p.Progress) (ha : a.OfThread)
    (hpoll : ¬ p.EmptyPoll a) :
    p.step a = .error .blocked := by
  by_contra hmoves
  exact hstuck (.inl ⟨a, ha, hpoll, hmoves⟩)

theorem stuck_writer (h : p.Inv rQs wkQs wtQs high lines)
    (hstuck : ¬ p.Progress) (hless : p.written.length < lines.length) :
    p.writer = none ∧ p.writerQueue.contents = [] := by
  obtain ⟨-, hwriter, hstops⟩ :=
    writerProcess_error h.valid (stuck_step (a := .writer) hstuck trivial id)
  refine ⟨hwriter, hstops.resolve_left fun hexpected => ?_⟩
  have hlines := h.lines
  rw [lines_eq, hwriter, hexpected, Option.toList_none, List.length_nil,
    Nat.zero_add] at hlines
  exact hless.ne hlines

/-- No consumer has an item, since there is room for it in the writer queue. -/
theorem stuck_consumers (h : p.Inv rQs wkQs wtQs high lines)
    (hstuck : ¬ p.Progress) (houtput : p.writerQueue.contents = []) :
    ∀ k ∈ p.consumers, k.pc.finals = 0 := by
  intro k hk
  obtain ⟨c, hc⟩ := List.mem_iff_getElem?.mp hk
  by_contra hitem
  have hstep : p.consumerProcess c = .error .blocked := by
    refine stuck_step (a := .consumer c) hstuck trivial ?_
    rintro ⟨k', hk', hpolls, _⟩
    cases hc.symm.trans hk'
    exact hitem hpolls.finals
  have hstops := consumerProcess_error h.valid hc hstep
  generalize k.pc = pc at hitem hstops
  cases hstops with
  | dequeue => exact hitem rfl
  | enqueue it hfull =>
      rw [houtput, ← h.valid.writer.cap] at hfull
      exact h.valid.writer.holds.pos.ne hfull
  | ended => exact hitem rfl

/-- A consumer that is not cancelled empties the worker queue. -/
theorem stuck_worker (h : p.Inv rQs wkQs wtQs high lines)
    (hstuck : ¬ p.Progress) (hconsumers : ∀ k ∈ p.consumers, k.pc.finals = 0)
    (hids : p.controller.consumers ≠ []) :
    p.workerQueue.contents = [] := by
  obtain ⟨c, ids, hc⟩ := List.exists_cons_of_ne_nil hids
  obtain ⟨k, hk, hlive⟩ := h.staffed.live c (hc ▸ List.mem_cons_self)
  have hmem := List.mem_of_getElem? hk
  have hitem := hconsumers k hmem
  have hends := h.staffed.ended k hmem
  by_contra hne
  have hstep : p.consumerProcess c = .error .blocked := by
    refine stuck_step (a := .consumer c) hstuck trivial ?_
    rintro ⟨k', hk', _, hcancel | hempty⟩
    · cases hk.symm.trans hk'
      cases hlive.symm.trans hcancel
    · rw [h.valid.worker.getSize] at hempty
      exact hne (List.length_eq_zero_iff.mp hempty)
  have hstops := consumerProcess_error h.valid hk hstep
  generalize k.pc = pc at hitem hends hstops
  cases hstops with
  | dequeue hempty => exact hne hempty
  | enqueue it => exact Multiset.singleton_ne_zero _ hitem
  | ended => cases hlive.symm.trans (hends rfl)

theorem stuck_producers (h : p.Inv rQs wkQs wtQs high lines)
    (hstuck : ¬ p.Progress) (hroom : p.workerQueue.contents.length ≠ wkQs) :
    ∀ pc ∈ p.producers, pc.finals = 0 := by
  intro pc hmem
  obtain ⟨i, hi⟩ := List.mem_iff_getElem?.mp hmem
  by_contra hitem
  have hstep : p.producerProcess i = .error .blocked := by
    refine stuck_step (a := .producer i) hstuck trivial ?_
    rintro ⟨hpoll, _⟩
    cases hi.symm.trans hpoll
    exact hitem rfl
  have hstops := producerProcess_error h.valid hi hstep
  cases hstops with
  | dequeue => exact hitem rfl
  | enqueue it hfull => exact hroom hfull

/-- One producer is enough for the input queue. -/
theorem stuck_input (h : p.Inv rQs wkQs wtQs high lines)
    (hstuck : ¬ p.Progress) (hproducers : ∀ pc ∈ p.producers, pc.finals = 0) :
    p.inputQueue.contents = [] := by
  obtain ⟨pc, pcs, hpcs⟩ := List.exists_cons_of_length_eq_add_one h.producers
  have hi : p.producers[0]? = some pc := hpcs ▸ rfl
  have hitem := hproducers pc (List.mem_of_getElem? hi)
  by_contra hne
  have hstep : p.producerProcess 0 = .error .blocked := by
    refine stuck_step (a := .producer 0) hstuck trivial fun hempty => hne ?_
    exact List.length_eq_zero_iff.mp (h.valid.input.getSize.symm.trans hempty.2)
  have hstops := producerProcess_error h.valid hi hstep
  cases hstops with
  | dequeue hempty => exact hne hempty
  | enqueue it => exact Multiset.singleton_ne_zero _ hitem

theorem stuck_reader (h : p.Inv rQs wkQs wtQs high lines)
    (hstuck : ¬ p.Progress) (hinput : p.inputQueue.contents = []) :
    p.reader = none ∧ p.unread = [] := by
  obtain ⟨-, hended | hfull⟩ :=
    readerProcess_error h.valid (stuck_step (a := .reader) hstuck trivial id)
  · exact hended
  · rw [hinput, ← h.valid.input.cap] at hfull
    exact absurd hfull h.valid.input.holds.pos.ne

theorem card_finals : Multiset.card p.finals =
    p.unread.length + p.reader.toList.length + p.inputQueue.contents.length +
      (p.producers.map fun pc => Multiset.card pc.finals).sum +
        p.workerQueue.contents.length +
      (p.consumers.map fun k => Multiset.card k.pc.finals).sum +
        p.writerQueue.contents.length +
      p.writer.toList.length + p.written.length := by
  have hcard : Multiset.card p.finals = p.total fun place =>
    Multiset.card place.finals := Multiset.card_bind ..
  rw [hcard]
  simp [total, places, Place.sum_of, Place.finals]

theorem stuck_items (h : p.Inv rQs wkQs wtQs high lines)
    (hstuck : ¬ p.Progress) (hless : p.written.length < lines.length)
    (hroom : p.workerQueue.contents.length ≠ wkQs) :
    p.workerQueue.contents.length + p.written.length = lines.length := by
  obtain ⟨hwriter, houtput⟩ := stuck_writer h hstuck hless
  have hconsumers := stuck_consumers h hstuck houtput
  have hproducers := stuck_producers h hstuck hroom
  have hinput := stuck_input h hstuck hproducers
  obtain ⟨hreader, hunread⟩ := stuck_reader h hstuck hinput
  have hnone : (p.producers.map fun pc => Multiset.card pc.finals).sum = 0 := by
    refine List.sum_eq_zero fun n hn => ?_
    obtain ⟨pc, hpc, rfl⟩ := List.mem_map.mp hn
    exact Multiset.card_eq_zero.mpr (hproducers pc hpc)
  have hnone' : (p.consumers.map fun k => Multiset.card k.pc.finals).sum =
      0 := by
    refine List.sum_eq_zero fun n hn => ?_
    obtain ⟨k, hk, rfl⟩ := List.mem_map.mp hn
    exact Multiset.card_eq_zero.mpr (hconsumers k hk)
  have hcard := congrArg Multiset.card h.finals
  rw [card_finals, hnone, hnone', hunread, hreader, hinput, houtput, hwriter,
    Multiset.coe_card,
    List.length_map] at hcard
  simpa using hcard

/-- With more lines than the threshold and room for more, a run goes on until
all is written. -/
theorem progress_of_high (h : p.Inv rQs wkQs wtQs high lines)
    (hlines : high < lines.length) (hwk : high < wkQs)
    (hless : p.written.length < lines.length) : p.Progress := by
  by_contra hstuck
  by_cases hids : p.controller.consumers = []
  · have hpast := h.staffed.past (h.staffed.attended hids)
    rw [past_eq] at hpast
    have hsize : (p.workerQueue.contents.length : Int) ≤ high := by
      by_contra hmore
      refine hstuck (.inr ?_)
      rw [ConsumerController.scaling, h.staffed.threshold,
        h.valid.worker.getSize, if_pos (not_le.mp hmore)]
      rintro ⟨⟩
    have hitems := stuck_items h hstuck hless (by omega)
    omega
  · have hconsumers := stuck_consumers h hstuck (stuck_writer h hstuck hless).2
    have hempty := stuck_worker h hstuck hconsumers hids
    have hroom : p.workerQueue.contents.length ≠ wkQs := by
      rw [hempty, ← h.valid.worker.cap]
      exact h.valid.worker.holds.pos.ne
    have hitems := stuck_items h hstuck hless hroom
    rw [hempty, List.length_nil, Nat.zero_add] at hitems
    exact hless.ne hitems

/-! ## A run without a tick -/

theorem work_of_reads {before after : Multiset Place} (h : Reads before after) :
    (after.map Place.work).sum < (before.map Place.work).sum := by
  cases h with
  | read it => exact Nat.lt_add_one 5
  | enqueue it => exact Nat.lt_add_one 4

theorem work_of_produces {before after : Multiset Place}
    (h : Produces before after) :
    (after.map Place.work).sum < (before.map Place.work).sum := by
  cases h with
  | finds => exact Nat.lt_add_one 0
  | dequeue it => exact Nat.lt_add_one 3
  | transform h => exact Nat.lt_add_one 2
  | enqueue it => exact Nat.lt_add_one 1

/-- No thread that runs finds its item invalid. -/
theorem produced_of_valid (h : p.Inv rQs wkQs wtQs high lines)
    (hvalid : ∀ it ∈ lines, it.final ≠ none) {it : Item}
    (hi : p.producers[i]? = some (.transform it)) : it.produced ≠ none := by
  have hplace : Place.producer (.transform it) ∈ p.places := by
    obtain ⟨others, hbefore, -⟩ := @Place.of_set _ .producer _ _ _ hi
    rw [places, hbefore]
    simp
  have hmem : it.final ∈ p.finals :=
    Multiset.mem_bind.mpr ⟨_, hplace, Multiset.mem_singleton_self _⟩
  rw [h.finals] at hmem
  obtain ⟨line, hline, hfinal⟩ := List.mem_map.mp hmem
  intro hnone
  have hnever : it.final = none := by
    rw [Item.final, hnone]
    rfl
  exact hvalid line hline (hfinal.trans hnever)

/-- While nobody has made a consumer, a thread that goes on has less to do
afterwards. -/
theorem work_step (h : p.Inv rQs wkQs wtQs high lines)
    (hvalid : ∀ it ∈ lines, it.final ≠ none) (hconsumers : p.consumers = [])
    (ha : a.OfThread) (hpoll : ¬ p.EmptyPoll a)
    (hmoves : p.step a ≠ .error .blocked) :
    ∃ p', p.step a = .ok p' ∧ p.SameConsumers p' ∧
      p'.total Place.work < p.total Place.work := by
  cases a with
  | reader =>
      cases hstep : p.readerProcess with
      | error e =>
          exact absurd ((readerProcess_error h.valid hstep).1 ▸ hstep) hmoves
      | ok p' =>
          obtain ⟨_, hreads, hsame⟩ := readerProcess_spec h.valid hstep
          exact ⟨p', hstep, hsame, hreads.sum_lt _ work_of_reads⟩
  | producer i =>
      cases hstep : p.producerProcess i with
      | error e =>
          exfalso
          cases hpc : p.producers[i]? with
          | none =>
              refine hmoves ?_
              rw [step, producerProcess, hpc]
          | some pc =>
              have hstops := producerProcess_error h.valid hpc hstep
              cases hstops with
              | dequeue => exact hmoves hstep
              | transform hnone => exact produced_of_valid h hvalid hpc hnone
              | enqueue => exact hmoves hstep
      | ok p' =>
          obtain ⟨_, hsame, hproduces | ⟨_, hempty⟩⟩ :=
            producerProcess_spec h.valid hstep
          · exact ⟨p', hstep, hsame, hproduces.sum_lt _ work_of_produces⟩
          · exact absurd hempty hpoll
  | consumer c =>
      refine absurd ?_ hmoves
      rw [step, consumerProcess, hconsumers]
      rfl
  | canceled c => exact absurd trivial hpoll
  | writer =>
      have hpast := h.staffed.past hconsumers
      rw [past_eq] at hpast
      have houtput : p.writerQueue.contents = [] :=
        List.length_eq_zero_iff.mp (by omega)
      have hwriter : p.writer.toList = [] :=
        List.length_eq_zero_iff.mp (by omega)
      refine absurd ?_ hmoves
      rw [step, writerProcess, Option.toList_eq_nil_iff.mp hwriter]
      cases p.expectedLines with
      | zero => rfl
      | succ expectedLines =>
          dsimp only
          rw [h.valid.writer.dequeue_empty houtput]
          rfl
  | handler => exact ha.elim
  | create => exact ha.elim
  | cancel c => exact ha.elim

theorem scaling_none (h : p.Inv rQs wkQs wtQs high lines)
    (hconsumers : p.consumers = [])
    (hhigh : (lines.length : Int) ≤ high ∨ (wkQs : Int) ≤ high) :
    p.controller.scaling p.workerQueue.getSize = .none := by
  have hids : p.controller.consumers = [] := by
    refine List.eq_nil_iff_forall_not_mem.mpr fun c hc => ?_
    obtain ⟨k, hk, _⟩ := h.staffed.live c hc
    rw [hconsumers] at hk
    cases hk
  have hcard := congrArg Multiset.card h.finals
  rw [card_finals, Multiset.coe_card, List.length_map] at hcard
  have hcap := h.valid.worker.length_le
  rw [ConsumerController.scaling, h.staffed.threshold, h.valid.worker.getSize,
    hids, if_neg (by omega), if_neg]
  exact fun hdown => absurd hdown.2 (by decide)

/-- With no more lines than the threshold, or no room for more, a run without a
tick gets stuck. -/
theorem exists_stuck (hr : 1 ≤ rQs) (hwk : 1 ≤ wkQs)
    (hwt : 1 ≤ wtQs) {csHTh csLTh csPer : Int} (hlines : 1 ≤ lines.length)
    (hvalid : ∀ it ∈ lines, it.final ≠ none) (hhigh : (lines.length : Int) ≤
      percent wkQs csLTh ∨ (wkQs : Int) ≤ percent wkQs csLTh) :
    ∃ p,
      Reachable Act.OfProgram (oneRun rQs wkQs wtQs csHTh csLTh csPer lines) p ∧
      p.written.length < lines.length ∧ ¬ p.Progress := by
  have hrun : ∀ (m : Nat) (p : Pipeline),
      Reachable Act.OfProgram (oneRun rQs wkQs wtQs csHTh csLTh csPer lines) p →
      p.consumers = [] → p.total Place.work = m → ∃ p,
        Reachable Act.OfProgram (oneRun rQs wkQs wtQs csHTh csLTh
          csPer lines) p ∧
          p.written.length < lines.length ∧ ¬ p.Progress := by
    intro m
    induction m using Nat.strong_induction_on with
    | _ m ih =>
        intro p hreach hconsumers hwork
        have hinv := hreach.inv hr hwk hwt
        have hpast := hinv.staffed.past hconsumers
        rw [past_eq] at hpast
        by_cases hprogress : p.Progress
        · rcases hprogress with ⟨a, ha, hpoll, hmoves⟩ | hscaling
          · obtain ⟨p', hstep, hsame, hless⟩ :=
              work_step hinv hvalid hconsumers ha hpoll hmoves
            exact ih _ (hwork ▸ hless) p' (hreach.step ha.ofProgram hstep)
              (hsame.consumers.trans hconsumers) rfl
          · exact absurd (scaling_none hinv hconsumers hhigh) hscaling
        · exact ⟨p, hreach, by omega, hprogress⟩
  exact hrun _ _ .start rfl rfl

end

/-- A line that every thread accepts. -/
def someLine : Item := ⟨0, 0, 'A'⟩

theorem someLine_valid (n : Nat) :
    ∀ it ∈ List.replicate n someLine, it.final ≠ none := by
  intro it hit
  rw [List.eq_of_mem_replicate hit]
  exact Item.final_ne_none rfl rfl

theorem never_stuck_iff {rQs wkQs wtQs n : Nat} (hr : 1 ≤ rQs) (hwk : 1 ≤ wkQs)
    (hwt : 1 ≤ wtQs) (hn : 1 ≤ n) (csHTh csLTh csPer : Int) :
    (∀ lines : List Item, lines.length = n →
      ∀ p, Reachable Act.OfProgram (oneRun rQs wkQs wtQs csHTh csLTh
          csPer lines) p →
        p.written.length < n → p.Progress) ↔
      (percent wkQs csLTh < n ∧ percent wkQs csLTh < wkQs) := by
  constructor
  · intro h
    by_contra hhigh
    rw [not_and_or, not_lt, not_lt] at hhigh
    have hlength := List.length_replicate (n := n) (a := someLine)
    obtain ⟨p, hreach, hless, hstuck⟩ := @exists_stuck
      _ _ _ (List.replicate n someLine) hr hwk hwt csHTh csLTh csPer
      (hlength.symm ▸ hn) (someLine_valid n) (hlength.symm ▸ hhigh)
    exact hstuck (h _ hlength p hreach (hlength ▸ hless))
  · rintro ⟨hlines, hroom⟩ lines rfl p hreach hless
    exact progress_of_high (hreach.inv hr hwk hwt) hlines hroom hless

/-- The constants of `main`, and one line of input: the line waits in the worker
queue for a consumer. -/
theorem oneLine_stuck : ¬ ∀ lines : List Item, lines.length = 1 →
    ∀ p, Reachable Act.OfProgram (oneRun 200 200 4000 80 20 1000000 lines) p →
      p.written.length < 1 → p.Progress := by
  intro h
  obtain ⟨p, hreach, hless, hstuck⟩ := @exists_stuck 200 200 4000 [someLine]
    (by decide) (by decide) (by decide)
    80 20 1000000 (Nat.le_refl 1) (someLine_valid 1) (.inl (by decide))
  exact hstuck (h _ rfl p hreach hless)

theorem never_stuck_iff_main :
    (∀ lines : List Item, lines.length = 200 →
      ∀ p, Reachable Act.OfProgram (oneRun 200 200 4000 80 20 1000000 lines) p →
      p.written.length < 200 → p.Progress) ↔
      (percent (200 : Nat) 20 < (200 : Nat) ∧
        percent (200 : Nat) 20 < (200 : Nat)) :=
  never_stuck_iff (by decide) (by decide) (by decide) (by decide) 80 20 1000000

end Pipeline

end EroikoBlue.Pthread
