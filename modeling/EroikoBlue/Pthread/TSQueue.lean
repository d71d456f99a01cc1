/-
# `Pthread.TSQueue` — the ring buffer of `TSQueue<T>`

`enqueue` and `dequeue` are what a call does while it holds the mutex, as long
as it does not wait; `blocked` stands for a call that does.  `Holds` says which
list is in the ring, and there is one lemma for what each of the two does to it.

The mutex and the condition variables are in `Pthread.Monitor`, which runs these
calls one at a time.  `Valid` is all that other modules need of a queue: that
some list is in the ring; its `contents` is that list.
-/
import Mathlib.Data.List.Basic
import EroikoBlue.Debug
import EroikoBlue.Lib.Ring

namespace EroikoBlue.Pthread

open Ring (slot)

/-- Why a thread does not get past a call. -/
inductive Stop where
  /-- It waits. -/
  | blocked
  | fault (f : Fault)
  deriving DecidableEq, Repr

structure TSQueue (α : Type) where
  bufferSize : Nat
  /-- `none`: not written yet. -/
  buffer : Nat → Option α
  size : Nat
  head : Nat
  tail : Nat

namespace TSQueue

variable {α : Type}

/-- `TSQueue(bufferSize)`. -/
def new (bufferSize : Nat) : TSQueue α where
  bufferSize := bufferSize
  buffer := fun _ => none
  size := 0
  head := bufferSize - 1
  tail := 0

/-- `enqueue`, after its loop. -/
def put (q : TSQueue α) (item : α) : TSQueue α :=
  { q with
    buffer := fun k => if k = q.tail then some item else q.buffer k
    tail := (q.tail + 1) % q.bufferSize
    size := q.size + 1 }

/-- `dequeue`, after its loop. -/
def take (q : TSQueue α) : Except Stop (α × TSQueue α) :=
  let head := (q.head + 1) % q.bufferSize
  match q.buffer head with
  | none => .error (.fault
        (.undefined "an element of the buffer is read before it is written"))
  | some ret => .ok (ret, { q with head := head, size := q.size - 1 })

def enqueue (q : TSQueue α) (item : α) : Except Stop (TSQueue α) :=
  if q.size = q.bufferSize then .error .blocked else .ok (q.put item)

def dequeue (q : TSQueue α) : Except Stop (α × TSQueue α) :=
  if q.size = 0 then .error .blocked else q.take

def getSize (q : TSQueue α) : Nat := q.size

/-- The items, from `head + 1` on. -/
def contents (q : TSQueue α) : List α :=
  (List.range q.size).filterMap fun i => q.buffer (slot q.bufferSize q.head i)

/-- The queue holds a list. -/
structure Holds (q : TSQueue α) (xs : List α) : Prop where
  pos : 0 < q.bufferSize
  size : q.size = xs.length
  tail : q.tail = slot q.bufferSize q.head xs.length
  ring : Ring.Holds q.bufferSize q.head q.buffer xs

variable {q : TSQueue α} {x item : α} {xs : List α}

theorem new_holds {bufferSize : Nat} (h : 0 < bufferSize) :
    (new bufferSize : TSQueue α).Holds [] where
  pos := h
  size := rfl
  tail := by
    rw [new, slot, Nat.sub_add_cancel h]
    exact (Nat.mod_self _).symm
  ring := Ring.holds_nil

theorem Holds.enqueue (h : q.Holds xs) (hlen : xs.length < q.bufferSize) :
    q.enqueue item = .ok (q.put item) ∧ (q.put item).Holds (xs ++ [item]) := by
  refine ⟨if_neg fun hfull => hlen.ne (h.size.symm.trans hfull),
    h.pos, ?_, ?_, ?_⟩
  · rw [List.length_append, ← h.size]
    rfl
  · rw [put, h.tail, List.length_append, slot, slot, Nat.mod_add_mod]
    rfl
  · rw [put, h.tail]
    exact h.ring.push hlen

theorem Holds.enqueue_full (h : q.Holds xs) (hlen : xs.length = q.bufferSize) :
    q.enqueue item = .error .blocked := if_pos (h.size.trans hlen)

theorem Holds.dequeue (h : q.Holds (x :: xs)) :
    ∃ q', q.dequeue = .ok (x, q') ∧ q'.bufferSize = q.bufferSize ∧
      q'.Holds xs := by
  have hsize : q.size = xs.length + 1 := h.size
  refine ⟨{ q with head := (q.head + 1) % q.bufferSize, size := q.size - 1 },
    ?_, rfl, h.pos, ?_, ?_, h.ring.pop⟩
  · rw [TSQueue.dequeue, if_neg (hsize ▸ Nat.succ_ne_zero _), take,
      h.ring.first]
  · dsimp only
    rw [hsize]
    rfl
  · exact h.tail.trans Ring.slot_advance.symm

theorem Holds.dequeue_empty (h : q.Holds []) : q.dequeue = .error .blocked :=
  if_pos h.size

theorem filterMap_getElem? :
    ∀ xs : List α, (List.range xs.length).filterMap (xs[·]?) = xs
  | [] => rfl
  | x :: xs => by
      rw [List.length_cons, List.range_succ_eq_map,
        List.filterMap_cons_some (List.getElem?_cons_zero ..),
        List.filterMap_map]
      exact congrArg (x :: ·) (filterMap_getElem? xs)

theorem Holds.contents (h : q.Holds xs) : q.contents = xs := by
  refine Eq.trans ?_ (filterMap_getElem? xs)
  rw [TSQueue.contents, h.size]
  refine List.filterMap_congr fun i hi => ?_
  have hget := List.getElem?_eq_getElem (List.mem_range.mp hi)
  exact (h.ring.cell i _ hget).trans hget.symm

/-! ## A queue between threads -/

/-- The queue has that many cells, and holds its contents. -/
structure Valid (cap : Nat) (q : TSQueue α) : Prop where
  cap : q.bufferSize = cap
  holds : q.Holds q.contents

section
variable {cap : Nat} {q' : TSQueue α} {e : Stop}

theorem Holds.valid (hcap : q.bufferSize = cap) (h : q.Holds xs) :
    q.Valid cap := ⟨hcap, h.contents.symm ▸ h⟩

theorem valid_new (h : 0 < cap) : (new cap : TSQueue α).Valid cap :=
  (new_holds h).valid rfl

theorem Valid.getSize (h : q.Valid cap) : q.getSize = q.contents.length :=
  h.holds.size

theorem Valid.length_le (h : q.Valid cap) : q.contents.length ≤ cap :=
  h.cap ▸ h.holds.ring.le

theorem Valid.enqueue (h : q.Valid cap) (hcall : q.enqueue item = .ok q') :
    q'.Valid cap ∧ q'.contents = q.contents ++ [item] := by
  have hroom : q.contents.length < q.bufferSize := by
    refine lt_of_le_of_ne h.holds.ring.le fun hfull => ?_
    cases (h.holds.enqueue_full hfull).symm.trans hcall
  obtain ⟨hput, hholds⟩ := @Holds.enqueue _ _ item _ h.holds hroom
  cases hput.symm.trans hcall
  exact ⟨hholds.valid h.cap, hholds.contents⟩

theorem Valid.dequeue (h : q.Valid cap) (hcall : q.dequeue = .ok (item, q')) :
    q'.Valid cap ∧ q.contents = item :: q'.contents := by
  cases hxs : q.contents with
  | nil => cases (hxs ▸ h.holds).dequeue_empty.symm.trans hcall
  | cons x xs =>
      obtain ⟨q₁, htake, hcap, hholds⟩ := (hxs ▸ h.holds).dequeue
      cases htake.symm.trans hcall
      exact ⟨hholds.valid (hcap.trans h.cap),
        congrArg (item :: ·) hholds.contents.symm⟩

theorem Valid.dequeue_empty (h : q.Valid cap) (hempty : q.contents = []) :
    q.dequeue = .error .blocked :=
  (hempty ▸ h.holds).dequeue_empty

theorem Valid.enqueue_error (h : q.Valid cap)
    (hcall : q.enqueue item = .error e) :
    e = .blocked ∧ q.contents.length = cap := by
  rcases lt_or_eq_of_le h.length_le with hroom | hfull
  · cases (h.holds.enqueue (h.cap ▸ hroom)).1.symm.trans hcall
  · cases (h.holds.enqueue_full (hfull.trans h.cap.symm)).symm.trans hcall
    exact ⟨rfl, hfull⟩

theorem Valid.dequeue_error (h : q.Valid cap) (hcall : q.dequeue = .error e) :
    e = .blocked ∧ q.contents = [] := by
  cases hxs : q.contents with
  | nil =>
      cases (hxs ▸ h.holds).dequeue_empty.symm.trans hcall
      exact ⟨rfl, rfl⟩
  | cons x xs =>
      obtain ⟨q₁, htake, _⟩ := (hxs ▸ h.holds).dequeue
      cases htake.symm.trans hcall

end

end TSQueue

end EroikoBlue.Pthread
