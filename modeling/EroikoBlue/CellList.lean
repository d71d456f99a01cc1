/-
# `CellList` — the list of `lib/list.cc` by its cells

`LinkedList` has `List<T>` and `SortedList<T>` as the sequence of their items.
Here they are what the source has: `ListElement`s that lead from `first` to
`last`, and the count `numInList`.  `new` gives an element any address that is
not in use; to follow a null pointer, or one to a deleted element, is undefined.
A loop over the elements that takes more steps than there are elements has come
back to one of them and never ends.  (`numInList` is an `int`; 2^31 elements
have no place in the memory of a 32-bit program.)

`Represents L l` says that the list is the chain `l`: `first` leads through
exactly these cells, `last` is the last of them and leads nowhere, `numInList`
is their number.  That is the invariant; `CellListRuns` is about what the
operations do to it.
-/
import EroikoBlue.LinkedList
import EroikoBlue.Lib.Chain

namespace EroikoBlue

open Chain (Cell Cells Links addrs items)
open SortedList (Placed TotalPreorder)

/-- `List<T>`, with the elements that exist. -/
structure CellList (Addr α : Type) where
  cells : Cells Addr α
  /-- How many there are. -/
  size : Nat
  first : Option Addr
  last : Option Addr
  numInList : Int

namespace CellList

section
variable {Addr α : Type}

/-- `List<T>::List`. -/
def new : CellList Addr α where
  cells := fun _ => none
  size := 0
  first := none
  last := none
  numInList := 0

/-- `*ptr`. -/
def get (L : CellList Addr α) : Option Addr → Except Fault (Cell Addr α)
  | none => .error (.undefined "a null pointer")
  | some a =>
    match L.cells a with
    | none => .error (.undefined "a pointer to no element")
    | some c => pure c

variable [DecidableEq Addr]

/-- `new ListElement<T>(item)`, at the address `a`. -/
def alloc (L : CellList Addr α) (a : Addr) (item : α) : CellList Addr α :=
  { L with cells := Function.update L.cells a (some ⟨none, item⟩), size := L.size + 1 }

/-- `ptr->next = next`. -/
def setNext (L : CellList Addr α) (next : Option Addr) : Option Addr →
    Except Fault (CellList Addr α)
  | none => .error (.undefined "a null pointer")
  | some a => do
    let c ← L.get (some a)
    pure { L with
      cells := Function.update L.cells a (some { c with next := next }) }

/-- `delete ptr`. -/
def delete (L : CellList Addr α) : Option Addr → Except Fault (CellList Addr α)
  | none => pure L
  | some a => do
    let _ ← L.get (some a)
    pure { L with cells := Function.update L.cells a none, size := L.size - 1 }

variable [DecidableEq α]

omit [DecidableEq Addr] in
/-- The loop of `IsInList`, from `ptr` on. -/
def isInListLoop (L : CellList Addr α) (item : α) : Nat → Option Addr →
    Except Fault Bool
  | _, none => pure false
  | 0, some _ => .error .diverges
  | n + 1, some ptr => do
    let c ← L.get (some ptr)
    if item = c.item then pure true else isInListLoop L item n c.next

omit [DecidableEq Addr] in
/-- `List<T>::IsInList`. -/
def isInList (L : CellList Addr α) (item : α) : Except Fault Bool :=
  L.isInListLoop item L.size L.first

omit [DecidableEq Addr] in
/-- The end of `Append`, `Prepend` and `Insert`. -/
def added (L : CellList Addr α) (item : α) :
    Except Fault (CellList Addr α) := do
  let L := { L with numInList := L.numInList + 1 }
  let found ← L.isInList item
  assertMsg (found = true) ""
  pure L

/-- `List<T>::Append`. -/
def append (L : CellList Addr α) (element : Addr) (item : α) :
    Except Fault (CellList Addr α) := do
  let L := L.alloc element item
  let found ← L.isInList item
  assertMsg (found = false) ""
  if L.numInList = 0 then added { L with first := some element, last := some element } item
  else do
    let L ← L.setNext (some element) L.last
    added { L with last := some element } item

/-- `List<T>::Prepend`. -/
def prepend (L : CellList Addr α) (element : Addr) (item : α) :
    Except Fault (CellList Addr α) := do
  let L := L.alloc element item
  let found ← L.isInList item
  assertMsg (found = false) ""
  if L.numInList = 0 then added { L with first := some element, last := some element } item
  else do
    let L ← L.setNext L.first (some element)
    added { L with first := some element } item

omit [DecidableEq α] in
/-- `List<T>::RemoveFront`. -/
def removeFront (L : CellList Addr α) : Except Fault (α × CellList Addr α) := do
  let element := L.first
  assertMsg (L.numInList ≠ 0) ""
  let c ← L.get L.first
  let L ←
    if L.first = L.last then pure { L with first := none, last := none }
    else do
      let e ← L.get element
      pure { L with first := e.next }
  let L ← delete { L with numInList := L.numInList - 1 } element
  pure (c.item, L)

/-- The loop of `Remove`: what `ptr` is after it, and the list. -/
def removeLoop (L : CellList Addr α) (item : α) :
    Nat → Option Addr → Option Addr →
      Except Fault (Option Addr × CellList Addr α)
  | _, _, none => pure (none, L)
  | 0, _, some _ => .error .diverges
  | n + 1, prev, some ptr => do
    let c ← L.get (some ptr)
    if item = c.item then do
      let L ← L.setNext c.next prev
      let p ← L.get prev
      let L := if p.next = none then { L with last := prev } else L
      let L ← L.delete (some ptr)
      pure (some ptr, { L with numInList := L.numInList - 1 })
    else removeLoop L item n (some ptr) c.next

/-- `List<T>::Remove`. -/
def remove (L : CellList Addr α) (item : α) :
    Except Fault (CellList Addr α) := do
  let found ← L.isInList item
  assertMsg (found = true) ""
  let c ← L.get L.first
  let L ←
    if item = c.item then do
      let (removed, L) ← L.removeFront
      assertMsg (item = removed) ""
      pure L
    else do
      let (ptr, L) ← L.removeLoop item L.size L.first c.next
      assertMsg (ptr ≠ none) ""
      pure L
  let found ← L.isInList item
  assertMsg (found = false) ""
  pure L

omit [DecidableEq α] in
/-- The loop of `Insert`, from `ptr` on: the list, if it returns from inside. -/
def insertLoop (compare : α → α → Except Fault Int) (L : CellList Addr α)
    (element : Addr) (item : α) :
    Nat → Option Addr → Except Fault (Option (CellList Addr α))
  | 0, _ => .error .diverges
  | n + 1, ptr => do
    let c ← L.get ptr
    match c.next with
    | none => pure none
    | some next => do
      let d ← L.get (some next)
      let r ← compare item d.item
      if r < 0 then do
        let L ← L.setNext (some next) (some element)
        let L ← L.setNext (some element) ptr
        pure (some { L with numInList := L.numInList + 1 })
      else insertLoop compare L element item n (some next)

/-- `SortedList<T>::Insert`. -/
def insert (compare : α → α → Except Fault Int) (L : CellList Addr α)
    (element : Addr) (item : α) :
    Except Fault (CellList Addr α) := do
  let L := L.alloc element item
  let found ← L.isInList item
  assertMsg (found = false) ""
  if L.numInList = 0 then added { L with first := some element, last := some element } item
  else do
    let c ← L.get L.first
    let r ← compare item c.item
    if r < 0 then do
      let L ← L.setNext L.first (some element)
      added { L with first := some element } item
    else do
      let returned ← insertLoop compare L element item L.size L.first
      match returned with
      | some L => pure L
      | none => do
        let L ← L.setNext (some element) L.last
        added { L with last := some element } item

/-- The loop of `SanityCheck`: what `numFound` is after it. -/
def sanityLoop (L : CellList Addr α) : Nat → Int → Option Addr →
    Except Fault Int
  | 0, numFound, ptr => if ptr = L.last then pure numFound else .error .diverges
  | n + 1, numFound, ptr =>
    if ptr = L.last then pure numFound
    else do
      assertMsg (numFound + 1 ≤ L.numInList) ""
      let c ← L.get ptr
      sanityLoop L n (numFound + 1) c.next

omit [DecidableEq α] in
/-- `List<T>::SanityCheck`. -/
def sanityCheck (L : CellList Addr α) : Except Fault Unit :=
  if L.first = none then assertMsg (L.numInList = 0 ∧ L.last = none) ""
  else if L.first = L.last then do
    let c ← L.get L.last
    assertMsg (L.numInList = 1 ∧ c.next = none) ""
  else do
    let numFound ← L.sanityLoop L.size 1 L.first
    assertMsg (numFound = L.numInList) ""
    let c ← L.get L.last
    assertMsg (c.next = none) ""

omit [DecidableEq Addr] [DecidableEq α] in
/-- The loop of `SortedList<T>::SanityCheck`. -/
def sortedLoop (compare : α → α → Except Fault Int) (L : CellList Addr α) :
    Nat → Option Addr → Option Addr → Except Fault Unit
  | _, _, none => pure ()
  | 0, _, some _ => .error .diverges
  | n + 1, prev, some ptr => do
    let p ← L.get prev
    let c ← L.get (some ptr)
    let r ← compare p.item c.item
    assertMsg (r ≤ 0) ""
    sortedLoop compare L n (some ptr) c.next

omit [DecidableEq α] in
/-- `SortedList<T>::SanityCheck`. -/
def sortedSanityCheck (compare : α → α → Except Fault Int)
    (L : CellList Addr α) : Except Fault Unit := do
  L.sanityCheck
  if L.first = L.last then pure ()
  else do
    let c ← L.get L.first
    sortedLoop compare L L.size L.first c.next

end

/-! ## The elements are a chain -/

/-- The list is the chain `l`, and has no other elements. -/
structure Represents {Addr α : Type} (L : CellList Addr α)
    (l : List (Addr × α)) : Prop where
  links : Links L.cells L.first l none
  last : L.last = l.getLast?.map (·.1)
  numInList : L.numInList = l.length
  size : L.size = l.length
  addrs : (addrs l).Nodup
  items : (items l).Nodup

theorem new_represents {Addr α : Type} :
    Represents (new : CellList Addr α) [] := ⟨rfl, rfl, rfl, rfl, .nil, .nil⟩

section
variable {Addr α : Type} {L : CellList Addr α} {l : List (Addr × α)}
  {a b : Addr} {x y item : α} {next : Option Addr}

theorem get_ok {c : Cell Addr α} (h : L.cells a = some c) :
    L.get (some a) = .ok c := by
  rw [get, h]
  rfl

namespace Represents

theorem fresh (h : Represents L l) (ha : L.cells a = none) :
    a ∉ Chain.addrs l := h.links.fresh ha

theorem numInList_eq_zero (h : Represents L l) : L.numInList = 0 ↔ l = [] := by
  rw [h.numInList, Int.natCast_eq_zero, List.length_eq_zero_iff]

theorem first_cons (h : Represents L ((a, x) :: l)) :
    L.first = some a ∧ ∃ next, L.cells a = some ⟨next, x⟩ ∧
      Links L.cells next l none := h.links

theorem last_concat (h : Represents L (l ++ [(a, x)])) : L.last = some a ∧
    L.cells a = some ⟨none, x⟩ := by
  obtain ⟨_, _, ha, rfl⟩ := h.links.cut
  refine ⟨?_, ha⟩
  rw [h.last, List.getLast?_append]
  rfl

theorem last_append {l' : List (Addr × α)}
    (h : Represents L (l ++ (a, x) :: l')) (hl' : l' ≠ []) :
    L.last = l'.getLast?.map (·.1) ∧ L.last ≠ some a := by
  have hlast : L.last = l'.getLast?.map (·.1) := by
    obtain ⟨c, l', rfl⟩ := List.exists_cons_of_ne_nil hl'
    rw [h.last]
    simp [List.getLast?_cons]
  refine ⟨hlast, fun heq => ?_⟩
  obtain ⟨c, hc, hca⟩ := Option.map_eq_some_iff.mp (hlast.symm.trans heq)
  have hmem : c.1 ∈ Chain.addrs l' :=
    List.mem_map_of_mem (List.mem_of_getLast? hc)
  exact (Chain.not_mem_of_nodup h.addrs).2 (hca ▸ hmem)

end Represents

theorem isInListLoop_eq [DecidableEq α] :
    ∀ {l : List (Addr × α)} {n : Nat} {p : Option Addr},
    Links L.cells p l none → l.length ≤ n →
      L.isInListLoop item n p = .ok (decide (item ∈ items l))
  | [], n, _, rfl, _ => by
      rw [isInListLoop]
      rfl
  | (a, x) :: l, n + 1, _, ⟨rfl, next, ha, hl⟩, hn => by
      rw [isInListLoop, get_ok ha, Outcome.ok_bind]
      by_cases hx : item = x
      · rw [if_pos hx, decide_eq_true (hx ▸ .head _)]
        rfl
      · have hmem : item ∈ items ((a, x) :: l) ↔ item ∈ items l :=
          ⟨fun h => (List.mem_cons.mp h).resolve_left hx, .tail _⟩
        rw [if_neg hx, isInListLoop_eq hl (Nat.le_of_succ_le_succ hn),
          decide_eq_decide.mpr hmem]

theorem isInList_eq [DecidableEq α] (hl : Links L.cells L.first l none)
    (hsize : l.length ≤ L.size) :
    L.isInList item = .ok (decide (item ∈ items l)) := isInListLoop_eq hl hsize

theorem Represents.isInList_eq [DecidableEq α] (h : Represents L l) :
    L.isInList item = .ok (decide (item ∈ Chain.items l)) :=
  CellList.isInList_eq h.links (Nat.le_of_eq h.size.symm)

variable [DecidableEq Addr]

theorem setNext_ok {n : Option Addr} (h : L.cells a = some ⟨n, x⟩) :
    L.setNext next (some a) =
      .ok { L with cells := Function.update L.cells a (some ⟨next, x⟩) } := by
  rw [setNext, get_ok h]
  rfl

theorem delete_ok {c : Cell Addr α} (h : L.cells a = some c) :
    L.delete (some a) = .ok { L with cells := Function.update L.cells a none, size := L.size - 1 } := by
  rw [delete, get_ok h]
  rfl

end

end CellList

end EroikoBlue
