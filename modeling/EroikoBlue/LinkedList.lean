/-
# `LinkedList` — the list of `lib/list.cc`

`List<T>`, `SortedList<T>` and `ListIterator<T>`, the same in MP2 and MP3, over
lists.  Every way of adding an item asserts that it is not in the list yet, so
an item stands for its element: an iterator is the item it stands at, or `none`
at the end.

The pointers are the subject of `CellList`, where the same operations are run on
cells and shown to agree with these.  Here are the lists that the other modules
use, with one lemma for what each operation returns when its assertion holds.
-/
import EroikoBlue.Debug
import EroikoBlue.Lib.SortedList

namespace EroikoBlue.LinkedList

section
variable {α : Type} [DecidableEq α]

/-- `List<T>::Append`. -/
def append (l : List α) (item : α) : Except Fault (List α) := do
  assertMsg (item ∉ l) ""
  let l := l ++ [item]
  assertMsg (item ∈ l) ""
  pure l

/-- `List<T>::Prepend`. -/
def prepend (l : List α) (item : α) : Except Fault (List α) := do
  assertMsg (item ∉ l) ""
  let l := item :: l
  assertMsg (item ∈ l) ""
  pure l

/-- `List<T>::RemoveFront`. -/
def removeFront : List α → Except Fault (α × List α)
  | [] => .error (.assertFailed "")
  | thing :: l => pure (thing, l)

/-- `List<T>::Remove`. -/
def remove (l : List α) (item : α) : Except Fault (List α) := do
  assertMsg (item ∈ l) ""
  let l := l.erase item
  assertMsg (item ∉ l) ""
  pure l

/-- `SortedList<T>::Insert`.  The return from inside its loop skips the last
assertion, which holds there too. -/
def insert (compare : α → α → Except Fault Int) (l : List α) (item : α) :
    Except Fault (List α) := do
  assertMsg (item ∉ l) ""
  let l ← SortedList.place compare item l
  assertMsg (item ∈ l) ""
  pure l

/-- `ListIterator<T>::Next`; the element may have been deleted under the
iterator. -/
def next (l : List α) (current : α) : Except Fault (Option α) :=
  match l.dropWhile (· ≠ current) with
  | [] => .error (.undefined "the element of the iterator was deleted")
  | _ :: rest => pure rest.head?

/-- `SortedList<T>::SanityCheck`: neighbours are compared, twice.  What
`List<T>::SanityCheck` counts along the links, a list does not store. -/
def sanityCheck (compare : α → α → Except Fault Int) : List α →
    Except Fault Unit
  | prev :: ptr :: l => do
    let c ← compare prev ptr
    assertMsg (c ≤ 0) ""
    let c ← compare prev ptr
    assertMsg (c ≤ 0) ""
    sanityCheck compare (ptr :: l)
  | _ => pure ()

theorem append_ok {l : List α} {item : α} (h : item ∉ l) :
    append l item = .ok (l ++ [item]) := by
  have hmem : item ∈ l ++ [item] := List.mem_append_right _ (.head _)
  rw [append, assertMsg_pos h, Outcome.ok_bind]
  dsimp only
  rw [assertMsg_pos hmem]
  rfl

theorem append_error {l : List α} {item : α} (h : item ∈ l) :
    append l item = .error (.assertFailed "") := by
  rw [append, assertMsg_neg (not_not_intro h)]
  rfl

theorem append_eq_ok {l l' : List α} {item : α} (h : append l item = .ok l') :
    item ∉ l ∧ l' = l ++ [item] := by
  by_cases hmem : item ∈ l
  · cases (append_error hmem).symm.trans h
  · cases (append_ok hmem).symm.trans h
    exact ⟨hmem, rfl⟩

theorem prepend_ok {l : List α} {item : α} (h : item ∉ l) :
    prepend l item = .ok (item :: l) := by
  have hmem : item ∈ item :: l := .head _
  rw [prepend, assertMsg_pos h, Outcome.ok_bind]
  dsimp only
  rw [assertMsg_pos hmem]
  rfl

theorem remove_ok {l : List α} {item : α} (hl : l.Nodup) (h : item ∈ l) :
    remove l item = .ok (l.erase item) := by
  rw [remove, assertMsg_pos h, Outcome.ok_bind]
  dsimp only
  rw [assertMsg_pos hl.not_mem_erase]
  rfl

theorem insert_ok {compare : α → α → Except Fault Int} {cmp : α → Int}
    {l : List α} {item : α} (h : item ∉ l)
    (hcmp : ∀ x ∈ l, compare item x = .ok (cmp x)) :
    ∃ l', insert compare l item = .ok l' ∧ SortedList.Placed cmp item l l' := by
  obtain ⟨l', hl', hplaced⟩ := SortedList.place_ok hcmp
  refine ⟨l', ?_, hplaced⟩
  rw [insert, assertMsg_pos h, Outcome.ok_bind, hl', Outcome.ok_bind,
    assertMsg_pos (hplaced.mem.mpr (.inl rfl)), Outcome.ok_bind]
  rfl

omit [DecidableEq α] in
theorem sanityCheck_ok {compare : α → α → Except Fault Int}
    {cmp : α → α → Int} : ∀ {l : List α},
    (∀ x ∈ l, ∀ y ∈ l, compare x y = .ok (cmp x y)) →
      l.Pairwise (fun x y => cmp x y ≤ 0) →
      sanityCheck compare l = .ok ()
  | [], _, _ => rfl
  | [_], _, _ => rfl
  | x :: y :: l, hcmp, hl => by
      obtain ⟨hx, hrest⟩ := List.pairwise_cons.mp hl
      have hxy := hx y (.head _)
      rw [sanityCheck, hcmp x (.head _) y (.tail _ (.head _)), Outcome.ok_bind,
        assertMsg_pos hxy, Outcome.ok_bind,
        Outcome.ok_bind, assertMsg_pos hxy, Outcome.ok_bind]
      exact sanityCheck_ok
        (fun a ha b hb => hcmp a (.tail _ ha) b (.tail _ hb)) hrest

theorem next_ok {a b : List α} {current : α} (h : current ∉ a) :
    next (a ++ current :: b) current = .ok b.head? := by
  have hdrop : (a ++ current :: b).dropWhile (· ≠ current) = current :: b := by
    rw [List.dropWhile_append_of_pos
      fun x hx => by simpa using ne_of_mem_of_not_mem hx h]
    simp
  rw [next, hdrop]
  rfl

end

end EroikoBlue.LinkedList
