/-
# `Lib.BoundedMap` — a partial map with a bounded number of keys

The abstract view of a table of fixed size: a partial function whose domain has
at most `bound` members.  The domain and the bound are fields, so that neither
can be broken.  `add` refuses a key that is there, and a new one when the map is
full; `remove` refuses a key that is not there; a refusal leaves the map as it
is.

It is what a directory is for, with the table, the order of its slots and the
names that removed entries leave behind taken away.  `add` and `remove` return
whether they did anything, so a program that answers with a flag can be compared
with them.
-/
import Mathlib.Data.Finset.Card

structure BoundedMap (K V : Type) [DecidableEq K] (bound : Nat) where
  lookup : K → Option V
  dom : Finset K
  mem_dom : ∀ k, k ∈ dom ↔ (lookup k).isSome
  card_le : dom.card ≤ bound

namespace BoundedMap

variable {K V : Type} [DecidableEq K] {bound : Nat}

def empty : BoundedMap K V bound where
  lookup := fun _ => none
  dom := ∅
  mem_dom := by simp
  card_le := Nat.zero_le bound

/-- A new key, where there is room for it. -/
def insert (m : BoundedMap K V bound) (k : K) (v : V) (hnew : m.lookup k = none)
    (hroom : m.dom.card < bound) :
    BoundedMap K V bound where
  lookup := Function.update m.lookup k (some v)
  dom := Insert.insert k m.dom
  mem_dom := by
    intro k'
    rw [Finset.mem_insert, m.mem_dom]
    by_cases hk : k' = k
    · subst hk
      simp
    · simp [hk]
  card_le := by
    have hout : k ∉ m.dom := by simp [m.mem_dom, hnew]
    rw [Finset.card_insert_of_notMem hout]
    exact hroom

def erase (m : BoundedMap K V bound) (k : K) : BoundedMap K V bound where
  lookup := Function.update m.lookup k none
  dom := m.dom.erase k
  mem_dom := by
    intro k'
    rw [Finset.mem_erase, m.mem_dom]
    by_cases hk : k' = k
    · subst hk
      simp
    · simp [hk]
  card_le :=
    Nat.le_trans (Finset.card_le_card (Finset.erase_subset k m.dom)) m.card_le

def add (m : BoundedMap K V bound) (k : K)
    (v : V) : Bool × BoundedMap K V bound :=
  if h : m.lookup k = none ∧ m.dom.card < bound then
    (true, m.insert k v h.1 h.2) else (false, m)

def remove (m : BoundedMap K V bound) (k : K) : Bool × BoundedMap K V bound :=
  if (m.lookup k).isSome then (true, m.erase k) else (false, m)

variable {m : BoundedMap K V bound} {k : K} {v : V}

theorem add_of_room (hnew : m.lookup k = none) (hroom : m.dom.card < bound) :
    m.add k v = (true, m.insert k v hnew hroom) := dif_pos ⟨hnew, hroom⟩

theorem add_of_not (h : ¬ (m.lookup k = none ∧ m.dom.card < bound)) :
    m.add k v = (false, m) := dif_neg h

theorem remove_of_some (h : (m.lookup k).isSome) :
    m.remove k = (true, m.erase k) := if_pos h

theorem remove_of_none (h : m.lookup k = none) : m.remove k = (false, m) :=
  if_neg (by simp [h])

end BoundedMap
