/-
# `Lib.Chain` — singly linked cells

A heap holds cells at addresses; a cell has an item and the address of the next
cell, or none at the end.  A chain is given by its cells, each an address with
an item, and `Links h p l q` says that the links lead from `p` through exactly
the cells `l` to `q`:

    p = a₀,  a₀.next = a₁,  …,  aₙ.next = q

A chain is cut and joined at any cell (`links_append`), what is written outside
it leaves it alone (`Links.frame`), and writing a link leads it elsewhere
(`Links.redirect`).  To put a cell in after another and to take one out is to
write one link (`Links.insertAfter`, `Links.removeAfter`).
-/
import Mathlib.Logic.Function.Basic
import Mathlib.Data.List.Nodup

namespace Chain

open Function (update)

structure Cell (Addr α : Type) where
  next : Option Addr
  item : α

/-- The cells that exist, by their addresses. -/
abbrev Cells (Addr α : Type) := Addr → Option (Cell Addr α)

section
variable {Addr α : Type}

/-- From `p` the links lead through the cells `l` to `q`. -/
def Links (h : Cells Addr α) : Option Addr → List (Addr × α) →
    Option Addr → Prop
  | p, [], q => p = q
  | p, (a, x) :: l, q => p = some a ∧ ∃ next, h a = some ⟨next, x⟩ ∧
        Links h next l q

def addrs (l : List (Addr × α)) : List Addr := l.map (·.1)

def items (l : List (Addr × α)) : List α := l.map (·.2)

variable {h : Cells Addr α} {p q : Option Addr} {a b : Addr} {x y : α}
  {l l' : List (Addr × α)}

@[simp] theorem addrs_cons : addrs ((a, x) :: l) = a :: addrs l := rfl
@[simp] theorem addrs_append : addrs (l ++ l') = addrs l ++ addrs l' :=
  List.map_append
@[simp] theorem items_cons : items ((a, x) :: l) = x :: items l := rfl
@[simp] theorem items_append : items (l ++ l') = items l ++ items l' :=
  List.map_append

theorem not_mem_of_nodup (hnodup : (addrs (l ++ (a, x) :: l')).Nodup) :
    a ∉ addrs l ∧ a ∉ addrs l' := by
  rw [addrs_append, addrs_cons] at hnodup
  have h := List.nodup_middle.mp hnodup
  rw [List.nodup_cons, List.mem_append, not_or] at h
  exact h.1

theorem links_append : ∀ {l : List (Addr × α)} {p : Option Addr},
    Links h p (l ++ l') q ↔ ∃ r, Links h p l r ∧ Links h r l' q
  | [], p => by
      constructor
      · intro hl
        exact ⟨p, rfl, hl⟩
      · rintro ⟨_, rfl, hl⟩
        exact hl
  | (a, x) :: l, p => by
      constructor
      · rintro ⟨hp, next, ha, hl⟩
        obtain ⟨r, hr, hr'⟩ := links_append.mp hl
        exact ⟨r, ⟨hp, next, ha, hr⟩, hr'⟩
      · rintro ⟨r, ⟨hp, next, ha, hr⟩, hr'⟩
        exact ⟨hp, next, ha, links_append.mpr ⟨r, hr, hr'⟩⟩

namespace Links

/-- The cell in the middle, with what leads to it and what it leads to. -/
theorem cut (hl : Links h p (l ++ (a, x) :: l') q) :
    Links h p l (some a) ∧ ∃ next, h a = some ⟨next, x⟩ ∧
      Links h next l' q := by
  obtain ⟨_, hl, rfl, next, ha, hl'⟩ := links_append.mp hl
  exact ⟨hl, next, ha, hl'⟩

theorem exists_cell (hl : Links h p l q) (ha : a ∈ addrs l) :
    ∃ c, h a = some c := by
  obtain ⟨⟨b, x⟩, hmem, rfl⟩ := List.mem_map.mp ha
  obtain ⟨before, after, rfl⟩ := List.append_of_mem hmem
  obtain ⟨_, next, hcell, _⟩ := hl.cut
  exact ⟨⟨next, x⟩, hcell⟩

theorem fresh (hl : Links h p l q) (ha : h a = none) : a ∉ addrs l := by
  intro hmem
  obtain ⟨c, hc⟩ := hl.exists_cell hmem
  rw [ha] at hc
  cases hc

theorem congr {h' : Cells Addr α} : ∀ {l : List (Addr × α)} {p : Option Addr},
    Links h p l q →
    (∀ a ∈ addrs l, h' a = h a) → Links h' p l q
  | [], _, hl, _ => hl
  | (a, _) :: _, _, ⟨hp, next, ha, hl⟩, hsame =>
      ⟨hp, next, (hsame a (.head _)).trans ha,
        hl.congr fun b hb => hsame b (.tail _ hb)⟩

variable [DecidableEq Addr]

theorem frame (hl : Links h p l q) (ha : a ∉ addrs l)
    (c : Option (Cell Addr α)) : Links (update h a c) p l q :=
  hl.congr fun _ hb => Function.update_of_ne (ne_of_mem_of_not_mem hb ha) _ _

/-- The cell at `a` is made to lead to `q'`, where another chain begins. -/
theorem redirect {q' r : Option Addr} (hl : Links h p l (some a))
    (ha : a ∉ addrs l) (hl' : Links h q' l' r) (ha' : a ∉ addrs l') :
    Links (update h a (some ⟨q', x⟩)) p (l ++ (a, x) :: l') r :=
  links_append.mpr ⟨some a, hl.frame ha _, rfl, q', Function.update_self _ _ _,
    hl'.frame ha' _⟩

theorem insertAfter {next : Option Addr} (hl : Links h p (l ++ (a, x) :: l') q)
    (hnodup : (addrs (l ++ (a, x) :: l')).Nodup) (ha : h a = some ⟨next, x⟩)
    (hb : h b = some ⟨next, y⟩) (hne : a ≠ b) : Links
    (update h a (some ⟨some b, x⟩)) p (l ++ (a, x) :: (b, y) :: l') q := by
  obtain ⟨hbefore, hafter⟩ := not_mem_of_nodup hnodup
  obtain ⟨hl, next', ha', hl'⟩ := hl.cut
  obtain rfl : next = next' := by
    rw [ha] at ha'
    cases ha'
    rfl
  have hrest : Links h (some b) ((b, y) :: l') q := ⟨rfl, next, hb, hl'⟩
  refine hl.redirect hbefore hrest ?_
  rw [addrs_cons, List.mem_cons, not_or]
  exact ⟨hne, hafter⟩

theorem removeAfter {next : Option Addr}
    (hl : Links h p (l ++ (a, x) :: (b, y) :: l') q)
    (hnodup : (addrs (l ++ (a, x) :: (b, y) :: l')).Nodup)
    (hb : h b = some ⟨next, y⟩) :
    Links (update h a (some ⟨next, x⟩)) p (l ++ (a, x) :: l') q := by
  obtain ⟨hbefore, hafter⟩ := not_mem_of_nodup hnodup
  obtain ⟨hl, _, _, rfl, next', hb', hl'⟩ := hl.cut
  obtain rfl : next = next' := by
    rw [hb] at hb'
    cases hb'
    rfl
  exact hl.redirect hbefore hl' fun hmem => hafter (.tail _ hmem)

end Links

end

end Chain
