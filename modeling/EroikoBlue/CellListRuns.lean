/-
# `CellListRuns` — every operation takes one chain to another

Each operation of `CellList` that passes its first assertion takes a list that
is the chain `l` to one that is another chain (one theorem `…_ok` for each), and
passes its other assertions too:

    Append    l                        ↦  l ++ [item]
    Prepend   l                        ↦  item :: l
    Insert    before ++ after          ↦  before ++ item :: after
    Remove    before ++ item :: after  ↦  before ++ after

The loops start at `first` and the invariant is about where they are: what they
have passed, the cell they are at, and the chain that is left.  Addresses take
part in none of it but as names: an operation may be given any address that is
not in use.

So every run is a run of the plain list of the items (`list_representation`),
which is that of `LinkedList` (`Op.linked_ok`): what the other modules say about
a list as a sequence holds of the list by its cells.
-/
import EroikoBlue.CellList

namespace EroikoBlue

open Chain (Cell Cells Links addrs items)
open SortedList (Placed TotalPreorder)

namespace CellList

section
variable {Addr α : Type} {L : CellList Addr α} {l : List (Addr × α)}
  {a b : Addr} {x y item : α} {next : Option Addr}
variable [DecidableEq Addr]

/-! ## The operations -/

section
variable [DecidableEq α]

omit [DecidableEq Addr] in
theorem added_ok (h : Represents { L with numInList := L.numInList + 1 } l)
    (hitem : item ∈ items l) :
    L.added item = .ok { L with numInList := L.numInList + 1 } := by
  rw [added, h.isInList_eq, Outcome.ok_bind, decide_eq_true hitem,
    assertMsg_pos rfl]
  rfl

theorem Represents.alloc (h : Represents L l) (ha : L.cells a = none)
    (hitem : item ∉ Chain.items l) :
    Links (L.alloc a item).cells L.first l none ∧
      (L.alloc a item).isInList item = .ok false := by
  have hl : Links (L.alloc a item).cells L.first l none :=
    h.links.frame (h.fresh ha) _
  refine ⟨hl, ?_⟩
  have hsize : l.length ≤ (L.alloc a item).size := by
    show l.length ≤ L.size + 1
    rw [h.size]
    exact Nat.le_succ _
  rw [CellList.isInList_eq hl hsize, decide_eq_false hitem]

omit [DecidableEq α] in
theorem Represents.singleton (h : Represents L []) (a : Addr) (item : α) :
    Represents { L.alloc a item with first := some a, last := some a, numInList := L.numInList + 1 } [(a, item)] where
  links := ⟨rfl, none, Function.update_self _ _ _, rfl⟩
  last := rfl
  numInList := by
    show L.numInList + 1 = _
    rw [h.numInList]
    rfl
  size := by
    show L.size + 1 = _
    rw [h.size]
    rfl
  addrs := List.pairwise_singleton _ _
  items := List.pairwise_singleton _ _

omit [DecidableEq α] in
theorem Represents.insertAfter {l' : List (Addr × α)}
    (h : Represents L (l ++ (b, x) :: l'))
    (ha : L.cells a = none) (hitem : item ∉ Chain.items (l ++ (b, x) :: l'))
    (hb : L.cells b = some ⟨next, x⟩) :
    Represents {
      cells := Function.update (Function.update L.cells a (some ⟨next, item⟩)) b
        (some ⟨some a, x⟩)
      size := L.size + 1
      first := L.first
      last := if l' = [] then some a else L.last
      numInList := L.numInList + 1 } (l ++ (b, x) :: (a, item) :: l') := by
  have hfresh := h.fresh ha
  have hne : b ≠ a := by
    rintro rfl
    rw [ha] at hb
    cases hb
  have hperm : (l ++ (b, x) :: (a, item) :: l').Perm
      ((a, item) :: (l ++ (b, x) :: l')) :=
    ((List.Perm.swap _ _ _).append_left l).trans List.perm_middle
  have hlength : (l ++ (b, x) :: (a, item) :: l').length =
    (l ++ (b, x) :: l').length + 1 := hperm.length_eq
  refine ⟨?_, ?_, ?_, ?_, ?_, ?_⟩
  · refine (h.links.frame hfresh _).insertAfter h.addrs ?_
      (Function.update_self _ _ _) hne
    rw [Function.update_of_ne hne]
    exact hb
  · show (if l' = [] then some a else L.last) = _
    cases l' with
    | nil => simp
    | cons c l' =>
        rw [if_neg (List.cons_ne_nil _ _), h.last]
        simp
  · show L.numInList + 1 = _
    rw [h.numInList, hlength]
    rfl
  · show L.size + 1 = _
    rw [h.size, hlength]
  · exact (hperm.map Prod.fst).nodup_iff.mpr
      (List.nodup_cons.mpr ⟨hfresh, h.addrs⟩)
  · exact (hperm.map Prod.snd).nodup_iff.mpr
      (List.nodup_cons.mpr ⟨hitem, h.items⟩)

omit [DecidableEq α] in
theorem alloc_numInList : (L.alloc a item).numInList = L.numInList := rfl

omit [DecidableEq α] in
theorem update_cells {c : Cell Addr α} {o : Option (Cell Addr α)}
    (ha : L.cells a = none) (hb : L.cells b = some c) :
    Function.update L.cells a o b = some c := by
  have hne : b ≠ a := by
    rintro rfl
    rw [ha] at hb
    cases hb
  exact (Function.update_of_ne hne _ _).trans hb

omit [DecidableEq α] in
theorem alloc_cells {c : Cell Addr α} (ha : L.cells a = none)
    (hb : L.cells b = some c) :
    (L.alloc a item).cells b = some c := update_cells ha hb

omit [DecidableEq α] in
theorem alloc_setNext : (L.alloc a item).setNext next (some a) =
    .ok { L with cells := Function.update L.cells a (some ⟨next, item⟩), size := L.size + 1 } := by
  rw [setNext_ok (Function.update_self _ _ _), alloc, Function.update_idem]

theorem only_ok (h : Represents L []) (a : Addr) (item : α) :
    ∃ L', { L.alloc a item with first := some a, last := some a }.added item = .ok L' ∧
      Represents L' [(a, item)] := by
  have hr := h.singleton a item
  exact ⟨_, added_ok hr (.head _), hr⟩

theorem front_ok (h : Represents L l) (ha : L.cells a = none)
    (hitem : item ∉ items l) (hl : l ≠ []) :
    ∃ L₁ L', (L.alloc a item).setNext L.first (some a) = .ok L₁ ∧
      { L₁ with first := some a }.added item = .ok L' ∧
      Represents L' ((a, item) :: l) := by
  have hfresh := h.fresh ha
  have hr : Represents {
      cells := Function.update (L.alloc a item).cells a (some ⟨L.first, item⟩)
      size := L.size + 1
      first := some a
      last := L.last
      numInList := L.numInList + 1 } ((a, item) :: l) := by
    refine ⟨⟨rfl, L.first, Function.update_self _ _ _,
      (h.links.frame hfresh _).frame hfresh _⟩, ?_, ?_, ?_,
      List.nodup_cons.mpr ⟨hfresh, h.addrs⟩, List.nodup_cons.mpr
        ⟨hitem, h.items⟩⟩
    · obtain ⟨c, l, rfl⟩ := List.exists_cons_of_ne_nil hl
      rw [List.getLast?_cons_cons]
      exact h.last
    · show L.numInList + 1 = _
      rw [h.numInList]
      rfl
    · show L.size + 1 = _
      rw [h.size]
      rfl
  exact ⟨_, _, setNext_ok (Function.update_self _ _ _),
    added_ok hr (.head _), hr⟩

theorem back_ok (h : Represents L l) (ha : L.cells a = none)
    (hitem : item ∉ items l) (hl : l ≠ []) :
    ∃ L₁ L', (L.alloc a item).setNext (some a) L.last = .ok L₁ ∧
      { L₁ with last := some a }.added item = .ok L' ∧
      Represents L' (l ++ [(a, item)]) := by
  obtain ⟨l, ⟨b, x⟩, rfl⟩ := (List.eq_nil_or_concat' l).resolve_left hl
  obtain ⟨hlast, hb⟩ := h.last_concat
  have hr := h.insertAfter ha hitem hb
  rw [if_pos rfl, List.append_cons] at hr
  rw [hlast]
  exact ⟨_, _, setNext_ok (alloc_cells ha hb), added_ok hr (by simp), hr⟩

theorem append_ok (h : Represents L l) (ha : L.cells a = none)
    (hitem : item ∉ items l) :
    ∃ L', L.append a item = .ok L' ∧ Represents L' (l ++ [(a, item)]) := by
  obtain ⟨_, hfound⟩ := h.alloc ha hitem
  rw [append, hfound, Outcome.ok_bind, assertMsg_pos rfl, Outcome.ok_bind]
  by_cases hl : l = []
  · subst hl
    rw [alloc_numInList, if_pos (h.numInList_eq_zero.mpr rfl)]
    exact only_ok h a item
  · obtain ⟨L₁, L', hset, hadded, hr⟩ := back_ok h ha hitem hl
    rw [alloc_numInList, if_neg (mt h.numInList_eq_zero.mp hl)]
    exact ⟨L', Outcome.bind_eq_ok.mpr ⟨L₁, hset, hadded⟩, hr⟩

theorem prepend_ok (h : Represents L l) (ha : L.cells a = none)
    (hitem : item ∉ items l) :
    ∃ L', L.prepend a item = .ok L' ∧ Represents L' ((a, item) :: l) := by
  obtain ⟨_, hfound⟩ := h.alloc ha hitem
  rw [prepend, hfound, Outcome.ok_bind, assertMsg_pos rfl, Outcome.ok_bind]
  by_cases hl : l = []
  · subst hl
    rw [alloc_numInList, if_pos (h.numInList_eq_zero.mpr rfl)]
    exact only_ok h a item
  · obtain ⟨L₁, L', hset, hadded, hr⟩ := front_ok h ha hitem hl
    rw [alloc_numInList, if_neg (mt h.numInList_eq_zero.mp hl)]
    exact ⟨L', Outcome.bind_eq_ok.mpr ⟨L₁, hset, hadded⟩, hr⟩

omit [DecidableEq α] in
theorem removeFront_ok (h : Represents L ((a, x) :: l)) :
    ∃ L', L.removeFront = .ok (x, L') ∧ Represents L' l := by
  obtain ⟨hfirst, next, ha, hl⟩ := h.first_cons
  have hne : L.numInList ≠ 0 := mt h.numInList_eq_zero.mp (List.cons_ne_nil _ _)
  obtain ⟨hfresh, haddrs⟩ := List.nodup_cons.mp h.addrs
  obtain ⟨_, hitems⟩ := List.nodup_cons.mp h.items
  have hnum : L.numInList - 1 = l.length := by
    rw [h.numInList, List.length_cons]
    omega
  have hsize : L.size - 1 = l.length := by
    rw [h.size]
    rfl
  rw [removeFront]
  dsimp only
  rw [assertMsg_pos hne, Outcome.ok_bind, hfirst, get_ok ha, Outcome.ok_bind]
  by_cases hnil : l = []
  · subst hnil
    have hlast : L.last = some a := h.last
    rw [if_pos hlast.symm, Outcome.pure_eq_ok, Outcome.ok_bind]
    exact ⟨_, Outcome.bind_eq_ok.mpr ⟨_, delete_ok ha, rfl⟩, rfl, rfl, hnum,
      hsize, .nil, .nil⟩
  · obtain ⟨hlast, hne⟩ := h.last_append (l := []) hnil
    rw [if_neg hne.symm, Outcome.ok_bind, Outcome.pure_eq_ok, Outcome.ok_bind]
    exact ⟨_, Outcome.bind_eq_ok.mpr ⟨_, delete_ok ha, rfl⟩, hl.frame hfresh _,
      hlast, hnum, hsize, haddrs, hitems⟩

omit [DecidableEq α] in
theorem Represents.removeAfter {l' : List (Addr × α)}
    (h : Represents L (l ++ (b, x) :: (a, y) :: l'))
    (ha : L.cells a = some ⟨next, y⟩) :
    Represents {
      cells :=
  Function.update (Function.update L.cells b (some ⟨next, x⟩)) a none
      size := L.size - 1
      first := L.first
      last := if next = none then some b else L.last
      numInList := L.numInList - 1 } (l ++ (b, x) :: l') := by
  have hperm : (l ++ (b, x) :: (a, y) :: l').Perm
      ((a, y) :: (l ++ (b, x) :: l')) :=
    ((List.Perm.swap _ _ _).append_left l).trans List.perm_middle
  have hlength : (l ++ (b, x) :: (a, y) :: l').length =
    (l ++ (b, x) :: l').length + 1 := hperm.length_eq
  obtain ⟨hfresh, haddrs⟩ :=
    List.nodup_cons.mp ((hperm.map Prod.fst).nodup_iff.mp h.addrs)
  obtain ⟨_, hitems⟩ :=
    List.nodup_cons.mp ((hperm.map Prod.snd).nodup_iff.mp h.items)
  refine ⟨(h.links.removeAfter h.addrs ha).frame hfresh _, ?_, ?_, ?_,
    haddrs, hitems⟩
  · -- the link of the element says whether it is the last
    have hl' : Links L.cells next l' none := by
      have hl := h.links
      rw [List.append_cons] at hl
      obtain ⟨_, next', ha', hl'⟩ := hl.cut
      rw [ha] at ha'
      cases ha'
      exact hl'
    show (if next = none then some b else L.last) = _
    cases l' with
    | nil =>
        obtain rfl : next = none := hl'
        simp
    | cons c l' =>
        obtain ⟨rfl, _⟩ := hl'
        rw [if_neg nofun, h.last]
        simp
  · show L.numInList - 1 = _
    rw [h.numInList, hlength]
    omega
  · show L.size - 1 = _
    rw [h.size, hlength]
    rfl

theorem removeLoop_ok : ∀ {l' l : List (Addr × α)} {b : Addr} {x : α} {n : Nat}
    {next : Option Addr},
    Represents L (l ++ (b, x) :: l') → L.cells b = some ⟨next, x⟩ →
      item ∈ items l' → l'.length ≤ n →
      ∃ before after a L', l ++ (b, x) :: l' = before ++ (a, item) :: after ∧
        L.removeLoop item n (some b) next = .ok (some a, L') ∧
        Represents L' (before ++ after)
  | (a, y) :: l', l, b, x, n + 1, next, h, hb, hmem, hn => by
      obtain ⟨_, next', hb', rfl, next'', ha, _⟩ := h.links.cut
      obtain rfl : next = some a := by
        rw [hb] at hb'
        cases hb'
        rfl
      have hne : a ≠ b := by
        rintro rfl
        exact (Chain.not_mem_of_nodup h.addrs).2 (.head _)
      rw [removeLoop, get_ok ha, Outcome.ok_bind]
      by_cases hy : item = y
      · subst hy
        have hr := h.removeAfter ha
        have ha' : Function.update L.cells b (some ⟨next'', x⟩) a =
            some ⟨next'', item⟩ :=
          (Function.update_of_ne hne _ _).trans ha
        rw [if_pos rfl, setNext_ok hb, Outcome.ok_bind,
          get_ok (Function.update_self _ _ _), Outcome.ok_bind]
        rw [List.append_cons] at h ⊢
        refine ⟨_, _, _, _, rfl, ?_, by rw [← List.append_cons]; exact hr⟩
        cases next'' with
        | none => exact Outcome.bind_eq_ok.mpr ⟨_, delete_ok ha', rfl⟩
        | some z => exact Outcome.bind_eq_ok.mpr ⟨_, delete_ok ha', rfl⟩
      · rw [if_neg hy]
        rw [List.append_cons] at h ⊢
        exact removeLoop_ok h ha ((List.mem_cons.mp hmem).resolve_left hy)
          (Nat.le_of_succ_le_succ hn)

omit [DecidableEq Addr] in
theorem items_erase {l' : List (Addr × α)}
    (hnodup : (items (l ++ (a, item) :: l')).Nodup) :
    items (l ++ l') = (items (l ++ (a, item) :: l')).erase item := by
  rw [Chain.items_append, Chain.items_cons] at hnodup
  have hmem : item ∉ items l := fun hmem =>
    (List.nodup_cons.mp (List.nodup_middle.mp hnodup)).1
      (List.mem_append_left _ hmem)
  rw [Chain.items_append, Chain.items_append, Chain.items_cons,
    List.erase_append_right _ hmem,
    List.erase_cons_head]

omit [DecidableEq Addr] in
theorem Represents.gone {l' : List (Addr × α)} (h : Represents L l)
    (hnodup : (Chain.items l').Nodup)
    (heq : Chain.items l = (Chain.items l').erase item) :
    L.isInList item = .ok false := by
  have hnot : item ∉ Chain.items l := heq ▸ hnodup.not_mem_erase
  rw [h.isInList_eq, decide_eq_false hnot]

theorem remove_ok (h : Represents L l) (hitem : item ∈ items l) :
    ∃ L' l', L.remove item = .ok L' ∧ Represents L' l' ∧
      items l' = (items l).erase item := by
  rw [remove, h.isInList_eq, Outcome.ok_bind, decide_eq_true hitem,
    assertMsg_pos rfl, Outcome.ok_bind]
  cases l with
  | nil => exact absurd hitem List.not_mem_nil
  | cons c l =>
      obtain ⟨a, x⟩ := c
      obtain ⟨hfirst, next, ha, _⟩ := h.first_cons
      rw [hfirst, get_ok ha, Outcome.ok_bind]
      by_cases hx : item = x
      · subst hx
        obtain ⟨L', hremove, hr⟩ := removeFront_ok h
        have heq : items l = (items ((a, item) :: l)).erase item :=
          items_erase (l := []) h.items
        refine ⟨L', l, ?_, hr, heq⟩
        rw [if_pos rfl, hremove, Outcome.ok_bind]
        dsimp only
        rw [assertMsg_pos rfl, Outcome.ok_bind, Outcome.pure_eq_ok,
          Outcome.ok_bind, hr.gone h.items heq,
          Outcome.ok_bind, assertMsg_pos rfl]
        rfl
      · have hlength : l.length ≤ L.size := by
          rw [h.size]
          exact Nat.le_succ _
        obtain ⟨before, after, a', L', hl, hloop, hr⟩ :=
          removeLoop_ok (l := []) h ha
            ((List.mem_cons.mp hitem).resolve_left hx) hlength
        have hl' : (a, x) :: l = before ++ (a', item) :: after := hl
        have heq : items (before ++ after) =
            (items ((a, x) :: l)).erase item := by
          rw [hl']
          exact items_erase (hl' ▸ h.items)
        refine ⟨L', before ++ after, ?_, hr, heq⟩
        rw [if_neg hx, hloop, Outcome.ok_bind]
        dsimp only
        rw [assertMsg_pos (Option.some_ne_none a'), Outcome.ok_bind,
          Outcome.pure_eq_ok, Outcome.ok_bind,
          hr.gone h.items heq, Outcome.ok_bind, assertMsg_pos rfl]
        rfl

omit [DecidableEq α] in
/-- The loop of `Insert` stops before the first item that compares greater, or
goes to the last element. -/
theorem insertLoop_ok {compare : α → α → Except Fault Int} {cmp : α → Int} :
    ∀ {l' l : List (Addr × α)} {b : Addr} {x : α} {n : Nat},
      Represents L (l ++ (b, x) :: l') →
      L.cells a = none → item ∉ items (l ++ (b, x) :: l') →
      (∀ y ∈ items l', compare item y = .ok (cmp y)) →
      l'.length < n →
      (∃ before after L', l' = before ++ after ∧
        (∀ y ∈ items before, 0 ≤ cmp y) ∧
        (∀ y ∈ (items after).head?, cmp y < 0) ∧
        insertLoop compare (L.alloc a item) a item n (some b) = .ok (some L') ∧
        Represents L' (l ++ (b, x) :: (before ++ (a, item) :: after))) ∨
      (∀ y ∈ items l', 0 ≤ cmp y) ∧
      insertLoop compare (L.alloc a item) a item n (some b) = .ok none
  | [], l, b, x, n + 1, h, ha, _, _, _ => by
      obtain ⟨_, next, hb, rfl⟩ := h.links.cut
      refine .inr ⟨nofun, ?_⟩
      rw [insertLoop, get_ok (alloc_cells ha hb)]
      rfl
  | (c, y) :: l', l, b, x, n + 1, h, ha, hitem, hcmp, hn => by
      obtain ⟨_, _, hb, rfl, next, hc, _⟩ := h.links.cut
      rw [insertLoop, get_ok (alloc_cells ha hb), Outcome.ok_bind]
      dsimp only
      rw [get_ok (alloc_cells ha hc), Outcome.ok_bind]
      dsimp only
      rw [hcmp y (.head _), Outcome.ok_bind]
      by_cases hy : cmp y < 0
      · have hr := h.insertAfter ha hitem hb
        rw [if_neg (List.cons_ne_nil _ _)] at hr
        refine .inl ⟨[], (c, y) :: l', _, rfl, nofun, ?_, ?_, hr⟩
        · rintro _ ⟨⟩
          exact hy
        · rw [if_pos hy, alloc_setNext, Outcome.ok_bind,
            setNext_ok (update_cells ha hb)]
          rfl
      · rw [if_neg hy]
        rw [List.append_cons] at h hitem
        rcases insertLoop_ok h ha hitem (fun z hz =>
            hcmp z (.tail _ hz)) (Nat.lt_of_succ_lt_succ hn) with
          ⟨before, after, L', rfl, hbefore, hafter, hloop, hr⟩ | ⟨hall, hloop⟩
        · rw [← List.append_cons] at hr
          refine .inl ⟨(c, y) :: before, after, L', rfl, ?_, hafter, hloop, hr⟩
          exact List.forall_mem_cons.mpr ⟨Int.not_lt.mp hy, hbefore⟩
        · exact .inr ⟨List.forall_mem_cons.mpr ⟨Int.not_lt.mp hy, hall⟩, hloop⟩

/-- `Insert` puts the item before the first one that compares greater. -/
theorem insert_ok (compare : α → α → Except Fault Int) {cmp : α → Int}
    (h : Represents L l) (ha : L.cells a = none) (hitem : item ∉ items l)
    (hcmp : ∀ y ∈ items l, compare item y = .ok (cmp y)) :
    ∃ L' l', insert compare L a item = .ok L' ∧ Represents L' l' ∧
      Placed cmp item (items l) (items l') := by
  obtain ⟨_, hfound⟩ := h.alloc ha hitem
  rw [insert, hfound, Outcome.ok_bind, assertMsg_pos rfl, Outcome.ok_bind,
    alloc_numInList]
  cases l with
  | nil =>
      obtain ⟨L', hadded, hr⟩ := only_ok h a item
      rw [if_pos (h.numInList_eq_zero.mpr rfl)]
      exact ⟨L', [(a, item)], hadded, hr, [], [], rfl, rfl, nofun, nofun⟩
  | cons c l =>
      obtain ⟨b, x⟩ := c
      have hl : (b, x) :: l ≠ [] := List.cons_ne_nil _ _
      obtain ⟨hfirst, next, hb, _⟩ := h.first_cons
      have hfirst' : (L.alloc a item).first = some b := hfirst
      rw [if_neg (mt h.numInList_eq_zero.mp hl), hfirst',
        get_ok (alloc_cells ha hb), Outcome.ok_bind,
        hcmp x (.head _), Outcome.ok_bind]
      by_cases hx : cmp x < 0
      · obtain ⟨L₁, L', hset, hadded, hr⟩ := front_ok h ha hitem hl
        rw [hfirst] at hset
        rw [if_pos hx, hset, Outcome.ok_bind]
        refine ⟨L', _, hadded, hr, [], x :: items l, rfl, rfl, nofun, ?_⟩
        rintro _ ⟨⟩
        exact hx
      · have hlength : l.length < L.size + 1 := by
          rw [h.size]
          exact Nat.lt_succ_of_lt (Nat.lt_succ_self _)
        rw [if_neg hx]
        rcases insertLoop_ok (l := []) h ha hitem
            (fun y hy => hcmp y (.tail _ hy)) hlength with
          ⟨before, after, L', rfl, hbefore, hafter, hloop, hr⟩ | ⟨hall, hloop⟩
        · refine ⟨L', _, Outcome.bind_eq_ok.mpr ⟨_, hloop, rfl⟩, hr,
            x :: items before, items after, ?_, ?_, ?_,
            hafter⟩
          · exact congrArg (x :: ·) Chain.items_append
          · exact congrArg (x :: ·) Chain.items_append
          · exact List.forall_mem_cons.mpr ⟨Int.not_lt.mp hx, hbefore⟩
        · obtain ⟨L₁, L', hset, hadded, hr⟩ := back_ok h ha hitem hl
          have hend : ((L.alloc a item).setNext (some a)
              (L.alloc a item).last >>= fun L =>
              { L with last := some a }.added item) = .ok L' :=
                Outcome.bind_eq_ok.mpr ⟨L₁, hset, hadded⟩
          refine ⟨L', _, Outcome.bind_eq_ok.mpr ⟨_, hloop, hend⟩, hr,
            items ((b, x) :: l), [], ?_, ?_, ?_, nofun⟩
          · exact (List.append_nil _).symm
          · exact Chain.items_append
          · exact List.forall_mem_cons.mpr ⟨Int.not_lt.mp hx, hall⟩

omit [DecidableEq α] in
theorem sanityLoop_ok : ∀ {l' l : List (Addr × α)} {b : Addr} {x : α} {n : Nat},
    Represents L (l ++ (b, x) :: l') → l'.length ≤ n →
      L.sanityLoop n (l.length + 1) (some b) = .ok L.numInList
  | [], l, b, x, n, h, _ => by
      have hnum : L.numInList = l.length + 1 := by
        rw [h.numInList, List.length_append]
        rfl
      have hlast := h.last_concat.1.symm
      cases n with
      | zero | succ n =>
          rw [sanityLoop, if_pos hlast, hnum]
          rfl
  | (c, y) :: l', l, b, x, n + 1, h, hn => by
      obtain ⟨_, _, hb, rfl, _⟩ := h.links.cut
      obtain ⟨_, hne⟩ := h.last_append (List.cons_ne_nil _ _)
      have hle : (l.length : Int) + 1 + 1 ≤ L.numInList := by
        rw [h.numInList, List.length_append, List.length_cons, List.length_cons]
        omega
      rw [sanityLoop, if_neg hne.symm, assertMsg_pos hle, Outcome.ok_bind,
        get_ok hb, Outcome.ok_bind]
      rw [List.append_cons] at h
      have ih := sanityLoop_ok h (Nat.le_of_succ_le_succ hn)
      rw [List.length_append] at ih
      exact ih

omit [DecidableEq α] in
theorem sanityCheck_ok (h : Represents L l) : L.sanityCheck = .ok () := by
  cases l with
  | nil =>
      have hfirst : L.first = none := h.links
      rw [sanityCheck, if_pos hfirst, assertMsg_pos ⟨h.numInList, h.last⟩]
  | cons c l =>
      obtain ⟨a, x⟩ := c
      obtain ⟨hfirst, _⟩ := h.first_cons
      rw [sanityCheck, hfirst, if_neg nofun]
      by_cases hl : l = []
      · subst hl
        obtain ⟨hlast, ha⟩ := h.last_concat (l := [])
        rw [hlast, if_pos rfl, get_ok ha, Outcome.ok_bind,
          assertMsg_pos ⟨h.numInList, rfl⟩]
      · obtain ⟨_, hne⟩ := h.last_append (l := []) hl
        have hlength : l.length ≤ L.size := by
          rw [h.size]
          exact Nat.le_succ _
        have hloop : L.sanityLoop L.size 1 (some a) = .ok L.numInList :=
          sanityLoop_ok (l := []) h hlength
        obtain ⟨l', ⟨b, y⟩, hl'⟩ := (List.eq_nil_or_concat'
          ((a, x) :: l)).resolve_left (List.cons_ne_nil _ _)
        obtain ⟨hlast, hb⟩ := (hl' ▸ h).last_concat
        rw [if_neg hne.symm, hloop, Outcome.ok_bind, assertMsg_pos rfl,
          Outcome.ok_bind, hlast, get_ok hb,
          Outcome.ok_bind, assertMsg_pos rfl]

section
variable {compare : α → α → Int}

omit [DecidableEq Addr] [DecidableEq α] in
theorem sortedLoop_ok : ∀ {l : List (Addr × α)} {b : Addr} {x : α} {n : Nat}
    {next : Option Addr},
    L.cells b = some ⟨next, x⟩ → Links L.cells next l none →
      (x :: items l).Pairwise (compare · · ≤ 0) →
      l.length ≤ n →
      sortedLoop (fun x y => .ok (compare x y)) L n (some b) next = .ok ()
  | [], _, _, _, _, _, rfl, _, _ => by
      rw [sortedLoop]
      rfl
  | (c, y) :: l, b, x, n + 1, _, hb, ⟨rfl, next, hc, hl⟩, hsorted, hn => by
      obtain ⟨hx, hrest⟩ := List.pairwise_cons.mp hsorted
      rw [sortedLoop, get_ok hb, Outcome.ok_bind, get_ok hc, Outcome.ok_bind,
        Outcome.ok_bind,
        assertMsg_pos (hx y (.head _)), Outcome.ok_bind]
      exact sortedLoop_ok hc hl hrest (Nat.le_of_succ_le_succ hn)

omit [DecidableEq α] in
theorem sortedSanityCheck_ok (h : Represents L l)
    (hsorted : (items l).Pairwise (compare · · ≤ 0)) :
    sortedSanityCheck (fun x y => .ok (compare x y)) L = .ok () := by
  rw [sortedSanityCheck, sanityCheck_ok h, Outcome.ok_bind]
  by_cases hfirst : L.first = L.last
  · rw [if_pos hfirst]
    rfl
  · rw [if_neg hfirst]
    cases l with
    | nil =>
        have hnone : L.first = none := h.links
        exact absurd (hnone.trans h.last.symm) hfirst
    | cons c l =>
        obtain ⟨a, x⟩ := c
        obtain ⟨hfirst, next, ha, hl⟩ := h.first_cons
        have hlength : l.length ≤ L.size := by
          rw [h.size]
          exact Nat.le_succ _
        rw [hfirst, get_ok ha, Outcome.ok_bind]
        exact sortedLoop_ok ha hl hsorted hlength

end

end

end

/-! ## Every sequence of calls -/

inductive Op (Addr α : Type) where
  | append (element : Addr) (item : α)
  | prepend (element : Addr) (item : α)
  | insert (element : Addr) (item : α)
  | remove (item : α)
  | removeFront

section
variable {Addr α : Type} [DecidableEq Addr] [DecidableEq α]
  (compare : α → α → Int)

namespace Op

/-- The call, with what it returns. -/
def run (L : CellList Addr α) : Op Addr α →
    Except Fault (Option α × CellList Addr α)
  | .append element item => do
    let L ← L.append element item
    pure (none, L)
  | .prepend element item => do
    let L ← L.prepend element item
    pure (none, L)
  | .insert element item => do
    let L ← CellList.insert (fun x y => .ok (compare x y)) L element item
    pure (none, L)
  | .remove item => do
    let L ← L.remove item
    pure (none, L)
  | .removeFront => do
    let (thing, L) ← L.removeFront
    pure (some thing, L)

omit [DecidableEq Addr] [DecidableEq α] in
/-- The address `new` gives is not in use. -/
def Fresh (L : CellList Addr α) : Op Addr α → Prop
  | .append element _ => L.cells element = none
  | .prepend element _ => L.cells element = none
  | .insert element _ => L.cells element = none
  | _ => True

omit [DecidableEq Addr] in
/-- The assertion on entry. -/
def Entry (L : CellList Addr α) : Op Addr α → Prop
  | .append _ item => L.isInList item = .ok false
  | .prepend _ item => L.isInList item = .ok false
  | .insert _ item => L.isInList item = .ok false
  | .remove item => L.isInList item = .ok true
  | .removeFront => L.numInList ≠ 0

omit [DecidableEq Addr] in
/-- The call on a plain list; `Insert` goes before the first item that compares
greater. -/
def plain (s : List α) : Op Addr α → List α
  | .append _ item => s ++ [item]
  | .prepend _ item => item :: s
  | .insert _ item => s.takeWhile (0 ≤ compare item ·) ++ item :: s.dropWhile
        (0 ≤ compare item ·)
  | .remove item => s.erase item
  | .removeFront => s.tail

omit [DecidableEq Addr] [DecidableEq α] in
/-- What the call returns, on a plain list. -/
def returns (s : List α) : Op Addr α → Option α
  | .removeFront => s.head?
  | _ => none

omit [DecidableEq Addr] in
/-- The call on the list of `LinkedList`. -/
def linked (s : List α) : Op Addr α → Except Fault (Option α × List α)
  | .append _ item => do
    let s ← LinkedList.append s item
    pure (none, s)
  | .prepend _ item => do
    let s ← LinkedList.prepend s item
    pure (none, s)
  | .insert _ item => do
    let s ← LinkedList.insert (fun x y => .ok (compare x y)) s item
    pure (none, s)
  | .remove item => do
    let s ← LinkedList.remove s item
    pure (none, s)
  | .removeFront => do
    let (thing, s) ← LinkedList.removeFront s
    pure (some thing, s)

omit [DecidableEq Addr] [DecidableEq α] in
/-- The calls of a `SortedList`, whose `Append` and `Prepend` are `Insert`. -/
def Sorting : Op Addr α → Prop
  | .append _ _ => False
  | .prepend _ _ => False
  | _ => True

end Op

/-- The lists that sequences of the calls `ok` lead to, each with its plain
list. -/
inductive Reachable (ok : Op Addr α → Prop) : CellList Addr α → List α → Prop
  | new : Reachable ok new []
  | call {L L' : CellList Addr α} {s : List α} {returned : Option α}
      (h : Reachable ok L s) (op : Op Addr α)
      (hok : ok op) (hfresh : op.Fresh L) (hentry : op.Entry L)
        (hrun : op.run compare L = .ok (returned, L')) :
      Reachable ok L' (op.plain compare s)

variable {compare} {L : CellList Addr α} {l : List (Addr × α)}
  {ok : Op Addr α → Prop} {s : List α}

omit [DecidableEq Addr] in
theorem Represents.entry {item : α} {found : Bool} (h : Represents L l)
    (hentry : L.isInList item = .ok found) :
    found = true ↔ item ∈ Chain.items l := by
  rw [h.isInList_eq] at hentry
  cases hentry
  exact decide_eq_true_iff

/-- A call whose first assertion holds passes the others, and does what it does
to the plain list. -/
theorem Op.run_ok (compare : α → α → Int) (h : Represents L l) (op : Op Addr α)
    (hfresh : op.Fresh L) (hentry : op.Entry L) :
    ∃ L' l', op.run compare L = .ok (op.returns (items l), L') ∧
      Represents L' l' ∧
      items l' = op.plain compare (items l) := by
  cases op with
  | append element item =>
      have hitem : item ∉ items l := mt (h.entry hentry).mpr Bool.false_ne_true
      obtain ⟨L', hrun, hr⟩ := append_ok h hfresh hitem
      exact ⟨L', _, Outcome.bind_eq_ok.mpr ⟨L', hrun, rfl⟩, hr,
        Chain.items_append⟩
  | prepend element item =>
      have hitem : item ∉ items l := mt (h.entry hentry).mpr Bool.false_ne_true
      obtain ⟨L', hrun, hr⟩ := prepend_ok h hfresh hitem
      exact ⟨L', _, Outcome.bind_eq_ok.mpr ⟨L', hrun, rfl⟩, hr, rfl⟩
  | insert element item =>
      have hitem : item ∉ items l := mt (h.entry hentry).mpr Bool.false_ne_true
      obtain ⟨L', l', hrun, hr, hplaced⟩ :=
        insert_ok (fun x y => .ok (compare x y)) h hfresh hitem fun _ _ => rfl
      exact ⟨L', l', Outcome.bind_eq_ok.mpr ⟨L', hrun, rfl⟩, hr,
        hplaced.eq_split⟩
  | remove item =>
      have hitem : item ∈ items l := (h.entry hentry).mp rfl
      obtain ⟨L', l', hrun, hr, heq⟩ := remove_ok h hitem
      exact ⟨L', l', Outcome.bind_eq_ok.mpr ⟨L', hrun, rfl⟩, hr, heq⟩
  | removeFront =>
      cases l with
      | nil => exact absurd h.numInList hentry
      | cons c l =>
          obtain ⟨L', hrun, hr⟩ := removeFront_ok h
          exact ⟨L', l, Outcome.bind_eq_ok.mpr ⟨_, hrun, rfl⟩, hr, rfl⟩

omit [DecidableEq Addr] in
/-- `LinkedList` has it that way. -/
theorem Op.linked_ok (h : Represents L l) (op : Op Addr α)
    (hentry : op.Entry L) :
    op.linked compare (items l) = .ok (op.returns (items l),
        op.plain compare (items l)) := by
  cases op with
  | append element item =>
      have hitem : item ∉ items l := mt (h.entry hentry).mpr Bool.false_ne_true
      exact Outcome.bind_eq_ok.mpr ⟨_, LinkedList.append_ok hitem, rfl⟩
  | prepend element item =>
      have hitem : item ∉ items l := mt (h.entry hentry).mpr Bool.false_ne_true
      exact Outcome.bind_eq_ok.mpr ⟨_, LinkedList.prepend_ok hitem, rfl⟩
  | insert element item =>
      have hitem : item ∉ items l := mt (h.entry hentry).mpr Bool.false_ne_true
      have hinsert : ∃ s', LinkedList.insert (fun x y => .ok (compare x y))
          (items l) item = .ok s' ∧
          Placed (compare item) item (items l) s' :=
            LinkedList.insert_ok hitem fun _ _ => rfl
      obtain ⟨s', hs', hplaced⟩ := hinsert
      have heq : s' = Op.plain compare (items l) (.insert element item) :=
        hplaced.eq_split
      exact Outcome.bind_eq_ok.mpr ⟨s', hs', by rw [heq]; rfl⟩
  | remove item =>
      exact Outcome.bind_eq_ok.mpr ⟨_,
        LinkedList.remove_ok h.items ((h.entry hentry).mp rfl), rfl⟩
  | removeFront =>
      cases l with
      | nil => exact absurd h.numInList hentry
      | cons c l => rfl

theorem Reachable.represents (h : Reachable compare ok L s) :
    ∃ l, Represents L l ∧ items l = s := by
  induction h with
  | new => exact ⟨[], new_represents, rfl⟩
  | call _ op _ hfresh hentry hrun ih =>
      obtain ⟨l, hr, rfl⟩ := ih
      obtain ⟨L', l', hrun', hr', heq⟩ := op.run_ok compare hr hfresh hentry
      rw [hrun] at hrun'
      cases hrun'
      exact ⟨l', hr', heq⟩

theorem Reachable.sorted (h : Reachable compare ok L s)
    (hcompare : TotalPreorder compare) (hok : ∀ op, ok op → op.Sorting) :
    s.Pairwise (compare · · ≤ 0) := by
  induction h with
  | new => exact .nil
  | call _ op hcall _ _ _ ih =>
      cases op with
      | append | prepend => exact (hok _ hcall).elim
      | insert element item =>
          exact hcompare.pairwise (SortedList.placed_split _ item _) ih
      | remove item => exact ih.sublist List.erase_sublist
      | removeFront => exact ih.sublist (List.tail_sublist _)

/-- The chain from `first` to `last`, the count and the items are those of a
plain list in which no item is twice, and every call that may be made returns
what the plain list says; the list of a `SortedList` is sorted, and a new item
goes after those equal to it. -/
theorem list_representation (h : Reachable compare ok L s) :
    (∃ l, Represents L l ∧ items l = s) ∧ s.Nodup ∧ L.sanityCheck = .ok () ∧
    (∀ op : Op Addr α, op.Fresh L → op.Entry L → ∃ L',
      op.run compare L = .ok (op.returns s, L')) ∧
    (TotalPreorder compare → (∀ op, ok op → op.Sorting) →
      s.Pairwise (compare · · ≤ 0) ∧
      sortedSanityCheck (fun x y => .ok (compare x y)) L = .ok () ∧
      ∀ (element : Addr) item, ∃ before after, s = before ++ after ∧
        (Op.insert element item).plain compare s = before ++ item :: after ∧
        (∀ x ∈ before, 0 ≤ compare item x) ∧
            ∀ x ∈ after, compare item x < 0) := by
  obtain ⟨l, hr, rfl⟩ := h.represents
  refine ⟨⟨l, hr, rfl⟩, hr.items, sanityCheck_ok hr, ?_, ?_⟩
  · intro op hfresh hentry
    obtain ⟨L', _, hrun, _⟩ := op.run_ok compare hr hfresh hentry
    exact ⟨L', hrun⟩
  · intro hcompare hok
    have hsorted := h.sorted hcompare hok
    exact ⟨hsorted, sortedSanityCheck_ok hr hsorted,
      fun _ item => hcompare.split (SortedList.placed_split _ item _) hsorted⟩

/-- The second of two equal items goes between the first and a greater one. -/
theorem list_representation_keys : ∃ L : CellList Nat (Int × Nat), ∃ l,
    Represents L l ∧ items l = [(1, 0), (1, 1), (3, 2)] := by
  have h₀ : Reachable (fun x y : Int × Nat => x.1 - y.1) Op.Sorting
    (new : CellList Nat (Int × Nat)) [] := .new
  have h₁ := h₀.call (.insert 0 (1, 0)) trivial rfl rfl rfl
  have h₂ := h₁.call (.insert 1 (3, 2)) trivial rfl rfl rfl
  have h₃ := h₂.call (.insert 2 (1, 1)) trivial rfl rfl rfl
  exact ⟨_, (list_representation h₃).1⟩

end

end CellList

end EroikoBlue
