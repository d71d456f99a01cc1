/-
# `MP4.HdrAlloc` — `FileHeader::Allocate` refines a plan

`Allocate` does three things at once: it decides how many sectors each slot of
each node gets, it asks the free map for sectors, and it fills the arrays.  Here
they are separated:

    plan size         the tree decided on, from the size alone
    place p freeMap   the sectors of the tree, taken one by one in its order
    header            the arrays (`MP4.HdrTree`)

and `allocate_eq` says that the source is the composition of the three, error
for error.  What is true of the tree is then proved of `plan` without any free
map in sight, and what is true of the free map is proved of `place` by induction
on the tree.
-/
import Mathlib.Data.Nat.Log
import EroikoBlue.MP4.HdrTree

namespace EroikoBlue.MP4

open Bytes FileHeader

namespace HdrSlots

/-! ## The plan -/

/-- The number of sectors slot `i` gets, out of `r` left and `n` in all. -/
def slotSize (i r n : Nat) : Nat :=
  let c := if i + 1 < N_SECTORS then N_SECTORS ^ Nat.log N_SECTORS r else r
  let c := if c = n then c / N_SECTORS else c
  if r = 1 then 1 else c

/-- The slots of a node from slot `i` on, with `k` slots, `r` sectors and `b`
bytes left; the sectors are not chosen yet. -/
def planFrom (plan : Nat → Nat → HdrSlots) (n : Nat) : Nat → Nat → Nat →
    Nat → HdrSlots
  | 0, _, _, _ => .nil
  | k + 1, i, r, b =>
    if r = 0 then .nil
    else
      let c := slotSize i r n
      let bytes := min (c * SectorSize) b
      let rest := planFrom plan n k (i + 1) (r - c) (b - bytes)
      if c = 1 then .leaf 0 rest else .node 0 bytes (plan c bytes) rest

/-- The slots of a node of `n` sectors and `b` bytes. -/
def planNode : Nat → Nat → Nat → HdrSlots
  | 0, _, _ => .nil
  | fuel + 1, n, b => planFrom (planNode fuel) n N_SECTORS 0 n b

/-- `divRoundUp(fileSize, SectorSize)`. -/
def sectorCount (size : Nat) : Nat := (size + (SectorSize - 1)) / SectorSize

/-- The tree `Allocate` builds for a file of `size` bytes. -/
def plan (size : Nat) : HdrSlots :=
  planNode (sectorCount size + 1) (sectorCount size) size

theorem fits_sectorCount (size : Nat) : Fits size (sectorCount size) := by
  simp only [Fits, sectorCount, SectorSize]
  omega

/-- A slot gets something, at most what is left, and less than the whole node
unless it is a single sector.  (The last slot is never the first.) -/
theorem slotSize_bounds {i r n : Nat} (hr : 1 ≤ r) (hrn : r ≤ n)
    (hi : i + 1 < N_SECTORS ∨ r < n) :
    1 ≤ slotSize i r n ∧ slotSize i r n ≤ r ∧
      (slotSize i r n = 1 ∨ slotSize i r n < n) := by
  by_cases h1 : r = 1
  · simp [slotSize, h1]
  · have hpow : N_SECTORS ^ Nat.log N_SECTORS r ≤ r :=
      Nat.pow_log_le_self _ (by omega)
    have hpos : 1 ≤ N_SECTORS ^ Nat.log N_SECTORS r :=
      Nat.one_le_pow _ _ (by decide)
    simp only [slotSize, if_neg h1]
    by_cases hi' : i + 1 < N_SECTORS
    · simp only [if_pos hi']
      by_cases hc : N_SECTORS ^ Nat.log N_SECTORS r = n
      · -- an exact power of 29 is cut into slots one level smaller
        have hlog : Nat.log N_SECTORS r ≠ 0 := fun h0 => by
          rw [h0, Nat.pow_zero] at hc; omega
        have h29 : N_SECTORS ≤ n := hc ▸ Nat.le_self_pow hlog _
        have hlt : n / N_SECTORS < n := Nat.div_lt_self (by omega) (by decide)
        rw [if_pos hc, hc]
        exact ⟨Nat.div_pos h29 (by decide), by omega, .inr hlt⟩
      · rw [if_neg hc]
        exact ⟨hpos, hpow, .inr (by omega)⟩
    · have hrn' : r < n := hi.resolve_left hi'
      simp only [if_neg hi', if_neg (Nat.ne_of_lt hrn')]
      exact ⟨hr, Nat.le_refl _, .inr hrn'⟩

theorem slotSize_last {i r n : Nat} (hi : ¬ i + 1 < N_SECTORS) (hrn : r < n) :
    slotSize i r n = r := by
  simp only [slotSize, if_neg hi, if_neg (Nat.ne_of_lt hrn)]
  split <;> simp [*]

theorem fits_slot {b r c : Nat} (h : Fits b r) (hc : c ≤ r) :
    Fits (min (c * SectorSize) b) c ∧
      Fits (b - min (c * SectorSize) b) (r - c) := by
  simp only [Fits, SectorSize] at h ⊢
  omega

/-- The slots still to be filled at slot `i`: `k` of them, `r` sectors, `b`
bytes. -/
structure Left (n k i r b : Nat) : Prop where
  slots : k + i = N_SECTORS
  le : r ≤ n
  lt : 0 < i → r < n ∨ r = 0
  done : k = 0 → r = 0
  fits : Fits b r

namespace Left
variable {n k i r b : Nat}

theorem start (h : Fits b n) : Left n N_SECTORS 0 n b :=
  ⟨rfl, Nat.le_refl n, fun h => absurd h (Nat.lt_irrefl 0),
    fun h => absurd h (by decide), h⟩

theorem bounds (h : Left n (k + 1) i r b) (hr : r ≠ 0) :
    1 ≤ slotSize i r n ∧ slotSize i r n ≤ r ∧
      (slotSize i r n = 1 ∨ slotSize i r n < n) := by
  have hs := h.slots
  refine slotSize_bounds (by omega) h.le ?_
  by_cases hi : 0 < i
  · exact .inr ((h.lt hi).resolve_right hr)
  · exact .inl (by simp only [N_SECTORS, FILEHDR_SZ, MEMBER_SZ]; omega)

theorem next (h : Left n (k + 1) i r b) (hr : r ≠ 0) :
    Left n k (i + 1) (r - slotSize i r n)
      (b - min (slotSize i r n * SectorSize) b) := by
  have hs := h.slots
  have hle := h.le
  obtain ⟨h1, h2, _⟩ := h.bounds hr
  refine ⟨by omega, by omega, fun _ => by omega, fun hk => ?_,
    (fits_slot h.fits h2).2⟩
  have hi : 0 <
    i := by simp only [N_SECTORS, FILEHDR_SZ, MEMBER_SZ] at hs; omega
  have := slotSize_last (i := i) (by omega) ((h.lt hi).resolve_right hr)
  omega

end Left

/-- What a plan for `n` sectors in `k` slots looks like. -/
structure Planned (n k : Nat) (p : HdrSlots) : Prop where
  leaves : p.leaves.length = n
  length : p.length ≤ k
  wf : p.WF

/-- What the plan of a whole node looks like: it branches unless it is one
sector. -/
structure PlannedNode (n : Nat) (p : HdrSlots) :
    Prop extends Planned n N_SECTORS p where
  two : 2 ≤ n → 2 ≤ p.length

section PlanFrom
variable {plan : Nat → Nat → HdrSlots} {n : Nat}

theorem length_planFrom_succ {k i r b : Nat} (hr : r ≠ 0) :
    (planFrom plan n (k + 1) i r b).length =
      (planFrom plan n k (i + 1) (r - slotSize i r n)
        (b - min (slotSize i r n * SectorSize) b)).length + 1 := by
  rw [planFrom, if_neg hr]
  by_cases hc : slotSize i r n = 1
  · simp only [hc, if_true, HdrSlots.length]
  · simp only [hc, if_false, HdrSlots.length]

theorem planFrom_planned
    (hplan : ∀ c b, c < n → Fits b c → PlannedNode c (plan c b)) :
    ∀ {k i r b : Nat}, Left n k i r b → Planned r k (planFrom plan n k i r b)
  | 0, _, _, _, h => by
      rw [h.done rfl]
      exact ⟨rfl, Nat.le_refl 0, trivial⟩
  | k + 1, i, r, b, h => by
      by_cases hr : r = 0
      · subst hr
        exact ⟨rfl, Nat.zero_le _, trivial⟩
      · obtain ⟨h1, h2, h3⟩ := h.bounds hr
        have ih := planFrom_planned hplan (h.next hr)
        rw [planFrom, if_neg hr]
        by_cases hc : slotSize i r n = 1
        · rw [if_pos hc]
          refine ⟨?_, Nat.succ_le_succ ih.length, ih.wf⟩
          rw [HdrSlots.leaves, List.length_cons, ih.leaves]
          omega
        · have hf := (fits_slot h.fits h2).1
          have hsub := hplan _ _ (h3.resolve_left hc) hf
          rw [if_neg hc]
          refine ⟨?_, Nat.succ_le_succ ih.length,
            ⟨hsub.length, hsub.two (by omega), by rw [hsub.leaves]; exact hf,
              hsub.wf⟩, ih.wf⟩
          rw [HdrSlots.leaves, List.length_append, hsub.leaves, ih.leaves]
          omega

/-- The first slot of a node of two sectors or more does not take them all. -/
theorem two_le_planFrom {b : Nat} (hb : Fits b n) (hn : 2 ≤ n) :
    2 ≤ (planFrom plan n N_SECTORS 0 n b).length := by
  have h0 : Left n ((N_SECTORS - 1) + 1) 0 n b := Left.start hb
  obtain ⟨h1, h2, h3⟩ := h0.bounds (by omega)
  have hrest : n - slotSize 0 n n ≠ 0 := by omega
  rw [show N_SECTORS = N_SECTORS - 1 + 1 from rfl,
    length_planFrom_succ (by omega),
    show N_SECTORS - 1 = N_SECTORS - 2 + 1 from rfl, length_planFrom_succ hrest]
  omega

end PlanFrom

theorem planNode_planned : ∀ {fuel n b : Nat}, n < fuel → Fits b n →
    PlannedNode n (planNode fuel n b)
  | fuel + 1, n, b, hn, hb =>
      { toPlanned := planFrom_planned
          (fun _ _ hc hf => planNode_planned (by omega) hf)
          (Left.start hb)
        two := two_le_planFrom hb }

theorem plan_planned (size : Nat) :
    PlannedNode (sectorCount size) (plan size) :=
  planNode_planned (Nat.lt_succ_self _) (fits_sectorCount size)

theorem slotSize_small {i r n : Nat} (hr : 1 ≤ r) (hrn : r ≤ n)
    (hn : n ≤ N_SECTORS) (hi : i + r ≤ N_SECTORS) : slotSize i r n = 1 := by
  by_cases h1 : r = 1
  · simp [slotSize, h1]
  · have hi' : i + 1 < N_SECTORS := by omega
    simp only [slotSize, if_neg h1, if_pos hi']
    rcases Nat.lt_or_ge r N_SECTORS with hlt | hge
    · rw [Nat.log_of_lt hlt, Nat.pow_zero, if_neg (by omega)]
    · obtain rfl : r = N_SECTORS := by omega
      obtain rfl : n = N_SECTORS := by omega
      have hlog : Nat.log N_SECTORS N_SECTORS = 1 := Nat.log_pow (by decide) 1
      rw [hlog, Nat.pow_one, if_pos rfl]
      rfl

theorem planFrom_small {plan : Nat → Nat → HdrSlots} {n : Nat}
    (hn : n ≤ N_SECTORS) :
    ∀ {k i r b : Nat}, k + i = N_SECTORS → i + r ≤ N_SECTORS → r ≤ n →
      (planFrom plan n k i r b).headers = []
  | 0, _, _, _, _, _, _ => rfl
  | k + 1, i, r, b, hk, hi, hr => by
      rw [planFrom]
      by_cases h0 : r = 0
      · rw [if_pos h0]
        rfl
      · have hone := slotSize_small (by omega) hr hn hi
        simp only [if_neg h0, hone, if_true, headers]
        exact planFrom_small hn (by omega) (by omega) (by omega)

theorem plan_headers_small {size : Nat} (h : sectorCount size ≤ N_SECTORS) :
    (plan size).headers = [] :=
  planFrom_small h rfl (by omega) (Nat.le_refl _)

/-! ## Taking the sectors -/

/-- The sectors of a planned tree, taken from the free map in depth-first
order. -/
def place : HdrSlots → Bitmap → Except Fault (HdrSlots × Bitmap)
  | .nil, freeMap => pure (.nil, freeMap)
  | .leaf _ rest, freeMap => do
      let (sector, freeMap) := freeMap.findAndSet
      assertMsg (sector ≥ 0) "Not enough space for single sector allocation!"
      let (rest, freeMap) ← place rest freeMap
      pure (.leaf sector.toNat rest, freeMap)
  | .node _ bytes sub rest, freeMap => do
      let (sector, freeMap) := freeMap.findAndSet
      assertMsg (sector ≥ 0) "Not enough space for single sector allocation!"
      assertMsg (freeMap.numClear > sub.leaves.length)
        "Not enough space for allocation"
      let (sub, freeMap) ← place sub freeMap
      let (rest, freeMap) ← place rest freeMap
      pure (.node sector.toNat bytes sub rest, freeMap)

/-- The tree with the choice of sectors forgotten. -/
def blank : HdrSlots → HdrSlots
  | .nil => .nil
  | .leaf _ rest => .leaf 0 rest.blank
  | .node _ bytes sub rest => .node 0 bytes sub.blank rest.blank

section Blank
variable (a : HdrSlots)

@[simp] theorem length_blank : a.blank.length = a.length := by
  induction a with
  | nil => rfl
  | leaf s rest ih => simp [blank, length, ih]
  | node s bytes sub rest _ ih => simp [blank, length, ih]

@[simp] theorem length_leaves_blank :
    a.blank.leaves.length = a.leaves.length := by
  induction a with
  | nil => rfl
  | leaf s rest ih => simp [blank, leaves, ih]
  | node s bytes sub rest ihs ihr => simp [blank, leaves, ihs, ihr]

@[simp] theorem length_headers_blank :
    a.blank.headers.length = a.headers.length := by
  induction a with
  | nil => rfl
  | leaf s rest ih => simp [blank, headers, ih]
  | node s bytes sub rest ihs ihr => simp [blank, headers, ihs, ihr]

@[simp] theorem wf_blank : a.blank.WF ↔ a.WF := by
  induction a with
  | nil => rfl
  | leaf s rest ih => simp [blank, WF, ih]
  | node s bytes sub rest ihs ihr => simp [blank, WF, ihs, ihr]

variable {a} {b : HdrSlots} (h : a.blank = b.blank)
include h

theorem length_of_blank : a.length = b.length := by
  rw [← length_blank a, h, length_blank]

theorem leaves_of_blank : a.leaves.length = b.leaves.length := by
  rw [← length_leaves_blank a, h, length_leaves_blank]

theorem headers_of_blank : a.headers.length = b.headers.length := by
  rw [← length_headers_blank a, h, length_headers_blank]

theorem wf_of_blank : a.WF ↔ b.WF := by
  rw [← wf_blank a, h, wf_blank]

theorem sectors_of_blank : a.sectors.length = b.sectors.length := by
  rw [a.sectors_perm.length_eq, b.sectors_perm.length_eq, List.length_append,
    List.length_append,
    leaves_of_blank h, headers_of_blank h]

end Blank

/-- The free map gives out the sectors of a list, one `FindAndSet` each. -/
inductive Takes : Bitmap → List Nat → Bitmap → Prop
  | nil {fm : Bitmap} : Takes fm [] fm
  | cons {fm fm' : Bitmap} {i : Nat} {l : List Nat} (hi : i < fm.numBits)
      (hsize : fm.size ≠ 0)
      (hbit : fm.bit i = false)
        (h : Takes (fm.take i (Nat.le_of_lt hi)) l fm') :
      Takes fm (i :: l) fm'

namespace Takes
variable {fm fm' fm₁ : Bitmap} {l l' : List Nat}

theorem append (h : Takes fm l fm₁) (h' : Takes fm₁ l' fm') :
    Takes fm (l ++ l') fm' := by
  induction h with
  | nil => exact h'
  | cons hi hsize hbit _ ih => exact .cons hi hsize hbit (ih h')

@[simp] theorem numBits (h : Takes fm l fm') : fm'.numBits = fm.numBits := by
  induction h with
  | nil => rfl
  | cons _ _ _ _ ih => exact ih

theorem size (h : Takes fm l fm') : fm'.size = fm.size - 2 * l.length := by
  induction h with
  | nil => simp
  | cons hi _ hbit _ ih =>
      rw [ih, Bitmap.take_size _ hbit, List.length_cons]
      omega

theorem bit (h : Takes fm l fm') (j : Nat) :
    fm'.bit j = (decide (j ∈ l) || fm.bit j) := by
  induction h with
  | nil => simp
  | cons hi _ _ _ ih =>
      rw [ih, Bitmap.bit_take hi]
      simp [Bool.or_assoc, Bool.or_left_comm]

theorem mem_clear (h : Takes fm l fm') {s : Nat} (hs : s ∈ l) :
    s < fm.numBits ∧ fm.bit s = false := by
  induction h with
  | nil => simp at hs
  | cons hi _ hbit _ ih =>
      rcases List.mem_cons.mp hs with rfl | hs
      · exact ⟨hi, hbit⟩
      · obtain ⟨h1, h2⟩ := ih hs
        rw [Bitmap.bit_take hi] at h2
        exact ⟨h1, by simpa using (Bool.or_eq_false_iff.mp h2).2⟩

theorem nodup (h : Takes fm l fm') : l.Nodup := by
  induction h with
  | nil => exact List.nodup_nil
  | cons hi _ _ h ih =>
      refine List.nodup_cons.mpr ⟨fun hmem => ?_, ih⟩
      have := (h.mem_clear hmem).2
      rw [Bitmap.bit_take hi] at this
      simp at this

theorem clearCount (h : Takes fm l fm') :
    fm.clearCount = fm'.clearCount + l.length := by
  induction h with
  | nil => rfl
  | cons hi _ hbit _ ih =>
      have hc := Bitmap.clearCount_setBit hi
      rw [hbit, if_neg (by decide)] at hc
      rw [hc, List.length_cons, ← Nat.add_assoc, ← ih]
      rfl

/-- An even count never skips zero, so it bounds the number of sectors given out
at half of what it says. -/
theorem two_mul_le (h : Takes fm l fm') (h0 : 0 ≤ fm.size)
    (heven : fm.size % 2 = 0) :
    2 * (l.length : Int) ≤ fm.size := by
  induction h with
  | nil => simpa using h0
  | cons hi hsize hbit _ ih =>
      rw [Bitmap.take_size _ hbit] at ih
      have := ih (by omega) (by omega)
      rw [List.length_cons]
      omega

end Takes

theorem findAndSet_ge {fm fm' : Bitmap} {s : Int} (h : fm.findAndSet = (s, fm'))
    (hs : s ≥ 0) :
    ∃ hi : s.toNat < fm.numBits, fm.size ≠ 0 ∧ fm.bit s.toNat = false ∧
      fm' = fm.take s.toNat (Nat.le_of_lt hi) := by
  rcases fm.findAndSet_cases with ⟨hn, _⟩ | ⟨i, hi, hsize, hbit, hf⟩
  · rw [hn, Prod.mk.injEq] at h
    omega
  · rw [hf, Prod.mk.injEq] at h
    obtain ⟨rfl, rfl⟩ := h
    exact ⟨hi, hsize, hbit, rfl⟩

theorem place_ok {p sl : HdrSlots} {fm fm' : Bitmap}
    (h : place p fm = .ok (sl, fm')) :
    sl.blank = p.blank ∧ Takes fm sl.sectors fm' := by
  induction p generalizing fm sl fm' with
  | nil =>
      simp only [place, Outcome.pure_eq_ok, Except.ok.injEq, Prod.mk.injEq] at h
      obtain ⟨rfl, rfl⟩ := h
      exact ⟨rfl, .nil⟩
  | leaf s rest ih =>
      simp only [place] at h
      obtain ⟨_, hpos, h⟩ := Outcome.bind_eq_ok.mp h
      obtain ⟨⟨rest', fm₁⟩, hrest, h⟩ := Outcome.bind_eq_ok.mp h
      obtain ⟨hi, hsize, hbit, hfm⟩ :=
        findAndSet_ge rfl (assertMsg_eq_ok.mp hpos)
      obtain ⟨hblank, htakes⟩ := ih hrest
      simp only [Outcome.pure_eq_ok, Except.ok.injEq, Prod.mk.injEq] at h
      obtain ⟨rfl, rfl⟩ := h
      exact ⟨by rw [blank, blank, hblank], .cons hi hsize hbit (hfm ▸ htakes)⟩
  | node s bytes sub rest ihs ihr =>
      simp only [place] at h
      obtain ⟨_, hpos, h⟩ := Outcome.bind_eq_ok.mp h
      obtain ⟨_, _, h⟩ := Outcome.bind_eq_ok.mp h
      obtain ⟨⟨sub', fm₁⟩, hsub, h⟩ := Outcome.bind_eq_ok.mp h
      obtain ⟨⟨rest', fm₂⟩, hrest, h⟩ := Outcome.bind_eq_ok.mp h
      obtain ⟨hi, hsize, hbit, hfm⟩ :=
        findAndSet_ge rfl (assertMsg_eq_ok.mp hpos)
      obtain ⟨hbs, hts⟩ := ihs hsub
      obtain ⟨hbr, htr⟩ := ihr hrest
      simp only [Outcome.pure_eq_ok, Except.ok.injEq, Prod.mk.injEq] at h
      obtain ⟨rfl, rfl⟩ := h
      exact ⟨by rw [blank, blank, hbs, hbr],
        .cons hi hsize hbit ((hfm ▸ hts).append htr)⟩

/-- With enough clear bits and twice the count, every search succeeds. -/
theorem findAndSet_total {fm : Bitmap} (hsize : fm.size ≠ 0)
    (hclear : 0 < fm.clearCount) :
    ∃ i, ∃ hi : i < fm.numBits, fm.bit i = false ∧
      fm.findAndSet = ((i : Int), fm.take i (Nat.le_of_lt hi)) := by
  rcases fm.findAndSet_cases with ⟨_, h0 | hall⟩ | ⟨i, hi, _, hbit, hf⟩
  · exact absurd h0 hsize
  · refine absurd hclear (Nat.not_lt.mpr (Nat.le_of_eq ?_))
    simp only [Bitmap.clearCount, List.countP_eq_zero, List.mem_range]
    intro i hi
    simp [hall i hi]
  · exact ⟨i, hi, hbit, hf⟩

theorem place_total {p : HdrSlots}
    {fm : Bitmap} (hp : p.WF) (hsize : 2 * (p.sectors.length : Int) ≤ fm.size)
    (hclear : p.sectors.length ≤ fm.clearCount) :
    ∃ sl fm', place p fm = .ok (sl, fm') := by
  induction p generalizing fm with
  | nil => exact ⟨_, _, rfl⟩
  | leaf s rest ih =>
      simp only [sectors, List.length_cons] at hsize hclear
      obtain ⟨i, hi, hbit, hf⟩ := @findAndSet_total fm (by omega) (by omega)
      have hone : Takes fm [i] (fm.take i (Nat.le_of_lt hi)) :=
        .cons hi (by omega) hbit .nil
      have hs := hone.size
      have hc := hone.clearCount
      simp only [List.length_cons, List.length_nil] at hs hc
      obtain ⟨sl, fm', hrest⟩ :=
        @ih (fm.take i (Nat.le_of_lt hi)) hp (by omega) (by omega)
      refine ⟨.leaf i sl, fm', ?_⟩
      simp only [place, hf, assertMsg_pos (Int.natCast_nonneg i),
        Outcome.ok_bind, hrest]
      rfl
  | node s bytes sub rest ihs ihr =>
      obtain ⟨⟨_, htwo, _, hsub⟩, hrest⟩ := hp
      have hpos := headers_le hsub
      simp only [sectors, List.length_cons, List.length_append] at hsize hclear
      obtain ⟨i, hi, hbit, hf⟩ := @findAndSet_total fm (by omega) (by omega)
      have hone : Takes fm [i] (fm.take i (Nat.le_of_lt hi)) :=
        .cons hi (by omega) hbit .nil
      have hs := hone.size
      have hc := hone.clearCount
      simp only [List.length_cons, List.length_nil] at hs hc
      obtain ⟨sub', fm₁, hplace⟩ :=
        @ihs (fm.take i (Nat.le_of_lt hi)) hsub (by omega) (by omega)
      obtain ⟨hblank, htakes⟩ := place_ok hplace
      have hs₁ := htakes.size
      have hc₁ := htakes.clearCount
      rw [sectors_of_blank hblank] at hs₁ hc₁
      obtain ⟨rest', fm₂, hplace'⟩ := @ihr fm₁ hrest (by omega) (by omega)
      have hlen := sub.sectors_perm.length_eq
      rw [List.length_append] at hlen
      have hnum : (fm.take i (Nat.le_of_lt hi)).numClear >
          sub.leaves.length := by
        show (fm.take i (Nat.le_of_lt hi)).size > _
        omega
      refine ⟨.node i bytes sub' rest', fm₂, ?_⟩
      simp only [place, hf, assertMsg_pos (Int.natCast_nonneg i),
        Outcome.ok_bind,
        assertMsg_pos hnum, hplace, hplace']
      rfl

/-! ## `Allocate` is the plan, placed -/

theorem fill_set {α : Type} {n : Nat} {x : α} {l : List α}
    (h : l.length < n) (y : α) :
    (fill n x l).set l.length y = fill n x (l ++ [y]) := by
  obtain ⟨k, hk⟩ : ∃ k, n - l.length = k + 1 := ⟨n - l.length - 1, by omega⟩
  rw [fill, fill, List.set_append_right _ _ (Nat.le_refl _), Nat.sub_self, hk,
    List.replicate_succ,
    List.set_cons_zero, List.append_assoc, List.length_append,
      List.length_singleton,
    show n - (l.length + 1) = k by omega]
  rfl

theorem fill_set_same {α : Type} {n : Nat} {x : α} {l : List α}
    (h : l.length < n) :
    (fill n x l).set l.length x = fill n x l := by
  obtain ⟨k, hk⟩ : ∃ k, n - l.length = k + 1 := ⟨n - l.length - 1, by omega⟩
  rw [fill, List.set_append_right _ _ (Nat.le_refl _), Nat.sub_self, hk,
    List.replicate_succ,
    List.set_cons_zero]

/-- The header inside the loop of `Allocate`, with the slots `done` filled. -/
def building (cur n bytes : Nat) (done : HdrSlots) : FileHeader where
  numBytes := bytes
  numSectors := n
  map := some done.slotMap
  dataSectors := done.dataSectors
  startSector :=
    fill (N_SECTORS + 1) INVALID_SECTOR ((done.starts cur).map Int.ofNat)
  children := fill N_SECTORS none (done.children cur)
  additionalSector := 1 + done.headers.length

section Building
variable {cur n bytes : Nat} {done : HdrSlots}

theorem building_leaf (h : done.length < N_SECTORS) (s : Nat) :
    { building cur n bytes done with
      startSector := (building cur n bytes done).startSector.set done.length
        ((cur + done.leaves.length : Nat) : Int)
      dataSectors :=
        (building cur n bytes done).dataSectors.set done.length (s : Int)
      children := (building cur n bytes done).children.set done.length none } =
    building cur n bytes (done ++ .leaf s .nil) := by
  have hs := fill_set (n := N_SECTORS + 1) (x := INVALID_SECTOR)
    (l := (done.starts cur).map Int.ofNat) (by simpa using Nat.lt_succ_of_lt h)
    ((cur + done.leaves.length : Nat) : Int)
  have hd := fill_set (n := N_SECTORS) (x := INVALID_SECTOR)
    (l := done.heads.map Int.ofNat) (by simpa using h) (s : Int)
  have hc := fill_set (n := N_SECTORS) (x := none) (l := done.children cur)
    (by simpa using h) none
  simp only [List.length_map, length_starts, length_heads,
    length_children] at hs hd hc
  simp only [building, dataSectors, hs, hd, hc, slotMap, marks_append, marks,
    starts_append, starts,
    heads_append, heads, children_append, children, headers_append, headers,
      List.map_append,
    List.map_cons, List.map_nil, List.append_nil]
  rfl

theorem building_node (h : done.length < N_SECTORS) (s b : Nat)
    (sub : HdrSlots) :
    { building cur n bytes done with
      startSector := (building cur n bytes done).startSector.set done.length
        ((cur + done.leaves.length : Nat) : Int)
      dataSectors :=
        (building cur n bytes done).dataSectors.set done.length (s : Int)
      map := some (done.slotMap.setBit done.length)
      children := (building cur n bytes done).children.set done.length
        (some (sub.header (cur + done.leaves.length) b))
      additionalSector := (building cur n bytes done).additionalSector +
        (sub.header (cur + done.leaves.length) b).additionalSector } =
    building cur n bytes (done ++ .node s b sub .nil) := by
  have hs := fill_set (n := N_SECTORS + 1) (x := INVALID_SECTOR)
    (l := (done.starts cur).map Int.ofNat) (by simpa using Nat.lt_succ_of_lt h)
    ((cur + done.leaves.length : Nat) : Int)
  have hd := fill_set (n := N_SECTORS) (x := INVALID_SECTOR)
    (l := done.heads.map Int.ofNat) (by simpa using h) (s : Int)
  have hc := fill_set (n := N_SECTORS) (x := none) (l := done.children cur)
    (by simpa using h)
    (some (sub.header (cur + done.leaves.length) b))
  have hadd : (sub.header (cur + done.leaves.length) b).additionalSector =
    1 + sub.headers.length := rfl
  simp only [List.length_map, length_starts, length_heads,
    length_children] at hs hd hc
  simp only [building, dataSectors, hs, hd, hc, slotMap, marks_append, marks,
    starts_append, starts,
    heads_append, heads, children_append, children, headers_append, headers,
      List.map_append,
    List.map_cons, List.map_nil, List.append_nil, Nat.zero_add, hadd,
    List.length_append, List.length_cons]
  congr 1
  push_cast
  omega

end Building

theorem curSector_eq (i r n : Nat) :
    curSector i r n = (slotSize i r n : Nat) := by
  simp only [curSector, slotSize, Int.toNat_natCast]
  generalize N_SECTORS ^ Nat.log N_SECTORS r = p
  by_cases h1 : r = 1
  · simp [h1]
  · simp only [if_neg h1, if_neg (show ¬ (r : Int) = 1 by omega)]
    by_cases hi : i + 1 < N_SECTORS
    · simp only [if_pos hi]
      by_cases hp : p = n
      · simp [hp]
      · rw [if_neg hp, if_neg (by omega)]
    · simp only [if_neg hi]
      by_cases hp : r = n
      · simp [hp]
      · rw [if_neg hp, if_neg (by omega)]

theorem curBytes_eq (c b : Nat) :
    curBytes c b = (min (c * SectorSize) b : Nat) := by
  simp only [curBytes, SectorSize]
  split <;> omega

/-- What a recursive call of `Allocate` does, as the loop sees it. -/
def PlacesAs
    (alloc : Bitmap → Int → Int → Int → Except Fault (FileHeader × Bitmap))
    (plan : Nat → Nat → HdrSlots) (n : Nat) : Prop :=
  ∀ (c start b : Nat) (fm : Bitmap), c < n → Fits b c →
    alloc fm c start b = (do
      assertMsg (fm.numClear > c) "Not enough space for allocation"
      let (sl, fm) ← place (plan c b) fm
      pure (sl.header start b, fm))

theorem allocateLoop_eq {alloc : Bitmap → Int → Int → Int →
      Except Fault (FileHeader × Bitmap)} {plan : Nat → Nat → HdrSlots}
    {n : Nat} (cur bytes : Nat) (halloc : PlacesAs alloc plan n)
    (hplan : ∀ c b, c < n → Fits b c → PlannedNode c (plan c b)) :
    ∀ {k i r b : Nat} (done : HdrSlots) (fm : Bitmap), Left n k i r b →
      done.length = i →
      done.leaves.length = n - r →
      allocateLoop alloc n cur k i (building cur n bytes done) fm r b = (do
        let (rest, fm) ← place (planFrom plan n k i r b) fm
        pure (i + rest.length, building cur n bytes (done ++ rest), fm, 0, 0))
  | k, i, r, b, done, fm, h, hi, hd => by
      by_cases hr : r = 0
      · -- nothing is left: the loop ends, and so did the plan
        have hb : b =
          0 := by have := h.fits; simp only [Fits, hr] at this; omega
        have hplanned : planFrom plan n k i r b = .nil := by
          cases k with
          | zero => rfl
          | succ k => rw [planFrom, if_pos hr]
        subst hr hb
        unfold allocateLoop
        simp [hplanned, place, length]
      · cases k with
        | zero => exact absurd (h.done rfl) hr
        | succ k =>
            obtain ⟨h1, h2, h3⟩ := h.bounds hr
            have hfit := (fits_slot h.fits h2).1
            have hslot : done.length < N_SECTORS := by have := h.slots; omega
            have hrn := h.le
            have hnext := h.next hr
            have hb' : (b : Int) - (min (slotSize i r n * SectorSize) b : Nat) =
              (b - min (slotSize i r n * SectorSize) b : Nat) := by omega
            rw [allocateLoop, if_neg (by omega), planFrom, if_neg hr]
            simp only [curSector_eq, curBytes_eq]
            generalize slotSize i r n = c at *
            generalize min (c * SectorSize) b = b' at *
            have hstart : (cur : Int) + n - r =
              ((cur + done.leaves.length : Nat) : Int) := by omega
            have hr' : (r : Int) - c = (r - c : Nat) := by omega
            subst hi
            rw [hstart, hr', hb']
            rcases hfind : fm.findAndSet with ⟨s, fm'⟩
            by_cases hs : ¬ s ≥ 0
            · by_cases hc : c = 1
              · simp only [hc, if_true, place, hfind, assertMsg_neg hs,
                  Outcome.error_bind]
              · simp only [hc, if_false, place, hfind, assertMsg_neg hs,
                  Outcome.error_bind]
            · replace hs := Decidable.not_not.mp hs
              obtain ⟨s, rfl⟩ := Int.eq_ofNat_of_zero_le hs
              by_cases hc : c = 1
              · subst hc
                have ih := allocateLoop_eq cur bytes halloc hplan
                  (done ++ .leaf s .nil) fm' hnext
                  (by simp [length]) (by simp [leaves]; omega)
                rw [← building_leaf hslot s] at ih
                simp only [Int.cast_ofNat_Int, if_true, place, hfind,
                  assertMsg_pos hs, Outcome.ok_bind, ih]
                cases place (planFrom plan n k (done.length + 1) (r - 1)
                    (b - b')) fm' with
                | error e => rfl
                | ok res =>
                    simp [append_assoc, length, Nat.add_assoc, Nat.add_comm 1]
              · have hcn := h3.resolve_left hc
                have hmark := @Bitmap.mark_eq done.slotMap done.length
                  (by simpa using hslot)
                have hcount := (hplan c b' hcn hfit).leaves
                simp only [show ¬ (c : Int) = 1 by omega, hc, if_false,
                  place, hfind,
                  assertMsg_pos hs, Outcome.ok_bind, building, hmark,
                    halloc c _ b' fm' hcn hfit,
                  hcount]
                by_cases hn : fm'.numClear > c
                · cases hsub : place (plan c b') fm' with
                  | error e => simp only [assertMsg_pos hn, Outcome.ok_bind,
                        Outcome.error_bind]
                  | ok res =>
                      obtain ⟨sub, fm₁⟩ := res
                      have hsame := leaves_of_blank (place_ok hsub).1
                      have ih := allocateLoop_eq cur bytes halloc hplan
                        (done ++ .node s b' sub .nil)
                        fm₁ hnext (by simp [length]) (by simp [leaves]; omega)
                      rw [← building_node hslot s b' sub] at ih
                      simp only [building] at ih
                      simp only [assertMsg_pos hn, Outcome.ok_bind,
                        Outcome.pure_eq_ok, ih]
                      cases place (planFrom plan n k (done.length + 1) (r - c)
                          (b - b')) fm₁ with
                      | error e => rfl
                      | ok res =>
                          simp [append_assoc, length, Nat.add_assoc,
                            Nat.add_comm 1]
                · simp only [assertMsg_neg hn, Outcome.error_bind]

/-- The body of `Allocate` on a new header: the loop starts with no slot
filled. -/
theorem allocateNode_fresh (fuel n b cur : Nat) (fm : Bitmap) :
    allocateNode (fuel + 1) fresh fm n cur b = (do
      assertMsg (fm.numClear > n) "Not enough space for allocation"
      let (i, hdr, fm, r, b') ←
        allocateLoop (allocateNode fuel fresh) n cur N_SECTORS 0
          (building cur n b .nil) fm n b
      assertMsg (r = 0 ∧ b' = 0)
        "Error: remainSector or remainBytes is not zero after allocated all file header space!"
      pure ({ hdr with startSector := hdr.startSector.set i ((cur : Int) + n) },
        fm)) := rfl

theorem building_done {cur n bytes : Nat} {sl : HdrSlots}
    (hlen : sl.length ≤ N_SECTORS) (hn : sl.leaves.length = n) :
    { building cur n bytes sl with
      startSector :=
  (building cur n bytes sl).startSector.set sl.length ((cur : Int) + n) } =
    sl.header cur bytes := by
  have hs := fill_set (n := N_SECTORS + 1) (x := INVALID_SECTOR)
    (l := (sl.starts cur).map Int.ofNat) (by simpa using Nat.lt_succ_of_le hlen)
      ((cur : Int) + n)
  simp only [List.length_map, length_starts] at hs
  simp only [building, hs, header, mkHeader, startSector, hn, List.map_append,
    List.map_cons,
    List.map_nil]
  rfl

theorem allocateNode_eq : ∀ {fuel n b : Nat} (cur : Nat) (fm : Bitmap),
    n < fuel → Fits b n →
    allocateNode fuel fresh fm n cur b = (do
      assertMsg (fm.numClear > n) "Not enough space for allocation"
      let (sl, fm) ← place (planNode fuel n b) fm
      pure (sl.header cur b, fm))
  | fuel + 1, n, b, cur, fm, hn, hb => by
      have halloc : PlacesAs (allocateNode fuel fresh) (planNode fuel) n :=
        fun c start b' fm' hc hb' => allocateNode_eq start fm' (by omega) hb'
      have hplan : ∀ c b', c < n → Fits b' c →
          PlannedNode c (planNode fuel c b') :=
        fun c b' hc hb' => planNode_planned (by omega) hb'
      rw [allocateNode_fresh, planNode,
        allocateLoop_eq cur b halloc hplan .nil fm (Left.start hb) rfl
          (by simp [leaves])]
      cases assertMsg (fm.numClear > n) "Not enough space for allocation" with
      | error e => rfl
      | ok _ =>
          cases hplace :
              place (planFrom (planNode fuel) n N_SECTORS 0 n b) fm with
          | error e => rfl
          | ok res =>
              obtain ⟨sl, fm'⟩ := res
              have hp : Planned n N_SECTORS
                  (planFrom (planNode fuel) n N_SECTORS 0 n b) :=
                planFrom_planned hplan (Left.start hb)
              have hblank := (place_ok hplace).1
              have hdone := @building_done cur n b sl
                (by rw [length_of_blank hblank]; exact hp.length)
                (by rw [leaves_of_blank hblank]; exact hp.leaves)
              simp only [Outcome.ok_bind, Outcome.pure_eq_ok, nil_append,
                Nat.zero_add]
              rw [assertMsg_pos ⟨trivial, trivial⟩, Outcome.ok_bind, hdone]

/-- `FileHeader::Allocate` on a new header: the plan for the size, placed. -/
theorem allocate_eq (fm : Bitmap) (size : Nat) :
    fresh.allocate fm size = (do
      assertMsg (fm.numClear > sectorCount size)
        "Not enough space for allocation"
      let (sl, fm) ← place (plan size) fm
      pure (sl.header 0 size, fm)) := by
  have hcount : divRoundUp size SectorSize = (sectorCount size : Nat) := by
    have hdiv : (size : Int).tdiv SectorSize = (size / SectorSize : Nat) := rfl
    have hmod : (size : Int).tmod SectorSize = (size % SectorSize : Nat) := rfl
    simp only [divRoundUp, hdiv, hmod, sectorCount, SectorSize]
    split <;> omega
  rw [allocate, hcount, Int.toNat_natCast]
  exact allocateNode_eq 0 fm (Nat.lt_succ_self _) (fits_sectorCount size)

/-- No header is built for a negative size: its bytes never run out. -/
theorem allocate_nonneg {fm fm' : Bitmap} {size : Int} {hdr : FileHeader}
    (h : fresh.allocate fm size = .ok (hdr, fm')) : 0 ≤ size := by
  by_contra hneg
  have hcount : divRoundUp size SectorSize < 1 := by
    obtain ⟨m, rfl⟩ : ∃ m : Nat, size = -(m : Int) := ⟨(-size).toNat, by omega⟩
    have hdiv :=
      Int.tdiv_nonneg (Int.natCast_nonneg m) (Int.natCast_nonneg SectorSize)
    have hmod := Int.tmod_nonneg (SectorSize : Int) (Int.natCast_nonneg m)
    rw [divRoundUp, Int.neg_tdiv, Int.neg_tmod, if_neg (by omega)]
    omega
  rw [allocate, allocateNode] at h
  obtain ⟨_, _, h⟩ := Outcome.bind_eq_ok.mp h
  obtain ⟨_, _, h⟩ := Outcome.bind_eq_ok.mp h
  unfold allocateLoop at h
  simp only [hcount, if_true, Outcome.pure_eq_ok, Outcome.ok_bind] at h
  obtain ⟨_, hdone, _⟩ := Outcome.bind_eq_ok.mp h
  have := (assertMsg_eq_ok.mp hdone).2
  omega

/-- What `Allocate` leaves behind when it completes. -/
structure Allocated (size : Nat) (fm : Bitmap) (sl : HdrSlots)
    (fm' : Bitmap) : Prop where
  shape : sl.blank = (plan size).blank
  takes : Takes fm sl.sectors fm'

namespace Allocated
variable {size : Nat} {fm fm' : Bitmap} {sl : HdrSlots}

theorem length (h : Allocated size fm sl fm') : sl.length ≤ N_SECTORS := by
  rw [length_of_blank h.shape]
  exact (plan_planned size).length

theorem leaves (h : Allocated size fm sl fm') :
    sl.leaves.length = sectorCount size := by
  rw [leaves_of_blank h.shape]
  exact (plan_planned size).leaves

theorem fits (h : Allocated size fm sl fm') : Fits size sl.leaves.length := by
  rw [h.leaves]
  exact fits_sectorCount size

theorem wf (h : Allocated size fm sl fm') : sl.WF :=
  (wf_of_blank h.shape).mpr (plan_planned size).wf

end Allocated

theorem allocated {fm fm' : Bitmap} {size : Nat} {hdr : FileHeader}
    (h : fresh.allocate fm size = .ok (hdr, fm')) :
    ∃ sl, hdr = sl.header 0 size ∧ Allocated size fm sl fm' := by
  rw [allocate_eq] at h
  obtain ⟨_, _, h⟩ := Outcome.bind_eq_ok.mp h
  obtain ⟨⟨sl, fm₁⟩, hplace, h⟩ := Outcome.bind_eq_ok.mp h
  simp only [Outcome.pure_eq_ok, Except.ok.injEq, Prod.mk.injEq] at h
  obtain ⟨rfl, rfl⟩ := h
  exact ⟨sl, rfl, (place_ok hplace).1, (place_ok hplace).2⟩

/-- The number of sectors of the tree for a file of `size` bytes, the top header
sector left out. -/
def treeSectors (size : Nat) : Nat := (plan size).sectors.length

/-- Every node branches, so the headers never outnumber the data sectors. -/
theorem treeSectors_le (size : Nat) :
    treeSectors size ≤ 2 * sectorCount size := by
  have h := plan_planned size
  have hle := headers_le h.wf
  have hlen := (plan size).sectors_perm.length_eq
  rw [List.length_append] at hlen
  rw [h.leaves] at hle hlen
  rw [treeSectors]
  omega

/-- A node has 29 slots, so the headers are at least a 28th of the data
sectors. -/
theorem le_treeSectors (size : Nat) :
    N_SECTORS * sectorCount size ≤
      (N_SECTORS - 1) * treeSectors size + N_SECTORS := by
  have h := plan_planned size
  have hle := leaves_le h.wf
  have hslots := h.length
  have hlen := (plan size).sectors_perm.length_eq
  rw [List.length_append] at hlen
  rw [h.leaves] at hle hlen
  rw [treeSectors]
  simp only [N_SECTORS, FILEHDR_SZ, MEMBER_SZ] at *
  omega

/-- Enough clear bits, and a count of twice the number of sectors, are
enough. -/
theorem allocate_completes {fm : Bitmap} {size : Nat} (hpos : 0 < size)
    (hclear : treeSectors size ≤ fm.clearCount)
    (hsize : 2 * (treeSectors size : Int) ≤ fm.size) :
    ∃ hdr fm', fresh.allocate fm size = .ok (hdr, fm') := by
  have hplan := plan_planned size
  obtain ⟨sl, fm', hplace⟩ := place_total hplan.wf hsize hclear
  have hlen := (plan size).sectors_perm.length_eq
  rw [List.length_append, hplan.leaves] at hlen
  have hone : 1 ≤
    sectorCount size := by simp only [sectorCount, SectorSize]; omega
  have hnum : fm.numClear > sectorCount size := by
    show fm.size > _
    simp only [treeSectors] at hsize
    omega
  refine ⟨sl.header 0 size, fm', ?_⟩
  rw [allocate_eq, assertMsg_pos hnum, Outcome.ok_bind, hplace]
  rfl

/-- On a map whose count is even, as it is after `PersistentBitmap` sets it and
`FindAndSet` lowers it by two, they are needed as well. -/
theorem allocate_completes_iff {fm : Bitmap} {size : Nat} (hpos : 0 < size)
    (h0 : 0 ≤ fm.size) (heven : fm.size % 2 = 0) :
    (∃ hdr fm', fresh.allocate fm size = .ok (hdr, fm')) ↔
      treeSectors size ≤ fm.clearCount ∧
      2 * (treeSectors size : Int) ≤ fm.size := by
  refine ⟨?_, fun h => allocate_completes hpos h.1 h.2⟩
  rintro ⟨hdr, fm', h⟩
  obtain ⟨sl, _, hal⟩ := allocated h
  have hlen : sl.sectors.length = treeSectors size := sectors_of_blank hal.shape
  have hc := hal.takes.clearCount
  have hs := hal.takes.two_mul_le h0 heven
  exact ⟨by omega, by omega⟩

end HdrSlots

end EroikoBlue.MP4
