/-
# `MP4.Counts` — the cached count of a bitmap

`NumClear` returns a field, and three functions write it.  `Mark` and `Clear`
move it by one when the bit changes, and `Import` counts the clear bits anew:
each of them leaves it right if it was right.  `FindAndSet` marks the bit it
found, which lowers the count, and then lowers it once more.  So over a run of
operations on a fresh bitmap the count is right, and the search answers as its
comment says, up to the first `FindAndSet` that finds a bit, and after that one
the count is wrong (`counts_law_iff`).

`PersistentBitmap` has no part in this: its two loads copy the words of the file
over those of a bitmap and leave the field as it was, the number of all bits in
a new object and anything in an old one.  The bits are right after each load,
and the count is right when it happens to be the number of all bits and all bits
of the file are clear (`reload_iff`).

## The cases

| call | the count | the answer |
| :-- | :-- | :-- |
| `Mark`, `Clear`, `Import` | right if it was right | — |
| `FindAndSet`, no bit clear | right if it was right | -1, and nothing is set |
| `FindAndSet`, a bit is clear | one too low if it was right | the bit |
-/
import EroikoBlue.Lib.Trace
import EroikoBlue.MP4.PBitmap

namespace EroikoBlue.MP4

open Bytes

namespace Bitmap

/-- The functions that change a bitmap. -/
inductive Call where
  | mark (which : Int)
  | clear (which : Int)
  | findAndSet
  | «import» (buf : List Word)

/-- One call; `Import` reads as many words as the map has. -/
def Call.run (b : Bitmap) : Call → Except Fault Bitmap
  | .mark which => b.mark which
  | .clear which => b.clear which
  | .findAndSet => pure b.findAndSet.2
  | .import buf =>
      if numWords b.numBits ≤ buf.length then pure (b.import buf)
      else .error (.undefined "memcpy past the end of buf")

/-- `NumClear()` is the number of clear bits. -/
def Counts (b : Bitmap) : Prop := b.numClear = b.clearCount

/-- No bit is clear. -/
def Full (b : Bitmap) : Prop := ∀ i < b.numBits, b.test i = .ok true

/-- What the comment of `FindAndSet` promises of a call on `b`. -/
structure Searches (b : Bitmap) (result : Int) (b' : Bitmap) : Prop where
  none_iff : result = -1 ↔ b.Full
  unchanged : result = -1 → b' = b
  found : result ≠ -1 → ∃ i : Nat, result = i ∧ b.test i = .ok false ∧
    b'.numBits = b.numBits ∧
    ∀ j, b'.bit j = (decide (j = i) || b.bit j)

/-- After the call the count is right, and a search has done what it
promises. -/
def Call.Lawful (b : Bitmap) (call : Call) : Prop :=
  (∀ b', call.run b = .ok b' → b'.Counts) ∧
    (call = .findAndSet → b.Searches b.findAndSet.1 b.findAndSet.2)

/-- The call is not a search of a bitmap with a clear bit. -/
def Call.FindsNothing (b : Bitmap) (call : Call) : Prop :=
  call = .findAndSet → b.Full

/-! ## One call -/

theorem full_iff (b : Bitmap) : b.Full ↔ ∀ i < b.numBits, b.bit i = true := by
  refine forall₂_congr fun i hi => ?_
  rw [test_eq hi, Except.ok.injEq]

theorem clearCount_eq_zero (b : Bitmap) : b.clearCount = 0 ↔ b.Full := by
  rw [full_iff, clearCount, List.countP_eq_zero]
  simp

theorem clearCount_clearBit {b : Bitmap} {i : Nat} (hi : i < b.numBits) :
    (b.clearBit i).clearCount = b.clearCount + if b.bit i then 1 else 0 := by
  have hback : ((b.clearBit i).setBit i).clearCount =
      (b.setBit i).clearCount := by
    refine clearCount_congr rfl fun j => ?_
    rw [bit_setBit (b := b.clearBit i) hi, bit_setBit hi, bit_clearBit]
    cases decide (j = i) <;> rfl
  have hset := clearCount_setBit (b := b.clearBit i) hi
  have hset' := clearCount_setBit hi
  rw [bit_clearBit, hback] at hset
  cases hbit : b.bit i <;> simp [hbit] at hset hset' ⊢ <;> omega

theorem clearBit_size {b : Bitmap} {i : Nat} (hi : i < b.numBits)
    (h : b.size = b.clearCount) :
    (b.clearBit i).size = (b.clearBit i).clearCount := by
  rw [clearCount_clearBit hi]
  cases hbit : b.bit i <;> simp [clearBit, hbit, h]

theorem mark_ok {b b' : Bitmap} {which : Int} (h : b.mark which = .ok b') :
    ∃ i < b.numBits, which = (i : Nat) ∧ b' = b.setBit i := by
  obtain ⟨_, hrange, _⟩ := Outcome.bind_eq_ok.mp h
  obtain ⟨h0, hlt⟩ := assertMsg_eq_ok.mp hrange
  obtain ⟨i, rfl⟩ := Int.eq_ofNat_of_zero_le h0
  rw [mark_eq (Int.ofNat_lt.mp hlt)] at h
  cases h
  exact ⟨i, Int.ofNat_lt.mp hlt, rfl, rfl⟩

theorem clear_ok {b b' : Bitmap} {which : Int} (h : b.clear which = .ok b') :
    ∃ i < b.numBits, which = (i : Nat) ∧ b' = b.clearBit i := by
  obtain ⟨_, hrange, _⟩ := Outcome.bind_eq_ok.mp h
  obtain ⟨h0, hlt⟩ := assertMsg_eq_ok.mp hrange
  obtain ⟨i, rfl⟩ := Int.eq_ofNat_of_zero_le h0
  rw [clear_eq (Int.ofNat_lt.mp hlt)] at h
  cases h
  exact ⟨i, Int.ofNat_lt.mp hlt, rfl, rfl⟩

/-- A search with the right count: all bits are set and nothing happens, or a
clear bit is taken. -/
theorem Counts.search {b : Bitmap} (h : b.Counts) :
    (b.Full ∧ b.findAndSet = (-1, b)) ∨
    ∃ i, ∃ hi : i < b.numBits, b.bit i = false ∧
      b.findAndSet = (↑i, b.take i (Nat.le_of_lt hi)) := by
  rcases b.findAndSet_cases with ⟨hrun, hnone⟩ | ⟨i, hi, _, hbit, hrun⟩
  · refine .inl ⟨?_, hrun⟩
    rcases hnone with hsize | hall
    · have hzero : (b.clearCount : Int) = 0 := h.symm.trans hsize
      exact b.clearCount_eq_zero.mp (Int.ofNat_eq_zero.mp hzero)
    · exact b.full_iff.mpr hall
  · exact .inr ⟨i, hi, hbit, hrun⟩

/-- Taking a bit makes a right count wrong by one. -/
theorem Counts.take_size {b : Bitmap} (h : b.Counts) {i : Nat}
    (hi : i < b.numBits) (hbit : b.bit i = false) :
    (b.take i (Nat.le_of_lt hi)).numClear =
      (b.take i (Nat.le_of_lt hi)).clearCount - 1 := by
  have hcount := clearCount_setBit hi
  have hsame : (b.take i (Nat.le_of_lt hi)).clearCount =
      (b.setBit i).clearCount :=
    clearCount_congr rfl fun _ => rfl
  rw [numClear, Bitmap.take_size _ hbit, hsame,
    show b.size = b.clearCount from h]
  simp only [hbit, Bool.false_eq_true, if_false] at hcount
  omega

/-- With the right count, a search keeps its promise. -/
theorem Counts.searches {b : Bitmap} (h : b.Counts) :
    b.Searches b.findAndSet.1 b.findAndSet.2 := by
  rcases h.search with ⟨hfull, hrun⟩ | ⟨i, hi, hbit, hrun⟩
  · rw [hrun]
    exact ⟨iff_of_true rfl hfull, fun _ => rfl, fun hne => absurd rfl hne⟩
  · have hne : ((i : Nat) : Int) ≠ -1 := by omega
    rw [hrun]
    refine ⟨iff_of_false hne fun hfull => ?_, fun heq => absurd heq hne,
      fun _ => ?_⟩
    · rw [b.full_iff.mp hfull i hi] at hbit
      exact Bool.noConfusion hbit
    · exact ⟨i, rfl, by rw [test_eq hi, hbit], rfl, bit_take hi _⟩

theorem Counts.findAndSet_iff {b : Bitmap} (h : b.Counts) :
    b.findAndSet.2.Counts ↔ b.Full := by
  rcases h.search with ⟨hfull, hrun⟩ | ⟨i, hi, hbit, hrun⟩
  · rw [hrun]
    exact iff_of_true h hfull
  · rw [hrun]
    refine iff_of_false (fun hcounts => ?_) fun hfull => ?_
    · have hright : (b.take i (Nat.le_of_lt hi)).numClear =
          (b.take i (Nat.le_of_lt hi)).clearCount :=
        hcounts
      have hwrong := h.take_size hi hbit
      omega
    · rw [b.full_iff.mp hfull i hi] at hbit
      exact Bool.noConfusion hbit

/-- One call on a bitmap whose count is right: only a search that finds a bit
breaks it. -/
theorem Call.lawful_iff {b : Bitmap} (h : b.Counts) (call : Call) :
    call.Lawful b ↔ call.FindsNothing b := by
  cases call with
  | mark which =>
      refine iff_of_true ⟨fun b' hrun => ?_, nofun⟩ nofun
      obtain ⟨i, hi, -, rfl⟩ := mark_ok hrun
      exact setBit_size hi h
  | clear which =>
      refine iff_of_true ⟨fun b' hrun => ?_, nofun⟩ nofun
      obtain ⟨i, hi, -, rfl⟩ := clear_ok hrun
      exact clearBit_size hi h
  | «import» buf =>
      refine iff_of_true ⟨fun b' hrun => ?_, nofun⟩ nofun
      rw [Call.run] at hrun
      split at hrun
      · cases hrun
        rfl
      · cases hrun
  | findAndSet =>
      constructor
      · rintro ⟨hcounts, -⟩ -
        exact h.findAndSet_iff.mp (hcounts _ rfl)
      · intro hfull
        refine ⟨fun b' hrun => ?_, fun _ => h.searches⟩
        cases hrun
        exact h.findAndSet_iff.mpr (hfull rfl)

/-! ## Runs -/

/-- Along a run on a fresh bitmap the count stays right and every search answers
as it should if and only if no search finds a clear bit. -/
theorem counts_law_iff (n : Nat) (calls : List Call) :
    Trace.Along (fun b call b' => Call.run b call = .ok b') Call.Lawful
      (Bitmap.new n) calls ↔
      Trace.Along (fun b call b' => Call.run b call = .ok b') Call.FindsNothing
          (Bitmap.new n) calls := by
  have hnew : (Bitmap.new n).Counts := by
    rw [Counts, numClear, new_size, clearCount_new]
  exact Trace.along_iff (fun b call _ h => Call.lawful_iff h call)
    (fun b b' call _ _ hlaw hrun => hlaw.1 b' hrun) hnew

/-- One search of a fresh bitmap of 32 bits: 31 bits are clear, and `NumClear`
says 30. -/
theorem counts_law_fails : ¬ ∀ (n : Nat) (calls : List Call), 0 < n →
    Trace.Along (fun b call b' => Call.run b call = .ok b') Call.Lawful
      (Bitmap.new n) calls := by
  intro h
  have hnew : (Bitmap.new 32).Counts := by
    rw [Counts, numClear, new_size, clearCount_new]
  have hlaw := (h 32 [.findAndSet] (by decide)).1
  have hfull := hnew.findAndSet_iff.mp (hlaw.1 _ rfl)
  have hbit := (full_iff _).mp hfull 0 (by rw [new_numBits]; decide)
  rw [new_bit] at hbit
  exact Bool.noConfusion hbit

/-! ## Reloading -/

/-- The load has made `b` a copy of `a` with the right count. -/
structure Reloads (a b : Bitmap) : Prop where
  test : ∀ which : Int, b.test which = a.test which
  count : b.Counts

/-- `a` is written to the file, and then read by a new object and by `b`. -/
def ReloadsBoth (a b : Bitmap) (file : OpenFile) (d : Disk) : Prop :=
  ∃ d' fresh fetched, PersistentBitmap.writeBack a file d = .ok () d' ∧
    PersistentBitmap.ofFile file a.numBits d' = .ok fresh ∧
    PersistentBitmap.fetchFrom b file d' = .ok fetched ∧ a.Reloads fresh ∧
      a.Reloads fetched

theorem test_congr {a b : Bitmap}
    (hn : b.numBits = a.numBits) (hbit : ∀ j, b.bit j = a.bit j) (which : Int) :
    b.test which = a.test which := by
  rw [test, test, hn, hbit]

theorem load_bit {a b : Bitmap} (hn : b.numBits = a.numBits) (j : Nat) :
    (b.load a.map).bit j = a.bit j := by
  have hmap : (b.load a.map).map = a.map := by
    rw [load_map (by rw [hn, a.length_map]), hn, ← a.length_map,
      List.take_length]
  rw [bit, bit, hmap]

/-- A load makes the count right exactly when the field was the number of clear
bits that the file holds. -/
theorem load_counts_iff {a b : Bitmap} (hn : b.numBits = a.numBits) :
    (b.load a.map).Counts ↔ b.size = a.clearCount := by
  have hcount : (b.load a.map).clearCount = a.clearCount :=
    clearCount_congr hn (load_bit hn)
  rw [Counts, numClear, load_size, hcount]

/-- A map of `n` bits has `n` clear bits only if it is empty. -/
theorem clearCount_eq_numBits (a : Bitmap) :
    a.clearCount = a.numBits ↔ ∀ i < a.numBits, a.test i = .ok false := by
  have hlen :=
    List.countP_eq_length (p := fun i => !a.bit i) (l := List.range a.numBits)
  rw [List.length_range] at hlen
  rw [clearCount, hlen]
  constructor
  · intro hall i hi
    have hbit := hall i (List.mem_range.mpr hi)
    rw [test_eq hi, show a.bit i = false by simpa using hbit]
  · intro hall i hi
    have hi := List.mem_range.mp hi
    have htest := hall i hi
    rw [test_eq hi, Except.ok.injEq] at htest
    rw [htest]
    rfl

theorem mapSize_eq {n : Nat} (h : n % BitsInWord = 0) {b : Bitmap}
    (hn : b.numBits = n) :
    PersistentBitmap.mapSize b = n / BitsInByte := by
  rw [PersistentBitmap.mapSize, numWords, hn, h]
  simp only [BitsInWord, BitsInByte, Nat.lt_irrefl, if_false] at *
  omega

/-- After `WriteBack` both loads give back every bit.  The counts are right in
both objects if and only if the map was empty and the existing object counted
`n`. -/
theorem reload_iff {t : HdrTree} (h : t.Backed) {file : OpenFile}
    (hfile : file.hdr = t.header) {n : Nat} (h32 : n % BitsInWord = 0)
    (hlength : file.length = (n / BitsInByte : Nat)) {a b : Bitmap}
    (ha : a.numBits = n) (hb : b.numBits = n) (d : Disk) :
    (∃ d' fresh fetched, PersistentBitmap.writeBack a file d = .ok () d' ∧
      PersistentBitmap.ofFile file n d' = .ok fresh ∧
      PersistentBitmap.fetchFrom b file d' = .ok fetched ∧
      ∀ which : Int, fresh.test which = a.test which ∧
      fetched.test which = a.test which) ∧
    (a.ReloadsBoth b file d ↔ (∀ i < n, a.test i = .ok false) ∧
        b.numClear = n) := by
  subst ha
  have hbytes : t.bytes = a.numBits / BitsInByte := by
    rw [OpenFile.length, hfile] at hlength
    exact Int.ofNat_inj.mp hlength
  have hsize : ∀ {c : Bitmap}, c.numBits = a.numBits →
      t.bytes = PersistentBitmap.mapSize c :=
    fun hc => hbytes.trans (mapSize_eq h32 hc).symm
  obtain ⟨d', hwrite, -, hwords⟩ :=
    HdrTree.writeBack_bitmap h hfile (hsize rfl) d
  have hnew := new_numBits a.numBits
  have hfresh := HdrTree.fetchFrom_bitmap h hfile (hsize hnew) d'
  have hfetched := HdrTree.fetchFrom_bitmap h hfile (hsize hb) d'
  rw [hwords] at hfresh hfetched
  have htest : ∀ {c : Bitmap}, c.numBits = a.numBits →
      ∀ which : Int, (c.load a.map).test which = a.test which :=
    fun hc => test_congr hc (load_bit hc)
  refine ⟨⟨d', _, _, hwrite, hfresh, hfetched,
    fun which => ⟨htest hnew which, htest hb which⟩⟩, ?_⟩
  rw [← clearCount_eq_numBits]
  constructor
  · rintro ⟨d₁, fresh, fetched, hwrite', hfresh', hfetched', hr, hr'⟩
    rw [hwrite] at hwrite'
    cases hwrite'
    rw [PersistentBitmap.ofFile, hfresh] at hfresh'
    rw [hfetched] at hfetched'
    cases hfresh'
    cases hfetched'
    have hcount := (load_counts_iff hnew).mp hr.count
    have hcount' := (load_counts_iff hb).mp hr'.count
    rw [new_size] at hcount
    exact ⟨(Int.ofNat_inj.mp hcount).symm, hcount'.trans hcount.symm⟩
  · rintro ⟨hempty, hclear⟩
    refine ⟨d', _, _, hwrite, hfresh, hfetched, ⟨htest hnew, ?_⟩,
      ⟨htest hb, ?_⟩⟩
    · rw [load_counts_iff hnew, new_size, hempty]
    · rw [load_counts_iff hb, hempty]
      exact hclear

/-- An empty map of 32 bits and a new object. -/
theorem reload_iff_empty :
    (Bitmap.new 32).ReloadsBoth (Bitmap.new 32) ⟨HdrTree.word.header, 0⟩
      fun _ => Sector.ofBytes [] := by
  refine (reload_iff HdrTree.word_backed
    (show (OpenFile.mk HdrTree.word.header 0).hdr =
      HdrTree.word.header from rfl)
    (show 32 % BitsInWord = 0 by decide) rfl (new_numBits _) (new_numBits _)
      _).2.mpr ⟨fun i hi => ?_, new_size _⟩
  rw [test_eq (by rw [new_numBits]; exact hi), new_bit]

/-- One bit of 32 is set and written: the new object counts 32 clear bits. -/
theorem reload_fails :
    ¬ ((Bitmap.new 32).setBit 0).ReloadsBoth (Bitmap.new 32)
      ⟨HdrTree.word.header, 0⟩ fun _ => Sector.ofBytes [] := by
  rintro ⟨d', fresh, fetched, hwrite, hfresh, -, hr, -⟩
  have hn : ((Bitmap.new 32).setBit 0).numBits = 32 := by
    rw [setBit_numBits, new_numBits]
  have hsize : ∀ {c : Bitmap}, c.numBits = 32 →
      HdrTree.word.bytes = PersistentBitmap.mapSize c :=
    fun hc => (mapSize_eq (by decide) hc).symm
  obtain ⟨d₁, hwrite', -, hwords⟩ := HdrTree.writeBack_bitmap
    HdrTree.word_backed
    (show (OpenFile.mk HdrTree.word.header 0).hdr = HdrTree.word.header
      from rfl) (hsize hn) fun _ => Sector.ofBytes []
  rw [hwrite] at hwrite'
  cases hwrite'
  rw [PersistentBitmap.ofFile, hn,
    HdrTree.fetchFrom_bitmap HdrTree.word_backed rfl
    (hsize (new_numBits 32)), hwords] at hfresh
  cases hfresh
  have hcount := (load_counts_iff (by rw [hn, new_numBits])).mp hr.count
  have hset := clearCount_setBit (b := Bitmap.new 32) (i := 0)
    (by rw [new_numBits]; decide)
  rw [new_bit, clearCount_new] at hset
  rw [new_size] at hcount
  simp only [Bool.false_eq_true, if_false] at hset
  omega

end Bitmap

end EroikoBlue.MP4
